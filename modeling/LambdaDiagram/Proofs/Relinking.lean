import LambdaDiagram.Proofs.Flattening

/-!
What changes links only. Linking two nodes, undoing a link and flattening a graph change what nodes
say of each other, but none of their numbers, so whatever does not depend on links stays true.
-/

namespace LambdaDiagram

variable {S : Type} [Scalar S]

/-- The numbers of a group: its center, its radii, and the center and the radius of its output. -/
def Group.place (group : Group S) : Vec S × S × S × Vec S × S :=
  (group.position, group.radius, group.outerRadius, group.output.position, group.output.radius)

/-- The numbers of an input. -/
def Input.place (input : Input S) : S × S × Vec S := (input.angle, input.radius, input.position)

/-- The numbers of a merge. -/
def Merge.place (merge : Merge S) : Vec S × S := (merge.position, merge.radius)

namespace Graph

/-- What dissolving a group and listing sub-groups anew keep is kept by flattening. -/
theorem flattenTo_keeps {P : Graph S → Prop}
    (hdissolve : ∀ {g : Graph S} (id home : GroupId), P g → P (g.dissolve id home).1)
    (hlist : ∀ {g : Graph S} (id : GroupId) (kept : List GroupId), P g →
      P (g.modifyGroup id fun group => { group with subgroups := kept }))
    (depth : Nat) (id : GroupId) {g : Graph S} (hg : P g) : P (flattenTo depth g id) := by
  induction depth generalizing g id with
  | zero => exact hg
  | succ depth ih =>
    have habsorb : ∀ (state : Graph S × List GroupId) (sub : GroupId), P state.1 →
        P (absorb depth id state sub).1 := by
      intro state sub hstate
      unfold absorb
      dsimp only
      split
      · exact hdissolve sub id (ih sub hstate)
      · exact ih sub hstate
    have hprune : ∀ g : Graph S, P g → P (prune depth g id) := by
      intro g hg
      have hsubs : P ((g.group id).subgroups.foldl (absorb depth id) (g, [])).1 :=
        List.foldlRecOn (motive := fun state => P state.1) (g.group id).subgroups _ hg
          fun state hstate sub _ => habsorb state sub hstate
      exact hlist id _ hsubs
    rw [flattenTo_succ]
    exact hprune _ (List.foldlRecOn _ _ hg fun _ hg' x _ => ih x hg')

/-- A property of graphs that stays as long as nodes keep their numbers. -/
structure IgnoresLinks (P : Graph S → Prop) : Prop where
  modifyGroup : ∀ {g : Graph S} (x : GroupId) {f : Group S → Group S},
    (∀ group, (f group).place = group.place) → P g → P (g.modifyGroup x f)
  modifyInput : ∀ {g : Graph S} (i : InputId) {f : Input S → Input S},
    (∀ input, (f input).place = input.place) → P g → P (g.modifyInput i f)
  modifyMerge : ∀ {g : Graph S} (m : MergeId) {f : Merge S → Merge S},
    (∀ merge, (f merge).place = merge.place) → P g → P (g.modifyMerge m f)

namespace IgnoresLinks

variable {P : Graph S → Prop} (h : IgnoresLinks P) {g : Graph S}

include h

omit [Scalar S] in
theorem connect? (value : Option Source) (sink : Sink) (hg : P g) : P (g.connect? value sink) := by
  rcases value with _ | i | m | x
  · exact hg
  · exact h.modifyInput i (fun _ => rfl) hg
  · exact h.modifyMerge m (fun _ => rfl) hg
  · exact h.modifyGroup x (fun _ => rfl) hg

omit [Scalar S] in
theorem redirect (source : Source) (old : Sink) (new : Option Sink) (hg : P g) :
    P (g.redirect source old new) := by
  cases source with
  | input i =>
    apply h.modifyInput i (fun input => ?_) hg
    cases new <;> rfl
  | merge m =>
    apply h.modifyMerge m (fun merge => ?_) hg
    split <;> rfl
  | output x =>
    apply h.modifyGroup x (fun group => ?_) hg
    unfold Group.place
    dsimp only
    split <;> rfl

omit [Scalar S] in
theorem reroute (sink : Sink) (old : Source) (new : Option Source) (hg : P g) :
    P (g.reroute sink old new) := by
  cases sink with
  | merge m => exact h.modifyMerge m (fun _ => rfl) hg
  | output x =>
    apply h.modifyGroup x (fun group => ?_) hg
    unfold Group.place
    dsimp only
    split <;> rfl

theorem bypass (id : GroupId) (hg : P g) : P (g.bypass id) := by
  unfold Graph.bypass
  dsimp only
  cases (g.group id).output.producer with
  | none =>
    cases (g.group id).output.downstream with
    | none => exact hg
    | some sink => exact h.reroute sink _ _ hg
  | some source =>
    have hredirect := fun new => h.redirect source (.output id) new hg
    cases (g.group id).output.downstream with
    | none => exact hredirect none
    | some sink => exact h.reroute sink _ _ (hredirect (some sink))

theorem dissolve (id home : GroupId) (hg : P g) : P (g.dissolve id home).1 := by
  have hcleared : P ((g.bypass id).modifyGroup id cleared) :=
    h.modifyGroup id (fun _ => rfl) (h.bypass id hg)
  have hdetach : P (g.detach id home) :=
    List.foldlRecOn (motive := P) (g.content id).subgroups _ hcleared
      fun _ hg' orphan _ => h.modifyGroup orphan (fun _ => rfl) hg'
  rw [dissolve_eq]
  exact h.modifyGroup home (fun _ => rfl) hdetach

/-- Flattening changes links only. -/
theorem flatten (hg : P g) : P g.flatten :=
  flattenTo_keeps (fun id home hg => h.dissolve id home hg)
    (fun id _ hg => h.modifyGroup id (fun _ => rfl) hg) g.groups.size root hg

end IgnoresLinks

end Graph

end LambdaDiagram
