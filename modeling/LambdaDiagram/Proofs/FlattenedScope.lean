import LambdaDiagram.Proofs.Flattening
import LambdaDiagram.Proofs.Reach
import LambdaDiagram.Proofs.ScopeChain

/-!
Flattening a graph whose scopes are in order. Parents may disagree with what lies in what only for
groups that are hosted or dissolved; as long as that is so and no group lies in itself, a group that
is dissolved is the parent of just the sub-groups that are handed over, and whatever group a name is
looked up in, it refers to the same after flattening.
-/

namespace LambdaDiagram

open Relation (TransGen)

variable {S : Type} [Scalar S]

namespace Graph

/-- A sub-group has the group that it lies in as its parent. -/
def ParentsAgree (g : Graph S) : Prop :=
  ∀ x y, y ∈ (g.group x).subgroups → (g.group y).parent = some x

/-- `g₀.Thinned g`: from `g₀` on sub-groups have been dissolved, and all groups keep their inputs and
what names refer to in them. -/
structure Thinned (g₀ g : Graph S) : Prop where
  nodes : g₀.SameNodes g
  inputs : ∀ x, (g.group x).inputs = (g₀.group x).inputs
  /-- What is a sub-group lay in that group before, at whatever depth. -/
  inside : ∀ x y, y ∈ (g.group x).subgroups → TransGen g₀.Contains x y
  older : g.ParentsOlder
  agree : g.ParentsAgree
  lookup : ∀ x c, g.lookup x c = g₀.lookup x c

/-- A group keeps its parent unless that lay in `id`. -/
def Stays (g₀ : Graph S) (id : GroupId) (g g' : Graph S) : Prop :=
  ∀ y s, (g.group y).parent = some s → ¬ TransGen g₀.Contains id s → (g'.group y).parent = some s

/-- Sub-groups are being absorbed into a group: those that are kept and those still to come have it
as their parent, and lay in it before. -/
structure Absorbing (g₀ : Graph S) (id : GroupId) (state : Graph S × List GroupId)
    (rest : List GroupId) : Prop where
  thinned : g₀.Thinned state.1
  parent : ∀ y ∈ state.2 ++ rest, (state.1.group y).parent = some id
  inside : ∀ y ∈ state.2 ++ rest, TransGen g₀.Contains id y

/-- `g.HandsOver sub id g'`: the sub-groups of `sub` have been handed over to `id`, and all else that
names depend on is as before. -/
structure HandsOver (g : Graph S) (sub id : GroupId) (g' : Graph S) : Prop where
  nodes : g.SameNodes g'
  inputs : ∀ x, (g'.group x).inputs = (g.group x).inputs
  handed : ∀ y ∈ (g.group sub).subgroups, (g'.group y).parent = some id
  parent : ∀ y, y ∉ (g.group sub).subgroups → (g'.group y).parent = (g.group y).parent
  subgroups : ∀ x y, y ∈ (g'.group x).subgroups → x ≠ sub ∧ y ∈ (g.group x).subgroups

variable {g₀ g g' g'' : Graph S} {id sub x y : GroupId} {depth : Nat} {kept rest : List GroupId}

theorem Acyclic.mono (hg : g.Acyclic) (h : ∀ x y, g'.Contains x y → TransGen g.Contains x y) :
    g'.Acyclic :=
  fun x hx => hg x (TransGen.closed h x x hx)

theorem Stays.refl (g₀ : Graph S) (id : GroupId) (g : Graph S) : g₀.Stays id g g :=
  fun _ _ hy _ => hy

theorem Stays.trans (h : g₀.Stays id g g') (h' : g₀.Stays id g' g'') : g₀.Stays id g g'' :=
  fun y s hy hs => h' y s (h y s hy hs) hs

/-- What stays around a group stays around a group in which that lies. -/
theorem Stays.around (h : g₀.Stays sub g g') (hsub : TransGen g₀.Contains id sub) :
    g₀.Stays id g g' :=
  fun y s hy hs => h y s hy fun hin => hs (hsub.trans hin)

/-! ## Dissolving one group -/

/-- A dissolved group hands its sub-groups over to another. -/
theorem group_dissolve (hsub : sub.index < g.groups.size) (hself : sub ∉ (g.group sub).subgroups)
    (id : GroupId) (hx : x.index < g.groups.size) :
    ((g.dissolve sub id).1.group x).inputs = (g.group x).inputs ∧
      ((g.dissolve sub id).1.group x).parent =
        (if x ∈ (g.group sub).subgroups then some id else (g.group x).parent) ∧
      ((g.dissolve sub id).1.group x).subgroups =
        if x = sub then [] else (g.group x).subgroups := by
  have hlast : ∃ merges, (g.dissolve sub id).1.content x =
      { (g.detach sub id).content x with merges := merges } := by
    rw [dissolve_eq]
    dsimp only
    unfold content
    rw [group_modifyGroup]
    split
    · exact ⟨_, rfl⟩
    · exact ⟨_, rfl⟩
  obtain ⟨merges, hlast⟩ := hlast
  rw [content_detach hsub id hself hx] at hlast
  have hself' : sub ∉ (g.content sub).subgroups := hself
  generalize (g.dissolve sub id).1 = g' at hlast ⊢
  show (g'.content x).inputs = (g.content x).inputs ∧
    (g'.content x).parent =
      (if x ∈ (g.content sub).subgroups then some id else (g.content x).parent) ∧
    (g'.content x).subgroups = if x = sub then [] else (g.content x).subgroups
  rw [hlast]
  by_cases hxs : x = sub
  · subst hxs
    rw [if_pos rfl, if_pos rfl, if_neg hself']
    exact ⟨rfl, rfl, rfl⟩
  · rw [if_neg hxs, if_neg hxs]
    split <;> exact ⟨rfl, rfl, rfl⟩

theorem dissolve_handsOver (hagree : g.ParentsAgree) (hlt : sub.index < g.groups.size)
    (hself : sub ∉ (g.group sub).subgroups) (id : GroupId) :
    g.HandsOver sub id (g.dissolve sub id).1 := by
  have hnodes : g.SameNodes (g.dissolve sub id).1 := by
    rw [dissolve_eq]
    exact (g.detach_sameNodes sub id).trans (modifyGroup_sameNodes ..)
  -- a group that is not there has no inputs, parent or sub-groups before or after
  have hout : ∀ x : GroupId, ¬ x.index < g.groups.size →
      (g.dissolve sub id).1.group x = g.group x := by
    intro x hx
    rw [group_of_size_le (Nat.le_of_not_lt hx), group_of_size_le]
    rw [hnodes.groups_size]
    exact Nat.le_of_not_lt hx
  constructor
  case nodes => exact hnodes
  case inputs =>
    intro x
    by_cases hx : x.index < g.groups.size
    · exact (group_dissolve hlt hself id hx).1
    · rw [hout x hx]
  case handed =>
    intro y hy
    rw [(group_dissolve hlt hself id (lt_of_parent (hagree sub y hy))).2.1, if_pos hy]
  case parent =>
    intro y hy
    by_cases hy' : y.index < g.groups.size
    · rw [(group_dissolve hlt hself id hy').2.1, if_neg hy]
    · rw [hout y hy']
  case subgroups =>
    intro x y hy
    by_cases hx : x.index < g.groups.size
    · rw [(group_dissolve hlt hself id hx).2.2] at hy
      split at hy
      · cases hy
      · exact ⟨‹_›, hy⟩
    · rw [hout x hx] at hy
      exact ⟨fun he => hx (he ▸ hlt), hy⟩

namespace HandsOver

variable (h : g.HandsOver sub id g') (hagree : g.ParentsAgree)

include h hagree

theorem keep (hy : (g.group y).parent = some x) (hx : x ≠ sub) : (g'.group y).parent = some x := by
  refine (h.parent y fun hm => hx ?_).trans hy
  exact Option.some.inj (hy.symm.trans (hagree sub y hm))

theorem agree : g'.ParentsAgree := by
  intro x y hy
  obtain ⟨hne, hy⟩ := h.subgroups x y hy
  exact h.keep hagree (hagree x y hy) hne

variable (holder : g.ParentsOlder) (hparent : (g.group sub).parent = some id)

include holder hparent

theorem older : g'.ParentsOlder := by
  intro y p hp
  by_cases hy : y ∈ (g.group sub).subgroups
  · obtain rfl := Option.some.inj ((h.handed y hy).symm.trans hp)
    exact Nat.lt_trans (holder sub _ hparent) (holder y sub (hagree sub y hy))
  · exact holder y p ((h.parent y hy).symm.trans hp)

/-- Names refer to the same when the group that is skipped has no inputs. -/
theorem lookup_eq (hempty : (g.group sub).inputs = []) (x : GroupId) (c : Char) :
    g'.lookup x c = g.lookup x c := by
  apply holder.lookup_eq_of_skip (h.older hagree holder hparent) fun x c =>
    binder_congr (h.inputs x) h.nodes.label
  intro y
  by_cases hy : y ∈ (g.group sub).subgroups
  · exact .inr ⟨sub, id, hagree sub y hy, hempty, hparent, h.handed y hy⟩
  · exact .inl (h.parent y hy)

end HandsOver

/-- When a sub-group without inputs is dissolved into its parent, names refer to the same. -/
theorem Thinned.dissolve (hg : g₀.Acyclic) (h : g₀.Thinned g)
    (hparent : (g.group sub).parent = some id) (hempty : (g.group sub).inputs = []) :
    g₀.Thinned (g.dissolve sub id).1 ∧
      (∀ y ∈ (g.dissolve sub id).2, ((g.dissolve sub id).1.group y).parent = some id) ∧
      ∀ y s, (g.group y).parent = some s → s ≠ sub →
        ((g.dissolve sub id).1.group y).parent = some s := by
  have hself : sub ∉ (g.group sub).subgroups := fun hm => hg sub (h.inside sub sub hm)
  have hover := dissolve_handsOver h.agree (lt_of_parent hparent) hself id
  refine ⟨⟨?_, ?_, ?_, ?_, ?_, ?_⟩, ?_, fun y s hy hs => hover.keep h.agree hy hs⟩
  · exact h.nodes.trans hover.nodes
  · exact fun x => (hover.inputs x).trans (h.inputs x)
  · exact fun x y hy => h.inside x y (hover.subgroups x y hy).2
  · exact hover.older h.agree h.older hparent
  · exact hover.agree h.agree
  · exact fun x c => (hover.lookup_eq h.agree h.older hparent hempty x c).trans (h.lookup x c)
  · have hhanded := hover.handed
    rw [dissolve_eq] at hhanded ⊢
    exact hhanded

/-! ## Flattening a group -/

/-- Sub-groups that have been absorbed are listed anew. -/
theorem Thinned.list (h : g₀.Thinned g) (hparent : ∀ y ∈ kept, (g.group y).parent = some id)
    (hinside : ∀ y ∈ kept, TransGen g₀.Contains id y) :
    g₀.Thinned (g.modifyGroup id fun group => { group with subgroups := kept }) := by
  have hnodes := modifyGroup_sameNodes g id fun group => { group with subgroups := kept }
  have hinputs : ∀ x, ((g.modifyGroup id fun group =>
      { group with subgroups := kept }).group x).inputs = (g.group x).inputs :=
    modifyGroup_keeps Group.inputs fun _ => rfl
  have hparents : ∀ x, ((g.modifyGroup id fun group =>
      { group with subgroups := kept }).group x).parent = (g.group x).parent :=
    modifyGroup_keeps Group.parent fun _ => rfl
  have hlisted : ∀ x y, y ∈ ((g.modifyGroup id fun group =>
      { group with subgroups := kept }).group x).subgroups →
      (x = id ∧ y ∈ kept) ∨ y ∈ (g.group x).subgroups := by
    intro x y hy
    rw [group_modifyGroup] at hy
    split at hy
    · rename_i hx
      exact .inl ⟨hx.1.symm, hy⟩
    · exact .inr hy
  refine ⟨h.nodes.trans hnodes, fun x => (hinputs x).trans (h.inputs x), ?_, ?_, ?_, ?_⟩
  · intro x y hy
    rcases hlisted x y hy with ⟨rfl, hk⟩ | hk
    · exact hinside y hk
    · exact h.inside x y hk
  · intro x p hp
    exact h.older x p ((hparents x).symm.trans hp)
  · intro x y hy
    rw [hparents]
    rcases hlisted x y hy with ⟨rfl, hk⟩ | hk
    · exact hparent y hk
    · exact h.agree x y hk
  · intro x c
    refine (h.older.lookup_eq_of_skip ?_ (fun x c => binder_congr (hinputs x) hnodes.label)
      (fun x => .inl (hparents x)) x c).trans (h.lookup x c)
    intro x p hp
    exact h.older x p ((hparents x).symm.trans hp)

section

variable (hg : g₀.Acyclic)
  (hflat : ∀ {g : Graph S} (x : GroupId), g₀.Thinned g →
    g₀.Thinned (flattenTo depth g x) ∧ g₀.Stays x g (flattenTo depth g x))

include hg hflat

/-- Absorbing the next sub-group. -/
theorem Absorbing.absorb {state : Graph S × List GroupId}
    (h : g₀.Absorbing id state (sub :: rest)) :
    g₀.Absorbing id (Graph.absorb depth id state sub) rest ∧
      g₀.Stays id state.1 (Graph.absorb depth id state sub).1 := by
  have hmem : sub ∈ state.2 ++ sub :: rest := List.mem_append_right _ List.mem_cons_self
  have hrest : ∀ y ∈ rest, y ∈ state.2 ++ sub :: rest := fun y hy =>
    List.mem_append_right _ (List.mem_cons_of_mem sub hy)
  have hin := h.inside sub hmem
  have hout : ¬ TransGen g₀.Contains sub id := fun hc => hg id (hin.trans hc)
  obtain ⟨hthin, hstays⟩ := hflat sub h.thinned
  have hparent : ∀ y ∈ state.2 ++ sub :: rest,
      ((flattenTo depth state.1 sub).group y).parent = some id :=
    fun y hy => hstays y id (h.parent y hy) hout
  unfold Graph.absorb
  dsimp only
  split
  · rename_i hempty
    obtain ⟨hdone, horphans, hkeep⟩ :=
      hthin.dissolve hg (hparent sub hmem) (List.isEmpty_iff.1 hempty)
    have hne : id ≠ sub := by
      rintro rfl
      exact hg id hin
    have horphan : ∀ y ∈ ((flattenTo depth state.1 sub).dissolve sub id).2,
        TransGen g₀.Contains id y := by
      intro y hy
      rw [dissolve_eq] at hy
      exact hin.trans (hthin.inside sub y hy)
    refine ⟨⟨hdone, ?_, ?_⟩, (hstays.around hin).trans ?_⟩
    · intro y hy
      rcases List.mem_append.1 hy with hy | hy
      · rcases List.mem_append.1 hy with hy | hy
        · exact hkeep y id (hparent y (List.mem_append_left _ hy)) hne
        · exact horphans y hy
      · exact hkeep y id (hparent y (hrest y hy)) hne
    · intro y hy
      rcases List.mem_append.1 hy with hy | hy
      · rcases List.mem_append.1 hy with hy | hy
        · exact h.inside y (List.mem_append_left _ hy)
        · exact horphan y hy
      · exact h.inside y (hrest y hy)
    · intro y s hy hs
      apply hkeep y s hy
      rintro rfl
      exact hs hin
  · refine ⟨⟨hthin, ?_, ?_⟩, hstays.around hin⟩
    · intro y hy
      rw [List.append_assoc] at hy
      exact hparent y hy
    · intro y hy
      rw [List.append_assoc] at hy
      exact h.inside y hy

theorem Absorbing.foldl {state : Graph S × List GroupId} (h : g₀.Absorbing id state rest) :
    g₀.Absorbing id (rest.foldl (Graph.absorb depth id) state) [] ∧
      g₀.Stays id state.1 (rest.foldl (Graph.absorb depth id) state).1 := by
  induction rest generalizing state with
  | nil => exact ⟨h, .refl _ _ _⟩
  | cons sub rest ih =>
    obtain ⟨hnext, hstays⟩ := h.absorb hg hflat
    obtain ⟨hdone, hstays'⟩ := ih hnext
    exact ⟨hdone, hstays.trans hstays'⟩

theorem Thinned.prune (h : g₀.Thinned g)
    (hinside : ∀ y ∈ (g.group id).subgroups, TransGen g₀.Contains id y) :
    g₀.Thinned (prune depth g id) ∧ g₀.Stays id g (prune depth g id) := by
  have hstart : g₀.Absorbing id (g, []) (g.group id).subgroups :=
    ⟨h, h.agree id, hinside⟩
  obtain ⟨hdone, hstays⟩ := hstart.foldl hg hflat
  unfold Graph.prune
  dsimp only
  refine ⟨hdone.thinned.list ?_ ?_, hstays.trans ?_⟩
  · intro y hy
    exact hdone.parent y (List.mem_append_left _ hy)
  · intro y hy
    exact hdone.inside y (List.mem_append_left _ hy)
  · intro y s hy _
    rw [group_modifyGroup]
    split <;> exact hy

end

/-- However far a group is flattened, names refer to the same. -/
theorem Thinned.flattenTo (hg : g₀.Acyclic) (h : g₀.Thinned g) (depth : Nat) (id : GroupId) :
    g₀.Thinned (flattenTo depth g id) ∧ g₀.Stays id g (flattenTo depth g id) := by
  induction depth generalizing g id with
  | zero => exact ⟨h, .refl _ _ _⟩
  | succ depth ih =>
    have hhosted : ∀ y ∈ (g.group id).inputs.filterMap fun i => (g.input i).hosted,
        TransGen g₀.Contains id y := by
      intro y hy
      obtain ⟨i, hi, hiy⟩ := List.mem_filterMap.1 hy
      rw [h.inputs] at hi
      refine .single (.inr ⟨i, hi, ?_⟩)
      exact (congrArg Label.hosted (congrFun h.nodes.label i)).symm.trans hiy
    have hbefore : ∀ ys : List GroupId, (∀ y ∈ ys, TransGen g₀.Contains id y) →
        g₀.Thinned (ys.foldl (Graph.flattenTo depth) g) ∧
          g₀.Stays id g (ys.foldl (Graph.flattenTo depth) g) := by
      intro ys hys
      have hstart : g₀.Thinned g ∧ g₀.Stays id g g := ⟨h, .refl _ _ _⟩
      refine List.foldlRecOn ys (Graph.flattenTo depth)
        (motive := fun g' => g₀.Thinned g' ∧ g₀.Stays id g g') hstart ?_
      intro g' hg' y hy
      obtain ⟨hthin, hstays⟩ := ih hg'.1 y
      exact ⟨hthin, hg'.2.trans (hstays.around (hys y hy))⟩
    obtain ⟨hthin, hstays⟩ := hbefore _ hhosted
    obtain ⟨hdone, hstays'⟩ := hthin.prune hg (fun x h => ih h x) (hthin.inside id)
    rw [flattenTo_succ]
    exact ⟨hdone, hstays.trans hstays'⟩

/-! ## Flattening a graph -/

/-- Scopes are in order: parents are older than their children, they agree with what is a sub-group
of what, and no group lies in itself. -/
structure WellScoped (g : Graph S) : Prop where
  older : g.ParentsOlder
  agree : g.ParentsAgree
  acyclic : g.Acyclic

theorem WellScoped.thinned (h : g.WellScoped) : g.Thinned g.flatten := by
  have hstart : g.Thinned g :=
    ⟨.refl g, fun _ => rfl, fun x y hy => .single (.inl hy), h.older, h.agree, fun _ _ => rfl⟩
  exact (hstart.flattenTo h.acyclic g.groups.size root).1

/-- Names refer to the same before and after flattening. -/
theorem WellScoped.lookup_flatten (h : g.WellScoped) (x : GroupId) (c : Char) :
    g.flatten.lookup x c = g.lookup x c :=
  h.thinned.lookup x c

/-- Flattening leaves scopes in order. -/
theorem WellScoped.flatten (h : g.WellScoped) : g.flatten.WellScoped := by
  refine ⟨h.thinned.older, h.thinned.agree, h.acyclic.mono ?_⟩
  rintro x y (hy | ⟨i, hi, hiy⟩)
  · exact h.thinned.inside x y hy
  · rw [h.thinned.inputs] at hi
    refine .single (.inr ⟨i, hi, ?_⟩)
    exact (congrArg Label.hosted (congrFun h.thinned.nodes.label i)).symm.trans hiy

end Graph

end LambdaDiagram
