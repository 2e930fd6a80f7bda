import LambdaDiagram.Layout.Tick
import LambdaDiagram.Proofs.Reach

/-!
Laying out a graph puts its nodes elsewhere and does nothing else to it. Whatever numbers the layout
computes, no link and no other field of a node changes, and a node that is out of reach of the root
keeps even its place.
-/

namespace LambdaDiagram

variable {S : Type} [Scalar S]

/-! ## Places -/

/-- What a group has beside its place: its center, its radii and the point of its output. -/
def Group.unplaced (group : Group S) : Group S :=
  { group with
    position := .zero
    radius := 0.0
    outerRadius := 0.0
    output := { group.output with position := .zero } }

/-- What an input has beside its place: its angle, its radius and its center. -/
def Input.unplaced (input : Input S) : Input S :=
  { input with angle := 0.0, radius := 0.0, position := .zero }

/-- What a merge has beside its place. -/
def Merge.unplaced (merge : Merge S) : Merge S := { merge with position := .zero }

namespace Graph

/-- `g.Rearranged g'`: the nodes of `g'` are those of `g`, but for the places of nodes within
reach. -/
structure Rearranged (g g' : Graph S) : Prop where
  groups_size : g'.groups.size = g.groups.size
  inputs_size : g'.inputs.size = g.inputs.size
  merges_size : g'.merges.size = g.merges.size
  /-- A group keeps all but its place. -/
  group : ∀ x, (g'.group x).unplaced = (g.group x).unplaced
  /-- An input keeps all but its place. -/
  input : ∀ i, (g'.input i).unplaced = (g.input i).unplaced
  /-- A merge keeps all but its place. -/
  merge : ∀ m, (g'.merge m).unplaced = (g.merge m).unplaced
  /-- A group out of reach stays as it is. -/
  group_eq : ∀ x, ¬ g.Reached x → g'.group x = g.group x
  /-- An input out of reach stays as it is. -/
  input_eq : ∀ i, ¬ g.ReachedInput i → g'.input i = g.input i
  /-- A merge out of reach stays as it is. -/
  merge_eq : ∀ m, ¬ g.ReachedMerge m → g'.merge m = g.merge m

/-- Where things are drawn does not say what lies in what. -/
theorem Alike.nest_eq {g g' : Graph S} (h : g.Alike g') (x : GroupId) : g'.nest x = g.nest x := by
  have hanchors : ∀ (nestOf : GroupId → Nest) (ids : List InputId),
      g'.anchorsWith nestOf ids = g.anchorsWith nestOf ids := by
    intro nestOf ids
    induction ids with
    | nil => rfl
    | cons i ids ih => rw [Graph.anchorsWith, Graph.anchorsWith, h.hosted_eq, ih]
  have hdepth : ∀ d, g'.nestTo d = g.nestTo d := by
    intro d
    induction d with
    | zero => rfl
    | succ d ih =>
      funext x
      rw [Graph.nestTo, Graph.nestTo, h.inputs_eq, h.subgroups_eq, hanchors, ih]
  rw [nest, nest, h.groups_size, hdepth]

/-! ## One change -/

namespace Rearranged

variable {g₀ g : Graph S}

theorem refl (g : Graph S) : g.Rearranged g :=
  ⟨rfl, rfl, rfl, fun _ => rfl, fun _ => rfl, fun _ => rfl, fun _ _ => rfl, fun _ _ => rfl,
    fun _ _ => rfl⟩

theorem modifyGroup (h : g₀.Rearranged g) {x : GroupId} (hx : g₀.Reached x)
    {f : Group S → Group S} (hf : ∀ group, (f group).unplaced = group.unplaced) :
    g₀.Rearranged (g.modifyGroup x f) := by
  refine { h with
    groups_size := (Array.size_modify).trans h.groups_size
    group := fun y => ?_
    group_eq := fun y hy => ?_ }
  · rw [group_modifyGroup]
    split
    · rw [hf, h.group]
    · exact h.group y
  · have hne : x ≠ y := by
      rintro rfl
      exact hy hx
    rw [group_modifyGroup, if_neg fun hxy => hne hxy.1]
    exact h.group_eq y hy

theorem modifyInput (h : g₀.Rearranged g) {i : InputId} (hi : g₀.ReachedInput i)
    {f : Input S → Input S} (hf : ∀ input, (f input).unplaced = input.unplaced) :
    g₀.Rearranged (g.modifyInput i f) := by
  refine { h with
    inputs_size := (Array.size_modify).trans h.inputs_size
    input := fun j => ?_
    input_eq := fun j hj => ?_ }
  · rw [input_modifyInput]
    split
    · rw [hf, h.input]
    · exact h.input j
  · have hne : i ≠ j := by
      rintro rfl
      exact hj hi
    rw [input_modifyInput, if_neg fun hij => hne hij.1]
    exact h.input_eq j hj

theorem modifyMerge (h : g₀.Rearranged g) {m : MergeId} (hm : g₀.ReachedMerge m)
    {f : Merge S → Merge S} (hf : ∀ merge, (f merge).unplaced = merge.unplaced) :
    g₀.Rearranged (g.modifyMerge m f) := by
  refine { h with
    merges_size := (Array.size_modify).trans h.merges_size
    merge := fun n => ?_
    merge_eq := fun n hn => ?_ }
  · rw [merge_modifyMerge]
    split
    · rw [hf, h.merge]
    · exact h.merge n
  · have hne : m ≠ n := by
      rintro rfl
      exact hn hm
    rw [merge_modifyMerge, if_neg fun hmn => hne hmn.1]
    exact h.merge_eq n hn

theorem merges_eq (h : g₀.Rearranged g) (x : GroupId) :
    (g.group x).merges = (g₀.group x).merges := by
  have hx := congrArg Group.merges (h.group x)
  exact hx

theorem inputs_eq (h : g₀.Rearranged g) (x : GroupId) :
    (g.group x).inputs = (g₀.group x).inputs := by
  have hx := congrArg Group.inputs (h.group x)
  exact hx

theorem subgroups_eq (h : g₀.Rearranged g) (x : GroupId) :
    (g.group x).subgroups = (g₀.group x).subgroups := by
  have hx := congrArg Group.subgroups (h.group x)
  exact hx

theorem hosted_eq (h : g₀.Rearranged g) (i : InputId) :
    (g.input i).hosted = (g₀.input i).hosted := by
  have hi := congrArg Input.hosted (h.input i)
  exact hi

/-- A graph whose nodes change their places only is otherwise the same. -/
theorem alike (h : g₀.Rearranged g) : g₀.Alike g where
  groups_size := h.groups_size
  inputs_size := h.inputs_size
  merges_size := h.merges_size
  content := by
    funext x
    have hx := congrArg Group.content (h.group x)
    exact hx
  label := by
    funext i
    have hi := congrArg Input.label (h.input i)
    exact hi
  held := by
    funext s
    cases s with
    | function m => exact congrArg (fun merge => merge.function) (h.merge m)
    | argument m => exact congrArg (fun merge => merge.argument) (h.merge m)
    | producer x => exact congrArg (fun group => group.output.producer) (h.group x)
  noted := by
    funext s
    cases s with
    | input i => exact congrArg (fun input => input.usages) (h.input i)
    | merge m => exact congrArg (fun merge => merge.consumer.toList) (h.merge m)
    | output x => exact congrArg (fun group => group.output.downstream.toList) (h.group x)

/-- Nothing comes to lie in something else. -/
theorem nest_eq (h : g₀.Rearranged g) (x : GroupId) : g.nest x = g₀.nest x := h.alike.nest_eq x

/-- The same groups stay live, listed in the same order. -/
theorem liveGroups_eq (h : g₀.Rearranged g) : g.liveGroups = g₀.liveGroups := by
  rw [liveGroups, liveGroups, h.nest_eq]

/-- The same merges stay live, listed in the same order. -/
theorem liveMerges_eq (h : g₀.Rearranged g) : g.liveMerges = g₀.liveMerges := by
  rw [liveMerges, liveMerges, h.liveGroups_eq]
  exact List.flatMap_congr fun x _ => h.merges_eq x

/-- Going through the merges of a group within reach stays within reach. -/
theorem foldl_merges (h : g₀.Rearranged g) {x : GroupId} (hx : g₀.Reached x)
    {f : Graph S → MergeId → Graph S}
    (hf : ∀ {g : Graph S} {m : MergeId}, g₀.Rearranged g → g₀.ReachedMerge m →
      g₀.Rearranged (f g m)) :
    g₀.Rearranged ((g.group x).merges.foldl f g) := by
  rw [h.merges_eq]
  exact List.foldlRecOn (g₀.group x).merges f h fun g' hg' m hm => hf hg' ⟨x, hx, hm⟩

/-! ## Motion -/

theorem shiftGroup (h : g₀.Rearranged g) {x : GroupId} (hx : g₀.Reached x) (d : Vec S) :
    g₀.Rearranged (g.shiftGroup d x) :=
  h.modifyGroup hx fun _ => rfl

theorem shiftMerge (h : g₀.Rearranged g) {m : MergeId} (hm : g₀.ReachedMerge m) (d : Vec S) :
    g₀.Rearranged (g.shiftMerge d m) :=
  h.modifyMerge hm fun _ => rfl

theorem placeInput (h : g₀.Rearranged g) {i : InputId} (hi : g₀.ReachedInput i)
    (position : Vec S) : g₀.Rearranged (g.placeInput position i) :=
  h.modifyInput hi fun _ => rfl

mutual

theorem moveNest : ∀ {n : Nest} {g : Graph S} (_ : g₀.Rearranged g) (_ : n.Reached g₀)
    (d : Vec S), g₀.Rearranged (n.move g d)
  | .group id anchors subgroups, g, h, ⟨hid, ha, hs⟩, d => by
    have hmerges := (h.shiftGroup hid d).foldl_merges hid fun hg hm => hg.shiftMerge hm d
    rw [Nest.move]
    exact moveNests (moveAnchors hmerges ha d) hs d

theorem moveAnchors : ∀ {as : Anchors} {g : Graph S} (_ : g₀.Rearranged g) (_ : as.Reached g₀)
    (d : Vec S), g₀.Rearranged (as.move g d)
  | .nil, _, h, _, _ => h
  | .bare id rest, g, h, ⟨hid, hrest⟩, d => by
    rw [Anchors.move]
    exact moveAnchors (h.placeInput hid _) hrest d
  | .hosting id hosted rest, g, h, ⟨hid, hhosted, hrest⟩, d => by
    rw [Anchors.move]
    exact moveAnchors (moveNest (h.placeInput hid _) hhosted _) hrest d

theorem moveNests : ∀ {ns : Nests} {g : Graph S} (_ : g₀.Rearranged g) (_ : ns.Reached g₀)
    (d : Vec S), g₀.Rearranged (ns.move g d)
  | .nil, _, h, _, _ => h
  | .cons n rest, g, h, ⟨hn, hrest⟩, d => by
    rw [Nests.move]
    exact moveNests (moveNest h hn d) hrest d

end

/-! ## One tick -/

theorem resizeInput (h : g₀.Rearranged g) {i : InputId} (hi : g₀.ReachedInput i) (radius : S) :
    g₀.Rearranged (g.resizeInput radius i) :=
  h.modifyInput hi fun _ => rfl

theorem lowerOutput (h : g₀.Rearranged g) {x : GroupId} (hx : g₀.Reached x) :
    g₀.Rearranged (g.lowerOutput x) :=
  h.modifyGroup hx fun _ => rfl

variable (e : Engine S)

theorem resize (h : g₀.Rearranged g) {x : GroupId} (hx : g₀.Reached x) (largest : S) :
    g₀.Rearranged (e.resize g x largest) :=
  h.modifyGroup hx fun _ => rfl

theorem separatePair (h : g₀.Rearranged g) {a b : Nest} (ha : a.Reached g₀) (hb : b.Reached g₀)
    (number number' : Nat) : g₀.Rearranged (e.separatePair g number number' a b) := by
  unfold Engine.separatePair
  dsimp only
  split
  · exact moveNest (moveNest h ha _) hb _
  · exact h

theorem separateFrom (h : g₀.Rearranged g) {a : Nest} {bs : List Nest} (ha : a.Reached g₀)
    (hbs : ∀ b ∈ bs, b.Reached g₀) (number number' : Nat) :
    g₀.Rearranged (e.separateFrom g number a number' bs) := by
  induction bs generalizing g number' with
  | nil => exact h
  | cons b bs ih =>
    obtain ⟨hb, hrest⟩ := List.forall_mem_cons.1 hbs
    exact ih (h.separatePair e ha hb number number') hrest (number' + 1)

theorem separate (h : g₀.Rearranged g) {as : List Nest} (has : ∀ a ∈ as, a.Reached g₀)
    (number : Nat) : g₀.Rearranged (e.separate g number as) := by
  induction as generalizing g number with
  | nil => exact h
  | cons a as ih =>
    obtain ⟨ha, hrest⟩ := List.forall_mem_cons.1 has
    exact ih (h.separateFrom e ha hrest number (number + 1)) hrest (number + 1)

theorem turn (h : g₀.Rearranged g) {i : InputId} (hi : g₀.ReachedInput i) (x : GroupId)
    (number : Nat) : g₀.Rearranged (e.turn g x number i).1 := by
  unfold Engine.turn
  dsimp only
  apply placeInput _ hi
  exact h.modifyInput hi fun _ => rfl

theorem turnInputs (x : GroupId) : ∀ (number : Nat) {as : Anchors} {g : Graph S}
    (_ : g₀.Rearranged g) (_ : as.Reached g₀), g₀.Rearranged (e.turnInputs g x number as)
  | _, .nil, _, h, _ => h
  | number, .bare id rest, g, h, ⟨hid, hrest⟩ => by
    rw [Engine.turnInputs]
    exact turnInputs x (number + 1) (h.turn e hid x number) hrest
  | number, .hosting id hosted rest, g, h, ⟨hid, hhosted, hrest⟩ => by
    rw [Engine.turnInputs]
    exact turnInputs x (number + 1) (moveNest (h.turn e hid x number) hhosted _) hrest

theorem easeMerge (h : g₀.Rearranged g) {m : MergeId} (hm : g₀.ReachedMerge m) (x : GroupId) :
    g₀.Rearranged (e.easeMerge g x m) := by
  unfold Engine.easeMerge
  split
  · exact h
  · split
    · exact h.modifyMerge hm fun _ => rfl
    · exact h

theorem settle (h : g₀.Rearranged g) {x : GroupId} {anchors : Anchors} {subgroups : Nests}
    (hx : g₀.Reached x) (ha : anchors.Reached g₀) (hs : subgroups.Reached g₀) (largest : S) :
    g₀.Rearranged (e.settle g x anchors subgroups largest) := by
  have hseparate := h.separate e hs.of_mem 0
  have hresize := hseparate.resize e hx largest
  have hlower := (turnInputs e x 0 hresize ha).lowerOutput hx
  exact hlower.foldl_merges hx fun hg hm => hg.easeMerge e hm x

mutual

theorem tickNest : ∀ {n : Nest} {g : Graph S} (_ : g₀.Rearranged g) (_ : n.Reached g₀),
    g₀.Rearranged (e.tickNest g n)
  | .group id anchors subgroups, g, h, ⟨hid, ha, hs⟩ => by
    rw [Engine.tickNest]
    exact settle e (tickNests (tickAnchors h ha 0.0) hs) hid ha hs _

theorem tickAnchors : ∀ {as : Anchors} {g : Graph S} (_ : g₀.Rearranged g) (_ : as.Reached g₀)
    (largest : S), g₀.Rearranged (e.tickAnchors g largest as).1
  | .nil, _, h, _, _ => h
  | .bare id rest, g, h, ⟨hid, hrest⟩, largest => by
    rw [Engine.tickAnchors]
    exact tickAnchors (h.resizeInput hid _) hrest _
  | .hosting id hosted rest, g, h, ⟨hid, hhosted, hrest⟩, largest => by
    rw [Engine.tickAnchors]
    exact tickAnchors ((tickNest h hhosted).resizeInput hid _) hrest _

theorem tickNests : ∀ {ns : Nests} {g : Graph S} (_ : g₀.Rearranged g) (_ : ns.Reached g₀),
    g₀.Rearranged (e.tickNests g ns)
  | .nil, _, h, _ => h
  | .cons n rest, g, h, ⟨hn, hrest⟩ => by
    rw [Engine.tickNests]
    exact tickNests (tickNest h hn) hrest

end

theorem tick (h : g₀.Rearranged g) : g₀.Rearranged (e.tick g) := by
  have hroot : (g.nest root).Reached g₀ := by
    rw [h.nest_eq]
    exact Reached.nestTo Relation.ReflTransGen.refl g₀.groups.size
  exact h.tickNest e hroot

theorem run (h : g₀.Rearranged g) (n : Nat) : g₀.Rearranged (e.run g n) := by
  induction n generalizing g with
  | zero => exact h
  | succ n ih => exact ih (h.tick e)

end Rearranged

/-- However long a graph is laid out, its nodes change their places only, and those out of reach
not even these. -/
theorem run_rearranged (e : Engine S) (g : Graph S) (n : Nat) : g.Rearranged (e.run g n) :=
  (Rearranged.refl g).run e n

end Graph

end LambdaDiagram
