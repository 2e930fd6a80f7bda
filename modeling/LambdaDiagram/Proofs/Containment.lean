import LambdaDiagram.Proofs.Hoisting

/-!
Trees of containment. Below a group of any graph containment is a tree when no group there lies in
itself and each group, input and merge has one place. The nest of such a group lists each group that
lies in it once, and so does it with their inputs and merges.
-/

namespace LambdaDiagram

open Relation (ReflTransGen TransGen)

variable {S : Type} [Scalar S]

namespace Graph

/-- `g.Inside x y`: the group `y` is the group `x` or lies in it, at whatever depth. -/
def Inside (g : Graph S) (x y : GroupId) : Prop := ReflTransGen g.Contains x y

/-- `g.InputInside x i`: the input `i` belongs to the group `x` or to one that lies in it. -/
def InputInside (g : Graph S) (x : GroupId) (i : InputId) : Prop :=
  ∃ y, g.Inside x y ∧ i ∈ (g.group y).inputs

/-- `g.MergeInside x m`: the merge `m` belongs to the group `x` or to one that lies in it. -/
def MergeInside (g : Graph S) (x : GroupId) (m : MergeId) : Prop :=
  ∃ y, g.Inside x y ∧ m ∈ (g.group y).merges

/-- Of what the groups inside a group list, each is listed by one of them, and once. -/
structure PlacedOnce {α : Type} (g : Graph S) (x : GroupId) (list : GroupId → List α) : Prop where
  once : ∀ y, g.Inside x y → (list y).Nodup
  place : ∀ y z a, g.Inside x y → g.Inside x z → a ∈ list y → a ∈ list z → y = z

/-- Containment below a group is a tree: no group there lies in itself, and each group, input and
merge lies directly in one group and is listed there once. -/
structure TreeBelow (g : Graph S) (x : GroupId) : Prop where
  acyclic : g.AcyclicBelow x
  groups : g.PlacedOnce x g.contents
  inputs : g.PlacedOnce x fun y => (g.group y).inputs
  merges : g.PlacedOnce x fun y => (g.group y).merges

variable {g g' : Graph S} {x y z w : GroupId} {i : InputId} {m : MergeId}

theorem AcyclicBelow.mem_groups_iff (hx : g.AcyclicBelow x) :
    y ∈ (g.nest x).groups ↔ g.Inside x y :=
  hx.mem_groups_nest_iff

section

variable {α : Type} {list : GroupId → List α}

theorem PlacedOnce.of_inside (h : g.PlacedOnce x list) (hy : g.Inside x y) :
    g.PlacedOnce y list where
  once z hz := h.once z (hy.trans hz)
  place _ _ _ hz hw := h.place _ _ _ (hy.trans hz) (hy.trans hw)

theorem PlacedOnce.of_home (home : GroupId) (hhome : (list home).Nodup)
    (hother : ∀ y, y ≠ home → list y = []) : g.PlacedOnce x list where
  once y _ := by
    by_cases hy : y = home
    · rwa [hy]
    · rw [hother y hy]
      exact List.nodup_nil
  place y z a _ _ hy hz := by
    have hin : ∀ w, a ∈ list w → w = home := fun w hw =>
      by_contra fun hne => List.not_mem_nil (hother w hne ▸ hw)
    rw [hin y hy, hin z hz]

theorem PlacedOnce.nodup_flatMap (h : g.PlacedOnce x list) {ys : List GroupId} (hys : ys.Nodup)
    (hin : ∀ y ∈ ys, g.Inside x y) : (ys.flatMap list).Nodup := by
  refine nodup_flatMap_of_apart hys (fun y hy => h.once y (hin y hy)) ?_
  exact fun y hy z hz a => h.place y z a (hin y hy) (hin z hz)

/-- What the groups of a nest list without repetition has one place. -/
theorem AcyclicBelow.placedOnce (hx : g.AcyclicBelow x)
    (h : ((g.nest x).groups.flatMap list).Nodup) : g.PlacedOnce x list where
  once y hy := (List.nodup_flatMap.1 h).1 y (hx.mem_groups_iff.2 hy)
  place _ _ _ hy hz hay haz :=
    eq_of_nodup_flatMap h (hx.mem_groups_iff.2 hy) (hx.mem_groups_iff.2 hz) hay haz

end

namespace TreeBelow

theorem of_inside (h : g.TreeBelow x) (hy : g.Inside x y) : g.TreeBelow y where
  acyclic z hz := h.acyclic z (hy.trans hz)
  groups := h.groups.of_inside hy
  inputs := h.inputs.of_inside hy
  merges := h.merges.of_inside hy

theorem contains_unique (h : g.TreeBelow x) (hy : g.Inside x y) (hz : g.Inside x z)
    (hyw : g.Contains y w) (hzw : g.Contains z w) : y = z :=
  h.groups.place y z w hy hz (mem_contents.2 hyw) (mem_contents.2 hzw)

/-- Nothing that lies directly in a group lies around it. -/
theorem not_inside_back (h : g.TreeBelow x) (hxy : g.Contains x y) : ¬ g.Inside y x :=
  fun hyx => h.acyclic x .refl (.head' hxy hyx)

/-- Two groups that lie directly in one have nothing in common. -/
theorem eq_of_inside (h : g.TreeBelow x) (hy : g.Contains x y) (hz : g.Contains x z)
    (hyw : g.Inside y w) (hzw : g.Inside z w) : y = z := by
  have hxy : g.Inside x y := .single hy
  have hxz : g.Inside x z := .single hz
  induction hyw with
  | refl =>
    obtain heq | ⟨p, hzp, hpy⟩ := hzw.cases_tail
    · exact heq
    · obtain rfl := h.contains_unique .refl (hxz.trans hzp) hy hpy
      exact absurd hzp (h.not_inside_back hz)
  | @tail p w hyp hpw ih =>
    obtain rfl | ⟨q, hzq, hqw⟩ := hzw.cases_tail
    · obtain rfl := h.contains_unique .refl (hxy.trans hyp) hz hpw
      exact absurd hyp (h.not_inside_back hy)
    · obtain rfl := h.contains_unique (hxy.trans hyp) (hxz.trans hzq) hpw hqw
      exact ih hzq

/-- The nest of a group lists no group twice. -/
theorem nodup_groups (h : g.TreeBelow x) : (g.nest x).groups.Nodup := by
  refine h.acyclic.inside_first (motive := fun z => (g.nest z).groups.Nodup) fun z hz ih => ?_
  have hz : g.TreeBelow z := h.of_inside hz
  rw [hz.acyclic.groups_nest, List.nodup_cons]
  have hchild : ∀ y ∈ g.contents z, g.AcyclicBelow y := fun y hy =>
    hz.acyclic.step (mem_contents.1 hy)
  constructor
  · intro hm
    obtain ⟨y, hy, hyz⟩ := List.mem_flatMap.1 hm
    exact hz.not_inside_back (mem_contents.1 hy) ((hchild y hy).mem_groups_iff.1 hyz)
  · apply nodup_flatMap_of_apart (hz.groups.once z .refl) fun y hy => ih y (mem_contents.1 hy)
    intro y hy y' hy' w hw hw'
    exact hz.eq_of_inside (mem_contents.1 hy) (mem_contents.1 hy')
      ((hchild y hy).mem_groups_iff.1 hw) ((hchild y' hy').mem_groups_iff.1 hw')

theorem nodup_subgroups (h : g.TreeBelow x) : (g.group x).subgroups.Nodup := by
  have hcontents : (g.contents x).Nodup := h.groups.once x .refl
  rw [contents, List.nodup_reverse] at hcontents
  exact hcontents.of_append_right

end TreeBelow

/-! ## Graphs that differ in where things are -/

section

variable (h : g.Alike g')

include h

theorem Alike.contains_eq : g'.Contains = g.Contains := by
  funext x y
  simp only [Contains, h.subgroups_eq, h.inputs_eq, h.hosted_eq]

theorem Alike.contents_eq : g'.contents = g.contents := by
  funext x
  simp only [contents, h.subgroups_eq, h.inputs_eq, h.hosted_eq]

theorem Alike.inside_iff : g'.Inside x y ↔ g.Inside x y := by
  rw [Inside, Inside, h.contains_eq]

theorem Alike.inputInside_iff : g'.InputInside x i ↔ g.InputInside x i := by
  simp only [InputInside, h.inside_iff, h.inputs_eq]

theorem Alike.mergeInside_iff : g'.MergeInside x m ↔ g.MergeInside x m := by
  simp only [MergeInside, h.inside_iff, h.merges_eq]

theorem PlacedOnce.of_alike {α : Type} {list : GroupId → List α} (hlist : g.PlacedOnce x list) :
    g'.PlacedOnce x list where
  once y hy := hlist.once y (h.inside_iff.1 hy)
  place y z a hy hz := hlist.place y z a (h.inside_iff.1 hy) (h.inside_iff.1 hz)

/-- Whether containment is a tree does not depend on where things are. -/
theorem TreeBelow.of_alike (htree : g.TreeBelow x) : g'.TreeBelow x where
  acyclic y hy := by
    rw [h.contains_eq]
    exact htree.acyclic y (h.inside_iff.1 hy)
  groups := by
    rw [h.contents_eq]
    exact htree.groups.of_alike h
  inputs := by
    simp only [h.inputs_eq]
    exact htree.inputs.of_alike h
  merges := by
    simp only [h.merges_eq]
    exact htree.merges.of_alike h

end

/-- In a forest containment below the root is a tree. -/
theorem Forest.treeBelow {first : Tree} {others : List Tree} (h : g.Forest first others) :
    g.TreeBelow Graph.root where
  acyclic := h.acyclic.below Graph.root
  groups := (h.acyclic.below Graph.root).placedOnce (h.acyclic.nodup_contents h.ownershipTree.nodup)
  inputs := (h.acyclic.below Graph.root).placedOnce h.liveInputs_inventory.1
  merges := (h.acyclic.below Graph.root).placedOnce h.liveMerges_inventory.1

end Graph

end LambdaDiagram
