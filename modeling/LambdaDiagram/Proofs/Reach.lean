import LambdaDiagram.Proofs.Ownership
import Mathlib.Data.Finset.Card
import Mathlib.Logic.Relation

/-!
What is within reach of the root: the groups that lie in it, at whatever depth, with their inputs
and their merges. A nest that is read off a group within reach shows nothing else, and when no group
lies in itself, the nest of the root shows all of it.
-/

namespace LambdaDiagram

variable {S : Type} [Scalar S]

namespace Graph

/-- A group is within reach when it is the root or lies in it, at whatever depth. -/
def Reached (g : Graph S) (x : GroupId) : Prop := Relation.ReflTransGen g.Contains root x

/-- An input is within reach when it belongs to a group that is. -/
def ReachedInput (g : Graph S) (i : InputId) : Prop := ∃ x, g.Reached x ∧ i ∈ (g.group x).inputs

/-- A merge is within reach when it belongs to a group that is. -/
def ReachedMerge (g : Graph S) (m : MergeId) : Prop := ∃ x, g.Reached x ∧ m ∈ (g.group x).merges

end Graph

/-! ## Nests within reach -/

mutual

/-- Everything in a nest is within reach. -/
def Nest.Reached (g : Graph S) : Nest → Prop
  | .group id anchors subgroups => g.Reached id ∧ anchors.Reached g ∧ subgroups.Reached g

/-- Some inputs and everything that they host are within reach. -/
def Anchors.Reached (g : Graph S) : Anchors → Prop
  | .nil => True
  | .bare id rest => g.ReachedInput id ∧ rest.Reached g
  | .hosting id hosted rest => g.ReachedInput id ∧ hosted.Reached g ∧ rest.Reached g

/-- Everything in some nests is within reach. -/
def Nests.Reached (g : Graph S) : Nests → Prop
  | .nil => True
  | .cons n rest => n.Reached g ∧ rest.Reached g

end

theorem Nests.Reached.of_mem {g : Graph S} {ns : Nests} (h : ns.Reached g) :
    ∀ n ∈ ns.toList, n.Reached g := by
  cases ns with
  | nil => exact nofun
  | cons n rest =>
    rw [Nests.toList, List.forall_mem_cons]
    exact ⟨h.1, of_mem h.2⟩

namespace Graph

section

variable {g : Graph S} {x y : GroupId} {nestOf : GroupId → Nest}

theorem Reached.step (hx : g.Reached x) (hy : g.Contains x y) : g.Reached y :=
  Relation.ReflTransGen.tail hx hy

theorem Reached.anchorsWith (hx : g.Reached x) (hnest : ∀ y, g.Reached y → (nestOf y).Reached g)
    {ids : List InputId} (hids : ∀ i ∈ ids, i ∈ (g.group x).inputs) :
    (g.anchorsWith nestOf ids).Reached g := by
  induction ids with
  | nil => exact trivial
  | cons i ids ih =>
    obtain ⟨hi, hrest⟩ := List.forall_mem_cons.1 hids
    rw [Graph.anchorsWith]
    cases hhosted : (g.input i).hosted with
    | none => exact ⟨⟨x, hx, hi⟩, ih hrest⟩
    | some y => exact ⟨⟨x, hx, hi⟩, hnest y (hx.step (.inr ⟨i, hi, hhosted⟩)), ih hrest⟩

theorem reached_nestsWith (hnest : ∀ y, g.Reached y → (nestOf y).Reached g) {ys : List GroupId}
    (hys : ∀ y ∈ ys, g.Reached y) : (nestsWith nestOf ys).Reached g := by
  induction ys with
  | nil => exact trivial
  | cons y ys ih =>
    obtain ⟨hy, hrest⟩ := List.forall_mem_cons.1 hys
    exact ⟨hnest y hy, ih hrest⟩

/-- What a nest shows of a group within reach is within reach. -/
theorem Reached.nestTo (hx : g.Reached x) (d : Nat) : (g.nestTo d x).Reached g := by
  induction d generalizing x with
  | zero => exact ⟨hx, trivial, trivial⟩
  | succ d ih =>
    have hnest : ∀ y, g.Reached y → (g.nestTo d y).Reached g := fun y hy => ih hy
    exact ⟨hx, hx.anchorsWith hnest fun i hi => hi,
      reached_nestsWith hnest fun y hy => hx.step (.inl hy)⟩

end

/-! ## The depth of nests -/

/-- No group lies in itself, at whatever depth. -/
def Acyclic (g : Graph S) : Prop := ∀ x, ¬ Relation.TransGen g.Contains x x

/-- Neither a group nor any that lies in it, at whatever depth, lies in itself. -/
def AcyclicBelow (g : Graph S) (x : GroupId) : Prop :=
  ∀ y, Relation.ReflTransGen g.Contains x y → ¬ Relation.TransGen g.Contains y y

open Classical in
/-- The indices of a group and of the groups that lie in it, at whatever depth. -/
noncomputable def span (g : Graph S) (x : GroupId) : Finset Nat :=
  (Finset.range g.groups.size).filter fun n => Relation.ReflTransGen g.Contains x ⟨n⟩

section

variable {g : Graph S} {x y : GroupId}

theorem mem_span {n : Nat} : n ∈ g.span x ↔
    n < g.groups.size ∧ Relation.ReflTransGen g.Contains x ⟨n⟩ := by
  simp only [span, Finset.mem_filter, Finset.mem_range]

/-- No more lies in a group than there are groups. -/
theorem card_span_le (g : Graph S) (x : GroupId) : (g.span x).card ≤ g.groups.size := by
  have hsub : g.span x ⊆ Finset.range g.groups.size := fun n hn =>
    Finset.mem_range.2 (mem_span.1 hn).1
  have hle := Finset.card_le_card hsub
  rwa [Finset.card_range] at hle

/-- A group in which something lies is in the store. -/
theorem Contains.lt (h : g.Contains x y) : x.index < g.groups.size := by
  by_contra hx
  have hblank : g.group x = default := group_of_size_le (Nat.le_of_not_lt hx)
  rw [Contains, hblank] at h
  rcases h with h | ⟨i, h, -⟩ <;> cases h

/-- A group in which nothing is, not even the group, is not in the store. -/
theorem size_le_of_card_span (h : (g.span x).card ≤ 0) : g.groups.size ≤ x.index := by
  have hempty := Finset.card_eq_zero.1 (Nat.le_zero.1 h)
  refine Nat.le_of_not_lt fun hlt => ?_
  have hself : x.index ∈ g.span x := mem_span.2 ⟨hlt, .refl⟩
  rw [hempty] at hself
  cases hself

theorem Contains.mem_span_self (h : g.Contains x y) : x.index ∈ g.span x :=
  mem_span.2 ⟨h.lt, .refl⟩

theorem Acyclic.below (hg : g.Acyclic) (x : GroupId) : g.AcyclicBelow x := fun y _ => hg y

theorem AcyclicBelow.step (hx : g.AcyclicBelow x) (h : g.Contains x y) : g.AcyclicBelow y :=
  fun z hz => hx z (.head h hz)

/-- Less lies in a group than in the group around it. -/
theorem AcyclicBelow.card_span_lt (hx : g.AcyclicBelow x) (h : g.Contains x y) :
    (g.span y).card < (g.span x).card := by
  have hsub : g.span y ⊆ g.span x := by
    intro n hn
    obtain ⟨hlt, hreach⟩ := mem_span.1 hn
    exact mem_span.2 ⟨hlt, .head h hreach⟩
  have hout : x.index ∉ g.span y := fun hxy =>
    hx x .refl (Relation.TransGen.head' h (mem_span.1 hxy).2)
  exact Finset.card_lt_card ((Finset.ssubset_iff_of_subset hsub).2 ⟨_, h.mem_span_self, hout⟩)

theorem Acyclic.card_span_lt (hg : g.Acyclic) (h : g.Contains x y) :
    (g.span y).card < (g.span x).card :=
  (hg.below x).card_span_lt h

/-- What holds of a group that lies in another when it holds of all that lies directly in it holds
of the other. -/
theorem AcyclicBelow.inside_first (hx : g.AcyclicBelow x) {motive : GroupId → Prop}
    (group : ∀ z, Relation.ReflTransGen g.Contains x z → (∀ y, g.Contains z y → motive y) →
      motive z) : motive x := by
  induction hn : (g.span x).card using Nat.strong_induction_on generalizing x with
  | _ n ih =>
    subst hn
    refine group x .refl fun y hy => ?_
    exact ih _ (hx.card_span_lt hy) (hx.step hy) (fun z hz => group z (.head hy hz)) rfl

/-- What holds of a group when it holds of all that lies directly in it holds of every group. -/
@[elab_as_elim]
theorem Acyclic.inside_first (hg : g.Acyclic) {motive : GroupId → Prop}
    (group : ∀ x, (∀ y, g.Contains x y → motive y) → motive x) (x : GroupId) : motive x :=
  (hg.below x).inside_first fun z _ => group z

/-- A nest that is read to the depth of what lies in its group shows all of it. -/
theorem AcyclicBelow.mem_groups_nestTo (hx : g.AcyclicBelow x) {d : Nat}
    (hd : (g.span x).card ≤ d) (h : Relation.ReflTransGen g.Contains x y) :
    y ∈ (g.nestTo d x).groups := by
  induction d generalizing x with
  | zero =>
    rcases h.cases_head with rfl | ⟨z, hz, -⟩
    · exact g.mem_groups_nestTo_self 0 x
    · exact absurd hz.lt (Nat.not_lt_of_le (size_le_of_card_span hd))
  | succ d ih =>
    rcases h.cases_head with rfl | ⟨z, hz, hzy⟩
    · exact g.mem_groups_nestTo_self (d + 1) x
    · have hlt := hx.card_span_lt hz
      rw [groups_nestTo_succ]
      refine List.mem_cons_of_mem x (List.mem_flatMap.2 ⟨z, mem_contents.2 hz, ?_⟩)
      exact ih (hx.step hz) (by omega) hzy

/-- A nest lists nothing but what lies in its group. -/
theorem inside_of_mem_nestTo {d : Nat} (hy : y ∈ (g.nestTo d x).groups) :
    Relation.ReflTransGen g.Contains x y := by
  induction d generalizing x with
  | zero => rw [List.mem_singleton.1 hy]
  | succ d ih =>
    rw [groups_nestTo_succ] at hy
    rcases List.mem_cons.1 hy with rfl | hy
    · exact .refl
    · obtain ⟨z, hz, hy⟩ := List.mem_flatMap.1 hy
      exact .head (mem_contents.1 hz) (ih hy)

/-- The nest of a group lists what lies in it. -/
theorem AcyclicBelow.mem_groups_nest_iff (hx : g.AcyclicBelow x) :
    y ∈ (g.nest x).groups ↔ Relation.ReflTransGen g.Contains x y :=
  ⟨inside_of_mem_nestTo, hx.mem_groups_nestTo (g.card_span_le x)⟩

/-- The live groups are those within reach. -/
theorem Acyclic.mem_liveGroups_iff (hg : g.Acyclic) : x ∈ g.liveGroups ↔ g.Reached x :=
  (hg.below root).mem_groups_nest_iff

/-- What lies in a live group is live. -/
theorem Acyclic.live_step (hg : g.Acyclic) (hx : x ∈ g.liveGroups) (h : g.Contains x y) :
    y ∈ g.liveGroups :=
  hg.mem_liveGroups_iff.2 ((hg.mem_liveGroups_iff.1 hx).step h)

end

/-! ## The order of a forest -/

theorem idxOf_lt_of_sublist {l : List GroupId} {x y : GroupId} (hn : l.Nodup)
    (h : [x, y].Sublist l) : l.idxOf x < l.idxOf y := by
  obtain ⟨before, after, rfl, hx, hy⟩ := List.cons_sublist_iff.1 h
  have hy := List.singleton_sublist.1 hy
  have hout : y ∉ before := fun hm => (List.nodup_append.1 hn).2.2 y hm y hy rfl
  rw [List.idxOf_append_of_mem hx, List.idxOf_append_of_notMem hout]
  have hlt := List.idxOf_lt_length_iff.2 hx
  omega

/-- In a forest no group lies in itself: whatever lies in a live group is listed after it. -/
theorem Forest.acyclic {g : Graph S} {first : Tree} {others : List Tree}
    (h : g.Forest first others) : g.Acyclic := by
  intro x hx
  obtain ⟨z, -, hz⟩ := Relation.TransGen.tail'_iff.1 hx
  have hlive := (h.live_of_contains hz).1
  have hlater : ∀ y, Relation.TransGen g.Contains x y →
      y ∈ g.liveGroups ∧ g.liveGroups.idxOf x < g.liveGroups.idxOf y := by
    have hstep : ∀ {u v : GroupId}, u ∈ g.liveGroups → g.Contains u v →
        v ∈ g.liveGroups ∧ g.liveGroups.idxOf u < g.liveGroups.idxOf v := fun hu huv =>
      ⟨(h.live_of_contains huv).1,
        idxOf_lt_of_sublist h.ownershipTree.nodup (h.ownershipTree.before _ hu _ huv)⟩
    intro y hy
    induction hy with
    | single hxy => exact hstep hlive hxy
    | tail _ huv ih =>
      obtain ⟨hv, hlt⟩ := hstep ih.1 huv
      exact ⟨hv, Nat.lt_trans ih.2 hlt⟩
  exact Nat.lt_irrefl _ (hlater x hx).2

end Graph

end LambdaDiagram
