import LambdaDiagram.Proofs.Belonging

/-!
Flattening conserves. Of a graph in which no live group lies in two places it takes the sub-groups
without inputs and nothing else: every merge stays and lies in the nearest group around it that
stays, the sub-groups of a dissolved group stand where it stood, and no number, name or host is
another. There is nothing left for a second time.
-/

namespace LambdaDiagram

open Relation (ReflTransGen)

variable {S : Type} [Scalar S]

namespace Graph

/-- `g.Yields x y`: the group `x` has the sub-group `y`, which has no inputs. -/
def Yields (g : Graph S) (x y : GroupId) : Prop :=
  y ∈ (g.group x).subgroups ∧ (g.group y).inputs = []

/-- `g.Holds z x`: the nearest group around `x` that is not dissolved is `z`, or `x` is not
dissolved and is `z` itself. -/
def Holds (g : Graph S) (z x : GroupId) : Prop := ¬ g.Dissolves z ∧ ReflTransGen g.Yields z x

/-- What is left of a group, from the last to the first: the group itself, or what comes in its
place if it is dissolved. -/
def remains (g : Graph S) (x : GroupId) : List GroupId :=
  if g.Dissolves x then (g.flatSubgroups x).reverse else [x]

/-- All nodes have the same numbers. -/
structure SameNumbers (g g' : Graph S) : Prop where
  groups : ∀ x, (g'.group x).place = (g.group x).place
  inputs : ∀ i, (g'.input i).place = (g.input i).place
  merges : ∀ m, (g'.merge m).place = (g.merge m).place

/-- What dissolving the sub-groups without inputs, and no others, is to come to. -/
structure Conserves (g g' : Graph S) : Prop where
  /-- There are as many nodes, and inputs have the same identifier and host the same group. -/
  nodes : g.SameNodes g'
  numbers : g.SameNumbers g'
  inputs : ∀ x, (g'.group x).inputs = (g.group x).inputs
  /-- The live groups are those that are not dissolved, in the same order. -/
  live : g'.liveGroups = g.liveGroups.filter fun x => ¬ g.Dissolves x
  /-- No live group has a sub-group without inputs. -/
  bound : ∀ x ∈ g'.liveGroups, ∀ y ∈ (g'.group x).subgroups, (g'.group y).inputs ≠ []
  /-- In the list of sub-groups each one without inputs gives way to its own flattened list. -/
  subgroups : ∃ flat : GroupId → List GroupId,
    (∀ x, flat x = (g.group x).subgroups.flatMap fun y =>
      if (g.group y).inputs.isEmpty then flat y else [y]) ∧
    ∀ x ∈ g'.liveGroups, (g'.group x).subgroups = flat x
  liveMerges : ∀ m, m ∈ g'.liveMerges ↔ m ∈ g.liveMerges
  /-- Merges of a live group are in the nearest group around that is live, once, and in no other. -/
  holder : ∀ x ∈ g.liveGroups, ∃ z ∈ g'.liveGroups, g.Holds z x ∧ ∀ m ∈ (g.group x).merges,
    ∀ y, (g'.group y).merges.count m = if y = z then 1 else 0

variable {g g' : Graph S} {x y z : GroupId} {m : MergeId}

/-! ## What is handed over -/

section

variable (hg : g.Acyclic)

include hg

/-- The merges of a flattened group come from the groups that it yields, at whatever depth. -/
theorem Acyclic.mem_flatMerges : m ∈ g.flatMerges x ↔
    ∃ y, ReflTransGen g.Yields x y ∧ m ∈ (g.group y).merges := by
  have hstep : ∀ x, m ∈ g.flatMerges x ↔
      m ∈ (g.group x).merges ∨ ∃ y, g.Yields x y ∧ m ∈ g.flatMerges y := by
    intro x
    rw [hg.flatMerges_eq, List.mem_append, List.mem_flatMap]
    refine or_congr_right ⟨?_, ?_⟩
    · rintro ⟨y, hy, hm⟩
      split at hm
      case isTrue hempty => exact ⟨y, ⟨hy, List.isEmpty_iff.1 hempty⟩, hm⟩
      case isFalse => cases hm
    · rintro ⟨y, ⟨hy, hempty⟩, hm⟩
      exact ⟨y, hy, by rwa [if_pos (List.isEmpty_iff.2 hempty)]⟩
  constructor
  · intro hm
    induction x using hg.inside_first with
    | group x ih =>
      obtain hm | ⟨y, hxy, hm⟩ := (hstep x).1 hm
      · exact ⟨x, .refl, hm⟩
      · obtain ⟨z, hyz, hz⟩ := ih y (.inl hxy.1) hm
        exact ⟨z, hyz.head hxy, hz⟩
  · rintro ⟨y, hxy, hm⟩
    induction hxy using ReflTransGen.head_induction_on with
    | refl => exact (hstep y).2 (.inl hm)
    | head hxz _ ih => exact (hstep _).2 (.inr ⟨_, hxz, ih⟩)

/-- The sub-groups of a flattened group have inputs. -/
theorem Acyclic.inputs_ne_nil (hy : y ∈ g.flatSubgroups x) : (g.group y).inputs ≠ [] := by
  induction x using hg.inside_first with
  | group x ih =>
    rw [hg.flatSubgroups_eq, List.mem_flatMap] at hy
    obtain ⟨z, hz, hy⟩ := hy
    split at hy
    case isTrue => exact ih z (.inl hz) hy
    case isFalse hne =>
      rw [List.mem_singleton.1 hy]
      exact fun h => hne (List.isEmpty_iff.2 h)

theorem Acyclic.live_of_yields (hx : x ∈ g.liveGroups) (h : ReflTransGen g.Yields x y) :
    y ∈ g.liveGroups := by
  rw [hg.mem_liveGroups_iff] at hx ⊢
  have hsub : g.Yields ≤ g.Contains := fun _ _ hxy => .inl hxy.1
  exact ReflTransGen.trans hx (ReflTransGen.mono hsub _ _ h)

variable (hone : g.liveGroups.Nodup)

include hone

/-- Of what lies directly in a live group exactly the sub-groups without inputs are dissolved. -/
theorem Acyclic.dissolves_iff (hx : x ∈ g.liveGroups) (h : g.Contains x y) :
    g.Dissolves y ↔ g.Yields x y := by
  constructor
  · intro hy
    obtain hsub | ⟨i, hi, hiy⟩ := h
    · exact ⟨hsub, hy.1⟩
    · exact absurd hy (hg.not_dissolves_hosted hone hx hi hiy)
  · exact fun hy => ⟨hy.2, x, hx, hy.1⟩

/-- What is left of what lies directly in a live group lies directly in it after flattening. -/
theorem Acyclic.remains_contents (hx : x ∈ g.liveGroups) : (g.contents x).flatMap g.remains =
    (g.flatSubgroups x).reverse ++ (g.hostedIn x).reverse := by
  have hsubs : (g.group x).subgroups.reverse.flatMap g.remains = (g.flatSubgroups x).reverse := by
    rw [hg.flatSubgroups_eq, List.reverse_flatMap]
    refine List.flatMap_congr fun y hy => ?_
    have hxy := List.mem_reverse.1 hy
    have hempty : g.Dissolves y ↔ (g.group y).inputs.isEmpty := by
      rw [hg.dissolves_iff hone hx (.inl hxy), List.isEmpty_iff]
      exact and_iff_right hxy
    rw [remains, Function.comp_apply]
    by_cases hkept : g.Dissolves y
    · rw [if_pos hkept, if_pos (hempty.1 hkept)]
    · rw [if_neg hkept, if_neg (mt hempty.2 hkept)]
      rfl
  have hhosted : (g.hostedIn x).reverse.flatMap g.remains = (g.hostedIn x).reverse := by
    refine (List.flatMap_congr fun y hy => ?_).trans (List.flatMap_singleton' _)
    obtain ⟨i, hi, hiy⟩ := List.mem_filterMap.1 (List.mem_reverse.1 hy)
    exact if_neg (hg.not_dissolves_hosted hone hx hi hiy)
  have hcontents : g.contents x = (g.group x).subgroups.reverse ++ (g.hostedIn x).reverse :=
    List.reverse_append
  rw [hcontents, List.flatMap_append, hsubs, hhosted]

/-- Around every live group there is one that is not dissolved. -/
theorem Acyclic.exists_holds (hx : x ∈ g.liveGroups) : ∃ z ∈ g.liveGroups, g.Holds z x := by
  rw [hg.mem_liveGroups_iff] at hx
  induction hx with
  | refl => exact ⟨root, g.mem_groups_nestTo_self _ root, hg.not_dissolves_root, .refl⟩
  | @tail x y hx hxy ih =>
    by_cases hy : g.Dissolves y
    · obtain ⟨z, hz, hkept, hzx⟩ := ih
      have hyields := (hg.dissolves_iff hone (hg.mem_liveGroups_iff.2 hx) hxy).1 hy
      exact ⟨z, hz, hkept, hzx.tail hyields⟩
    · exact ⟨y, hg.mem_liveGroups_iff.2 (.tail hx hxy), hy, .refl⟩

end

/-! ## What is live after flattening -/

theorem SameInputs.flatten (g : Graph S) : g.SameInputs g.flatten :=
  (SameInputs.refl g).flattenTo g.groups.size root

theorem SameNumbers.refl (g : Graph S) : g.SameNumbers g :=
  ⟨fun _ => rfl, fun _ => rfl, fun _ => rfl⟩

theorem ignoresLinks_sameNumbers (g : Graph S) : IgnoresLinks g.SameNumbers where
  modifyGroup _ _ hf h :=
    { h with groups := fun y => (modifyGroup_keeps Group.place hf y).trans (h.groups y) }
  modifyInput _ _ hf h :=
    { h with inputs := fun j => (modifyInput_keeps Input.place hf j).trans (h.inputs j) }
  modifyMerge _ _ hf h :=
    { h with merges := fun n => (modifyMerge_keeps Merge.place hf n).trans (h.merges n) }

section

variable (hg : g.WellScoped) (hone : g.liveGroups.Nodup)

include hg hone

theorem WellScoped.flatten_of_kept (hx : x ∈ g.liveGroups) (hkept : ¬ g.Dissolves x) :
    (g.flatten.group x).merges = g.flatMerges x ∧
      (g.flatten.group x).subgroups = g.flatSubgroups x := by
  have hinterior := hg.acyclic.interior_flatten hone hx
  rw [flatInterior, if_neg hkept] at hinterior
  exact Prod.mk.inj hinterior

/-- Taking the dissolved groups out of a nest leaves the nests of what is left of its group. -/
theorem WellScoped.filter_nest (hx : x ∈ g.liveGroups) :
    ((g.nest x).groups.filter fun y => ¬ g.Dissolves y) = g.flatten.within (g.remains x) := by
  induction x using hg.acyclic.inside_first with
  | group x ih =>
    have hbelow : ((g.contents x).flatMap fun y => (g.nest y).groups).filter
        (fun z => ¬ g.Dissolves z) =
          g.flatten.within ((g.flatSubgroups x).reverse ++ (g.hostedIn x).reverse) := by
      rw [← hg.acyclic.remains_contents hone hx, List.filter_flatMap, within, List.flatMap_assoc]
      refine List.flatMap_congr fun y hy => ?_
      have hxy := mem_contents.1 hy
      exact ih y hxy (hg.acyclic.live_step hx hxy)
    rw [hg.acyclic.groups_nest, remains]
    by_cases hkept : g.Dissolves x
    case pos =>
      have hnone : g.hostedIn x = [] := by
        rw [hostedIn, hkept.1]
        rfl
      rw [List.filter_cons_of_neg (by simpa using hkept), hbelow, hnone, if_pos hkept,
        List.reverse_nil, List.append_nil]
    case neg =>
      have hcontents : g.flatten.contents x =
          (g.flatSubgroups x).reverse ++ (g.hostedIn x).reverse := by
        rw [← (hg.flatten_of_kept hone hx hkept).2, ← (SameInputs.flatten g).hostedIn_eq]
        exact List.reverse_append
      rw [List.filter_cons_of_pos (by simpa using hkept), hbelow, if_neg hkept, within_singleton,
        hg.flatten.acyclic.groups_nest, hcontents]
      rfl

theorem WellScoped.liveGroups_flatten :
    g.flatten.liveGroups = g.liveGroups.filter fun x => ¬ g.Dissolves x := by
  rw [liveGroups, liveGroups, hg.filter_nest hone (g.mem_groups_nestTo_self _ root), remains,
    if_neg hg.acyclic.not_dissolves_root, within_singleton]

theorem WellScoped.mem_liveGroups_flatten :
    x ∈ g.flatten.liveGroups ↔ x ∈ g.liveGroups ∧ ¬ g.Dissolves x := by
  rw [hg.liveGroups_flatten hone, List.mem_filter, decide_eq_true_iff]

/-- The group that holds a live group after flattening has its merges. -/
theorem WellScoped.merges_of_holds (hz : z ∈ g.flatten.liveGroups) (h : g.Holds z x) :
    (g.group x).merges ⊆ (g.flatten.group z).merges := by
  intro m hm
  obtain ⟨hlive, hkept⟩ := (hg.mem_liveGroups_flatten hone).1 hz
  rw [(hg.flatten_of_kept hone hlive hkept).1, hg.acyclic.mem_flatMerges]
  exact ⟨x, h.2, hm⟩

theorem WellScoped.mem_liveMerges_flatten : m ∈ g.flatten.liveMerges ↔ m ∈ g.liveMerges := by
  rw [liveMerges, liveMerges, List.mem_flatMap, List.mem_flatMap]
  constructor
  · rintro ⟨x, hx, hm⟩
    obtain ⟨hlive, hkept⟩ := (hg.mem_liveGroups_flatten hone).1 hx
    rw [(hg.flatten_of_kept hone hlive hkept).1, hg.acyclic.mem_flatMerges] at hm
    obtain ⟨y, hxy, hm⟩ := hm
    exact ⟨y, hg.acyclic.live_of_yields hlive hxy, hm⟩
  · rintro ⟨x, hx, hm⟩
    obtain ⟨z, hz, hzx⟩ := hg.acyclic.exists_holds hone hx
    have hlive := (hg.mem_liveGroups_flatten hone).2 ⟨hz, hzx.1⟩
    exact ⟨z, hlive, hg.merges_of_holds hone hlive hzx hm⟩

theorem WellScoped.bound_flatten (hx : x ∈ g.flatten.liveGroups)
    (hy : y ∈ (g.flatten.group x).subgroups) : (g.flatten.group y).inputs ≠ [] := by
  obtain ⟨hlive, hkept⟩ := (hg.mem_liveGroups_flatten hone).1 hx
  rw [(hg.flatten_of_kept hone hlive hkept).2] at hy
  rw [(SameInputs.flatten g).inputs]
  exact hg.acyclic.inputs_ne_nil hy

theorem WellScoped.conserves (hmerges : g.MergesOnce) : g.Conserves g.flatten where
  nodes := (SameInputs.flatten g).nodes
  numbers := (ignoresLinks_sameNumbers g).flatten (.refl g)
  inputs := (SameInputs.flatten g).inputs
  live := hg.liveGroups_flatten hone
  bound _ hx _ hy := hg.bound_flatten hone hx hy
  subgroups := by
    refine ⟨g.flatSubgroups, hg.acyclic.flatSubgroups_eq, fun x hx => ?_⟩
    obtain ⟨hlive, hkept⟩ := (hg.mem_liveGroups_flatten hone).1 hx
    exact (hg.flatten_of_kept hone hlive hkept).2
  liveMerges _ := hg.mem_liveMerges_flatten hone
  holder := by
    intro x hx
    obtain ⟨z, hz, hzx⟩ := hg.acyclic.exists_holds hone hx
    have hlive := (hg.mem_liveGroups_flatten hone).2 ⟨hz, hzx.1⟩
    refine ⟨z, hlive, hzx, fun m hm y => ?_⟩
    have hmz := hg.merges_of_holds hone hlive hzx hm
    split
    case isTrue hyz =>
      rw [hyz]
      exact List.count_eq_one_of_mem (hmerges.flatten.nodup z) hmz
    case isFalse hyz =>
      exact List.count_eq_zero_of_not_mem fun hmy => hyz (hmerges.flatten.owner y z m hmy hmz)

end

/-! ## Flattening twice -/

theorem modifyGroup_eq_self {f : Group S → Group S} (h : f (g.group x) = g.group x) :
    g.modifyGroup x f = g := by
  have hgroups : g.groups.modify x.index f = g.groups := by
    apply Array.ext (Array.size_modify ..)
    intro i hi hi'
    rw [Array.getElem_modify]
    split
    case isTrue hix =>
      subst hix
      have hgroup : g.group x = g.groups[x.index] := Array.getElem_eq_getD _ |>.symm
      rw [← hgroup, h]
    case isFalse => rfl
  rw [modifyGroup, hgroups]

/-- A graph in which all live sub-groups have inputs is flat. -/
theorem Acyclic.flattenTo_eq_self (hg : g.Acyclic)
    (hbound : ∀ x ∈ g.liveGroups, ∀ y ∈ (g.group x).subgroups, (g.group y).inputs ≠ [])
    (depth : Nat) (hx : x ∈ g.liveGroups) : flattenTo depth g x = g := by
  induction depth generalizing x with
  | zero => rfl
  | succ depth ih =>
    have hchild : ∀ y, g.Contains x y → flattenTo depth g y = g := fun y hy =>
      ih (hg.live_step hx hy)
    have hhosted : (g.hostedIn x).foldl (flattenTo depth) g = g := by
      refine List.foldlRecOn (motive := (· = g)) (g.hostedIn x) _ rfl fun g' hg' y hy => ?_
      obtain ⟨i, hi, hiy⟩ := List.mem_filterMap.1 hy
      rw [hg']
      exact hchild y (.inr ⟨i, hi, hiy⟩)
    have hsubs : ∀ ys kept, ys ⊆ (g.group x).subgroups →
        ys.foldl (absorb depth x) (g, kept) = (g, kept ++ ys) := by
      intro ys
      induction ys with
      | nil => exact fun kept _ => by rw [List.append_nil]; rfl
      | cons y ys ih =>
        intro kept hys
        obtain ⟨hy, hys⟩ := List.cons_subset.1 hys
        have habsorb : absorb depth x (g, kept) y = (g, kept ++ [y]) := by
          unfold absorb
          rw [hchild y (.inl hy), if_neg fun h => hbound x hx y hy (List.isEmpty_iff.1 h)]
        rw [List.foldl_cons, habsorb, ih _ hys, List.append_assoc]
        rfl
    rw [flattenTo_succ]
    show prune depth ((g.hostedIn x).foldl (flattenTo depth) g) x = g
    rw [hhosted, prune, hsubs _ _ (List.Subset.refl _)]
    exact modifyGroup_eq_self rfl

/-- However a graph has been assembled, as long as its containment is a tree (no group lies in
itself, and a live one has one place), flattening it does nothing but dissolve the sub-groups without
inputs, and flattening it again changes nothing. -/
theorem flattening_conserves (hg : Assembled g) (hacyclic : g.Acyclic) (hplace : g.OnePlace) :
    g.Conserves g.flatten ∧ g.flatten.flatten = g.flatten := by
  have h := hg.orderly.wellScoped hacyclic
  have hone := hacyclic.nodup_liveGroups_iff.2 hplace
  refine ⟨h.conserves hone hg.orderly.merges, ?_⟩
  exact h.flatten.acyclic.flattenTo_eq_self (fun _ hx _ hy => h.bound_flatten hone hx hy) _
    (g.flatten.mem_groups_nestTo_self _ root)

/-- Two groups inside each other have no inputs, the inner one has a merge and a group comes after
it in the outer one: what is in them moves to the root, before what comes after them there. -/
theorem flattening_conserves_nested : ∃ g : Graph Float, Constructed g ∧
    g.liveGroups = [⟨0⟩, ⟨4⟩, ⟨1⟩, ⟨3⟩, ⟨2⟩] ∧
    (g.flatten.group root).subgroups = [⟨3⟩, ⟨4⟩] ∧ (g.flatten.group root).merges = [⟨0⟩] ∧
    g.Conserves g.flatten ∧ g.flatten.flatten = g.flatten := by
  have hg : Constructed ((((((((empty (S := Float).perform (.addInput root 'x')).perform
      (.addSubgroup root)).perform (.addSubgroup ⟨1⟩)).perform (.addMerge ⟨2⟩ none none)).perform
      (.addSubgroup ⟨1⟩)).perform (.addInput ⟨3⟩ 'y')).perform (.addSubgroup root)).perform
      (.addInput ⟨4⟩ 'z')) := by
    refine .perform (.perform (.perform (.perform (.perform (.perform (.perform (.perform .new ?_)
      ?_) ?_) ?_) ?_) ?_) ?_) ?_
    all_goals
      unfold Permits
      decide +kernel
  have hacyclic := hg.wellScoped.acyclic
  have hplace := hacyclic.nodup_liveGroups_iff.1
  refine ⟨_, hg, ?_, ?_, ?_, flattening_conserves hg.assembled hacyclic (hplace ?_)⟩
  all_goals decide +kernel

end Graph

end LambdaDiagram
