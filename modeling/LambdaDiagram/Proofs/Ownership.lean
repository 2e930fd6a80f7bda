import LambdaDiagram.Proofs.Census
import LambdaDiagram.Proofs.LinkIntegrity
import Mathlib.Data.List.Nodup

/-!
Who owns what. The live groups of a forest make up one tree: the root lies in no group, and any
other live group lies in exactly one, which is listed before it. Each live input and each live merge
belongs to exactly one live group. As a graph is built nothing in it is out of reach, and flattening
puts only the groups out of reach that it dissolves.
-/

namespace LambdaDiagram

variable {S : Type} [Scalar S]

namespace Graph

/-- `g.Contains x y`: the group `y` lies directly in the group `x`, which has it as a sub-group or
has an input that hosts it. -/
def Contains (g : Graph S) (x y : GroupId) : Prop :=
  y ∈ (g.group x).subgroups ∨ ∃ i ∈ (g.group x).inputs, (g.input i).hosted = some y

/-- `g.OneOwner list a`: of the lists of the live groups one has `a`, and has it once. -/
def OneOwner {α : Type} [DecidableEq α] (g : Graph S) (list : Group S → List α) (a : α) : Prop :=
  ∃ x ∈ g.liveGroups, ∀ y ∈ g.liveGroups, (list (g.group y)).count a = if y = x then 1 else 0

/-- Ownership is a tree of live groups, in which each live input and each live merge has a place. -/
structure OwnershipTree (g : Graph S) : Prop where
  /-- Each live group is listed once. -/
  nodup : g.liveGroups.Nodup
  /-- The root is live. -/
  root_live : root ∈ g.liveGroups
  /-- The root is a sub-group of no group and hosted by no input. -/
  root_apart : (∀ x, root ∉ (g.group x).subgroups) ∧ ∀ i, (g.input i).hosted ≠ some root
  /-- Any other live group either is a sub-group of one group and hosted by no input, or is hosted
  by one input and a sub-group of no group. -/
  places : ∀ y ∈ g.liveGroups, y ≠ root →
    (g.OneOwner Group.subgroups y ∧ ∀ i, (g.input i).hosted ≠ some y) ∨
    ((∃ i ∈ g.liveInputs, ∀ j, (g.input j).hosted = some y ↔ j = i) ∧
      ∀ x, y ∉ (g.group x).subgroups)
  /-- Each live input belongs to one group. -/
  inputs : ∀ i ∈ g.liveInputs, g.OneOwner Group.inputs i
  /-- Each live merge belongs to one group. -/
  merges : ∀ m ∈ g.liveMerges, g.OneOwner Group.merges m
  /-- A group is listed before whatever lies in it. -/
  before : ∀ x ∈ g.liveGroups, ∀ y, g.Contains x y → [x, y].Sublist g.liveGroups
  /-- The parent of a sub-group is the group that it lies in. -/
  parent : ∀ x ∈ g.liveGroups, ∀ y ∈ (g.group x).subgroups, (g.group y).parent = some x
  /-- The root and the hosted groups have no parent. -/
  outermost : ∀ x, (x = root ∨ ∃ i, (g.input i).hosted = some x) → (g.group x).parent = none

variable {g : Graph S} {home x y z : GroupId} {r b : Reading} {value : Option Source}
variable {first : Tree} {others : List Tree}

/-! ## Groups of a reading -/

/-- The sub-groups of the group around a reading have it as their parent. -/
theorem Nested.parent_own (h : g.Nested home b) (hx : x ∈ b.ownGroups) :
    (g.group x).parent = some home := by
  induction b with
  | hole | var => cases hx
  | app m f a ihf iha =>
    rcases List.mem_append.1 hx with hx | hx
    · exact ihf h.1 hx
    · exact iha h.2 hx
  | abs id bs b =>
    obtain rfl := List.mem_singleton.1 hx
    exact h.1

/-- The sub-groups of a group of a reading have it as their parent. -/
theorem Nested.parent_subgroup (h : g.Nested home b) (hy : y ∈ b.groups)
    (hx : x ∈ (g.group y).subgroups) : (g.group x).parent = some y := by
  induction b generalizing home with
  | hole | var => cases hy
  | app m f a ihf iha =>
    rcases List.mem_append.1 hy with hy | hy
    · exact ihf h.1 hy
    · exact iha h.2 hy
  | abs id bs b ih =>
    obtain ⟨-, ⟨-, hs⟩, hb⟩ := h
    rcases List.mem_cons.1 hy with rfl | hy
    · rw [hs] at hx
      exact hb.parent_own hx
    · exact ih hb hy

/-- The groups that stay in a collapsed reading are those with inputs. -/
theorem Reads.mem_groups_collapse (h : g.Reads value r) :
    x ∈ r.collapse.groups ↔ x ∈ r.groups ∧ (g.group x).inputs ≠ [] := by
  induction r generalizing value with
  | hole | var => simp [Reading.collapse, Reading.groups]
  | app m f a ihf iha =>
    obtain ⟨-, -, hf, ha⟩ := h
    rw [Reading.collapse, Reading.groups, Reading.groups, List.mem_append, List.mem_append,
      ihf hf, iha ha, or_and_right]
  | abs id bs b ih =>
    obtain ⟨-, -, rfl, hb⟩ := h
    have hid : (g.binders id).isEmpty = (g.group id).inputs.isEmpty := by
      rw [← map_fst_binders, List.isEmpty_map]
    cases he : (g.group id).inputs with
    | nil =>
      have hnil : g.binders id = [] := binders_eq_nil he
      rw [hnil, Reading.collapse_abs_nil, ih hb, Reading.groups, List.mem_cons]
      constructor
      · rintro ⟨hx, hi⟩
        exact ⟨.inr hx, hi⟩
      · rintro ⟨rfl | hx, hi⟩
        · exact absurd he hi
        · exact ⟨hx, hi⟩
    | cons i ids =>
      rw [he] at hid
      rw [Reading.collapse_abs_of_binders hid, Reading.groups, Reading.groups, List.mem_cons,
        List.mem_cons, ih hb]
      constructor
      · rintro (rfl | ⟨hx, hi⟩)
        · exact ⟨.inl rfl, by simp [he]⟩
        · exact ⟨.inr hx, hi⟩
      · rintro ⟨rfl | hx, hi⟩
        · exact .inl rfl
        · exact .inr ⟨hx, hi⟩

/-! ## The order of a nest -/

/-- What lies directly in a group, as a nest lists it: from the last sub-group to the first, then
from the last hosted group to the first. -/
def contents (g : Graph S) (x : GroupId) : List GroupId :=
  (((g.group x).inputs.filterMap fun i => (g.input i).hosted) ++ (g.group x).subgroups).reverse

theorem mem_contents : y ∈ g.contents x ↔ g.Contains x y := by
  rw [contents, List.mem_reverse, List.mem_append, List.mem_filterMap, Contains, or_comm]

/-- A nest lists its group and then the nests of what lies directly in it. -/
theorem groups_nestTo_succ (g : Graph S) (d : Nat) (x : GroupId) :
    (g.nestTo (d + 1) x).groups =
      x :: (g.contents x).flatMap fun y => (g.nestTo d y).groups := by
  rw [nestTo, Nest.groups, groups_nestsWith, groups_anchorsWith, ← List.flatMap_append,
    ← List.reverse_append, contents]

theorem mem_groups_nestTo_self (g : Graph S) (d : Nat) (x : GroupId) :
    x ∈ (g.nestTo d x).groups := by
  cases d with
  | zero => exact List.mem_cons_self
  | succ d =>
    rw [groups_nestTo_succ]
    exact List.mem_cons_self

/-- Whatever a nest lists, its own group apart, comes after a group in which it lies directly. -/
theorem exists_container_before (g : Graph S) (d : Nat) :
    y ∈ (g.nestTo d x).groups →
      y = x ∨ ∃ z, g.Contains z y ∧ [z, y].Sublist (g.nestTo d x).groups := by
  induction d generalizing x with
  | zero => exact fun hy => .inl (List.mem_singleton.1 hy)
  | succ d ih =>
    rw [groups_nestTo_succ]
    intro hy
    rcases List.mem_cons.1 hy with rfl | hy
    · exact .inl rfl
    · obtain ⟨c, hc, hyc⟩ := List.mem_flatMap.1 hy
      rcases ih hyc with rfl | ⟨z, hz, hs⟩
      · have hmem : y ∈ (g.contents x).flatMap fun y => (g.nestTo d y).groups :=
          List.mem_flatMap.2 ⟨y, hc, g.mem_groups_nestTo_self d y⟩
        exact .inr ⟨x, mem_contents.1 hc, (List.singleton_sublist.2 hmem).cons_cons x⟩
      · have hsub : (g.nestTo d c).groups.Sublist
            ((g.contents x).flatMap fun y => (g.nestTo d y).groups) :=
          List.sublist_flatten_of_mem (List.mem_map_of_mem hc)
        exact .inr ⟨z, hz, (hs.trans hsub).cons x⟩

/-! ## One owner -/

/-- Lists without repetition that share nothing are put one after the other without repetition. -/
theorem nodup_flatMap_of_apart {α β : Type} {f : α → List β} {l : List α} (hl : l.Nodup)
    (hf : ∀ a ∈ l, (f a).Nodup) (hapart : ∀ a ∈ l, ∀ b ∈ l, ∀ x, x ∈ f a → x ∈ f b → a = b) :
    (l.flatMap f).Nodup := by
  refine List.nodup_flatMap.2 ⟨hf, ?_⟩
  exact hl.imp_of_mem fun ha hb hne x hxa hxb => hne (hapart _ ha _ hb x hxa hxb)

/-- When the lists of the live groups repeat nothing between them, each member has one owner. -/
theorem oneOwner_of_nodup {α : Type} [DecidableEq α] {list : Group S → List α} {a : α}
    (hn : (g.liveGroups.flatMap fun x => list (g.group x)).Nodup)
    (ha : a ∈ g.liveGroups.flatMap fun x => list (g.group x)) : g.OneOwner list a := by
  obtain ⟨x, hx, ha⟩ := List.mem_flatMap.1 ha
  refine ⟨x, hx, fun y hy => ?_⟩
  split
  · rename_i he
    subst he
    exact List.count_eq_one_of_mem ((List.nodup_flatMap.1 hn).1 y hy) ha
  · rename_i hne
    exact List.count_eq_zero_of_not_mem fun hm => hne (eq_of_nodup_flatMap hn hy hx hm ha)

namespace Forest

variable (h : g.Forest first others)

include h

theorem nodup_subgroups : (g.liveGroups.flatMap fun x => (g.group x).subgroups).Nodup := by
  refine h.subgroups_perm.nodup_iff.2 ?_
  obtain ⟨hn, hd⟩ := List.nodup_flatMap.1 h.groups
  refine List.nodup_flatMap.2 ⟨fun t ht => (hn t ht).of_cons, hd.imp ?_⟩
  intro t u htu x hxt hxu
  exact htu (List.mem_cons_of_mem _ hxt) (List.mem_cons_of_mem _ hxu)

/-- What lies in the body of a tree is the top of none. -/
theorem ne_top_of_mem_body {t u : Tree} (ht : t ∈ first :: others) (hu : u ∈ first :: others)
    (hy : y ∈ t.body.groups) : y ≠ u.top := by
  rintro rfl
  obtain rfl := h.tree_unique ht hu (List.mem_cons_of_mem _ hy) List.mem_cons_self
  exact (List.nodup_cons.1 (h.tree_nodup ht)).1 hy

/-- The top of a tree is a sub-group of no group. -/
theorem not_mem_subgroups_of_top {t : Tree} (ht : t ∈ first :: others) :
    t.top ∉ (g.group x).subgroups := by
  intro hm
  obtain ⟨u, hu, hbody⟩ := h.mem_body_of_subgroup hm
  exact h.ne_top_of_mem_body hu ht hbody rfl

/-- What lies in the body of a tree is hosted by no input. -/
theorem not_hosted_of_mem_body {t : Tree} (ht : t ∈ first :: others) (hy : y ∈ t.body.groups)
    (i : InputId) : (g.input i).hosted ≠ some y := by
  intro hi
  obtain ⟨u, hu, rfl⟩ := h.exists_tree (.inr ⟨i, hi⟩)
  exact h.ne_top_of_mem_body ht hu hy rfl

theorem nodup_tops : (others.map Tree.top).Nodup := by
  have hn : (others.flatMap Tree.groups).Nodup := (List.nodup_append.1 h.groups).2.1
  obtain ⟨-, hd⟩ := List.nodup_flatMap.1 hn
  refine List.Pairwise.map Tree.top ?_ hd
  intro t u htu he
  exact htu List.mem_cons_self (he ▸ List.mem_cons_self)

/-- No two inputs host the same group. -/
theorem host_unique {i j : InputId} (hi : (g.input i).hosted = some x)
    (hj : (g.input j).hosted = some x) : i = j := by
  have hn := h.nodup_tops
  rw [← h.filterMap_hosted, List.filterMap_eq_flatMap_toList] at hn
  exact eq_of_nodup_flatMap hn (h.mem_inputs_of_hosted hi) (h.mem_inputs_of_hosted hj)
    (Option.mem_toList.2 hi) (Option.mem_toList.2 hj)

/-- The top of each tree but the first is hosted. -/
theorem exists_host {t : Tree} (ht : t ∈ others) :
    ∃ i ∈ (g.group Graph.root).inputs, (g.input i).hosted = some t.top := by
  have hm : t.top ∈ others.map Tree.top := List.mem_map_of_mem ht
  rw [← h.filterMap_hosted] at hm
  exact List.mem_filterMap.1 hm

theorem root_live : Graph.root ∈ g.liveGroups := by
  refine h.mem_liveGroups_of_tree List.mem_cons_self ?_
  rw [← h.root]
  exact List.mem_cons_self

theorem root_not_hosted (i : InputId) : (g.input i).hosted ≠ some Graph.root := by
  intro hi
  obtain ⟨t, ht, he⟩ := List.mem_map.1 (h.mem_tops_of_hosted hi)
  refine h.root_not_mem ht ?_
  rw [← he]
  exact List.mem_cons_self

/-- A live group other than the root is the top of another tree or lies in the body of one. -/
theorem top_or_body (hy : y ∈ g.liveGroups) (hne : y ≠ Graph.root) :
    (∃ t ∈ others, t.top = y) ∨ ∃ t ∈ first :: others, y ∈ t.body.groups := by
  obtain ⟨t, ht, hy⟩ := List.mem_flatMap.1 (h.mem_liveGroups.1 hy)
  rcases List.mem_cons.1 hy with rfl | hbody
  · rcases List.mem_cons.1 ht with rfl | ht
    · exact absurd h.root hne
    · exact .inl ⟨t, ht, rfl⟩
  · exact .inr ⟨t, ht, hbody⟩

/-- What lies in a group is live and not the root. -/
theorem live_of_contains (hc : g.Contains x y) :
    y ∈ g.liveGroups ∧ y ≠ Graph.root := by
  rcases hc with hs | ⟨i, -, hi⟩
  · obtain ⟨t, ht, hy⟩ := h.mem_body_of_subgroup hs
    refine ⟨h.mem_liveGroups_of_tree ht (List.mem_cons_of_mem _ hy), ?_⟩
    rw [← h.root]
    exact h.ne_top_of_mem_body ht List.mem_cons_self hy
  · obtain ⟨t, ht, rfl⟩ := h.exists_tree (.inr ⟨i, hi⟩)
    refine ⟨h.mem_liveGroups_of_tree ht List.mem_cons_self, fun he => ?_⟩
    exact h.root_not_hosted i (he ▸ hi)

/-- No group lies directly in two live ones. -/
theorem container_unique (hx : x ∈ g.liveGroups) (hz : z ∈ g.liveGroups) (hxy : g.Contains x y)
    (hzy : g.Contains z y) : x = z := by
  have hcross : ∀ {i : InputId} {w : GroupId}, y ∈ (g.group w).subgroups →
      (g.input i).hosted ≠ some y := by
    intro i w hw
    obtain ⟨t, ht, hy⟩ := h.mem_body_of_subgroup hw
    exact h.not_hosted_of_mem_body ht hy i
  rcases hxy with hxs | ⟨i, hix, hi⟩ <;> rcases hzy with hzs | ⟨j, hjz, hj⟩
  · exact eq_of_nodup_flatMap h.nodup_subgroups hx hz hxs hzs
  · exact absurd hj (hcross hxs)
  · exact absurd hi (hcross hzs)
  · obtain rfl := h.host_unique hi hj
    exact eq_of_nodup_flatMap h.liveInputs_inventory.1 hx hz hix hjz

/-- In a forest ownership is a tree. -/
theorem ownershipTree : g.OwnershipTree where
  nodup := h.liveGroups_perm.nodup_iff.2 h.groups
  root_live := h.root_live
  root_apart := by
    refine ⟨fun x => ?_, h.root_not_hosted⟩
    rw [← h.root]
    exact h.not_mem_subgroups_of_top List.mem_cons_self
  places := by
    intro y hy hne
    rcases h.top_or_body hy hne with ⟨t, ht, rfl⟩ | ⟨t, ht, hbody⟩
    · obtain ⟨i, hi, hhost⟩ := h.exists_host ht
      refine .inr ⟨⟨i, List.mem_flatMap.2 ⟨Graph.root, h.root_live, hi⟩, fun j => ?_⟩, fun x => ?_⟩
      · exact ⟨fun hj => h.host_unique hj hhost, fun he => he ▸ hhost⟩
      · exact h.not_mem_subgroups_of_top (List.mem_cons_of_mem _ ht)
    · refine .inl ⟨oneOwner_of_nodup h.nodup_subgroups ?_, h.not_hosted_of_mem_body ht hbody⟩
      exact h.subgroups_perm.mem_iff.2 (List.mem_flatMap.2 ⟨t, ht, hbody⟩)
  inputs _ hi := oneOwner_of_nodup h.liveInputs_inventory.1 hi
  merges _ hm := oneOwner_of_nodup h.liveMerges_inventory.1 hm
  before := by
    intro x hx y hc
    obtain ⟨hy, hne⟩ := h.live_of_contains hc
    rcases g.exists_container_before _ hy with rfl | ⟨z, hz, hs⟩
    · exact absurd rfl hne
    · -- the group before `y` in which it lies is the only one
      have hzlive : z ∈ g.liveGroups := hs.subset List.mem_cons_self
      obtain rfl := h.container_unique hx hzlive hc hz
      exact hs
  parent := by
    intro x hx y hy
    obtain ⟨t, ht, hxt⟩ := List.mem_flatMap.1 (h.mem_liveGroups.1 hx)
    have hp := h.planted t ht
    rcases List.mem_cons.1 hxt with rfl | hxt
    · rw [hp.encloses.2] at hy
      exact hp.nested.parent_own hy
    · exact hp.nested.parent_subgroup hxt hy
  outermost := by
    intro x hx
    obtain ⟨t, ht, rfl⟩ := h.exists_tree hx
    exact (h.planted t ht).parent

/-- Flattening leaves the root, the hosted groups and the groups with inputs in reach. -/
theorem mem_liveGroups_flatten : x ∈ g.flatten.liveGroups ↔ x ∈ g.liveGroups ∧
    ((x = Graph.root ∨ ∃ i, (g.input i).hosted = some x) ∨ (g.group x).inputs ≠ []) := by
  have hbody : ∀ t ∈ first :: others,
      (x ∈ t.body.collapse.groups ↔ x ∈ t.body.groups ∧ (g.group x).inputs ≠ []) :=
    fun t ht => (h.planted t ht).reads.2.2.2.mem_groups_collapse
  rw [h.flatten.1.mem_liveGroups, ← List.map_cons, List.flatMap_map]
  constructor
  · intro hx
    obtain ⟨t, ht, hx⟩ := List.mem_flatMap.1 hx
    rcases List.mem_cons.1 hx with rfl | hx
    · refine ⟨h.mem_liveGroups_of_tree ht List.mem_cons_self, .inl ?_⟩
      rcases List.mem_cons.1 ht with rfl | ht
      · exact .inl h.root
      · obtain ⟨i, -, hi⟩ := h.exists_host ht
        exact .inr ⟨i, hi⟩
    · obtain ⟨hx, hi⟩ := (hbody t ht).1 hx
      exact ⟨h.mem_liveGroups_of_tree ht (List.mem_cons_of_mem _ hx), .inr hi⟩
  · rintro ⟨hlive, htop | hi⟩
    · obtain ⟨t, ht, rfl⟩ := h.exists_tree htop
      exact List.mem_flatMap.2 ⟨t, ht, List.mem_cons_self⟩
    · obtain ⟨t, ht, hx⟩ := List.mem_flatMap.1 (h.mem_liveGroups.1 hlive)
      refine List.mem_flatMap.2 ⟨t, ht, ?_⟩
      rcases List.mem_cons.1 hx with rfl | hx
      · exact List.mem_cons_self
      · exact List.mem_cons_of_mem _ ((hbody t ht).2 ⟨hx, hi⟩)

theorem length_inputs : ((first :: others).flatMap Tree.inputs).length = g.inputs.size :=
  h.inputs.length_eq InputId.index_inj fun n => ⟨⟨n⟩, rfl⟩

theorem length_merges : ((first :: others).flatMap Tree.merges).length = g.merges.size :=
  h.merges.length_eq MergeId.index_inj fun n => ⟨⟨n⟩, rfl⟩

/-- Flattening neither makes nor drops an input. -/
theorem inputs_size_flatten : g.flatten.inputs.size = g.inputs.size := by
  rw [← h.flatten.1.length_inputs, ← h.length_inputs, ← List.map_cons,
    flatMap_collapse Tree.inputs_collapse]

/-- Flattening neither makes nor drops a merge. -/
theorem merges_size_flatten : g.flatten.merges.size = g.merges.size := by
  rw [← h.flatten.1.length_merges, ← h.length_merges, ← List.map_cons,
    flatMap_collapse Tree.merges_collapse]

end Forest

/-- Ownership is a tree, as the graph of a chain that starts with a group is built and after it has
been flattened. As it is built, every group is live: there is one for each group of the chain and
for each variable that an input of the root hosts. Flattening leaves those live that are hosted or
have inputs, and the root. All inputs and all merges are live before and after: there is an input
for each binder of the chain, and in each group a merge for each term of its body but the first, and
in the root one for each term that is left over. -/
theorem ownership_is_tree (names : List Char) (body : Chain) (rest : List Term) :
    ∃ g : Graph S, ofChain? (.ofTerms (.group names body) rest) = .ok g ∧
      (g.OwnershipTree ∧ Inventory GroupId.index g.liveGroups g.groups.size ∧
        Inventory InputId.index g.liveInputs g.inputs.size ∧
        Inventory MergeId.index g.liveMerges g.merges.size) ∧
      (g.groups.size = (Chain.ofTerms (.group names body) rest).sumGroups (fun _ _ => 1) +
          (rest.take names.length).countP (fun t => t.body?.isNone) ∧
        g.inputs.size = (Chain.ofTerms (.group names body) rest).sumGroups
          (fun binders _ => binders.length) ∧
        g.merges.size = (Chain.ofTerms (.group names body) rest).sumGroups
          (fun _ body => body.length - 1) + (rest.drop names.length).length) ∧
      g.flatten.OwnershipTree ∧
      (∀ x, x ∈ g.flatten.liveGroups ↔ x ∈ g.liveGroups ∧
        ((x = root ∨ ∃ i, (g.input i).hosted = some x) ∨ (g.group x).inputs ≠ [])) ∧
      Inventory InputId.index g.flatten.liveInputs g.inputs.size ∧
      Inventory MergeId.index g.flatten.liveMerges g.merges.size := by
  obtain ⟨g, first, others, hg, hforest, hall, -, hfirst, hothers⟩ :=
    exists_whole_forest (S := S) names body rest
  have hgroups := hall.length_eq GroupId.index_inj fun n => ⟨⟨n⟩, rfl⟩
  have hflat := hforest.flatten.1
  refine ⟨g, hg, ⟨hforest.ownershipTree, hall.perm hforest.liveGroups_perm.symm,
    hforest.liveInputs_inventory, hforest.liveMerges_inventory⟩, ⟨?_, ?_, ?_⟩,
    hflat.ownershipTree, fun x => hforest.mem_liveGroups_flatten, ?_, ?_⟩
  · have hcount := countedBy_groups.length_forest hfirst hothers
    rw [Prices.group_groups] at hcount
    exact hgroups.symm.trans (hcount.trans (by simp [Prices.groups]))
  · have hcount := countedBy_inputs.length_forest hfirst hothers
    rw [Prices.group_inputs] at hcount
    exact hforest.length_inputs.symm.trans (hcount.trans (by simp [Prices.inputs]))
  · have hcount := countedBy_merges.length_forest hfirst hothers
    rw [Prices.group_merges] at hcount
    exact hforest.length_merges.symm.trans (hcount.trans (by simp [Prices.merges]))
  · rw [← hforest.inputs_size_flatten]
    exact hflat.liveInputs_inventory
  · rw [← hforest.merges_size_flatten]
    exact hflat.liveMerges_inventory

end Graph

end LambdaDiagram
