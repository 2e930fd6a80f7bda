import LambdaDiagram.Proofs.FlattenedScope
import LambdaDiagram.Proofs.NestView
import LambdaDiagram.Proofs.Relinking
import Mathlib.Algebra.BigOperators.Group.List.Basic

/-!
What flattening leaves in each group, read off the graph before. A sub-group without inputs gives way
to what it hands over, which is its merges and what comes in the place of its own sub-groups. So what
a group has afterwards follows its nest, as long as no group lies in two places.
-/

namespace LambdaDiagram

variable {S : Type} [Scalar S]

/-! ## What a nest hands over -/

mutual

/-- What comes in the place of a sub-group: the group itself, or what comes in the place of its own
sub-groups if it has no inputs. -/
def Nest.hoisted : Nest → List GroupId
  | .group _ .nil subgroups => subgroups.hoisted
  | .group id (.bare _ _) _ => [id]
  | .group id (.hosting _ _ _) _ => [id]

/-- What comes in the place of sub-groups, one after the other. -/
def Nests.hoisted : Nests → List GroupId
  | .nil => []
  | .cons n rest => n.hoisted ++ rest.hoisted

end

mutual

/-- The merges that a sub-group hands over: its own and those that its sub-groups hand over, if it
has no inputs, and none else. -/
def Nest.released (g : Graph S) : Nest → List MergeId
  | .group id .nil subgroups => (g.group id).merges ++ subgroups.released g
  | .group _ (.bare _ _) _ => []
  | .group _ (.hosting _ _ _) _ => []

/-- The merges that sub-groups hand over, one after the other. -/
def Nests.released (g : Graph S) : Nests → List MergeId
  | .nil => []
  | .cons n rest => n.released g ++ rest.released g

end

/-- The nests of the sub-groups. -/
def Nest.subgroups : Nest → Nests
  | .group _ _ subgroups => subgroups

namespace Graph

/-- The sub-groups of a group after flattening. -/
def flatSubgroups (g : Graph S) (x : GroupId) : List GroupId := (g.nest x).subgroups.hoisted

/-- The merges of a group after flattening. -/
def flatMerges (g : Graph S) (x : GroupId) : List MergeId :=
  (g.group x).merges ++ (g.nest x).subgroups.released g

/-- A live sub-group without inputs, which is dissolved. -/
def Dissolves (g : Graph S) (x : GroupId) : Prop :=
  (g.group x).inputs = [] ∧ ∃ y ∈ g.liveGroups, x ∈ (g.group y).subgroups

instance (g : Graph S) (x : GroupId) : Decidable (g.Dissolves x) := instDecidableAnd

/-- Containment is a tree: a live group lies directly in one group at most, which lists it as a
sub-group or hosts it, once. -/
structure OnePlace (g : Graph S) : Prop where
  once : ∀ x ∈ g.liveGroups, (g.contents x).Nodup
  container : ∀ x ∈ g.liveGroups, ∀ y ∈ g.liveGroups, ∀ z, g.Contains x z → g.Contains y z → x = y

/-- What is drawn inside of a group: its merges and its sub-groups. -/
def interior (g : Graph S) (x : GroupId) : List MergeId × List GroupId :=
  ((g.group x).merges, (g.group x).subgroups)

/-- What is drawn inside of a group after flattening. -/
def flatInterior (g : Graph S) (x : GroupId) : List MergeId × List GroupId :=
  if g.Dissolves x then ([], []) else (g.flatMerges x, g.flatSubgroups x)

variable {g g' : Graph S} {x y : GroupId}

theorem Acyclic.hoisted_nest (hg : g.Acyclic) (x : GroupId) : (g.nest x).hoisted =
    if (g.group x).inputs.isEmpty then g.flatSubgroups x else [x] := by
  rw [flatSubgroups, hg.nest_eq]
  cases hinputs : (g.group x).inputs with
  | nil => rfl
  | cons i rest =>
    rw [anchorsWith]
    cases (g.input i).hosted <;> rfl

theorem Acyclic.released_nest (hg : g.Acyclic) (x : GroupId) : (g.nest x).released g =
    if (g.group x).inputs.isEmpty then g.flatMerges x else [] := by
  rw [flatMerges, hg.nest_eq]
  cases hinputs : (g.group x).inputs with
  | nil => rfl
  | cons i rest =>
    rw [anchorsWith]
    cases (g.input i).hosted <;> rfl

theorem hoisted_nestsWith (nestOf : GroupId → Nest) (ys : List GroupId) :
    (nestsWith nestOf ys).hoisted = ys.flatMap fun y => (nestOf y).hoisted := by
  induction ys with
  | nil => rfl
  | cons y ys ih => rw [nestsWith, Nests.hoisted, ih, List.flatMap_cons]

theorem released_nestsWith (g : Graph S) (nestOf : GroupId → Nest) (ys : List GroupId) :
    (nestsWith nestOf ys).released g = ys.flatMap fun y => (nestOf y).released g := by
  induction ys with
  | nil => rfl
  | cons y ys ih => rw [nestsWith, Nests.released, ih, List.flatMap_cons]

theorem toList_nestsWith (nestOf : GroupId → Nest) (ys : List GroupId) :
    (nestsWith nestOf ys).toList = ys.map nestOf := by
  induction ys with
  | nil => rfl
  | cons y ys ih => rw [nestsWith, Nests.toList, ih, List.map_cons]

theorem AcyclicBelow.subgroups_nest (hx : g.AcyclicBelow x) :
    (g.nest x).subgroups.toList = (g.group x).subgroups.map g.nest := by
  rw [hx.nest_eq, Nest.subgroups, toList_nestsWith]

/-- Each sub-group without inputs gives way to its own flattened list. -/
theorem Acyclic.flatSubgroups_eq (hg : g.Acyclic) (x : GroupId) : g.flatSubgroups x =
    (g.group x).subgroups.flatMap fun y =>
      if (g.group y).inputs.isEmpty then g.flatSubgroups y else [y] := by
  simp only [← hg.hoisted_nest]
  rw [flatSubgroups, hg.nest_eq, Nest.subgroups, hoisted_nestsWith]

/-- Each sub-group without inputs hands over all its merges. -/
theorem Acyclic.flatMerges_eq (hg : g.Acyclic) (x : GroupId) : g.flatMerges x =
    (g.group x).merges ++ (g.group x).subgroups.flatMap fun y =>
      if (g.group y).inputs.isEmpty then g.flatMerges y else [] := by
  simp only [← hg.released_nest]
  rw [flatMerges, hg.nest_eq, Nest.subgroups, released_nestsWith]

theorem Acyclic.groups_nest (hg : g.Acyclic) (x : GroupId) : (g.nest x).groups =
    x :: (g.contents x).flatMap fun y => (g.nest y).groups :=
  (hg.below x).groups_nest

/-! ## Groups in one place -/

/-- Every group of a nest but the first lies directly in one of them. -/
theorem Acyclic.groups_perm (hg : g.Acyclic) (x : GroupId) :
    (g.nest x).groups.Perm (x :: (g.nest x).groups.flatMap g.contents) := by
  induction x using hg.inside_first with
  | group x ih =>
    have hinner : ∀ y ∈ g.contents x,
        (g.nest y).groups.Perm (y :: (g.nest y).groups.flatMap g.contents) := fun y hy =>
      ih y (mem_contents.1 hy)
    have hbelow : ((g.contents x).flatMap fun y => (g.nest y).groups).Perm (g.contents x ++
        (g.contents x).flatMap fun y => (g.nest y).groups.flatMap g.contents) := by
      have hheads := List.map_append_flatMap_perm (g.contents x) id
        fun y => (g.nest y).groups.flatMap g.contents
      rw [List.map_id] at hheads
      exact (List.Perm.flatMap_left _ hinner).trans hheads.symm
    rw [hg.groups_nest x, List.flatMap_cons, List.flatMap_assoc]
    exact hbelow.cons x

section

variable (hg : g.Acyclic)

include hg

/-- The root lies in no live group. -/
theorem Acyclic.not_contains_root (hx : x ∈ g.liveGroups) : ¬ g.Contains x root := fun hc =>
  hg root (.tail' (hg.mem_liveGroups_iff.1 hx) hc)

theorem Acyclic.not_dissolves_root : ¬ g.Dissolves root := by
  rintro ⟨-, x, hx, hroot⟩
  exact hg.not_contains_root hx (.inl hroot)

theorem Acyclic.nodup_contents (hone : g.liveGroups.Nodup) :
    (g.liveGroups.flatMap g.contents).Nodup :=
  (List.nodup_cons.1 ((hg.groups_perm root).nodup_iff.1 hone)).2

theorem OnePlace.count_le_one (h : g.OnePlace) (hx : g.Reached x) : g.liveGroups.count x ≤ 1 := by
  have hcount : ∀ z, g.liveGroups.count z = (root :: g.liveGroups.flatMap g.contents).count z :=
    (hg.groups_perm root).count_eq
  induction hx with
  | refl =>
    have hout : root ∉ g.liveGroups.flatMap g.contents := by
      intro hm
      obtain ⟨y, hy, hc⟩ := List.mem_flatMap.1 hm
      exact hg.not_contains_root hy (mem_contents.1 hc)
    rw [hcount, List.count_cons_self, List.count_eq_zero_of_not_mem hout]
  | @tail x z hx hxz ih =>
    have hlive := hg.mem_liveGroups_iff.2 hx
    have hne : root ≠ z := by
      rintro rfl
      exact hg.not_contains_root hlive hxz
    have hother : ∀ y, y ≠ x → y ∈ g.liveGroups → (List.count z ∘ g.contents) y = 0 := by
      intro y hyx hy
      refine List.count_eq_zero_of_not_mem fun hm => hyx ?_
      exact h.container y hy x hlive z (mem_contents.1 hm) hxz
    -- only the container of a group counts
    rw [hcount, List.count_cons_of_ne hne, List.count_flatMap,
      List.sum_map_eq_nsmul_single x _ hother]
    exact Nat.mul_le_mul ih (List.nodup_iff_count_le_one.1 (h.once x hlive) z)

/-- Containment is a tree when the nest of the root lists no group twice. -/
theorem Acyclic.nodup_liveGroups_iff : g.liveGroups.Nodup ↔ g.OnePlace := by
  constructor
  · intro hone
    have hnodup := hg.nodup_contents hone
    refine ⟨(List.nodup_flatMap.1 hnodup).1, fun x hx y hy z hxz hyz => ?_⟩
    exact eq_of_nodup_flatMap hnodup hx hy (mem_contents.2 hxz) (mem_contents.2 hyz)
  · intro h
    refine List.nodup_iff_count_le_one.2 fun x => ?_
    by_cases hx : x ∈ g.liveGroups
    · exact h.count_le_one hg (hg.mem_liveGroups_iff.1 hx)
    · rw [List.count_eq_zero_of_not_mem hx]
      exact Nat.zero_le 1

/-- What an input of a live group hosts is a sub-group of no live group. -/
theorem Acyclic.not_dissolves_hosted {i : InputId} (hone : g.liveGroups.Nodup)
    (hx : x ∈ g.liveGroups) (hi : i ∈ (g.group x).inputs) (hiy : (g.input i).hosted = some y) :
    ¬ g.Dissolves y := by
  rintro ⟨-, z, hz, hy⟩
  have hnodup := hg.nodup_contents hone
  have hxy : y ∈ g.contents x := mem_contents.2 (.inr ⟨i, hi, hiy⟩)
  obtain rfl := eq_of_nodup_flatMap hnodup hz hx (mem_contents.2 (.inl hy)) hxy
  have hlist := (List.nodup_flatMap.1 hnodup).1 z hz
  rw [contents, List.nodup_reverse] at hlist
  exact (List.nodup_append.1 hlist).2.2 y (List.mem_filterMap.2 ⟨i, hi, hiy⟩) y hy rfl

end

/-! ## Steps of flattening -/

/-- `g.SameInputs g'`: the nodes are the same, and groups have the inputs that they had. -/
structure SameInputs (g g' : Graph S) : Prop where
  nodes : g.SameNodes g'
  inputs : ∀ x, (g'.group x).inputs = (g.group x).inputs

theorem SameInputs.refl (g : Graph S) : g.SameInputs g := ⟨.refl g, fun _ => rfl⟩

theorem SameInputs.modifyGroup {g₀ : Graph S} (h : g₀.SameInputs g) (x : GroupId)
    {f : Group S → Group S} (hf : ∀ group, (f group).inputs = group.inputs) :
    g₀.SameInputs (g.modifyGroup x f) :=
  ⟨h.nodes.trans (modifyGroup_sameNodes g x f),
    fun y => (modifyGroup_keeps Group.inputs hf y).trans (h.inputs y)⟩

theorem SameInputs.dissolve {g₀ : Graph S} (h : g₀.SameInputs g) (id home : GroupId) :
    g₀.SameInputs (g.dissolve id home).1 := by
  have hbypass : g₀.SameInputs (g.bypass id) := by
    refine ⟨h.nodes.trans (g.bypass_sameNodes id), fun x => ?_⟩
    have hcontent := congrFun (g.content_bypass id) x
    exact (congrArg Content.inputs hcontent).trans (h.inputs x)
  have hdetach : g₀.SameInputs (g.detach id home) :=
    List.foldlRecOn (motive := g₀.SameInputs) (g.content id).subgroups _
      (hbypass.modifyGroup id fun _ => rfl)
      fun _ h orphan _ => h.modifyGroup orphan fun _ => rfl
  rw [dissolve_eq]
  exact hdetach.modifyGroup home fun _ => rfl

theorem SameInputs.flattenTo {g₀ : Graph S} (h : g₀.SameInputs g) (depth : Nat) (id : GroupId) :
    g₀.SameInputs (flattenTo depth g id) :=
  flattenTo_keeps (fun id home h => h.dissolve id home)
    (fun id _ h => h.modifyGroup id fun _ => rfl) depth id h

theorem interior_of_size_le (h : g.groups.size ≤ x.index) : g.interior x = ([], []) := by
  rw [interior, group_of_size_le h]
  rfl

theorem interior_bypass (id z : GroupId) : (g.bypass id).interior z = g.interior z := by
  have hcontent := congrFun (g.content_bypass id) z
  exact congrArg (fun content => (content.merges, content.subgroups)) hcontent

theorem interior_detach (id home z : GroupId) :
    (g.detach id home).interior z = if z = id then ([], []) else g.interior z := by
  have hcleared : ((g.bypass id).modifyGroup id cleared).interior z =
      if z = id then ([], []) else g.interior z := by
    rw [← g.interior_bypass id z, interior, group_modifyGroup]
    by_cases hz : z = id
    case pos =>
      rw [if_pos hz]
      split
      case isTrue => rfl
      case isFalse hout =>
        exact interior_of_size_le (Nat.le_of_not_lt fun hlt => hout ⟨hz.symm, hlt⟩)
    case neg =>
      rw [if_neg hz, if_neg fun h => hz h.1.symm]
      rfl
  -- another parent is no part of what is drawn inside
  have hparent : ∀ (g' : Graph S) (orphan : GroupId), (g'.modifyGroup orphan fun group =>
      { group with parent := some home }).interior z = g'.interior z := fun g' orphan =>
    modifyGroup_keeps (f := fun group => { group with parent := some home })
      (fun group => (group.merges, group.subgroups)) (fun _ => rfl) z
  exact List.foldlRecOn (motive := fun g' : Graph S => g'.interior z = _)
    (g.content id).subgroups _ hcleared fun g' h orphan _ => (hparent g' orphan).trans h

/-- A dissolved group is left empty, and its merges come after those of the group around it. -/
theorem interior_dissolve {id home : GroupId} (hne : home ≠ id)
    (hhome : home.index < g.groups.size) (z : GroupId) : (g.dissolve id home).1.interior z =
      if z = id then ([], [])
      else if z = home then
        ((g.group home).merges ++ (g.group id).merges, (g.group home).subgroups)
      else g.interior z := by
  have hhome' : home.index < (g.detach id home).groups.size := by
    rw [(g.detach_sameNodes id home).groups_size]
    exact hhome
  have hgroup : (g.detach id home).interior home = g.interior home := by
    rw [interior_detach, if_neg hne]
  obtain ⟨hmerges, hsubgroups⟩ := Prod.mk.inj hgroup
  rw [dissolve_eq, interior, group_modifyGroup]
  by_cases hz : z = home
  case pos =>
    subst hz
    rw [if_pos ⟨rfl, hhome'⟩, if_neg hne, if_pos rfl, hmerges, hsubgroups]
    rfl
  case neg =>
    rw [if_neg fun h => hz h.1.symm, if_neg hz]
    exact interior_detach id home z

theorem interior_list (id : GroupId) (kept : List GroupId) (z : GroupId) :
    (g.modifyGroup id fun group => { group with subgroups := kept }).interior z =
      if id = z ∧ z.index < g.groups.size then ((g.group z).merges, kept) else g.interior z := by
  rw [interior, group_modifyGroup]
  split <;> rfl

/-! ## Flattening one group -/

/-- Some groups are still to be flattened: what is drawn inside of them is as it was. -/
structure Pending (g₀ : Graph S) (zs : List GroupId) (g : Graph S) : Prop where
  same : g₀.SameInputs g
  interior : ∀ z ∈ zs, g.interior z = g₀.interior z

/-- What flattening a group does to what is drawn inside of it and of what lies in it. -/
structure Flattens (g₀ : Graph S) (x : GroupId) (g g' : Graph S) : Prop where
  here : g'.interior x = (g₀.flatMerges x, g₀.flatSubgroups x)
  inside : ∀ z ∈ (g₀.nest x).groups, z ≠ x → g'.interior z = g₀.flatInterior z
  outside : ∀ z, z ∉ (g₀.nest x).groups → g'.interior z = g.interior z

/-- Everything that lies in some groups. -/
def within (g : Graph S) (ys : List GroupId) : List GroupId := ys.flatMap fun y => (g.nest y).groups

theorem within_cons (g : Graph S) (y : GroupId) (ys : List GroupId) :
    g.within (y :: ys) = (g.nest y).groups ++ g.within ys := List.flatMap_cons

theorem within_singleton (g : Graph S) (y : GroupId) : g.within [y] = (g.nest y).groups :=
  List.flatMap_singleton ..

/-- What absorbing some sub-groups into a group does. -/
structure Takes (g₀ : Graph S) (x : GroupId) (ys : List GroupId)
    (state state' : Graph S × List GroupId) : Prop where
  same : g₀.SameInputs state'.1
  home : state'.1.interior x = ((state.1.interior x).1 ++ ys.flatMap fun y =>
    if (g₀.group y).inputs.isEmpty then g₀.flatMerges y else [], (state.1.interior x).2)
  kept : state'.2 = state.2 ++ ys.flatMap fun y =>
    if (g₀.group y).inputs.isEmpty then g₀.flatSubgroups y else [y]
  inside : ∀ z ∈ g₀.within ys, state'.1.interior z = g₀.flatInterior z
  outside : ∀ z, z ∉ g₀.within ys → z ≠ x → state'.1.interior z = state.1.interior z

section

variable {g₀ : Graph S} {depth : Nat} {ys zs : List GroupId} {state : Graph S × List GroupId}

theorem Pending.mono (h : g₀.Pending zs g) (hsub : ys ⊆ zs) : g₀.Pending ys g :=
  ⟨h.same, fun z hz => h.interior z (hsub hz)⟩

/-- A group that is not dissolved is as it is to be, with what lies in it. -/
theorem Flattens.settled (h : g₀.Flattens x g g') (hx : ¬ g₀.Dissolves x) :
    ∀ z ∈ (g₀.nest x).groups, g'.interior z = g₀.flatInterior z := by
  intro z hz
  by_cases hzx : z = x
  · rw [hzx, h.here, flatInterior, if_neg hx]
  · exact h.inside z hz hzx

variable (hflat : ∀ y ∈ ys, ∀ {g : Graph S}, g₀.Pending (g₀.nest y).groups g →
  g₀.Flattens y g (flattenTo depth g y))

include hflat

/-- Flattening hosted groups one after the other. -/
theorem Pending.foldl_hosted (hkept : ∀ y ∈ ys, ¬ g₀.Dissolves y) (hnodup : (g₀.within ys).Nodup)
    (h : g₀.Pending (g₀.within ys) g) :
    (∀ z ∈ g₀.within ys, (ys.foldl (flattenTo depth) g).interior z = g₀.flatInterior z) ∧
      ∀ z, z ∉ g₀.within ys → (ys.foldl (flattenTo depth) g).interior z = g.interior z := by
  induction ys generalizing g with
  | nil => exact ⟨List.forall_mem_nil _, fun _ _ => rfl⟩
  | cons y ys ih =>
    obtain ⟨hy, hys⟩ := List.forall_mem_cons.1 hkept
    obtain ⟨hfirst, hrest⟩ := List.forall_mem_cons.1 hflat
    have hcons : g₀.within (y :: ys) = (g₀.nest y).groups ++ g₀.within ys := rfl
    rw [hcons] at h hnodup ⊢
    obtain ⟨-, hnodup', hdisjoint⟩ := List.nodup_append'.1 hnodup
    have hdone := hfirst (h.mono (List.subset_append_left _ _))
    have hnext : g₀.Pending (g₀.within ys) (flattenTo depth g y) := by
      refine ⟨h.same.flattenTo depth y, fun z hz => ?_⟩
      rw [hdone.outside z fun hm => hdisjoint hm hz]
      exact h.interior z (List.mem_append_right _ hz)
    obtain ⟨hinside, houtside⟩ := ih hrest hys hnodup' hnext
    refine ⟨List.forall_mem_append.2 ⟨fun z hz => ?_, hinside⟩, fun z hz => ?_⟩
    · rw [List.foldl_cons, houtside z (hdisjoint hz)]
      exact hdone.settled hy z hz
    · obtain ⟨hz, hz'⟩ := not_or.1 (mt List.mem_append.2 hz)
      rw [List.foldl_cons, houtside z hz', hdone.outside z hz]

omit hflat in
theorem Takes.refl (g₀ : Graph S) (x : GroupId) (hs : g₀.SameInputs state.1) :
    g₀.Takes x [] state state where
  same := hs
  home := by rw [List.flatMap_nil, List.append_nil]
  kept := (List.append_nil _).symm
  inside := List.forall_mem_nil _
  outside _ _ _ := rfl

omit hflat in
/-- Absorbing one sub-group and then more. -/
theorem Takes.cons {state' state'' : Graph S × List GroupId} (h : g₀.Takes x [y] state state')
    (h' : g₀.Takes x ys state' state'') (hx : x ∉ (g₀.nest y).groups)
    (hdisjoint : (g₀.nest y).groups.Disjoint (g₀.within ys)) :
    g₀.Takes x (y :: ys) state state'' where
  same := h'.same
  home := by
    rw [h'.home, h.home, List.flatMap_singleton, List.flatMap_cons, List.append_assoc]
  kept := by
    rw [h'.kept, h.kept, List.flatMap_singleton, List.flatMap_cons, List.append_assoc]
  inside := by
    rw [within_cons]
    refine List.forall_mem_append.2 ⟨fun z hz => ?_, h'.inside⟩
    rw [h'.outside z (hdisjoint hz) (ne_of_mem_of_not_mem hz hx)]
    exact h.inside z (g₀.within_singleton y ▸ hz)
  outside z hz hne := by
    rw [within_cons] at hz
    obtain ⟨hz, hz'⟩ := not_or.1 (mt List.mem_append.2 hz)
    rw [h'.outside z hz' hne, h.outside z (g₀.within_singleton y ▸ hz) hne]

omit hflat in
/-- Absorbing one sub-group: it is flattened, and dissolved if it has no inputs. -/
theorem Flattens.takes (h : g₀.Flattens y state.1 (flattenTo depth state.1 y))
    (hs : g₀.SameInputs state.1) (hx : x.index < g₀.groups.size)
    (hxy : x ∉ (g₀.nest y).groups) (hsub : (g₀.group y).inputs = [] → g₀.Dissolves y) :
    g₀.Takes x [y] state (absorb depth x state y) := by
  let g := flattenTo depth state.1 y
  have hg : g₀.SameInputs g := hs.flattenTo depth y
  have hinputs : (g.group y).inputs = (g₀.group y).inputs := hg.inputs y
  have hhome : g.interior x = state.1.interior x := h.outside x hxy
  unfold absorb
  dsimp only
  rw [hinputs]
  split
  case isTrue hempty =>
    have hdissolves := hsub (List.isEmpty_iff.1 hempty)
    have hne : x ≠ y := by
      rintro rfl
      exact hxy (g₀.mem_groups_nestTo_self _ x)
    have hinterior := interior_dissolve hne (hg.nodes.groups_size.symm ▸ hx)
    obtain ⟨hmerges, hsubgroups⟩ := Prod.mk.inj h.here
    refine ⟨hg.dissolve y x, ?_, ?_, ?_, ?_⟩
    · rw [hinterior, if_neg hne, if_pos rfl, List.flatMap_singleton, if_pos hempty, ← hhome, hmerges]
      rfl
    · rw [List.flatMap_singleton, if_pos hempty, dissolve_eq]
      exact congrArg (state.2 ++ ·) hsubgroups
    · rw [within_singleton]
      intro z hz
      rw [hinterior]
      split
      case isTrue hzy => rw [hzy, flatInterior, if_pos hdissolves]
      case isFalse hzy =>
        rw [if_neg (ne_of_mem_of_not_mem hz hxy)]
        exact h.inside z hz hzy
    · rw [within_singleton]
      intro z hz hzx
      have hzy : z ≠ y := by
        rintro rfl
        exact hz (g₀.mem_groups_nestTo_self _ z)
      rw [hinterior, if_neg hzy, if_neg hzx]
      exact h.outside z hz
  case isFalse hempty =>
    have hkept : ¬ g₀.Dissolves y := fun hd => hempty (List.isEmpty_iff.2 hd.1)
    refine ⟨hg, ?_, ?_, ?_, ?_⟩
    · rw [List.flatMap_singleton, if_neg hempty, List.append_nil]
      exact hhome
    · rw [List.flatMap_singleton, if_neg hempty]
    · rw [within_singleton]
      exact h.settled hkept
    · rw [within_singleton]
      exact fun z hz _ => h.outside z hz

/-- Absorbing sub-groups one after the other. -/
theorem Pending.foldl_absorb
    (hlt : ∀ y ∈ ys, x.index < g₀.groups.size)
    (hsub : ∀ y ∈ ys, (g₀.group y).inputs = [] → g₀.Dissolves y)
    (hnodup : (x :: g₀.within ys).Nodup) (h : g₀.Pending (g₀.within ys) state.1) :
    g₀.Takes x ys state (ys.foldl (absorb depth x) state) := by
  induction ys generalizing state with
  | nil => exact .refl g₀ x h.same
  | cons y ys ih =>
    obtain ⟨hy, hys⟩ := List.forall_mem_cons.1 hlt
    obtain ⟨hysub, hyssub⟩ := List.forall_mem_cons.1 hsub
    obtain ⟨hfirst, hrest⟩ := List.forall_mem_cons.1 hflat
    rw [within_cons] at h hnodup
    obtain ⟨hout, hnodup⟩ := List.nodup_cons.1 hnodup
    obtain ⟨hxy, hxys⟩ := not_or.1 (mt List.mem_append.2 hout)
    obtain ⟨-, hnodup', hdisjoint⟩ := List.nodup_append'.1 hnodup
    have hone := (hfirst (h.mono (List.subset_append_left _ _))).takes h.same hy hxy hysub
    have hnext : g₀.Pending (g₀.within ys) (absorb depth x state y).1 := by
      refine ⟨hone.same, fun z hz => ?_⟩
      have hzy : z ∉ g₀.within [y] := by
        rw [within_singleton]
        exact fun hm => hdisjoint hm hz
      rw [hone.outside z hzy (ne_of_mem_of_not_mem hz hxys)]
      exact h.interior z (List.mem_append_right _ hz)
    have hmore := ih hrest hys hyssub (List.nodup_cons.2 ⟨hxys, hnodup'⟩) hnext
    exact hone.cons hmore hxy hdisjoint

end

section

variable {g₀ : Graph S} {depth : Nat}

/-- The groups that the inputs of a group host. -/
def hostedIn (g : Graph S) (x : GroupId) : List GroupId :=
  (g.group x).inputs.filterMap fun i => (g.input i).hosted

theorem SameInputs.hostedIn_eq (h : g₀.SameInputs g) (x : GroupId) :
    g.hostedIn x = g₀.hostedIn x := by
  rw [hostedIn, hostedIn, h.inputs]
  congr 1
  funext i
  exact congrArg Label.hosted (congrFun h.nodes.label i)

theorem Acyclic.groups_nest_perm (hg : g.Acyclic) (x : GroupId) : (g.nest x).groups.Perm
    (x :: (g.within (g.hostedIn x) ++ g.within (g.group x).subgroups)) := by
  rw [hg.groups_nest, within, within, ← List.flatMap_append]
  exact ((List.reverse_perm _).flatMap_right _).cons x

theorem Acyclic.mem_groups_nest (hg : g.Acyclic) : y ∈ (g.nest x).groups ↔
    y = x ∨ y ∈ g.within (g.hostedIn x) ∨ y ∈ g.within (g.group x).subgroups := by
  rw [(hg.groups_nest_perm x).mem_iff, List.mem_cons, List.mem_append]

theorem flattens_of_size_le (hg : g₀.Acyclic) (hx : g₀.groups.size ≤ x.index)
    (h : g₀.Pending (g₀.nest x).groups g) : g₀.Flattens x g g := by
  have hblank : g₀.group x = default := group_of_size_le hx
  have hgroups : (g₀.nest x).groups = [x] := by
    rw [hg.groups_nest, contents, hblank]
    rfl
  refine ⟨?_, ?_, fun _ _ => rfl⟩
  · rw [h.interior x (g₀.mem_groups_nestTo_self _ x), hg.flatMerges_eq, hg.flatSubgroups_eq,
      interior, hblank]
    rfl
  · rw [hgroups]
    exact fun z hz hne => absurd (List.mem_singleton.1 hz) hne

/-- A group that has absorbed its sub-groups lists those that are kept. -/
theorem Takes.listed {before : Graph S} {state : Graph S × List GroupId} (hg : g₀.Acyclic)
    (h : g₀.Takes x (g₀.group x).subgroups (before, []) state)
    (hhome : before.interior x = g₀.interior x) :
    (state.1.modifyGroup x fun group => { group with subgroups := state.2 }).interior x =
      (g₀.flatMerges x, g₀.flatSubgroups x) := by
  have hkept : state.2 = g₀.flatSubgroups x := by
    rw [hg.flatSubgroups_eq]
    exact h.kept
  have hinterior := h.home
  rw [hhome] at hinterior
  obtain ⟨hmerges, hsubgroups⟩ := Prod.mk.inj hinterior
  have hflat : (state.1.group x).merges = g₀.flatMerges x := by
    rw [hg.flatMerges_eq]
    exact hmerges
  rw [interior_list, hflat, hkept]
  split
  case isTrue => rfl
  case isFalse hout =>
    have hsize : g₀.groups.size ≤ x.index :=
      h.same.nodes.groups_size ▸ Nat.le_of_not_lt fun hlt => hout ⟨rfl, hlt⟩
    have hnone : (g₀.group x).subgroups = [] := by
      rw [group_of_size_le hsize]
      rfl
    have hlist : g₀.flatSubgroups x = (state.1.group x).subgroups := by
      rw [hg.flatSubgroups_eq, hsubgroups, interior, hnone]
      rfl
    rw [hlist, ← hflat]
    rfl

/-- A group is flattened once the groups that it hosts have been flattened and it has absorbed its
sub-groups. -/
theorem Takes.flattens {before : Graph S} {state : Graph S × List GroupId} (hg : g₀.Acyclic)
    (h : g₀.Takes x (g₀.group x).subgroups (before, []) state)
    (hhome : before.interior x = g₀.interior x)
    (hdisjoint : (g₀.within (g₀.hostedIn x)).Disjoint (g₀.within (g₀.group x).subgroups))
    (hinside : ∀ z ∈ g₀.within (g₀.hostedIn x), before.interior z = g₀.flatInterior z)
    (houtside : ∀ z, z ∉ g₀.within (g₀.hostedIn x) → before.interior z = g.interior z) :
    g₀.Flattens x g (state.1.modifyGroup x fun group => { group with subgroups := state.2 }) where
  here := h.listed hg hhome
  inside z hz hne := by
    rw [interior_list, if_neg fun hx => hne hx.1.symm]
    obtain hzx | hz | hz := hg.mem_groups_nest.1 hz
    · exact absurd hzx hne
    · rw [h.outside z (hdisjoint hz) hne]
      exact hinside z hz
    · exact h.inside z hz
  outside z hz := by
    obtain ⟨hne, hz⟩ := not_or.1 (mt hg.mem_groups_nest.2 hz)
    obtain ⟨hzHosted, hzSubs⟩ := not_or.1 hz
    rw [interior_list, if_neg fun hx => hne hx.1.symm, h.outside z hzSubs hne]
    exact houtside z hzHosted

/-- Flattening a live group with all that lies in it. -/
theorem Acyclic.flattens (hg : g₀.Acyclic) (hone : g₀.liveGroups.Nodup)
    (hx : x ∈ g₀.liveGroups) (hnodup : (g₀.nest x).groups.Nodup)
    (hdepth : (g₀.span x).card ≤ depth) (h : g₀.Pending (g₀.nest x).groups g) :
    g₀.Flattens x g (flattenTo depth g x) := by
  induction depth generalizing x g with
  | zero => exact flattens_of_size_le hg (size_le_of_card_span hdepth) h
  | succ depth ih =>
    let hosted := g₀.hostedIn x
    let subs := (g₀.group x).subgroups
    have hmem : ∀ z, z ∈ (g₀.nest x).groups ↔
        z = x ∨ z ∈ g₀.within hosted ∨ z ∈ g₀.within subs := fun _ => hg.mem_groups_nest
    obtain ⟨hout, hboth⟩ := List.nodup_cons.1 ((hg.groups_nest_perm x).nodup_iff.1 hnodup)
    obtain ⟨hnodupHosted, hnodupSubs, hdisjoint⟩ := List.nodup_append'.1 hboth
    obtain ⟨houtHosted, houtSubs⟩ := not_or.1 (mt List.mem_append.2 hout)
    have hchild : ∀ y, g₀.Contains x y → (g₀.nest y).groups.Nodup →
        ∀ {g : Graph S}, g₀.Pending (g₀.nest y).groups g →
          g₀.Flattens y g (flattenTo depth g y) := by
      intro y hy hnodup g h
      have hless := hg.card_span_lt hy
      exact ih (hg.live_step hx hy) hnodup (by omega) h
    have hhosted : ∀ y ∈ hosted, ∃ i ∈ (g₀.group x).inputs, (g₀.input i).hosted = some y :=
      fun y hy => List.mem_filterMap.1 hy
    -- the hosted groups come first, then the sub-groups
    obtain ⟨hinside, houtside⟩ := Pending.foldl_hosted
      (fun y hy => hchild y (.inr (hhosted y hy)) ((List.nodup_flatMap.1 hnodupHosted).1 y hy))
      (fun y hy => by
        obtain ⟨i, hi, hiy⟩ := hhosted y hy
        exact hg.not_dissolves_hosted hone hx hi hiy)
      hnodupHosted (h.mono fun z hz => (hmem z).2 (.inr (.inl hz)))
    let before := hosted.foldl (flattenTo depth) g
    have hsame : g₀.SameInputs before :=
      List.foldlRecOn (motive := g₀.SameInputs) hosted _ h.same
        fun _ hs y _ => hs.flattenTo depth y
    have hhome : before.interior x = g₀.interior x :=
      (houtside x houtHosted).trans (h.interior x ((hmem x).2 (.inl rfl)))
    have hpending : g₀.Pending (g₀.within subs) before := by
      refine ⟨hsame, fun z hz => ?_⟩
      rw [houtside z fun hm => hdisjoint hm hz]
      exact h.interior z ((hmem z).2 (.inr (.inr hz)))
    have htakes : g₀.Takes x subs (before, []) (subs.foldl (absorb depth x) (before, [])) :=
      Pending.foldl_absorb
        (fun y hy => hchild y (.inl hy) ((List.nodup_flatMap.1 hnodupSubs).1 y hy))
        (fun y hy => Contains.lt (.inl hy))
        (fun y hy hinputs => ⟨hinputs, x, hx, hy⟩) (List.nodup_cons.2 ⟨houtSubs, hnodupSubs⟩)
        hpending
    have hprune : prune depth before x = (subs.foldl (absorb depth x) (before, [])).1.modifyGroup x
        fun group => { group with subgroups := (subs.foldl (absorb depth x) (before, [])).2 } := by
      have hsubs : (before.group x).subgroups = subs := congrArg Prod.snd hhome
      rw [prune, hsubs]
    rw [flattenTo_succ]
    show g₀.Flattens x g (prune depth ((g.hostedIn x).foldl (flattenTo depth) g) x)
    rw [h.same.hostedIn_eq]
    show g₀.Flattens x g (prune depth before x)
    rw [hprune]
    exact htakes.flattens hg hhome hdisjoint hinside houtside

end

/-! ## Flattening a graph -/

section

variable (hg : g.Acyclic) (hone : g.liveGroups.Nodup)

include hg hone

theorem Acyclic.flattens_root : g.Flattens root g g.flatten :=
  hg.flattens hone (g.mem_groups_nestTo_self _ root) hone (g.card_span_le root)
    ⟨.refl g, fun _ _ => rfl⟩

/-- What flattening leaves in a live group. -/
theorem Acyclic.interior_flatten (hx : x ∈ g.liveGroups) :
    g.flatten.interior x = g.flatInterior x :=
  (hg.flattens_root hone).settled hg.not_dissolves_root x hx

end

end Graph

end LambdaDiagram
