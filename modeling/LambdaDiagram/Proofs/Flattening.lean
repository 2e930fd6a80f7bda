import LambdaDiagram.Proofs.Dissolving
import LambdaDiagram.Proofs.Planting

/-!
Flattening keeps the meaning. A group is flattened by absorbing its sub-groups one after the other,
which follows the reading of what leaves the group: by induction on the reading, absorbing the
groups of a value leaves, where the value was held, the reading without the abstractions that bind
nothing, and touches nothing outside.
-/

namespace LambdaDiagram

variable {S : Type} [Scalar S]

namespace Graph

/-- Flatten a sub-group and dissolve it if it has no inputs, adding to the sub-groups that are
kept. -/
def absorb (depth : Nat) (home : GroupId) (state : Graph S × List GroupId) (sub : GroupId) :
    Graph S × List GroupId :=
  let g := flattenTo depth state.1 sub
  if (g.group sub).inputs.isEmpty then
    ((g.dissolve sub home).1, state.2 ++ (g.dissolve sub home).2)
  else (g, state.2 ++ [sub])

/-- Absorb all sub-groups of a group. -/
def prune (depth : Nat) (g : Graph S) (id : GroupId) : Graph S :=
  let state := (g.group id).subgroups.foldl (absorb depth id) (g, [])
  state.1.modifyGroup id fun group => { group with subgroups := state.2 }

theorem flattenTo_succ (depth : Nat) (g : Graph S) (id : GroupId) :
    flattenTo (depth + 1) g id =
      prune depth (((g.group id).inputs.filterMap fun i => (g.input i).hosted).foldl
        (flattenTo depth) g) id := rfl

/-- `Apart groups slots g g'`: nothing outside the groups and the slots is different in `g'`, and
all groups have the inputs that they had. -/
structure Apart (groups : List GroupId) (slots : List Slot) (g g' : Graph S) : Prop where
  nodes : g.SameNodes g'
  inputs : ∀ x, (g'.content x).inputs = (g.content x).inputs
  content : ∀ x, x ∉ groups → g'.content x = g.content x
  held : ∀ s, s ∉ slots → g'.held s = g.held s

/-- What absorbing the groups of a value needs: the value reads back as `b`, whose groups lie in
`home`, are distinct, host nothing and lie no deeper than `depth`. -/
structure Ready (g : Graph S) (home : GroupId) (slot : Slot) (b : Reading) (depth : Nat) :
    Prop where
  linked : g.Linked
  home_lt : home.index < g.groups.size
  reads : g.Reads (g.held slot) b
  nested : g.Nested home b
  home_not_mem : home ∉ b.groups
  groups : b.groups.Nodup
  slots : (slot :: b.slots).Nodup
  hosted : ∀ x ∈ b.groups, ∀ i ∈ (g.content x).inputs, (g.label i).hosted = none
  depth : b.groups.length ≤ depth

/-- The abstractions of a reading that bind nothing are gone and cleared. -/
def Cleared (g : Graph S) (b : Reading) : Prop :=
  ∀ x ∈ b.groups, x ∉ b.collapse.groups →
    (g.content x).subgroups = [] ∧ g.held (.producer x) = none

/-- What absorbing the groups of a value does. -/
structure Absorbs (home : GroupId) (slot : Slot) (b : Reading) (g g' : Graph S) : Prop where
  apart : Apart (home :: b.groups) (slot :: b.slots) g g'
  linked : g'.Linked
  parent : (g'.content home).parent = (g.content home).parent
  subgroups : (g'.content home).subgroups = (g.content home).subgroups
  merges : ∃ more, (g'.content home).merges = (g.content home).merges ++ more ∧
    (b.ownMerges ++ more).Perm b.collapse.ownMerges
  reads : g'.Reads (g'.held slot) b.collapse
  nested : g'.Nested home b.collapse
  cleared : g'.Cleared b

/-- What flattening a group with a body does. -/
structure Pruned (id : GroupId) (b : Reading) (g g' : Graph S) : Prop where
  apart : Apart (id :: b.groups) (.producer id :: b.slots) g g'
  linked : g'.Linked
  parent : (g'.content id).parent = (g.content id).parent
  encloses : g'.Encloses id b.collapse
  reads : g'.Reads (g'.held (.producer id)) b.collapse
  nested : g'.Nested id b.collapse
  cleared : g'.Cleared b

variable {g g' g'' : Graph S} {home id : GroupId} {slot : Slot} {b r : Reading} {depth : Nat}
variable {groups groups' : List GroupId} {slots slots' : List Slot} {value : Option Source}

/-! ## What stays -/

theorem Apart.refl (groups : List GroupId) (slots : List Slot) (g : Graph S) :
    Apart groups slots g g :=
  ⟨.refl g, fun _ => rfl, fun _ _ => rfl, fun _ _ => rfl⟩

theorem Apart.trans (h : Apart groups slots g g') (h' : Apart groups slots g' g'') :
    Apart groups slots g g'' where
  nodes := h.nodes.trans h'.nodes
  inputs x := (h'.inputs x).trans (h.inputs x)
  content x hx := (h'.content x hx).trans (h.content x hx)
  held s hs := (h'.held s hs).trans (h.held s hs)

theorem Apart.mono (h : Apart groups slots g g') (hg : groups ⊆ groups') (hs : slots ⊆ slots') :
    Apart groups' slots' g g' where
  nodes := h.nodes
  inputs := h.inputs
  content x hx := h.content x fun hm => hx (hg hm)
  held s hx := h.held s fun hm => hx (hs hm)

theorem Apart.binders (h : Apart groups slots g g') (x : GroupId) :
    g'.binders x = g.binders x := by
  apply binders_congr (h.inputs x)
  intro i hi
  rw [h.nodes.label]

theorem Apart.reads (h : Apart groups slots g g') (hr : g.Reads value r)
    (hs : ∀ s ∈ r.slots, s ∉ slots) : g'.Reads value r := by
  refine hr.congr ?_ ?_ (Nat.le_of_eq h.nodes.groups_size.symm)
    (Nat.le_of_eq h.nodes.inputs_size.symm) (Nat.le_of_eq h.nodes.merges_size.symm)
  · intro s hm
    exact h.held s (hs s hm)
  · intro x _
    exact h.binders x

theorem Apart.nested (h : Apart groups slots g g') (hn : g.Nested home r)
    (hg : ∀ x ∈ r.groups, x ∉ groups) : g'.Nested home r := by
  apply hn.congr
  intro x hx
  exact h.content x (hg x hx)

theorem Ready.later (h : g.Ready home slot b depth) (ha : Apart groups slots g g')
    (hg : ∀ x ∈ b.groups, x ∉ groups) (hs : ∀ s ∈ slot :: b.slots, s ∉ slots)
    (hl : g'.Linked) : g'.Ready home slot b depth where
  linked := hl
  home_lt := by
    rw [ha.nodes.groups_size]
    exact h.home_lt
  reads := by
    rw [ha.held slot (hs slot List.mem_cons_self)]
    exact ha.reads h.reads fun s hm => hs s (List.mem_cons_of_mem slot hm)
  nested := ha.nested h.nested hg
  home_not_mem := h.home_not_mem
  groups := h.groups
  slots := h.slots
  hosted x hx i hi := by
    rw [ha.inputs] at hi
    rw [ha.nodes.label]
    exact h.hosted x hx i hi
  depth := h.depth

/-- The groups of a reading lie in a new home when those directly in the old one get it as their
parent. -/
theorem Nested.reparent (h : g.Nested id r) (hn : r.groups.Nodup)
    (hc : ∀ x ∈ r.groups, g'.content x =
      if x ∈ r.ownGroups then { g.content x with parent := some home } else g.content x) :
    g'.Nested home r := by
  induction r with
  | hole | var => trivial
  | app m f a ihf iha =>
    obtain ⟨hf, ha, hd⟩ := List.nodup_append.1 hn
    refine ⟨ihf h.1 hf ?_, iha h.2 ha ?_⟩
    · intro x hx
      rw [hc x (List.mem_append_left _ hx)]
      have hx' : x ∉ a.ownGroups := fun hm => hd x hx x (a.ownGroups_subset_groups x hm) rfl
      simp [Reading.ownGroups, hx']
    · intro x hx
      rw [hc x (List.mem_append_right _ hx)]
      have hx' : x ∉ f.ownGroups := fun hm => hd x (f.ownGroups_subset_groups x hm) x hx rfl
      simp [Reading.ownGroups, hx']
  | abs x bs b ih =>
    obtain ⟨-, ⟨hm, hs⟩, hb⟩ := h
    obtain ⟨hx, -⟩ := List.nodup_cons.1 hn
    have hcx := hc x List.mem_cons_self
    have hown : x ∈ (Reading.abs x bs b).ownGroups := List.mem_singleton.2 rfl
    rw [if_pos hown] at hcx
    refine ⟨congrArg Content.parent hcx, encloses_of_content hcx hm hs, ?_⟩
    apply hb.congr
    intro y hy
    have hyx : y ∉ (Reading.abs x bs b).ownGroups := by
      rintro hm
      obtain rfl := List.mem_singleton.1 hm
      exact hx hy
    rw [hc y (List.mem_cons_of_mem x hy), if_neg hyx]

/-! ## Absorbing the groups of a value -/

/-- A value without groups has nothing to absorb. -/
theorem Ready.absorbs_refl (h : g.Ready home slot b depth) (hg : b.groups = [])
    (hc : b.collapse = b) : Absorbs home slot b g g where
  apart := .refl _ _ g
  linked := h.linked
  parent := rfl
  subgroups := rfl
  merges := ⟨[], by simp, by simp [hc]⟩
  reads := by
    rw [hc]
    exact h.reads
  nested := by
    rw [hc]
    exact h.nested
  cleared x hx := by
    rw [hg] at hx
    cases hx

section

variable {m : MergeId} {f a : Reading}

theorem Ready.function (h : g.Ready home slot (.app m f a) depth) :
    g.Ready home (.function m) f depth := by
  obtain ⟨hslot, hslots⟩ := List.nodup_cons.1 h.slots
  obtain ⟨hfun, hslots⟩ := List.nodup_cons.1 hslots
  obtain ⟨-, hslots⟩ := List.nodup_cons.1 hslots
  have hd := h.depth
  simp only [Reading.groups, List.length_append] at hd
  refine ⟨h.linked, h.home_lt, h.reads.2.2.1, h.nested.1, ?_, (List.nodup_append.1 h.groups).1,
    ?_, ?_, by omega⟩
  · exact fun hm => h.home_not_mem (List.mem_append_left _ hm)
  · refine List.nodup_cons.2 ⟨fun hm => hfun ?_, (List.nodup_append.1 hslots).1⟩
    exact List.mem_cons_of_mem _ (List.mem_append_left _ hm)
  · exact fun x hx => h.hosted x (List.mem_append_left _ hx)

theorem Ready.argument (h : g.Ready home slot (.app m f a) depth) :
    g.Ready home (.argument m) a depth := by
  obtain ⟨hslot, hslots⟩ := List.nodup_cons.1 h.slots
  obtain ⟨-, hslots⟩ := List.nodup_cons.1 hslots
  obtain ⟨harg, hslots⟩ := List.nodup_cons.1 hslots
  have hd := h.depth
  simp only [Reading.groups, List.length_append] at hd
  refine ⟨h.linked, h.home_lt, h.reads.2.2.2, h.nested.2, ?_, (List.nodup_append.1 h.groups).2.1,
    ?_, ?_, by omega⟩
  · exact fun hm => h.home_not_mem (List.mem_append_right _ hm)
  · refine List.nodup_cons.2 ⟨fun hm => harg ?_, (List.nodup_append.1 hslots).2.1⟩
    exact List.mem_append_right _ hm
  · exact fun x hx => h.hosted x (List.mem_append_right _ hx)

/-- The slots of the function and those of the argument of an application are different. -/
theorem Ready.slots_disjoint (h : g.Ready home slot (.app m f a) depth) :
    (∀ s ∈ .argument m :: a.slots, s ∉ .function m :: f.slots) ∧
      slot ∉ .function m :: f.slots ∧ slot ∉ .argument m :: a.slots := by
  have hn := h.slots
  simp only [Reading.slots, List.nodup_cons, List.nodup_append, List.mem_cons,
    List.mem_append, not_or] at hn ⊢
  obtain ⟨⟨hsf, hsa, hsfs, hsas⟩, ⟨hfa, hff, hfas⟩, ⟨haf, haa⟩, -, -, hd⟩ := hn
  refine ⟨?_, ⟨hsf, hsfs⟩, hsa, hsas⟩
  rintro s (rfl | hs)
  · exact ⟨fun he => hfa he.symm, haf⟩
  · refine ⟨?_, fun hm => hd s hm s hs rfl⟩
    rintro rfl
    exact hfas hs

theorem Ready.groups_disjoint (h : g.Ready home slot (.app m f a) depth) :
    (∀ x ∈ a.groups, x ∉ home :: f.groups) ∧ ∀ x ∈ f.groups, x ∉ home :: a.groups := by
  have hd := (List.nodup_append.1 h.groups).2.2
  have hh := h.home_not_mem
  refine ⟨?_, ?_⟩
  · intro x hx hm
    rcases List.mem_cons.1 hm with rfl | hm
    · exact hh (List.mem_append_right _ hx)
    · exact hd x hm x hx rfl
  · intro x hx hm
    rcases List.mem_cons.1 hm with rfl | hm
    · exact hh (List.mem_append_left _ hx)
    · exact hd x hx x hm rfl

theorem Apart.app (hf : Apart (home :: f.groups) (.function m :: f.slots) g g')
    (ha : Apart (home :: a.groups) (.argument m :: a.slots) g' g'') :
    Apart (home :: (Reading.app m f a).groups) (slot :: (Reading.app m f a).slots) g g'' := by
  refine (hf.mono ?_ ?_).trans (ha.mono ?_ ?_)
  · intro x hx
    simp only [Reading.groups, List.mem_cons, List.mem_append] at hx ⊢
    tauto
  · intro s hs
    simp only [Reading.slots, List.mem_cons, List.mem_append] at hs ⊢
    tauto
  · intro x hx
    simp only [Reading.groups, List.mem_cons, List.mem_append] at hx ⊢
    tauto
  · intro s hs
    simp only [Reading.slots, List.mem_cons, List.mem_append] at hs ⊢
    tauto

/-- Absorbing the groups of an argument after those of its function absorbs those of the
application. -/
theorem Absorbs.app (h : g.Ready home slot (.app m f a) depth)
    (hf : Absorbs home (.function m) f g g') (ha : Absorbs home (.argument m) a g' g'') :
    Absorbs home slot (.app m f a) g g'' := by
  obtain ⟨hsaf, hsf, hsa⟩ := h.slots_disjoint
  obtain ⟨hgaf, hgfa⟩ := h.groups_disjoint
  have hfslots : ∀ s ∈ .function m :: f.slots, s ∉ .argument m :: a.slots :=
    fun s hs hm => hsaf s hm hs
  have hapart : Apart (home :: (Reading.app m f a).groups) (slot :: (Reading.app m f a).slots)
      g g'' := hf.apart.app ha.apart
  have hslot : g''.held slot = some (.merge m) := by
    rw [ha.apart.held slot hsa, hf.apart.held slot hsf]
    exact h.reads.1
  have hfun : g''.held (.function m) = g'.held (.function m) :=
    ha.apart.held _ (hfslots _ List.mem_cons_self)
  have hlt : m.index < g''.merges.size := by
    rw [hapart.nodes.merges_size]
    exact h.reads.2.1
  refine ⟨hapart, ha.linked, ha.parent.trans hf.parent, ha.subgroups.trans hf.subgroups, ?_,
    ⟨hslot, hlt, ?_, ha.reads⟩, ⟨?_, ha.nested⟩, ?_⟩
  · obtain ⟨mf, hmf, hpf⟩ := hf.merges
    obtain ⟨ma, hma, hpa⟩ := ha.merges
    refine ⟨mf ++ ma, by rw [hma, hmf, List.append_assoc], ?_⟩
    refine List.Perm.trans ?_ ((hpf.append hpa).append_right [m])
    rw [List.perm_iff_count]
    intro x
    simp only [Reading.ownMerges, List.count_append]
    omega
  · have hr : g''.Reads (g'.held (.function m)) f.collapse :=
      ha.apart.reads hf.reads fun s hs =>
        hfslots s (List.mem_cons_of_mem _ (f.slots_collapse_subset s hs))
    rw [← hfun] at hr
    exact hr
  · apply ha.apart.nested hf.nested
    intro x hx
    exact hgfa x (f.groups_collapse_sublist.subset hx)
  · intro x hx hc
    simp only [Reading.collapse, Reading.groups, List.mem_append, not_or] at hx hc
    rcases hx with hx | hx
    · obtain ⟨hs, hp⟩ := hf.cleared x hx hc.1
      rw [ha.apart.content x (hgfa x hx), ha.apart.held]
      · exact ⟨hs, hp⟩
      · exact hfslots _ (List.mem_cons_of_mem _ (Reading.producer_mem_slots.2 hx))
    · exact ha.cleared x hx hc.2

end

/-! ## Flattening a group -/

/-- Listing other sub-groups of a group changes nothing but that. -/
theorem modifyGroup_subgroups_apart (g : Graph S) (kept : List GroupId)
    (hlt : id.index < g.groups.size) :
    Apart [id] [] g (g.modifyGroup id fun group => { group with subgroups := kept }) ∧
      (g.modifyGroup id fun group => { group with subgroups := kept }).content id =
        { g.content id with subgroups := kept } := by
  have hcontent : ∀ x, (g.modifyGroup id fun group => { group with subgroups := kept }).content x =
      if x = id then { g.content id with subgroups := kept } else g.content x :=
    content_modifyGroup (fun c => { c with subgroups := kept }) hlt fun _ => rfl
  refine ⟨⟨modifyGroup_sameNodes .., ?_, ?_, ?_⟩, (hcontent id).trans (if_pos rfl)⟩
  · intro x
    rw [hcontent]
    split
    · rename_i hx
      rw [hx]
    · rfl
  · intro x hx
    rw [hcontent, if_neg fun he => hx (List.mem_singleton.2 he)]
  · intro s _
    rw [held_modifyGroup_eq]
    exact fun _ => rfl

/-- A group whose sub-groups have been absorbed is flattened by listing those that are kept. -/
theorem Absorbs.prune (h : Absorbs id (.producer id) b g g') (henc : g.Encloses id b)
    (hid : id ∉ b.groups) (hlt : id.index < g.groups.size) :
    Pruned id b g (g'.modifyGroup id fun group =>
      { group with subgroups := b.collapse.ownGroups }) := by
  have hlt' : id.index < g'.groups.size := by
    rw [h.apart.nodes.groups_size]
    exact hlt
  have hheld : (g'.modifyGroup id fun group =>
      { group with subgroups := b.collapse.ownGroups }).held = g'.held :=
    held_modifyGroup_eq fun _ => rfl
  have hnoted : (g'.modifyGroup id fun group =>
      { group with subgroups := b.collapse.ownGroups }).noted = g'.noted :=
    noted_modifyGroup_eq fun _ => rfl
  obtain ⟨hlast, hown⟩ := modifyGroup_subgroups_apart g' b.collapse.ownGroups hlt'
  generalize g'.modifyGroup id (fun group =>
    { group with subgroups := b.collapse.ownGroups }) = g₂ at *
  refine ⟨h.apart.trans (hlast.mono ?_ (List.nil_subset _)), h.linked.of_eq hheld hnoted, ?_,
    encloses_of_content hown ?_ rfl, ?_, ?_, ?_⟩
  · intro x hx
    rw [List.mem_singleton.1 hx]
    exact List.mem_cons_self
  · rw [hown]
    exact h.parent
  · obtain ⟨more, hmore, hperm⟩ := h.merges
    refine (List.Perm.of_eq hmore).trans ?_
    exact (henc.1.append_right more).trans hperm
  · rw [hheld]
    exact hlast.reads h.reads fun _ _ => List.not_mem_nil
  · apply hlast.nested h.nested
    intro x hx hm
    rw [List.mem_singleton.1 hm] at hx
    exact hid (b.groups_collapse_sublist.subset hx)
  · intro x hx hc
    have hne : x ∉ [id] := by
      rw [List.mem_singleton]
      rintro rfl
      exact hid hx
    rw [hlast.content x hne, hheld]
    exact h.cleared x hx hc

/-- The groups of an abstraction that binds something are absorbed by flattening it. -/
theorem Pruned.keep {bs : List (InputId × Char)} (h : g.Ready home slot (.abs id bs b) depth)
    (hbs : bs.isEmpty = false) (hp : Pruned id b g g') :
    Absorbs home slot (.abs id bs b) g g' := by
  have hcollapse := Reading.collapse_abs_of_binders hbs id b
  have hhome : home ∉ id :: b.groups := h.home_not_mem
  have hcontent := hp.apart.content home hhome
  have hslot := hp.apart.held slot (List.nodup_cons.1 h.slots).1
  obtain ⟨hv, hlt, hb, -⟩ := h.reads
  refine ⟨hp.apart.mono ?_ ?_, hp.linked, by rw [hcontent], by rw [hcontent], ⟨[], ?_, ?_⟩, ?_, ?_,
    ?_⟩
  · exact fun x hx => List.mem_cons_of_mem home hx
  · exact fun s hs => List.mem_cons_of_mem slot hs
  · rw [hcontent, List.append_nil]
  · rw [hcollapse]
    exact List.Perm.refl _
  · rw [hcollapse, hslot]
    refine ⟨hv, ?_, ?_, hp.reads⟩
    · rw [hp.apart.nodes.groups_size]
      exact hlt
    · rw [hp.apart.binders, hb]
  · rw [hcollapse]
    exact ⟨hp.parent.trans h.nested.1, hp.encloses, hp.nested⟩
  · intro x hx hc
    rw [hcollapse] at hc
    rcases List.mem_cons.1 hx with rfl | hx
    · exact absurd List.mem_cons_self hc
    · exact hp.cleared x hx fun hm => hc (List.mem_cons_of_mem id hm)

/-- Dissolving changes nothing but the two groups, the sub-groups of the one that is dissolved, and
the two slots. -/
theorem Dissolved.apart (h : Dissolved slot id home g g') (hn : ∀ x ∈ (g.content id).subgroups,
    x ∈ groups) : Apart (home :: id :: groups) (slot :: [.producer id]) g g' := by
  have hout : ∀ x, ¬ x.index < g.groups.size → g'.content x = g.content x := by
    intro x hx
    have hx' : ¬ x.index < g'.groups.size := by
      rw [h.nodes.groups_size]
      exact hx
    rw [Graph.content, Graph.content, group_of_size_le (Nat.le_of_not_lt hx),
      group_of_size_le (Nat.le_of_not_lt hx')]
  refine ⟨h.nodes, ?_, ?_, ?_⟩
  · intro x
    by_cases hi : x = id
    · rw [hi, h.cleared]
    by_cases hh : x = home
    · rw [hh, h.homeContent]
    by_cases hx : x.index < g.groups.size
    · rw [h.content x hx hi hh]
      split <;> rfl
    · rw [hout x hx]
  · intro x hx
    by_cases hlt : x.index < g.groups.size
    · simp only [List.mem_cons, not_or] at hx
      rw [h.content x hlt hx.2.1 hx.1, if_neg fun hm => hx.2.2 (hn x hm)]
    · exact hout x hlt
  · intro s hs
    simp only [List.mem_cons, List.not_mem_nil, or_false, not_or] at hs
    rw [h.held, if_neg hs.1, if_neg hs.2]

/-- Once a sub-group that binds nothing has been flattened, it can be dissolved, and its own
sub-groups are what is left of its body. -/
theorem Pruned.dissolved (h : g.Ready home slot (.abs id [] b) depth) (hp : Pruned id b g g') :
    Dissolved slot id home g' (g'.dissolve id home).1 ∧
      (g'.dissolve id home).2 = b.collapse.ownGroups ∧
      ∀ x ∈ (g'.content id).subgroups, x ∈ b.groups := by
  obtain ⟨hid, -⟩ := List.nodup_cons.1 h.groups
  have hhome : home ∉ id :: b.groups := h.home_not_mem
  have hslots : slot ∉ .producer id :: b.slots := (List.nodup_cons.1 h.slots).1
  have hslot : g'.held slot = some (.output id) := (hp.apart.held slot hslots).trans h.reads.1
  have hsub : (g'.content id).subgroups = b.collapse.ownGroups := hp.encloses.2
  have hkept : ∀ x ∈ (g'.content id).subgroups, x ∈ b.groups := by
    intro x hx
    rw [hsub] at hx
    exact b.groups_collapse_sublist.subset (b.collapse.ownGroups_subset_groups x hx)
  have hsize := hp.apart.nodes.groups_size
  obtain ⟨hd, horphans⟩ := dissolve_dissolved hp.linked hslot
    (fun he => hslots (he ▸ List.mem_cons_self)) (hsize ▸ h.reads.2.1) (hsize ▸ h.home_lt)
    (fun he => hhome (he ▸ List.mem_cons_self))
    fun x hx => ⟨fun he => hid (he ▸ hkept x hx),
      fun he => hhome (List.mem_cons_of_mem id (he ▸ hkept x hx))⟩
  exact ⟨hd, horphans.trans hsub, hkept⟩

/-- A sub-group that binds nothing leaves no trace once it is flattened and dissolved, and nor does
what is dropped from its body. -/
theorem Pruned.dissolved_cleared (h : g.Ready home slot (.abs id [] b) depth)
    (hp : Pruned id b g g') (hd : Dissolved slot id home g' g'') :
    g''.Cleared (.abs id [] b) := by
  obtain ⟨hid, -⟩ := List.nodup_cons.1 h.groups
  have hhome : home ∉ id :: b.groups := h.home_not_mem
  have hslots : slot ∉ .producer id :: b.slots := (List.nodup_cons.1 h.slots).1
  intro x hx hc
  rw [Reading.collapse_abs_nil] at hc
  rcases List.mem_cons.1 hx with rfl | hx
  · have hne : .producer x ≠ slot := fun he => hslots (he ▸ List.mem_cons_self)
    refine ⟨by rw [hd.cleared], ?_⟩
    rw [hd.held, if_neg hne, if_pos rfl]
  · obtain ⟨hs, hq⟩ := hp.cleared x hx hc
    have hxid : x ≠ id := fun he => hid (he ▸ hx)
    have hxslot : .producer x ≠ slot := fun he =>
      hslots (he ▸ List.mem_cons_of_mem _ (Reading.producer_mem_slots.2 hx))
    have hxlt : x.index < g'.groups.size := by
      rw [hp.apart.nodes.groups_size]
      exact h.reads.group_lt (List.mem_cons_of_mem id hx)
    have hsame : (g''.content x).subgroups = (g'.content x).subgroups := by
      rw [hd.content x hxlt hxid fun he => hhome (List.mem_cons_of_mem id (he ▸ hx))]
      split <;> rfl
    rw [hsame, hd.held, if_neg hxslot, if_neg (by simpa using hxid)]
    exact ⟨hs, hq⟩

/-- The groups of an abstraction that binds nothing are absorbed by flattening it and dissolving it
after that. -/
theorem Pruned.dissolve (h : g.Ready home slot (.abs id [] b) depth) (hp : Pruned id b g g') :
    Absorbs home slot (.abs id [] b) g (g'.dissolve id home).1 ∧
      (g'.dissolve id home).2 = b.collapse.ownGroups := by
  obtain ⟨hid, hnodup⟩ := List.nodup_cons.1 h.groups
  have hhome : home ∉ id :: b.groups := h.home_not_mem
  have hslots : slot ∉ .producer id :: b.slots := (List.nodup_cons.1 h.slots).1
  obtain ⟨hd, horphans, hkept⟩ := hp.dissolved h
  refine ⟨?_, horphans⟩
  have hlast := hd.apart hkept
  generalize (g'.dissolve id home).1 = g₂ at hd hlast
  have hcontent := hp.apart.content home hhome
  refine ⟨(hp.apart.mono ?_ ?_).trans (hlast.mono ?_ ?_), hd.linked, ?_, ?_, ?_, ?_, ?_, ?_⟩
  · exact fun x hx => List.mem_cons_of_mem home hx
  · exact fun s hs => List.mem_cons_of_mem slot hs
  · exact fun x hx => hx
  · intro s hs
    simp only [Reading.slots, List.mem_cons, List.not_mem_nil, or_false] at hs ⊢
    tauto
  · rw [hd.homeContent, hcontent]
  · rw [hd.homeContent, hcontent]
  · refine ⟨(g'.content id).merges, by rw [hd.homeContent, hcontent], ?_⟩
    rw [Reading.collapse_abs_nil]
    exact hp.encloses.1
  · have hv : g₂.held slot = g'.held (.producer id) := by
      rw [hd.held, if_pos rfl]
    rw [hv, Reading.collapse_abs_nil]
    refine hlast.reads hp.reads ?_
    intro s hs hm
    have hs := b.slots_collapse_subset s hs
    simp only [List.mem_cons, List.not_mem_nil, or_false] at hm
    rcases hm with rfl | rfl
    · exact hslots (List.mem_cons_of_mem _ hs)
    · exact hid (Reading.producer_mem_slots.1 hs)
  · rw [Reading.collapse_abs_nil]
    refine hp.nested.reparent (hnodup.sublist b.groups_collapse_sublist) ?_
    intro x hx
    have hxb := b.groups_collapse_sublist.subset hx
    have hxlt : x.index < g'.groups.size := hp.reads.group_lt hx
    have hxhome : x ≠ home := fun he => hhome (List.mem_cons_of_mem id (he ▸ hxb))
    have hsub : (g'.content id).subgroups = b.collapse.ownGroups := hp.encloses.2
    rw [hd.content x hxlt (fun he => hid (he ▸ hxb)) hxhome, hsub]
  · exact hp.dissolved_cleared h hd

/-! ## The induction -/

theorem Ready.body {bs : List (InputId × Char)} (h : g.Ready home slot (.abs id bs b) (depth + 1)) :
    g.Ready id (.producer id) b depth := by
  obtain ⟨hid, hnodup⟩ := List.nodup_cons.1 h.groups
  obtain ⟨-, hslots⟩ := List.nodup_cons.1 h.slots
  refine ⟨h.linked, h.reads.2.1, h.reads.2.2.2, h.nested.2.2, hid, hnodup, hslots, ?_, ?_⟩
  · exact fun x hx => h.hosted x (List.mem_cons_of_mem id hx)
  · exact Nat.le_of_succ_le_succ h.depth

/-- A group whose inputs host nothing is flattened by absorbing its sub-groups. -/
theorem flattenTo_of_hostless (h : ∀ i ∈ (g.content id).inputs, (g.label i).hosted = none) :
    flattenTo (depth + 1) g id = prune depth g id := by
  have hn : ((g.group id).inputs.filterMap fun i => (g.input i).hosted) = [] :=
    List.filterMap_eq_nil_iff.2 h
  rw [flattenTo_succ, hn, List.foldl_nil]

/-- A group is flattened once the groups of its body have been absorbed in order. -/
theorem Ready.pruned (h : g.Ready id (.producer id) b depth) (henc : g.Encloses id b)
    (habsorbs : let state := b.ownGroups.foldl (absorb depth id) (g, [])
      state.2 = [] ++ b.collapse.ownGroups ∧ Absorbs id (.producer id) b g state.1) :
    Pruned id b g (prune depth g id) := by
  obtain ⟨hkept, ha⟩ := habsorbs
  rw [prune, henc.2, hkept]
  exact ha.prune henc h.home_not_mem h.home_lt

/-- Absorbing the groups that a value reads back with leaves the reading without the abstractions
that bind nothing. -/
theorem Ready.absorbs (h : g.Ready home slot b depth) (kept : List GroupId) :
    let state := b.ownGroups.foldl (absorb depth home) (g, kept)
    state.2 = kept ++ b.collapse.ownGroups ∧ Absorbs home slot b g state.1 := by
  induction b generalizing g home slot depth kept with
  | hole => exact ⟨(List.append_nil kept).symm, h.absorbs_refl rfl rfl⟩
  | var i => exact ⟨(List.append_nil kept).symm, h.absorbs_refl rfl rfl⟩
  | app m f a ihf iha =>
    obtain ⟨hkf, hf⟩ := ihf h.function kept
    -- what is ready for the argument stays so while the function's groups are absorbed
    have hready := h.argument.later hf.apart h.groups_disjoint.1 h.slots_disjoint.1 hf.linked
    obtain ⟨hka, ha⟩ := iha hready (f.ownGroups.foldl (absorb depth home) (g, kept)).2
    rw [Reading.ownGroups, List.foldl_append]
    refine ⟨?_, hf.app h ha⟩
    rw [hka, hkf, List.append_assoc]
    rfl
  | abs id bs b ih =>
    cases depth with
    | zero =>
      have hd := h.depth
      simp [Reading.groups] at hd
    | succ depth =>
      have hp := h.body.pruned h.nested.2.1 (ih h.body [])
      have hflat : flattenTo (depth + 1) g id = prune depth g id :=
        flattenTo_of_hostless (h.hosted id List.mem_cons_self)
      have hinputs : ((prune depth g id).group id).inputs = bs.map Prod.fst := by
        rw [← h.reads.2.2.1, map_fst_binders]
        exact hp.apart.inputs id
      rw [Reading.ownGroups, List.foldl_cons, List.foldl_nil, absorb, hflat, hinputs]
      cases bs with
      | nil =>
        obtain ⟨ha, hk⟩ := hp.dissolve h
        exact ⟨congrArg (kept ++ ·) hk, ha⟩
      | cons b' bs =>
        exact ⟨rfl, hp.keep h rfl⟩

/-! ## Flattening a forest -/

/-- A graph contains some trees apart from each other, and the groups in none of them are bare. -/
structure Grove (g : Graph S) (trees : List Tree) : Prop where
  linked : g.Linked
  planted : ∀ t ∈ trees, g.Planted t
  groups : (trees.flatMap Tree.groups).Nodup
  merges : (trees.flatMap Tree.merges).Nodup
  bare : ∀ x, x ∉ trees.flatMap Tree.groups →
    (g.content x).subgroups = [] ∧ g.held (.producer x) = none

variable {t u first : Tree} {trees trees' others : List Tree}

theorem Planted.apart (h : g.Planted t) (ha : Apart groups slots g g')
    (hg : ∀ x ∈ t.groups, x ∉ groups) (hs : ∀ s ∈ t.slots, s ∉ slots) : g'.Planted t :=
  h.congr (fun x hx => ha.content x (hg x hx)) (ha.reads h.reads hs)

/-- A tree is flattened by absorbing the groups of its body. -/
theorem Planted.pruned (h : g.Planted t) (hl : g.Linked) (hg : t.groups.Nodup)
    (hm : t.merges.Nodup)
    (hosted : ∀ x ∈ t.body.groups, ∀ i ∈ (g.content x).inputs, (g.label i).hosted = none)
    (hd : t.body.groups.length ≤ depth) : Pruned t.top t.body g (prune depth g t.top) := by
  obtain ⟨htop, hbody⟩ := List.nodup_cons.1 hg
  have hready : g.Ready t.top (.producer t.top) t.body depth :=
    ⟨hl, h.reads.2.1, h.reads.2.2.2, h.nested, htop, hbody, Reading.nodup_slots hg hm, hosted, hd⟩
  exact hready.pruned h.encloses (hready.absorbs [])

theorem Pruned.planted (hp : Pruned t.top t.body g g') (h : g.Planted t) :
    g'.Planted t.collapse := by
  obtain ⟨hv, hlt, hb, -⟩ := h.reads
  refine ⟨hp.parent.trans h.parent, hp.encloses, ⟨hv, ?_, ?_, hp.reads⟩, hp.nested⟩
  · rw [hp.apart.nodes.groups_size]
    exact hlt
  · exact (hp.apart.binders t.top).trans hb

/-- Trees that share no group and no merge share no slot. -/
theorem not_mem_slots (hg : ∀ x ∈ t.groups, x ∉ u.groups) (hm : ∀ m ∈ t.merges, m ∉ u.merges) :
    ∀ s ∈ t.slots, s ∉ u.slots := by
  intro s ht hu
  cases s with
  | function m => exact hm m (Reading.function_mem_slots.1 ht) (Reading.function_mem_slots.1 hu)
  | argument m => exact hm m (Reading.argument_mem_slots.1 ht) (Reading.argument_mem_slots.1 hu)
  | producer x => exact hg x (Reading.producer_mem_slots.1 ht) (Reading.producer_mem_slots.1 hu)

/-- A tree of a grove shares nothing with the others. -/
theorem Grove.disjoint (h : g.Grove (trees ++ t :: trees')) (hu : u ∈ trees ++ trees') :
    (∀ x ∈ u.groups, x ∉ t.groups) ∧ ∀ m ∈ u.merges, m ∉ t.merges := by
  have hgroups := h.groups
  have hmerges := h.merges
  simp only [List.flatMap_append, List.flatMap_cons, List.nodup_append] at hgroups hmerges
  obtain ⟨-, ⟨-, -, hgt⟩, hgd⟩ := hgroups
  obtain ⟨-, ⟨-, -, hmt⟩, hmd⟩ := hmerges
  rcases List.mem_append.1 hu with hu | hu
  · refine ⟨fun x hx hxt => ?_, fun m hm hmt => ?_⟩
    · exact hgd x (List.mem_flatMap.2 ⟨u, hu, hx⟩) x (List.mem_append_left _ hxt) rfl
    · exact hmd m (List.mem_flatMap.2 ⟨u, hu, hm⟩) m (List.mem_append_left _ hmt) rfl
  · refine ⟨fun x hx hxt => ?_, fun m hm hmt' => ?_⟩
    · exact hgt x hxt x (List.mem_flatMap.2 ⟨u, hu, hx⟩) rfl
    · exact hmt m hmt' m (List.mem_flatMap.2 ⟨u, hu, hm⟩) rfl

theorem Grove.nodup (h : g.Grove trees) (ht : t ∈ trees) :
    t.groups.Nodup ∧ t.merges.Nodup :=
  ⟨h.groups.sublist (List.sublist_flatten_of_mem (List.mem_map_of_mem ht)),
    h.merges.sublist (List.sublist_flatten_of_mem (List.mem_map_of_mem ht))⟩

/-- Flattening one tree of a grove leaves the others. -/
theorem Grove.prune (h : g.Grove (trees ++ t :: trees'))
    (hosted : ∀ x ∈ t.body.groups, ∀ i ∈ (g.content x).inputs, (g.label i).hosted = none)
    (hd : t.body.groups.length ≤ depth) :
    (prune depth g t.top).Grove (trees ++ t.collapse :: trees') ∧
      g.SameNodes (prune depth g t.top) ∧
      ∀ x, ((prune depth g t.top).content x).inputs = (g.content x).inputs := by
  have htmem : t ∈ trees ++ t :: trees' := by simp
  obtain ⟨hgt, hmt⟩ := h.nodup htmem
  have hp := (h.planted t htmem).pruned h.linked hgt hmt hosted hd
  have hsub : t.collapse.groups.Sublist t.groups := t.body.groups_collapse_sublist.cons_cons t.top
  have hmerge : t.collapse.merges = t.merges := t.body.merges_collapse
  refine ⟨⟨hp.linked, ?_, ?_, ?_, ?_⟩, hp.apart.nodes, hp.apart.inputs⟩
  · intro u hu
    by_cases hut : u = t.collapse
    · rw [hut]
      exact hp.planted (h.planted t htmem)
    · have hu' : u ∈ trees ++ trees' := by
        simp only [List.mem_append, List.mem_cons, hut, false_or] at hu ⊢
        exact hu
      have hmem : u ∈ trees ++ t :: trees' := by
        simp only [List.mem_append, List.mem_cons] at hu' ⊢
        tauto
      obtain ⟨hg, hm⟩ := h.disjoint hu'
      exact (h.planted u hmem).apart hp.apart hg (not_mem_slots hg hm)
  · refine List.Nodup.sublist ?_ h.groups
    rw [List.flatMap_append, List.flatMap_append, List.flatMap_cons, List.flatMap_cons]
    exact (List.Sublist.refl _).append (hsub.append (List.Sublist.refl _))
  · rw [List.flatMap_append, List.flatMap_cons, hmerge, ← List.flatMap_cons,
      ← List.flatMap_append]
    exact h.merges
  · intro x hx
    rw [List.flatMap_append, List.flatMap_cons, List.mem_append, List.mem_append, not_or,
      not_or] at hx
    by_cases hxt : x ∈ t.groups
    · have hbody : x ∈ t.body.groups := by
        rcases List.mem_cons.1 hxt with rfl | hxt
        · exact absurd List.mem_cons_self hx.2.1
        · exact hxt
      exact hp.cleared x hbody fun hm => hx.2.1 (List.mem_cons_of_mem _ hm)
    · have hall : x ∉ (trees ++ t :: trees').flatMap Tree.groups := by
        rw [List.flatMap_append, List.flatMap_cons, List.mem_append, List.mem_append]
        tauto
      have hslot : .producer x ∉ t.slots := fun hm => hxt (Reading.producer_mem_slots.1 hm)
      rw [hp.apart.content x hxt, hp.apart.held _ hslot]
      exact h.bare x hall

/-- Flattening the trees of a grove one after the other. -/
theorem Grove.flattenTo (h : g.Grove (trees ++ others))
    (hosted : ∀ t ∈ others, ∀ x ∈ t.groups, ∀ i ∈ (g.content x).inputs,
      (g.label i).hosted = none)
    (hd : ∀ t ∈ others, t.groups.length ≤ depth) :
    let g' := (others.map Tree.top).foldl (Graph.flattenTo depth) g
    g'.Grove (trees ++ others.map Tree.collapse) ∧ g.SameNodes g' ∧
      ∀ x, (g'.content x).inputs = (g.content x).inputs := by
  induction others generalizing g trees with
  | nil => exact ⟨h, .refl g, fun _ => rfl⟩
  | cons t others ih =>
    have ht := hosted t List.mem_cons_self
    have hpos : t.groups.length = t.body.groups.length + 1 := List.length_cons
    have hle := hd t List.mem_cons_self
    obtain ⟨d, rfl⟩ : ∃ d, depth = d + 1 := ⟨depth - 1, by omega⟩
    have hdepth : t.body.groups.length ≤ d := by omega
    obtain ⟨hgrove, hnodes, hinputs⟩ :=
      h.prune (fun x hx => ht x (List.mem_cons_of_mem _ hx)) hdepth
    have hflat : Graph.flattenTo (d + 1) g t.top = Graph.prune d g t.top :=
      flattenTo_of_hostless (ht t.top List.mem_cons_self)
    rw [← hflat] at hgrove hnodes hinputs
    rw [List.append_cons] at hgrove
    obtain ⟨hgrove', hnodes', hinputs'⟩ := ih hgrove (fun u hu x hx i hi => by
      rw [hinputs] at hi
      rw [hnodes.label]
      exact hosted u (List.mem_cons_of_mem t hu) x hx i hi)
      fun u hu => hd u (List.mem_cons_of_mem t hu)
    rw [List.map_cons, List.map_cons, List.foldl_cons, List.append_cons]
    exact ⟨hgrove', hnodes.trans hnodes', fun x => (hinputs' x).trans (hinputs x)⟩

theorem flatMap_collapse {α : Type} {f : Tree → List α} (h : ∀ t : Tree, f t.collapse = f t)
    (ts : List Tree) : (ts.map Tree.collapse).flatMap f = ts.flatMap f := by
  rw [List.flatMap_map]
  exact congrArg (fun f => ts.flatMap f) (funext h)

theorem Forest.grove (h : g.Forest first others) : g.Grove (first :: others) :=
  ⟨h.sound.linked, h.planted, h.groups, h.merges.1, h.bare⟩

/-- Flattening a forest flattens its trees and changes no node's label. -/
theorem Forest.flatten (h : g.Forest first others) :
    g.flatten.Forest first.collapse (others.map Tree.collapse) ∧ g.flatten.label = g.label := by
  have hlen := h.groups_length_le
  rw [List.flatMap_cons, List.length_append] at hlen
  have hpos : first.groups.length = first.body.groups.length + 1 := List.length_cons
  obtain ⟨d, hd⟩ : ∃ d, g.groups.size = d + 1 := ⟨g.groups.size - 1, by omega⟩
  obtain ⟨n, hosts⟩ := h.hosts
  have hhosted : ((g.group Graph.root).inputs.filterMap fun i => (g.input i).hosted) =
      others.map Tree.top := filterMap_hosts hosts
  have hothers : ∀ t ∈ others, t.groups.length ≤ d := by
    intro t ht
    have hs : t.groups.Sublist (others.flatMap Tree.groups) :=
      List.sublist_flatten_of_mem (List.mem_map_of_mem ht)
    have hle := hs.length_le
    omega
  have htree : ∀ t ∈ others, ∀ x ∈ t.groups, ∀ i ∈ (g.content x).inputs,
      (g.label i).hosted = none := fun t ht x hx =>
    h.hosted_eq_none (List.mem_cons_of_mem first ht) hx fun he => h.root_not_mem ht (he ▸ hx)
  have hfirst : ∀ x ∈ first.body.groups, ∀ i ∈ (g.content x).inputs,
      (g.label i).hosted = none := fun x hx =>
    h.hosted_eq_none List.mem_cons_self (List.mem_cons_of_mem _ hx) fun he =>
      h.root_not_mem_body (he ▸ hx)
  -- the hosted groups first, then the root
  have hbefore : g.Grove ([first] ++ others) := h.grove
  have hdepth : first.body.groups.length ≤ d := by omega
  obtain ⟨hgrove, hnodes, hinputs⟩ := hbefore.flattenTo htree hothers
  have hbetween : ((others.map Tree.top).foldl (Graph.flattenTo d) g).Grove
      ([] ++ first :: others.map Tree.collapse) := hgrove
  obtain ⟨hafter, hnodes', hinputs'⟩ := hbetween.prune (fun x hx i hi => by
    rw [hinputs] at hi
    rw [hnodes.label]
    exact hfirst x hx i hi) hdepth
  have hflatten : g.flatten = prune d ((others.map Tree.top).foldl (Graph.flattenTo d) g)
      first.top := by
    rw [Graph.flatten, hd, flattenTo_succ, hhosted, h.root]
  rw [hflatten]
  replace hnodes := hnodes.trans hnodes'
  replace hinputs := fun x => (hinputs' x).trans (hinputs x)
  refine ⟨⟨⟨hafter.linked, ?_⟩, h.root, hafter.planted, hafter.groups, ?_, ?_, hafter.bare,
    ⟨n, ?_⟩, ?_⟩, hnodes.label⟩
  · intro x i hi
    rw [hinputs] at hi
    rw [hnodes.inputs_size]
    exact h.sound.inputs_lt x i hi
  · rw [hnodes.inputs_size, ← List.map_cons, flatMap_collapse]
    · exact h.inputs
    · exact Tree.inputs_collapse
  · rw [hnodes.merges_size, ← List.map_cons, flatMap_collapse]
    · exact h.merges
    · exact Tree.merges_collapse
  · rw [hinputs, hnodes.label, hosts, List.map_map]
    rfl
  · intro i hi
    rw [hinputs] at hi
    rw [hnodes.label]
    exact h.hostless i hi

/-- The groups that the inputs of the root host are the tops of the other trees, in order. -/
theorem Forest.filterMap_hosted (h : g.Forest first others) :
    ((g.group Graph.root).inputs.filterMap fun i => (g.input i).hosted) = others.map Tree.top := by
  obtain ⟨n, hosts⟩ := h.hosts
  exact filterMap_hosts hosts

/-- Only inputs of the root host a group. -/
theorem Forest.mem_inputs_of_hosted (h : g.Forest first others) {i : InputId} {x : GroupId}
    (hi : (g.input i).hosted = some x) : i ∈ (g.group Graph.root).inputs := by
  by_contra hn
  have hnone : (g.input i).hosted = none := h.hostless i hn
  rw [hi] at hnone
  cases hnone

/-- A hosted group is the top of a tree other than the first. -/
theorem Forest.mem_tops_of_hosted (h : g.Forest first others) {i : InputId} {x : GroupId}
    (hi : (g.input i).hosted = some x) : x ∈ others.map Tree.top := by
  rw [← h.filterMap_hosted]
  exact List.mem_filterMap.2 ⟨i, h.mem_inputs_of_hosted hi, hi⟩

/-- The root and the groups that inputs host are the tops of the trees. -/
theorem Forest.exists_tree (h : g.Forest first others) {x : GroupId}
    (hx : x = Graph.root ∨ ∃ i, (g.input i).hosted = some x) :
    ∃ t ∈ first :: others, t.top = x := by
  rcases hx with rfl | ⟨i, hi⟩
  · exact ⟨first, List.mem_cons_self, h.root⟩
  · obtain ⟨t, ht, he⟩ := List.mem_map.1 (h.mem_tops_of_hosted hi)
    exact ⟨t, List.mem_cons_of_mem first ht, he⟩

/-- Flattening keeps the meaning. What the root and each hosted group read back as is, after
flattening, what they read back as before without the abstractions in them that bind nothing, with
the same inputs for variables and the same merges for applications. -/
theorem flatten_reads_back (names : List Char) (body : Chain) (rest : List Term) :
    ∃ g : Graph S, ofChain? (.ofTerms (.group names body) rest) = .ok g ∧
      (∀ i, (g.flatten.input i).hosted = (g.input i).hosted) ∧
      ∀ x, (x = root ∨ ∃ i, (g.input i).hosted = some x) →
        ∃ r, (∀ r', g.Reads (some (.output x)) r' ↔ r' = r) ∧
          ∀ r', g.flatten.Reads (some (.output x)) r' ↔ r' = r.collapseBody := by
  obtain ⟨g, first, others, hg, hforest, -⟩ := exists_forest (S := S) names body rest
  obtain ⟨hflat, hlabel⟩ := hforest.flatten
  refine ⟨g, hg, ?_, ?_⟩
  · intro i
    exact congrArg Label.hosted (congrFun hlabel i)
  · intro x hx
    obtain ⟨t, ht, rfl⟩ := hforest.exists_tree hx
    have htree := (hforest.planted t ht).reads
    have hmem : t.collapse ∈ first.collapse :: others.map Tree.collapse := by
      rw [← List.map_cons]
      exact List.mem_map_of_mem ht
    have hflattened : g.flatten.Reads (some (.output t.top)) t.reading.collapseBody :=
      (hflat.planted t.collapse hmem).reads
    refine ⟨t.reading, fun r' => ⟨fun h => h.unique htree, ?_⟩,
      fun r' => ⟨fun h => h.unique hflattened, ?_⟩⟩
    · rintro rfl
      exact htree
    · rintro rfl
      exact hflattened

end Graph

end LambdaDiagram
