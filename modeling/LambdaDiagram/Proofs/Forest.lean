import LambdaDiagram.Proofs.Growth
import Mathlib.Data.List.Perm.Subperm

/-!
What a whole graph contains. A graph is a forest of groups that lie in no other: the root, and the
groups that its inputs host. Between them they have every input and every merge of the graph once,
and their groups are the live ones.
-/

namespace LambdaDiagram

/-- A group that lies in no other, read back. -/
structure Tree where
  top : GroupId
  binders : List (InputId × Char)
  body : Reading
deriving DecidableEq, Repr

namespace Tree

/-- The abstraction that a tree reads back as. -/
def reading (t : Tree) : Reading := .abs t.top t.binders t.body

def groups (t : Tree) : List GroupId := t.reading.groups

def inputs (t : Tree) : List InputId := t.reading.inputs

def merges (t : Tree) : List MergeId := t.reading.merges

def slots (t : Tree) : List Slot := t.reading.slots

/-- A tree without the abstractions in it that bind nothing. -/
def collapse (t : Tree) : Tree := { t with body := t.body.collapse }

theorem inputs_collapse (t : Tree) : t.collapse.inputs = t.inputs :=
  congrArg (t.binders.map Prod.fst ++ ·) t.body.inputs_collapse

theorem merges_collapse (t : Tree) : t.collapse.merges = t.merges := t.body.merges_collapse

end Tree

/-- A list names each of some number of nodes once. -/
def Inventory {α : Type} (index : α → Nat) (l : List α) (size : Nat) : Prop :=
  l.Nodup ∧ ∀ a, a ∈ l ↔ index a < size

/-- Lists put one after the other without repetition share nothing. -/
theorem eq_of_nodup_flatMap {α β : Type} {f : α → List β} {l : List α} (h : (l.flatMap f).Nodup)
    {a b : α} {x : β} (ha : a ∈ l) (hb : b ∈ l) (hxa : x ∈ f a) (hxb : x ∈ f b) : a = b := by
  induction l with
  | nil => cases ha
  | cons c l ih =>
    rw [List.flatMap_cons] at h
    obtain ⟨-, hl, hd⟩ := List.nodup_append.1 h
    rcases List.mem_cons.1 ha with hac | hal <;> rcases List.mem_cons.1 hb with hbc | hbl
    · rw [hac, hbc]
    · subst hac
      exact absurd rfl (hd x hxa x (List.mem_flatMap.2 ⟨b, hbl, hxb⟩))
    · subst hbc
      exact absurd rfl (hd x hxb x (List.mem_flatMap.2 ⟨a, hal, hxa⟩))
    · exact ih hl hal hbl

/-- Nodes that are numbered on from an inventory make a larger one. -/
theorem Inventory.append {α : Type} {index : α → Nat} (hinj : ∀ a b, index a = index b → a = b)
    {l l' : List α} {size size' : Nat} (h : Inventory index l size)
    (h' : Numbered index l' size size') : Inventory index (l ++ l') size' := by
  refine ⟨?_, ?_⟩
  · refine List.nodup_append.2 ⟨h.1, h'.nodup, ?_⟩
    rintro a ha _ hb rfl
    exact Nat.not_lt_of_le (h'.bounds hb).1 ((h.2 a).1 ha)
  · intro a
    rw [List.mem_append, h.2]
    constructor
    · rintro (ha | ha)
      · exact Nat.lt_of_lt_of_le ha h'.1
      · exact (h'.bounds ha).2
    · intro ha
      by_cases hlt : index a < size
      · exact .inl hlt
      · obtain ⟨b, hb, he⟩ := h'.exists_mem (Nat.le_of_not_lt hlt) ha
        rw [hinj a b he.symm]
        exact .inr hb

theorem Inventory.perm {α : Type} {index : α → Nat} {l l' : List α} {size : Nat}
    (h : Inventory index l size) (hp : l.Perm l') : Inventory index l' size :=
  ⟨hp.nodup_iff.1 h.1, fun a => hp.mem_iff.symm.trans (h.2 a)⟩

theorem GroupId.index_inj (a b : GroupId) (h : a.index = b.index) : a = b := by
  cases a
  exact congrArg GroupId.mk h

theorem InputId.index_inj (a b : InputId) (h : a.index = b.index) : a = b := by
  cases a
  exact congrArg InputId.mk h

theorem MergeId.index_inj (a b : MergeId) (h : a.index = b.index) : a = b := by
  cases a
  exact congrArg MergeId.mk h

variable {S : Type} [Scalar S]

namespace Graph

/-- A graph contains a tree. -/
structure Planted (g : Graph S) (t : Tree) : Prop where
  parent : (g.content t.top).parent = none
  encloses : g.Encloses t.top t.body
  reads : g.Reads (some (.output t.top)) t.reading
  nested : g.Nested t.top t.body

/-- `g.Forest first others`: the graph consists of the tree of the root and of the trees that the
first inputs of the root host, in order. -/
structure Forest (g : Graph S) (first : Tree) (others : List Tree) : Prop where
  sound : g.Sound
  root : first.top = root
  planted : ∀ t ∈ first :: others, g.Planted t
  groups : ((first :: others).flatMap Tree.groups).Nodup
  inputs : Inventory InputId.index ((first :: others).flatMap Tree.inputs) g.inputs.size
  merges : Inventory MergeId.index ((first :: others).flatMap Tree.merges) g.merges.size
  bare : ∀ x, x ∉ (first :: others).flatMap Tree.groups →
    (g.content x).subgroups = [] ∧ g.held (.producer x) = none
  hosts : ∃ n, (g.content Graph.root).inputs.map (fun i => (g.label i).hosted) =
    others.map (fun t => some t.top) ++ List.replicate n none
  hostless : ∀ i, i ∉ (g.content Graph.root).inputs → (g.label i).hosted = none

variable {g g' : Graph S} {home x : GroupId} {r b : Reading} {t first : Tree} {others : List Tree}
variable {value : Option Source}

/-- A tree stays when its groups have the same content and it reads back the same. -/
theorem Planted.congr (h : g.Planted t) (hcontent : ∀ x ∈ t.groups, g'.content x = g.content x)
    (hreads : g'.Reads (some (.output t.top)) t.reading) : g'.Planted t := by
  have htop := hcontent t.top List.mem_cons_self
  refine ⟨?_, h.encloses.congr htop, hreads,
    h.nested.congr fun x hx => hcontent x (List.mem_cons_of_mem _ hx)⟩
  rw [htop]
  exact h.parent

/-- A tree stays while the graph grows outside it. -/
theorem Planted.later (h : g.Planted t) (hg : g.Sound) (hout : Outside home g g')
    (hne : home ∉ t.groups) : g'.Planted t := by
  have hcontent : ∀ x ∈ t.groups, g'.content x = g.content x := by
    intro x hx
    refine hout.content x (h.reads.group_lt hx) ?_
    rintro rfl
    exact hne hx
  refine h.congr hcontent (h.reads.congr ?_ ?_ hout.groups_le hout.inputs_le hout.merges_le)
  · intro s hs
    cases s with
    | function m =>
      exact hout.held _ (h.reads.merge_lt (Reading.function_mem_slots.1 hs)) (by simp)
    | argument m =>
      exact hout.held _ (h.reads.merge_lt (Reading.argument_mem_slots.1 hs)) (by simp)
    | producer x =>
      have hx : x ∈ t.groups := Reading.producer_mem_slots.1 hs
      refine hout.held _ (h.reads.group_lt hx) ?_
      rintro ⟨⟩
      exact hne hx
  · intro x hx
    exact hout.binders hg (congrArg Content.inputs (hcontent x hx))

/-! ## Live groups -/

/-- The groups of a reading have no inputs but those that the reading binds. -/
theorem Reads.inputs_subset (h : g.Reads value r) (hx : x ∈ r.groups) :
    ∀ i ∈ (g.content x).inputs, i ∈ r.inputs := by
  intro i hi
  induction r generalizing value with
  | hole | var => cases hx
  | app id f a ihf iha =>
    obtain ⟨-, -, hf, ha⟩ := h
    rcases List.mem_append.1 hx with hx | hx
    · exact List.mem_append_left _ (ihf hf hx)
    · exact List.mem_append_right _ (iha ha hx)
  | abs id bs b ih =>
    obtain ⟨-, -, hbs, hb⟩ := h
    rcases List.mem_cons.1 hx with rfl | hx
    · refine List.mem_append_left _ ?_
      rw [← hbs, map_fst_binders]
      exact hi
    · exact List.mem_append_right _ (ih hb hx)

/-- Each group of a reading is a sub-group of the group around the reading or of another group of
it, once. -/
theorem Nested.flatMap_subgroups (h : g.Nested home b) :
    (b.ownGroups ++ b.groups.flatMap fun x => (g.group x).subgroups).Perm b.groups := by
  induction b generalizing home with
  | hole | var => exact List.Perm.refl _
  | app m f a ihf iha =>
    refine List.Perm.trans ?_ ((ihf h.1).append (iha h.2))
    rw [List.perm_iff_count]
    intro n
    simp only [Reading.ownGroups, Reading.groups, List.flatMap_append, List.count_append]
    omega
  | abs id bs b ih =>
    obtain ⟨-, ⟨-, hs⟩, hb⟩ := h
    rw [Reading.ownGroups, Reading.groups, List.flatMap_cons, hs]
    exact (ih hb).cons id

theorem groups_nestsWith (nestOf : GroupId → Nest) (l : List GroupId) :
    (nestsWith nestOf l).groups = l.reverse.flatMap fun x => (nestOf x).groups := by
  induction l with
  | nil => rfl
  | cons x l ih =>
    rw [nestsWith, Nests.groups, ih, List.reverse_cons, List.flatMap_append, List.flatMap_singleton]

theorem groups_anchorsWith (g : Graph S) (nestOf : GroupId → Nest) (ids : List InputId) :
    (g.anchorsWith nestOf ids).groups =
      (ids.filterMap fun i => (g.input i).hosted).reverse.flatMap fun x => (nestOf x).groups := by
  induction ids with
  | nil => rfl
  | cons i ids ih =>
    rw [anchorsWith]
    cases hi : (g.input i).hosted with
    | none => rw [Anchors.groups, ih, List.filterMap_cons, hi]
    | some x =>
      rw [Anchors.groups, ih, List.filterMap_cons, hi, List.reverse_cons, List.flatMap_append,
        List.flatMap_singleton]

/-- Inputs that host nothing contain no groups. -/
theorem groups_anchorsWith_eq_nil (nestOf : GroupId → Nest) {ids : List InputId}
    (h : ∀ i ∈ ids, (g.label i).hosted = none) : (g.anchorsWith nestOf ids).groups = [] := by
  have hnone : (ids.filterMap fun i => (g.input i).hosted) = [] := List.filterMap_eq_nil_iff.2 h
  rw [groups_anchorsWith, hnone]
  rfl

/-- The nests of a reading list its groups, when no input in them hosts anything. -/
theorem Nested.groups_perm {d : Nat} (h : g.Nested home b)
    (hosted : ∀ x ∈ b.groups, ∀ i ∈ (g.content x).inputs, (g.label i).hosted = none)
    (hd : b.groups.length ≤ d) : (nestsWith (g.nestTo d) b.ownGroups).groups.Perm b.groups := by
  induction b generalizing home d with
  | hole | var => exact List.Perm.refl _
  | app id f a ihf iha =>
    simp only [Reading.groups, List.length_append] at hd
    have hf := ihf (d := d) h.1 (fun x hx => hosted x (List.mem_append_left _ hx)) (by omega)
    have ha := iha (d := d) h.2 (fun x hx => hosted x (List.mem_append_right _ hx)) (by omega)
    rw [Reading.ownGroups, groups_nestsWith, List.reverse_append, List.flatMap_append,
      ← groups_nestsWith, ← groups_nestsWith, Reading.groups]
    exact (ha.append hf).trans List.perm_append_comm
  | abs id bs b ih =>
    obtain ⟨-, ⟨-, hs⟩, hb⟩ := h
    cases d with
    | zero => simp [Reading.groups] at hd
    | succ d =>
      have hb := ih (d := d) hb (fun x hx => hosted x (List.mem_cons_of_mem id hx))
        (by simpa [Reading.groups] using hd)
      have ha := groups_anchorsWith_eq_nil (g.nestTo d) (hosted id List.mem_cons_self)
      simp only [Reading.ownGroups, nestsWith, Nests.groups, nestTo, Nest.groups,
        List.nil_append, hs, Reading.groups]
      rw [show (g.anchorsWith (g.nestTo d) (g.group id).inputs).groups = [] from ha,
        List.append_nil]
      exact hb.cons id

/-- The nest of a tree lists its groups, when no input in it hosts anything. -/
theorem Planted.groups_perm {d : Nat} (h : g.Planted t)
    (hosted : ∀ x ∈ t.groups, ∀ i ∈ (g.content x).inputs, (g.label i).hosted = none)
    (hd : t.groups.length ≤ d) : (g.nestTo d t.top).groups.Perm t.groups := by
  cases d with
  | zero => simp [Tree.groups, Tree.reading, Reading.groups] at hd
  | succ d =>
    have hb := h.nested.groups_perm (d := d) (fun x hx => hosted x (List.mem_cons_of_mem _ hx))
      (by simpa [Tree.groups, Tree.reading, Reading.groups] using hd)
    have ha := groups_anchorsWith_eq_nil (g.nestTo d) (hosted t.top List.mem_cons_self)
    rw [nestTo, Nest.groups, h.encloses.2]
    rw [show (g.anchorsWith (g.nestTo d) (g.group t.top).inputs).groups = [] from ha,
      List.append_nil]
    exact hb.cons t.top

/-- The groups that some inputs host are the tops of the trees that they host. -/
theorem filterMap_hosts {ids : List InputId} {host : InputId → Option GroupId} {n : Nat}
    (h : ids.map host = others.map (fun t => some t.top) ++ List.replicate n none) :
    ids.filterMap host = others.map Tree.top := by
  have hmap : ids.filterMap host = (ids.map host).filterMap fun x => x := by
    rw [List.filterMap_map]
    rfl
  rw [hmap, h, List.filterMap_append, List.filterMap_map]
  simp

/-- Inputs that host the tops of some trees in order contain the groups of these. -/
theorem groups_anchorsWith_perm (nestOf : GroupId → Nest) {ids : List InputId} {n : Nat}
    (hosts : ids.map (fun i => (g.label i).hosted) =
      others.map (fun t => some t.top) ++ List.replicate n none)
    (h : ∀ t ∈ others, (nestOf t.top).groups.Perm t.groups) :
    (g.anchorsWith nestOf ids).groups.Perm (others.flatMap Tree.groups) := by
  have htops : (ids.filterMap fun i => (g.input i).hosted) = others.map Tree.top :=
    filterMap_hosts hosts
  rw [groups_anchorsWith, htops]
  refine ((List.reverse_perm _).flatMap_right _).trans ?_
  rw [List.flatMap_map]
  exact List.Perm.flatMap_left others h

namespace Forest

variable (h : g.Forest first others)

include h

theorem groups_lt : ∀ x ∈ (first :: others).flatMap Tree.groups, x.index < g.groups.size := by
  intro x hx
  obtain ⟨t, ht, hx⟩ := List.mem_flatMap.1 hx
  exact (h.planted t ht).reads.group_lt hx

theorem groups_length_le :
    ((first :: others).flatMap Tree.groups).length ≤ g.groups.size := by
  have hn : (((first :: others).flatMap Tree.groups).map GroupId.index).Nodup := by
    refine List.Pairwise.map GroupId.index ?_ h.groups
    rintro ⟨m⟩ ⟨n⟩ hne rfl
    exact hne rfl
  have hsub : ((first :: others).flatMap Tree.groups).map GroupId.index ⊆
      List.range g.groups.size := by
    intro n hn
    obtain ⟨x, hx, rfl⟩ := List.mem_map.1 hn
    exact List.mem_range.2 (h.groups_lt x hx)
  have hle := (hn.subperm hsub).length_le
  simpa using hle

/-- The inputs of all groups but the root host nothing. -/
theorem hosted_eq_none {t : Tree} (ht : t ∈ first :: others) {x : GroupId} (hx : x ∈ t.groups)
    (hne : x ≠ Graph.root) : ∀ i ∈ (g.content x).inputs, (g.label i).hosted = none := by
  intro i hi
  refine h.hostless i fun hroot => ?_
  have hn := h.inputs.1
  rw [List.flatMap_cons] at hn
  have hfirst := h.planted first List.mem_cons_self
  have hi₁ : i ∈ first.inputs := by
    rw [← h.root] at hroot
    exact hfirst.reads.inputs_subset List.mem_cons_self i hroot
  rcases List.mem_cons.1 ht with rfl | ht
  · -- in the tree of the root, an input is either the root's or lies deeper
    have hx : x ∈ t.body.groups := by
      rcases List.mem_cons.1 hx with rfl | hx
      · exact absurd h.root hne
      · exact hx
    have hi₂ : i ∈ t.body.inputs := hfirst.reads.2.2.2.inputs_subset hx i hi
    have hb : i ∈ t.binders.map Prod.fst := by
      rw [← h.root] at hroot
      rw [← hfirst.reads.2.2.1, map_fst_binders]
      exact hroot
    have hd := (List.nodup_append.1 (List.nodup_append.1 hn).1).2.2
    exact hd i hb i hi₂ rfl
  · have hi₂ : i ∈ others.flatMap Tree.inputs := by
      refine List.mem_flatMap.2 ⟨t, ht, ?_⟩
      exact (h.planted t (List.mem_cons_of_mem _ ht)).reads.inputs_subset hx i hi
    exact (List.nodup_append.1 hn).2.2 i hi₁ i hi₂ rfl

/-- The root lies in no tree but its own. -/
theorem root_not_mem {t : Tree} (ht : t ∈ others) : Graph.root ∉ t.groups := by
  intro hm
  have hn := h.groups
  rw [List.flatMap_cons] at hn
  have hroot : Graph.root ∈ first.groups := by
    rw [← h.root]
    exact List.mem_cons_self
  exact (List.nodup_append.1 hn).2.2 _ hroot _ (List.mem_flatMap.2 ⟨t, ht, hm⟩) rfl

theorem root_not_mem_body : Graph.root ∉ first.body.groups := by
  intro hm
  have hn := h.groups
  rw [List.flatMap_cons] at hn
  have hfirst : (first.top :: first.body.groups).Nodup := (List.nodup_append.1 hn).1
  rw [h.root] at hfirst
  exact (List.nodup_cons.1 hfirst).1 hm

/-- The live groups are those of the trees. -/
theorem liveGroups_perm : g.liveGroups.Perm ((first :: others).flatMap Tree.groups) := by
  have hlen := h.groups_length_le
  have hfirst := h.planted first List.mem_cons_self
  obtain ⟨n, hosts⟩ := h.hosts
  rw [List.flatMap_cons, List.length_append] at hlen
  have hpos : first.groups.length = first.body.groups.length + 1 := List.length_cons
  obtain ⟨d, hd⟩ : ∃ d, g.groups.size = d + 1 := ⟨g.groups.size - 1, by omega⟩
  have hbody := hfirst.nested.groups_perm (d := d) (fun x hx => h.hosted_eq_none
    List.mem_cons_self (List.mem_cons_of_mem _ hx) fun he => h.root_not_mem_body (he ▸ hx))
    (by omega)
  have hanchors := groups_anchorsWith_perm (g.nestTo d) hosts fun t ht =>
    (h.planted t (List.mem_cons_of_mem _ ht)).groups_perm (d := d)
      (fun x hx => h.hosted_eq_none (List.mem_cons_of_mem _ ht) hx fun he =>
        h.root_not_mem ht (he ▸ hx)) (by
      have hs : t.groups.Sublist (others.flatMap Tree.groups) :=
        List.sublist_flatten_of_mem (List.mem_map_of_mem ht)
      have hle := hs.length_le
      omega)
  have hsub : (g.group Graph.root).subgroups = first.body.ownGroups := by
    rw [← h.root]
    exact hfirst.encloses.2
  have hgroups : first.groups = Graph.root :: first.body.groups := by
    rw [← h.root]
    rfl
  rw [liveGroups, nest, hd, nestTo, Nest.groups, hsub, List.flatMap_cons, hgroups]
  exact (hbody.append hanchors).cons Graph.root

theorem mem_liveGroups : x ∈ g.liveGroups ↔ x ∈ (first :: others).flatMap Tree.groups :=
  h.liveGroups_perm.mem_iff

/-- The sub-groups of the live groups are the groups of the trees, their tops apart. -/
theorem subgroups_perm : (g.liveGroups.flatMap fun x => (g.group x).subgroups).Perm
    ((first :: others).flatMap fun t => t.body.groups) := by
  refine (h.liveGroups_perm.flatMap_right _).trans ?_
  rw [List.flatMap_assoc]
  refine List.Perm.flatMap_left _ fun t ht => ?_
  have hp := h.planted t ht
  rw [Tree.groups, Tree.reading, Reading.groups, List.flatMap_cons, hp.encloses.2]
  exact hp.nested.flatMap_subgroups

/-- A group that has sub-groups is live. -/
theorem live_of_subgroup (hy : y ∈ (g.group x).subgroups) : x ∈ g.liveGroups := by
  by_contra hn
  have hnil : (g.group x).subgroups = [] := (h.bare x fun hx => hn (h.mem_liveGroups.2 hx)).1
  rw [hnil] at hy
  cases hy

/-- A sub-group lies in the body of a tree. -/
theorem mem_body_of_subgroup (hy : y ∈ (g.group x).subgroups) :
    ∃ t ∈ first :: others, y ∈ t.body.groups := by
  have hmem : y ∈ g.liveGroups.flatMap fun x => (g.group x).subgroups :=
    List.mem_flatMap.2 ⟨x, h.live_of_subgroup hy, hy⟩
  exact List.mem_flatMap.1 (h.subgroups_perm.mem_iff.1 hmem)

/-- Whatever holds a value is a slot of a tree. -/
theorem slot_mem {s : Slot} {source : Source} (hs : g.held s = some source) :
    ∃ t ∈ first :: others, s ∈ t.slots := by
  have hslot : g.HasSlot s := by
    by_contra hn
    rw [held_eq_none hn] at hs
    cases hs
  cases s with
  | function m =>
    obtain ⟨t, ht, hm⟩ := List.mem_flatMap.1 ((h.merges.2 m).2 hslot)
    exact ⟨t, ht, Reading.function_mem_slots.2 hm⟩
  | argument m =>
    obtain ⟨t, ht, hm⟩ := List.mem_flatMap.1 ((h.merges.2 m).2 hslot)
    exact ⟨t, ht, Reading.argument_mem_slots.2 hm⟩
  | producer x =>
    by_cases hx : x ∈ (first :: others).flatMap Tree.groups
    · obtain ⟨t, ht, hx⟩ := List.mem_flatMap.1 hx
      exact ⟨t, ht, Reading.producer_mem_slots.2 hx⟩
    · rw [(h.bare x hx).2] at hs
      cases hs

/-- What the slots of a tree hold is an input, or lies in the body of the tree. -/
theorem within {t : Tree} (ht : t ∈ first :: others) {s : Slot} {source : Source}
    (hs : s ∈ t.slots) (he : g.held s = some source) : g.Within t.body source :=
  @Reads.within S _ g t.body (.producer t.top) s source (h.planted t ht).reads.2.2.2 hs he

/-- No group lies in two trees. -/
theorem tree_unique {t u : Tree} (ht : t ∈ first :: others) (hu : u ∈ first :: others)
    (hxt : x ∈ t.groups) (hxu : x ∈ u.groups) : t = u :=
  eq_of_nodup_flatMap h.groups ht hu hxt hxu

/-- The groups of a tree are distinct. -/
theorem tree_nodup {t : Tree} (ht : t ∈ first :: others) : t.groups.Nodup := by
  have hs : t.groups.Sublist ((first :: others).flatMap Tree.groups) :=
    List.sublist_flatten_of_mem (List.mem_map_of_mem ht)
  exact hs.nodup h.groups

/-- No slot holds the output of the top of a tree. -/
theorem held_ne_top {t : Tree} (ht : t ∈ first :: others) (s : Slot) :
    g.held s ≠ some (.output t.top) := by
  intro hs
  obtain ⟨u, hu, hsu⟩ := h.slot_mem hs
  have hw : t.top ∈ u.body.groups := h.within hu hsu hs
  obtain rfl := h.tree_unique ht hu List.mem_cons_self (List.mem_cons_of_mem _ hw)
  exact (List.nodup_cons.1 (h.tree_nodup ht)).1 hw

end Forest

end Graph

end LambdaDiagram
