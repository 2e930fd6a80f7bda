import LambdaDiagram.Proofs.Reach

/-!
What a nest says of a graph. A nest shows a graph when its inputs and sub-groups are those of the
graph, at whatever depth. Of a graph in which no group lies in itself the nest of the root shows all
that is live, and in a forest it has each live group and each live input in one place.
-/

namespace LambdaDiagram

variable {S : Type} [Scalar S]

/-- The inputs at hand, without those of the groups that they host. -/
def Anchors.own : Anchors → List InputId
  | .nil => []
  | .bare id rest => id :: rest.own
  | .hosting id _ rest => id :: rest.own

/-- The groups at hand, without those that lie in them. -/
def Nests.own : Nests → List GroupId
  | .nil => []
  | .cons n rest => n.id :: rest.own

mutual

/-- A nest says what lies in its groups. -/
def Nest.Shows (g : Graph S) : Nest → Prop
  | .group id anchors subgroups =>
    anchors.own = (g.group id).inputs ∧ subgroups.own = (g.group id).subgroups ∧
      anchors.Shows g ∧ subgroups.Shows g

/-- Some anchors say what their inputs host. -/
def Anchors.Shows (g : Graph S) : Anchors → Prop
  | .nil => True
  | .bare id rest => (g.input id).hosted = none ∧ rest.Shows g
  | .hosting id hosted rest =>
    (g.input id).hosted = some hosted.id ∧ hosted.Shows g ∧ rest.Shows g

/-- Some nests say what lies in their groups. -/
def Nests.Shows (g : Graph S) : Nests → Prop
  | .nil => True
  | .cons n rest => n.Shows g ∧ rest.Shows g

end

section

variable {g : Graph S} {x y : GroupId} {i : InputId}

theorem Nest.id_mem_groups (n : Nest) : n.id ∈ n.groups := by
  cases n
  exact List.mem_cons_self

theorem Nests.own_subset_groups (ns : Nests) : ∀ x ∈ ns.own, x ∈ ns.groups := by
  cases ns with
  | nil => exact nofun
  | cons n rest =>
    rw [Nests.own, Nests.groups, List.forall_mem_cons]
    refine ⟨List.mem_append_right _ n.id_mem_groups, fun x hx => ?_⟩
    exact List.mem_append_left _ (own_subset_groups rest x hx)

theorem Nests.mem_groups {ns : Nests} : x ∈ ns.groups ↔ ∃ n ∈ ns.toList, x ∈ n.groups := by
  cases ns with
  | nil => simp [Nests.groups, Nests.toList]
  | cons n rest =>
    rw [Nests.groups, Nests.toList, List.mem_append, Nests.mem_groups, List.exists_mem_cons_iff,
      or_comm]

theorem Nests.Shows.of_mem {ns : Nests} (h : ns.Shows g) : ∀ n ∈ ns.toList, n.Shows g := by
  cases ns with
  | nil => exact nofun
  | cons n rest =>
    rw [Nests.toList, List.forall_mem_cons]
    exact ⟨h.1, of_mem h.2⟩

/-- What an input hosts is among the groups of its anchor. -/
theorem Anchors.Shows.mem_groups {as : Anchors} (h : as.Shows g) (hi : i ∈ as.own)
    (hy : (g.input i).hosted = some y) : y ∈ as.groups := by
  cases as with
  | nil => cases hi
  | bare id rest =>
    rw [Anchors.groups]
    rcases List.mem_cons.1 hi with rfl | hi
    · rw [h.1] at hy
      cases hy
    · exact mem_groups h.2 hi hy
  | hosting id hosted rest =>
    rcases List.mem_cons.1 hi with rfl | hi
    · rw [h.1] at hy
      cases hy
      exact List.mem_append_right _ hosted.id_mem_groups
    · exact List.mem_append_left _ (mem_groups h.2.2 hi hy)

/-! ## Everything that lies in a group -/

mutual

/-- Whatever lies in a group of a nest is one of its groups. -/
theorem Nest.Shows.closed : {n : Nest} → n.Shows g → x ∈ n.groups → g.Contains x y → y ∈ n.groups
  | .group id anchors subgroups, ⟨hinputs, hsubgroups, ha, hs⟩, hx, hxy => by
    apply List.mem_cons_of_mem
    rcases List.mem_cons.1 hx with rfl | hx
    · rcases hxy with hy | ⟨i, hi, hiy⟩
      · rw [← hsubgroups] at hy
        exact List.mem_append_left _ (subgroups.own_subset_groups y hy)
      · rw [← hinputs] at hi
        exact List.mem_append_right _ (ha.mem_groups hi hiy)
    · rcases List.mem_append.1 hx with hx | hx
      · exact List.mem_append_left _ (hs.closed hx hxy)
      · exact List.mem_append_right _ (ha.closed hx hxy)

theorem Anchors.Shows.closed : {as : Anchors} → as.Shows g → x ∈ as.groups → g.Contains x y →
    y ∈ as.groups
  | .nil, _, hx, _ => nomatch hx
  | .bare _ _, h, hx, hxy => h.2.closed hx hxy
  | .hosting _ _ _, h, hx, hxy => by
    rcases List.mem_append.1 hx with hx | hx
    · exact List.mem_append_left _ (h.2.2.closed hx hxy)
    · exact List.mem_append_right _ (h.2.1.closed hx hxy)

theorem Nests.Shows.closed : {ns : Nests} → ns.Shows g → x ∈ ns.groups → g.Contains x y →
    y ∈ ns.groups
  | .nil, _, hx, _ => nomatch hx
  | .cons _ _, h, hx, hxy => by
    rcases List.mem_append.1 hx with hx | hx
    · exact List.mem_append_left _ (h.2.closed hx hxy)
    · exact List.mem_append_right _ (h.1.closed hx hxy)

end

mutual

/-- A group has one nest. -/
theorem Nest.Shows.unique : {n n' : Nest} → n.Shows g → n'.Shows g → n.id = n'.id → n = n'
  | .group x _ _, .group y _ _, ⟨hi, hs, ha, hn⟩, ⟨hi', hs', ha', hn'⟩, hid => by
    obtain rfl : x = y := hid
    rw [ha.unique ha' (hi.trans hi'.symm), hn.unique hn' (hs.trans hs'.symm)]

theorem Anchors.Shows.unique : {as as' : Anchors} → as.Shows g → as'.Shows g →
    as.own = as'.own → as = as'
  | .nil, .nil, _, _, _ => rfl
  | .bare _ _, .bare _ _, h, h', hown => by
    obtain ⟨rfl, hrest⟩ := List.cons.inj hown
    rw [h.2.unique h'.2 hrest]
  | .hosting _ _ _, .hosting _ _ _, h, h', hown => by
    obtain ⟨rfl, hrest⟩ := List.cons.inj hown
    have hid := Option.some.inj (h.1.symm.trans h'.1)
    rw [h.2.1.unique h'.2.1 hid, h.2.2.unique h'.2.2 hrest]
  | .bare _ _, .hosting _ _ _, h, h', hown => by
    obtain ⟨rfl, -⟩ := List.cons.inj hown
    exact nomatch h.1.symm.trans h'.1
  | .hosting _ _ _, .bare _ _, h, h', hown => by
    obtain ⟨rfl, -⟩ := List.cons.inj hown
    exact nomatch h.1.symm.trans h'.1

theorem Nests.Shows.unique : {ns ns' : Nests} → ns.Shows g → ns'.Shows g → ns.own = ns'.own →
    ns = ns'
  | .nil, .nil, _, _, _ => rfl
  | .cons _ _, .cons _ _, h, h', hown => by
    obtain ⟨hid, hrest⟩ := List.cons.inj hown
    rw [h.1.unique h'.1 hid, h.2.unique h'.2 hrest]

end

end

namespace Graph

section

variable {g : Graph S} {x : GroupId} {nestOf : GroupId → Nest}

/-! ## Reading a nest off -/

theorem id_nestTo (g : Graph S) (d : Nat) (x : GroupId) : (g.nestTo d x).id = x := by
  cases d <;> rfl

theorem own_anchorsWith (ids : List InputId) : (g.anchorsWith nestOf ids).own = ids := by
  induction ids with
  | nil => rfl
  | cons i ids ih =>
    rw [anchorsWith]
    split
    · rw [Anchors.own, ih]
    · rw [Anchors.own, ih]

theorem own_nestsWith (hid : ∀ y, (nestOf y).id = y) (ys : List GroupId) :
    (nestsWith nestOf ys).own = ys := by
  induction ys with
  | nil => rfl
  | cons y ys ih => rw [nestsWith, Nests.own, hid, ih]

theorem shows_anchorsWith (hid : ∀ y, (nestOf y).id = y) {ids : List InputId}
    (hnest : ∀ i ∈ ids, ∀ y, (g.input i).hosted = some y → (nestOf y).Shows g) :
    (g.anchorsWith nestOf ids).Shows g := by
  induction ids with
  | nil => exact trivial
  | cons i ids ih =>
    obtain ⟨hi, hrest⟩ := List.forall_mem_cons.1 hnest
    rw [anchorsWith]
    cases hhosted : (g.input i).hosted with
    | none => exact ⟨hhosted, ih hrest⟩
    | some y => exact ⟨hhosted.trans (congrArg some (hid y).symm), hi y hhosted, ih hrest⟩

theorem shows_nestsWith {ys : List GroupId} (hnest : ∀ y ∈ ys, (nestOf y).Shows g) :
    (nestsWith nestOf ys).Shows g := by
  induction ys with
  | nil => exact trivial
  | cons y ys ih =>
    obtain ⟨hy, hrest⟩ := List.forall_mem_cons.1 hnest
    exact ⟨hy, ih hrest⟩

/-- A nest that is read to the depth of what lies in its group shows the graph. -/
theorem AcyclicBelow.shows_nestTo (hx : g.AcyclicBelow x) {d : Nat} (hd : (g.span x).card ≤ d) :
    (g.nestTo d x).Shows g := by
  induction d generalizing x with
  | zero =>
    -- a group of which nothing is in the store, not even the group, has nothing in it
    have hblank : g.group x = default := group_of_size_le (size_le_of_card_span hd)
    rw [nestTo, Nest.Shows, hblank]
    exact ⟨rfl, rfl, trivial, trivial⟩
  | succ d ih =>
    have hid := g.id_nestTo d
    have hnest : ∀ y, g.Contains x y → (g.nestTo d y).Shows g := by
      intro y hy
      have hlt := hx.card_span_lt hy
      apply ih (hx.step hy)
      omega
    rw [nestTo, Nest.Shows]
    refine ⟨own_anchorsWith _, own_nestsWith hid _, shows_anchorsWith hid ?_, shows_nestsWith ?_⟩
    · exact fun i hi y hiy => hnest y (.inr ⟨i, hi, hiy⟩)
    · exact fun y hy => hnest y (.inl hy)

theorem AcyclicBelow.shows_nest (hx : g.AcyclicBelow x) : (g.nest x).Shows g :=
  hx.shows_nestTo (g.card_span_le x)

theorem Acyclic.shows_nest (hg : g.Acyclic) (x : GroupId) : (g.nest x).Shows g :=
  (hg.below x).shows_nest

/-- A nest is that of its group with the nests of what lies in it. -/
theorem AcyclicBelow.nest_eq (hx : g.AcyclicBelow x) : g.nest x =
    .group x (g.anchorsWith g.nest (g.group x).inputs) (nestsWith g.nest (g.group x).subgroups) := by
  have hid : ∀ y, (g.nest y).id = y := g.id_nestTo _
  refine hx.shows_nest.unique ⟨?_, ?_, ?_, ?_⟩ (hid x)
  · exact own_anchorsWith _
  · exact own_nestsWith hid _
  · exact shows_anchorsWith hid fun i hi y hiy => (hx.step (.inr ⟨i, hi, hiy⟩)).shows_nest
  · exact shows_nestsWith fun y hy => (hx.step (.inl hy)).shows_nest

/-- A nest lists its group and the nests of what lies directly in it. -/
theorem AcyclicBelow.groups_nest (hx : g.AcyclicBelow x) : (g.nest x).groups =
    x :: (g.contents x).flatMap fun y => (g.nest y).groups := by
  rw [hx.nest_eq, Nest.groups, groups_nestsWith, groups_anchorsWith, ← List.flatMap_append,
    ← List.reverse_append, contents]

theorem Acyclic.nest_eq (hg : g.Acyclic) (x : GroupId) : g.nest x =
    .group x (g.anchorsWith g.nest (g.group x).inputs) (nestsWith g.nest (g.group x).subgroups) :=
  (hg.below x).nest_eq

end

/-! ## Graphs in which everything has one place -/

/-- The nest of the root shows all of the graph that is live, and each live group and each live
input has one place in it. -/
structure Tidy (g : Graph S) : Prop where
  shows : (g.nest root).Shows g
  nodup : g.liveGroups.Nodup
  /-- A live group lists none of its inputs twice. -/
  inputs : ∀ x ∈ g.liveGroups, (g.group x).inputs.Nodup
  /-- An input belongs to one live group at most. -/
  owner : ∀ x ∈ g.liveGroups, ∀ y ∈ g.liveGroups, ∀ i, i ∈ (g.group x).inputs →
    i ∈ (g.group y).inputs → x = y
  groups_lt : ∀ x ∈ g.liveGroups, x.index < g.groups.size
  inputs_lt : ∀ x ∈ g.liveGroups, ∀ i ∈ (g.group x).inputs, i.index < g.inputs.size

theorem Forest.tidy {g : Graph S} {first : Tree} {others : List Tree}
    (h : g.Forest first others) : g.Tidy where
  shows := h.acyclic.shows_nest Graph.root
  nodup := h.ownershipTree.nodup
  inputs := (List.nodup_flatMap.1 h.liveInputs_inventory.1).1
  owner _ hx _ hy _ hix hiy := eq_of_nodup_flatMap h.liveInputs_inventory.1 hx hy hix hiy
  groups_lt x hx := h.groups_lt x (h.mem_liveGroups.1 hx)
  inputs_lt x hx i hi :=
    (h.liveInputs_inventory.2 i).1 (List.mem_flatMap.2 ⟨x, hx, hi⟩)

end Graph

end LambdaDiagram
