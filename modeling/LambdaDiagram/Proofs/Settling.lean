import LambdaDiagram.Proofs.Establishing

/-!
What becomes of a group as it settles. Its center stays, its size is the one that it needs once its
sub-groups have parted, and whatever else lies in it is where turning the inputs has left it. So a
group that is laid out with a group around it stays where it is until that moves it.
-/

namespace LambdaDiagram

variable {S : Type} [Scalar S]

open LambdaDiagram.Graph

section

variable {g₀ g : Graph S} {home id : GroupId} {n : Nest} {anchors : Anchors} {subgroups : Nests}

/-- Once the inputs are turned, they stay. -/
theorem input_settle (e : Engine S) (g : Graph S) (id : GroupId) (anchors : Anchors)
    (subgroups : Nests) (largest : S) (i : InputId) :
    (e.settle g id anchors subgroups largest).input i =
      (e.turned g id anchors subgroups largest).input i := by
  have hease : g.Changes [] [] _ _ :=
    easeMerges_changes e ((e.turned g id anchors subgroups largest).lowerOutput id) id
  rw [Engine.settle_eq, hease.input i List.not_mem_nil nofun]
  rfl

/-- Once the inputs are turned, only the group that they belong to is touched. -/
theorem group_settle_ne (e : Engine S) (g : Graph S) (anchors : Anchors) (subgroups : Nests)
    (largest : S) {x : GroupId} (hx : x ≠ id) :
    (e.settle g id anchors subgroups largest).group x =
      (e.turned g id anchors subgroups largest).group x := by
  have hease : g.Changes [] [] _ _ :=
    easeMerges_changes e ((e.turned g id anchors subgroups largest).lowerOutput id) id
  rw [Engine.settle_eq, hease.group x List.not_mem_nil, lowerOutput, group_modifyGroup,
    if_neg fun h => hx h.1.symm]

/-- Turning inputs leaves the group that they belong to alone. -/
theorem Nest.Fits.group_turned (hg : g₀.Tidy) (e : Engine S)
    (h : (Nest.group id anchors subgroups).Fits g₀) (ha : g₀.Alike g) (largest : S) :
    (e.turned g id anchors subgroups largest).group id =
      { g.group id with
        radius := e.neededRadius (e.separate g 0 subgroups.toList) id
        outerRadius := e.neededRadius (e.separate g 0 subgroups.toList) id + largest } := by
  have hanchors := h.anchors hg
  have hseparate := separate_changes e h.subgroups.shows g 0
  have hlt := h.id_lt hg (ha.trans hseparate.alike)
  have hturn := hanchors.shows.turnInputs_changes e id 0
    (e.resize (e.separate g 0 subgroups.toList) id largest)
  rw [Engine.turned, hturn.group id hanchors.home_notMem, Engine.resize,
    group_modifyGroup, if_pos ⟨rfl, hlt⟩]
  rw [hseparate.group id h.id_notMem]

/-- A group that settles has the size that it needs and its output below. -/
theorem Nest.Fits.group_settle (hg : g₀.Tidy) (e : Engine S)
    (h : (Nest.group id anchors subgroups).Fits g₀) (ha : g₀.Alike g) (largest : S) :
    (e.settle g id anchors subgroups largest).group id =
      { g.group id with
        radius := e.neededRadius (e.separate g 0 subgroups.toList) id
        outerRadius := e.neededRadius (e.separate g 0 subgroups.toList) id + largest
        output := { (g.group id).output with
          position := (g.group id).position +
            ⟨0.0, e.neededRadius (e.separate g 0 subgroups.toList) id⟩ } } := by
  have hease : g.Changes [] [] _ _ :=
    easeMerges_changes e ((e.turned g id anchors subgroups largest).lowerOutput id) id
  have halike := ha.trans (turned_changes e h.shows.1 (h.anchors hg).shows h.subgroups.shows g
    largest).alike
  have hlt := h.id_lt hg halike
  rw [Engine.settle_eq, hease.group id List.not_mem_nil, lowerOutput, group_modifyGroup,
    if_pos ⟨rfl, hlt⟩, h.group_turned hg e ha]

/-! ## Before a group settles -/

/-- A graph in which all that lies in a group has been laid out, with the largest radius of the
inputs of the group. -/
def Engine.inner (e : Engine S) (g : Graph S) (anchors : Anchors) (subgroups : Nests) :
    Graph S × S :=
  (e.tickNests (e.tickAnchors g 0.0 anchors).1 subgroups, (e.tickAnchors g 0.0 anchors).2)

theorem Engine.tickNest_eq (e : Engine S) (g : Graph S) (id : GroupId) (anchors : Anchors)
    (subgroups : Nests) : e.tickNest g (.group id anchors subgroups) =
      e.settle (e.inner g anchors subgroups).1 id anchors subgroups
        (e.inner g anchors subgroups).2 := rfl

theorem Nest.Fits.inner_alike (hg : g₀.Tidy) (e : Engine S)
    (h : (Nest.group id anchors subgroups).Fits g₀) (g : Graph S) :
    g.Alike (e.inner g anchors subgroups).1 :=
  ((h.anchors hg).shows.tick_changes e g 0.0).alike.trans
    (h.subgroups.shows.tick_changes e _).alike

/-- A group is left alone until it settles. -/
theorem Nest.Fits.group_inner (hg : g₀.Tidy) (e : Engine S)
    (h : (Nest.group id anchors subgroups).Fits g₀) (g : Graph S) :
    (e.inner g anchors subgroups).1.group id = g.group id := by
  have hanchors := h.anchors hg
  have hsized := hanchors.shows.tick_changes e g 0.0
  have hsub := h.subgroups.shows.tick_changes e (e.tickAnchors g 0.0 anchors).1
  rw [Engine.inner, hsub.group id h.id_notMem]
  exact hsized.group id hanchors.home_notMem

/-- Laying out sub-groups leaves the inputs of the group and what they host alone. -/
theorem Nest.Fits.inner_untouched (hg : g₀.Tidy) (e : Engine S)
    (h : (Nest.group id anchors subgroups).Fits g₀) (g : Graph S) :
    (∀ i ∈ anchors.own, (e.inner g anchors subgroups).1.input i =
      (e.tickAnchors g 0.0 anchors).1.input i) ∧
    ∀ x ∈ anchors.groups, (e.inner g anchors subgroups).1.group x =
      (e.tickAnchors g 0.0 anchors).1.group x := by
  have hsub := h.subgroups.shows.tick_changes e (e.tickAnchors g 0.0 anchors).1
  have hsame := h.untouched hg hsub
  refine ⟨fun i hi => hsame.2 i ((h.anchors hg).own hi), fun x hx => ?_⟩
  exact hsub.group x fun hm => h.disjoint hm (List.mem_cons_of_mem id hx)

/-- Laying a group out leaves its center where it is. -/
theorem Nest.Fits.position_tick (hg : g₀.Tidy) (e : Engine S) (h : n.Fits g₀) (ha : g₀.Alike g) :
    ((e.tickNest g n).group n.id).position = (g.group n.id).position := by
  obtain ⟨id, anchors, subgroups⟩ := n
  rw [Engine.tickNest_eq, Nest.id, h.group_settle hg e (ha.trans (h.inner_alike hg e g)),
    h.group_inner hg e]

theorem position_resizeInput (g : Graph S) (radius : S) (i j : InputId) :
    ((g.resizeInput radius i).input j).position = (g.input j).position := by
  rw [Graph.resizeInput, input_modifyInput]
  split <;> rfl

/-- Sizing the inputs of a group leaves them where they are, and what they host too. -/
theorem Anchors.Fits.tick_positions (hg : g₀.Tidy) (e : Engine S) : {as : Anchors} →
    {g : Graph S} → (largest : S) → as.Fits g₀ home → g₀.Alike g → ∀ i ∈ as.own,
    ((e.tickAnchors g largest as).1.input i).position = (g.input i).position ∧
    ∀ y, (g₀.input i).hosted = some y →
      ((e.tickAnchors g largest as).1.group y).position = (g.group y).position
  | .nil, _, _, _, _ => List.forall_mem_nil _
  | .bare id rest, g, largest, h, ha => by
    have hresize : g₀.Changes [] [id] _ _ := resizeInput_changes g e.inputRadius id
    have hrest := h.of_bare.shows.tick_changes e (g.resizeInput e.inputRadius id)
      (Scalar.larger largest e.inputRadius)
    have hkept := h.of_bare.tick_positions hg e (Scalar.larger largest e.inputRadius)
      (ha.trans hresize.alike)
    rw [Engine.tickAnchors, Anchors.own]
    refine List.forall_mem_cons.2 ⟨⟨?_, ?_⟩, fun i hi => ⟨?_, (hkept i hi).2⟩⟩
    · rw [h.input_eq_of_bare hg hrest]
      exact position_resizeInput g _ id id
    · intro y hy
      rw [h.shows.1] at hy
      cases hy
    · exact (hkept i hi).1.trans (position_resizeInput g _ id i)
  | .hosting id hosted rest, g, largest, h, ha => by
    let radius := ((e.tickNest g hosted).group hosted.id).outerRadius + e.inputPadding
    have hhosted := h.hosted.shows.tick_changes e g
    have ha1 := ha.trans hhosted.alike
    have hresize : g₀.Changes [] [id] _ _ := resizeInput_changes (e.tickNest g hosted) radius id
    have ha2 := ha1.trans hresize.alike
    have hrest := h.of_hosting.shows.tick_changes e ((e.tickNest g hosted).resizeInput radius id)
      (Scalar.larger largest radius)
    have hkept := h.of_hosting.tick_positions hg e (Scalar.larger largest radius) ha2
    have hinput : ∀ i ∈ (g₀.group home).inputs,
        (((e.tickNest g hosted).resizeInput radius id).input i).position = (g.input i).position := by
      intro i hi
      rw [position_resizeInput, h.input_eq_of_hosted hg hhosted hi]
    rw [Engine.tickAnchors, Anchors.own]
    refine List.forall_mem_cons.2 ⟨⟨?_, ?_⟩, fun i hi => ⟨?_, ?_⟩⟩
    · rw [h.input_eq_of_hosting hg hrest]
      exact hinput id (h.own List.mem_cons_self)
    · intro y hy
      rw [h.shows.1] at hy
      cases hy
      rw [hrest.group hosted.id fun hm => h.apart hm hosted.id_mem_groups]
      exact h.hosted.position_tick hg e ha
    · exact (hkept i hi).1.trans (hinput i (h.of_hosting.own hi))
    · intro y hy
      have hmem := h.of_hosting.shows.mem_groups hi hy
      refine ((hkept i hi).2 y hy).trans ?_
      exact congrArg Group.position (hhosted.group y (h.apart hmem))

/-- When a group takes its size, its inputs are where they were before the tick, and what they host
too. -/
theorem Nest.Fits.positions_resized (hg : g₀.Tidy) (e : Engine S)
    (h : (Nest.group id anchors subgroups).Fits g₀) (ha : g₀.Alike g) (largest : S)
    {i : InputId} (hi : i ∈ anchors.own) :
    ((e.resize (e.separate (e.inner g anchors subgroups).1 0 subgroups.toList) id largest).input
      i).position = (g.input i).position ∧
    ∀ y, (g₀.input i).hosted = some y →
      ((e.resize (e.separate (e.inner g anchors subgroups).1 0 subgroups.toList) id largest).group
        y).position = (g.group y).position := by
  have hanchors := h.anchors hg
  obtain ⟨hinputs, hgroups⟩ := h.inner_untouched hg e g
  obtain ⟨hposition, hhosted⟩ := hanchors.tick_positions hg e 0.0 ha i hi
  have hseparate := separate_changes e h.subgroups.shows (e.inner g anchors subgroups).1 0
  have hsame := h.untouched hg hseparate
  constructor
  · rw [Engine.resize, input_modifyGroup, hsame.2 i (hanchors.own hi), hinputs i hi, hposition]
  · intro y hy
    have hmem := hanchors.shows.mem_groups hi hy
    have hne := ne_of_mem_of_not_mem hmem hanchors.home_notMem
    rw [Engine.resize, group_modifyGroup, if_neg fun he => hne he.1.symm]
    rw [hseparate.group y fun hm => h.disjoint hm (List.mem_cons_of_mem id hmem)]
    rw [hgroups y hmem, hhosted y hy]

/-- What lies in the sub-groups of a group is left alone once these have parted. -/
theorem Nest.Fits.group_settle_of_subgroup (hg : g₀.Tidy) (e : Engine S)
    (h : (Nest.group id anchors subgroups).Fits g₀) (g : Graph S) (largest : S) {x : GroupId}
    (hx : x ∈ subgroups.groups) : (e.settle g id anchors subgroups largest).group x =
      (e.separate g 0 subgroups.toList).group x := by
  have hne := ne_of_mem_of_not_mem hx h.id_notMem
  have hturn := (h.anchors hg).shows.turnInputs_changes e id 0
    (e.resize (e.separate g 0 subgroups.toList) id largest)
  rw [group_settle_ne e g anchors subgroups largest hne, Engine.turned]
  rw [hturn.group x fun hm => h.disjoint hx (List.mem_cons_of_mem id hm)]
  rw [Engine.resize, group_modifyGroup, if_neg fun he => hne he.1.symm]

end

end LambdaDiagram
