import LambdaDiagram.Proofs.RigidMotion
import LambdaDiagram.Proofs.Settling
import LambdaDiagram.Proofs.StartingPlaces

/-!
The geometry of a drawing with exact numbers. When the tick comes to a group, its inputs are put on
the upper half of its boundary, its output at the bottom, its boundary around its sub-groups, and
each hosted group onto its input. Later in the tick the group is only moved, with everything in it,
so the same holds when the tick is over.
-/

namespace LambdaDiagram

namespace Graph

/-- Every group that an input of a group hosts has its center on the input. -/
def Centred {S : Type} [Scalar S] (g : Graph S) (x : GroupId) : Prop :=
  ∀ i ∈ (g.group x).inputs, ∀ y, (g.input i).hosted = some y →
    (g.group y).position = (g.input i).position

end Graph

/-- Where what belongs to a group is, as seen from its center. -/
structure Engine.Placed (e : Engine ℝ) (g : Graph ℝ) (x : GroupId) : Prop where
  radius : e.defaultRadius ≤ (g.group x).radius
  /-- Inputs are on the upper half of the boundary. -/
  angle : ∀ i ∈ (g.group x).inputs,
    Real.pi ≤ (g.input i).angle ∧ (g.input i).angle ≤ 2 * Real.pi
  /-- The angle of an input says where on the boundary it is. -/
  input : ∀ i ∈ (g.group x).inputs, (g.input i).position =
    .ofPolar (g.group x).radius (g.input i).angle (g.group x).position
  output : (g.group x).output.position = (g.group x).position + ⟨0, (g.group x).radius⟩
  /-- Sub-groups lie inside, some margin from the boundary. -/
  subgroup : ∀ s ∈ (g.group x).subgroups,
    (g.group x).position.dist (g.group s).position + (g.group s).outerRadius + e.margin ≤
      (g.group x).radius
  hosted : g.Centred x

open LambdaDiagram.Graph

section

variable {g₀ g : Graph ℝ} {home x : GroupId} {i : InputId}

/-! ## What is placed stays so -/

theorem local_centred (g₀ : Graph ℝ) : g₀.Local Centred := by
  intro g g' x ha ha' hx hin h i hi y hy
  rw [hx.1] at hi
  have hown : i ∈ (g₀.group x).inputs := by rwa [ha.inputs_eq] at hi
  rw [hx.2 i hown] at hy ⊢
  have hlies : g₀.Contains x y := .inr ⟨i, hown, (ha.hosted_eq i).symm.trans hy⟩
  rw [(hin y hlies).1]
  exact h i hi y hy

theorem local_placed (e : Engine ℝ) (g₀ : Graph ℝ) : g₀.Local e.Placed := by
  intro g g' x ha ha' hx hin h
  have hsame : ∀ i ∈ (g.group x).inputs, g'.input i = g.input i := by
    intro i hi
    rw [ha.inputs_eq] at hi
    exact hx.2 i hi
  refine ⟨?_, ?_, ?_, ?_, ?_, local_centred g₀ ha ha' hx hin h.hosted⟩
  all_goals rw [hx.1]
  · exact h.radius
  · intro i hi
    rw [hsame i hi]
    exact h.angle i hi
  · intro i hi
    rw [hsame i hi]
    exact h.input i hi
  · exact h.output
  · intro s hs
    have hlies : g₀.Contains x s := .inl (ha.subgroups_eq x ▸ hs)
    rw [(hin s hlies).1]
    exact h.subgroup s hs

/-- Moving a nest moves all that matters to a group in it by the same vector. -/
theorem Nest.Fits.move_placed {n : Nest} (hg : g₀.Tidy) (e : Engine ℝ) (d : Vec ℝ)
    (h : n.Fits g₀) (ha : g₀.Alike g) (hold : ∀ x ∈ n.groups, e.Placed g x) :
    ∀ x ∈ n.groups, e.Placed (n.move g d) x := by
  have hshift := h.move_shifted hg d ha
  intro x hx
  have hp := hold x hx
  have hgroup := (hshift x hx).1
  have hinput : ∀ i ∈ (g.group x).inputs, (n.move g d).input i = (g.input i).moved d := by
    intro i hi
    rw [ha.inputs_eq] at hi
    exact (hshift x hx).2 i hi
  constructor
  case radius =>
    rw [hgroup]
    exact hp.radius
  case angle =>
    rw [hgroup]
    intro i hi
    rw [hinput i hi]
    exact hp.angle i hi
  case input =>
    rw [hgroup]
    intro i hi
    rw [hinput i hi]
    calc (g.input i).position + d
        = Vec.ofPolar (g.group x).radius (g.input i).angle (g.group x).position + d := by
          rw [hp.input i hi]
      _ = _ := Vec.ofPolar_add ..
  case output =>
    rw [hgroup]
    calc (g.group x).output.position + d
        = (g.group x).position + ⟨0, (g.group x).radius⟩ + d := by rw [hp.output]
      _ = _ := add_right_comm ..
  case subgroup =>
    rw [hgroup]
    intro s hs
    have hin : s ∈ n.groups := h.shows.closed hx (.inl (ha.subgroups_eq x ▸ hs))
    rw [(hshift s hin).1]
    show ((g.group x).position + d).dist ((g.group s).position + d) + _ + _ ≤ _
    rw [Vec.dist_add]
    exact hp.subgroup s hs
  case hosted =>
    unfold Centred
    rw [hgroup]
    intro i hi y hy
    have hi : i ∈ (g.group x).inputs := hi
    rw [hinput i hi] at hy ⊢
    have hown : i ∈ (g₀.group x).inputs := by rwa [ha.inputs_eq] at hi
    have hin : y ∈ n.groups :=
      h.shows.closed hx (.inr ⟨i, hown, (ha.hosted_eq i).symm.trans hy⟩)
    rw [(hshift y hin).1]
    exact congrArg (· + d) (hp.hosted i hi y hy)

theorem lasting_placed (hg : g₀.Tidy) (e : Engine ℝ) : g₀.Lasting e.Placed :=
  ⟨local_placed e g₀, fun d h ha hold => h.move_placed hg e d ha hold⟩

/-! ## How large a group is -/

/-- The needed radius is the largest of three, of which one is for the inputs to fit. -/
theorem exists_neededRadius_eq (e : Engine ℝ) (g : Graph ℝ) (x : GroupId) :
    ∃ fitting, e.neededRadius g x = max (max e.defaultRadius fitting) (e.reach g x) := by
  simp only [← Scalar.larger_eq_max]
  exact ⟨_, rfl⟩

theorem defaultRadius_le (e : Engine ℝ) (g : Graph ℝ) (x : GroupId) :
    e.defaultRadius ≤ e.neededRadius g x := by
  obtain ⟨fitting, heq⟩ := exists_neededRadius_eq e g x
  rw [heq]
  exact le_max_of_le_left (le_max_left _ _)

/-- A group is large enough for its sub-groups. -/
theorem dist_add_le_neededRadius (e : Engine ℝ) (g : Graph ℝ) {s : GroupId}
    (hs : s ∈ (g.group x).subgroups) :
    (g.group x).position.dist (g.group s).position + (g.group s).outerRadius + e.margin ≤
      e.neededRadius g x := by
  have hreach : (g.group x).position.dist (g.group s).position + (g.group s).outerRadius +
      e.margin ≤ e.reach g x := by
    unfold Engine.reach
    split
    · rename_i hnil
      rw [hnil] at hs
      cases hs
    · have hle := Scalar.le_largest (List.mem_map_of_mem
        (f := fun sub => (g.group x).position.dist (g.group sub).position +
          (g.group sub).outerRadius) hs)
      exact add_le_add_left hle e.margin
  obtain ⟨fitting, heq⟩ := exists_neededRadius_eq e g x
  rw [heq]
  exact hreach.trans (le_max_right _ _)

/-! ## Turning the inputs -/

/-- An input is on the upper half of the boundary of a group, with the group that it hosts. -/
structure Graph.Seated (g : Graph ℝ) (group : Group ℝ) (i : InputId) : Prop where
  angle : Real.pi ≤ (g.input i).angle ∧ (g.input i).angle ≤ 2 * Real.pi
  position : (g.input i).position = .ofPolar group.radius (g.input i).angle group.position
  hosted : ∀ y, (g.input i).hosted = some y → (g.group y).position = (g.input i).position

theorem nextAngle_mem (e : Engine ℝ) (g : Graph ℝ) (x : GroupId) (number : Nat) (i : InputId) :
    Real.pi ≤ e.nextAngle g x number i ∧ e.nextAngle g x number i ≤ 2 * Real.pi := by
  have htwo : (2.0 : ℝ) = 2 := by norm_num
  have hle : Real.pi ≤ 2.0 * Real.pi := by
    rw [htwo]
    linarith [Real.pi_pos]
  rw [← htwo]
  exact Scalar.clamp_mem hle _

theorem input_turn (e : Engine ℝ) (hlt : i.index < g.inputs.size) (x : GroupId)
    (number : Nat) : (e.turn g x number i).1.input i = { g.input i with
      angle := e.nextAngle g x number i
      position :=
        .ofPolar (g.group x).radius (e.nextAngle g x number i) (g.group x).position } := by
  have hlt' : i.index < (g.modifyInput i fun input =>
      { input with angle := e.nextAngle g x number i }).inputs.size := by
    rwa [Graph.modifyInput, Array.size_modify]
  unfold Engine.turn
  dsimp only
  rw [placeInput, input_modifyInput, if_pos ⟨rfl, hlt'⟩, input_modifyInput, if_pos ⟨rfl, hlt⟩]

theorem input_turn_ne (e : Engine ℝ) (g : Graph ℝ) (x : GroupId) (number : Nat) {i j : InputId}
    (hne : j ≠ i) : (e.turn g x number i).1.input j = g.input j := by
  have hturn : g.Changes [] [i] g (e.turn g x number i).1 := turn_changes e g x number i
  exact hturn.input j (fun hm => hne (List.mem_singleton.1 hm)) (List.forall_mem_nil _)

/-- The group that an input hosts at its center comes along as the input turns. -/
theorem Anchors.Fits.position_hosted {id : InputId} {hosted : Nest} {rest : Anchors} (hg : g₀.Tidy)
    (e : Engine ℝ) (h : (Anchors.hosting id hosted rest).Fits g₀ home) (ha : g₀.Alike g)
    (hcentred : (g.group hosted.id).position = (g.input id).position) (number : Nat) :
    ((hosted.move (e.turn g home number id).1 (e.turn g home number id).2).group
        hosted.id).position = ((e.turn g home number id).1.input id).position := by
  have hturn : g₀.Changes [] [id] g (e.turn g home number id).1 := turn_changes e g home number id
  have hshift := h.hosted.move_shifted hg (e.turn g home number id).2 (ha.trans hturn.alike)
    hosted.id hosted.id_mem_groups
  rw [hshift.1]
  show ((e.turn g home number id).1.group hosted.id).position + (e.turn g home number id).2 = _
  rw [hturn.group hosted.id List.not_mem_nil, hcentred,
    input_turn e (h.input_lt hg ha List.mem_cons_self)]
  exact add_sub_cancel ..

/-- Whatever groups the inputs host at their centers, they take along onto the boundary. -/
theorem Anchors.Fits.turn_seated (hg : g₀.Tidy) (e : Engine ℝ) : (number : Nat) →
    {as : Anchors} → {g : Graph ℝ} → as.Fits g₀ home → g₀.Alike g →
    (∀ i ∈ as.own, ∀ y, (g₀.input i).hosted = some y →
      (g.group y).position = (g.input i).position) →
    ∀ i ∈ as.own, (e.turnInputs g home number as).Seated (g.group home) i
  | _, .nil, _, _, _, _ => List.forall_mem_nil _
  | number, .bare id rest, g, h, ha, hcentred => by
    have hout := (List.nodup_cons.1 h.own_nodup).1
    let turned := (e.turn g home number id).1
    have hturn : g₀.Changes [] [id] g turned := turn_changes e g home number id
    have ha1 := ha.trans hturn.alike
    have hrest := h.of_bare.shows.turnInputs_changes e home (number + 1) turned
    have hlt := h.input_lt hg ha List.mem_cons_self
    have hothers : ∀ i ∈ rest.own, ∀ y, (g₀.input i).hosted = some y →
        (turned.group y).position = (turned.input i).position := by
      intro i hi y hy
      rw [input_turn_ne e g home number (ne_of_mem_of_not_mem hi hout)]
      exact hcentred i (List.mem_cons_of_mem id hi) y hy
    have hid := (h.input_eq_of_bare hg hrest).trans (input_turn e hlt home number)
    rw [Engine.turnInputs, Anchors.own]
    refine List.forall_mem_cons.2 ⟨⟨?_, ?_, ?_⟩, h.of_bare.turn_seated hg e (number + 1) ha1 hothers⟩
    · rw [hid]
      exact nextAngle_mem e g home number id
    · rw [hid]
    · intro y hy
      rw [(ha1.trans hrest.alike).hosted_eq, h.shows.1] at hy
      cases hy
  | number, .hosting id hosted rest, g, h, ha, hcentred => by
    have hout := (List.nodup_cons.1 h.own_nodup).1
    have hin := h.own List.mem_cons_self
    let turned := (e.turn g home number id).1
    let moved := hosted.move turned (e.turn g home number id).2
    have hturn : g₀.Changes [] [id] g turned := turn_changes e g home number id
    have ha1 := ha.trans hturn.alike
    have hmove : g₀.Changes hosted.groups [] turned moved := h.hosted.shows.move_changes _ _
    have ha2 := ha1.trans hmove.alike
    have hrest := h.of_hosting.shows.turnInputs_changes e home (number + 1) moved
    have hlt := h.input_lt hg ha List.mem_cons_self
    have hhome : moved.group home = g.group home :=
      hmove.group home (List.disjoint_cons_right.1 h.disjoint).1
    have hothers : ∀ i ∈ rest.own, ∀ y, (g₀.input i).hosted = some y →
        (moved.group y).position = (moved.input i).position := by
      intro i hi y hy
      have hmem := h.of_hosting.shows.mem_groups hi hy
      rw [hmove.group y (h.apart hmem), h.input_eq_of_hosted hg hmove (h.of_hosting.own hi)]
      rw [input_turn_ne e g home number (ne_of_mem_of_not_mem hi hout)]
      exact hcentred i (List.mem_cons_of_mem id hi) y hy
    have hid : (e.turnInputs moved home (number + 1) rest).input id = turned.input id :=
      (h.input_eq_of_hosting hg hrest).trans (h.input_eq_of_hosted hg hmove hin)
    have hturned := input_turn e hlt home number
    have hgroup : ((e.turnInputs moved home (number + 1) rest).group hosted.id).position =
        (turned.input id).position := by
      rw [hrest.group hosted.id fun hm => h.apart hm hosted.id_mem_groups]
      exact h.position_hosted hg e ha (hcentred id List.mem_cons_self hosted.id h.shows.1) number
    have hseated := h.of_hosting.turn_seated hg e (number + 1) ha2 hothers
    rw [hhome] at hseated
    rw [Engine.turnInputs, Anchors.own]
    refine List.forall_mem_cons.2 ⟨⟨?_, ?_, ?_⟩, hseated⟩
    · rw [hid, hturned]
      exact nextAngle_mem e g home number id
    · rw [hid, hturned]
    · intro y hy
      rw [(ha2.trans hrest.alike).hosted_eq, h.shows.1] at hy
      cases hy
      rw [hid]
      exact hgroup

/-! ## Every tick -/

section

variable {id : GroupId} {anchors : Anchors} {subgroups : Nests}

/-- Inputs that host groups at their centers take them along as they turn. -/
theorem Nest.Fits.turned_seated (hg : g₀.Tidy) (e : Engine ℝ)
    (h : (Nest.group id anchors subgroups).Fits g₀) (ha : g₀.Alike g) (hcentred : g.Centred id)
    (largest : ℝ) : ∀ i ∈ anchors.own,
    (e.turned (e.inner g anchors subgroups).1 id anchors subgroups largest).Seated
      ((e.turned (e.inner g anchors subgroups).1 id anchors subgroups largest).group id) i := by
  have hanchors := h.anchors hg
  let parted := e.separate (e.inner g anchors subgroups).1 0 subgroups.toList
  let sized := e.resize parted id largest
  have hinner := ha.trans (h.inner_alike hg e g)
  have hparted := hinner.trans (separate_changes e h.subgroups.shows _ 0).alike
  have hresize : g₀.Changes [id] [] parted sized := resize_changes e parted id largest
  have hturn := hanchors.shows.turnInputs_changes e id 0 sized
  have hstay : (e.turnInputs sized id 0 anchors).group id = sized.group id :=
    hturn.group id hanchors.home_notMem
  rw [Engine.turned, hstay]
  apply hanchors.turn_seated hg e 0 (hparted.trans hresize.alike)
  intro i hi y hy
  obtain ⟨hinput, hgroup⟩ := h.positions_resized hg e ha largest hi
  rw [hgroup y hy, hinput]
  apply hcentred i _ y ((ha.hosted_eq i).trans hy)
  rw [ha.inputs_eq]
  exact hanchors.own hi

/-- A group that settles is large enough for its sub-groups where they are then. -/
theorem Nest.Fits.settle_encloses (hg : g₀.Tidy) (e : Engine ℝ)
    (h : (Nest.group id anchors subgroups).Fits g₀) (ha : g₀.Alike g) (largest : ℝ) {s : GroupId}
    (hs : s ∈ (g₀.group id).subgroups) : let final := e.settle g id anchors subgroups largest
    (final.group id).position.dist (final.group s).position + (final.group s).outerRadius +
      e.margin ≤ (final.group id).radius := by
  let parted := e.separate g 0 subgroups.toList
  have hparted := separate_changes e h.subgroups.shows g 0
  have hown : (parted.group id).position = (g.group id).position := by
    rw [hparted.group id h.id_notMem]
  have hmem : s ∈ subgroups.groups := by
    apply subgroups.own_subset_groups
    rwa [h.shows.2.1]
  dsimp only
  rw [h.group_settle hg e ha, h.group_settle_of_subgroup hg e g largest hmem]
  show (g.group id).position.dist (parted.group s).position + _ + _ ≤ _
  rw [← hown]
  apply dist_add_le_neededRadius e parted
  rwa [(ha.trans hparted.alike).subgroups_eq]

end

/-- A tick places what belongs to a group if the groups that its inputs host are centred. -/
theorem Nest.Fits.tick_placed {n : Nest} (hg : g₀.Tidy) (e : Engine ℝ) (h : n.Fits g₀)
    (ha : g₀.Alike g) (hcentred : g.Centred n.id) : e.Placed (e.tickNest g n) n.id := by
  obtain ⟨id, anchors, subgroups⟩ := n
  have hanchors := h.anchors hg
  let inner := e.inner g anchors subgroups
  let turned := e.turned inner.1 id anchors subgroups inner.2
  let final := e.settle inner.1 id anchors subgroups inner.2
  have hinner := ha.trans (h.inner_alike hg e g)
  have hfinal : g₀.Alike final := ha.trans (h.shows.tick_changes e g).alike
  have hgroup := h.group_settle hg e hinner inner.2
  have hseated := h.turned_seated hg e ha hcentred inner.2
  have hlist : (final.group id).inputs = anchors.own :=
    (hfinal.inputs_eq id).trans h.shows.1.symm
  have hinput : ∀ i, final.input i = turned.input i :=
    input_settle e inner.1 id anchors subgroups inner.2
  have hcircle : (final.group id).radius = (turned.group id).radius ∧
      (final.group id).position = (turned.group id).position := by
    rw [hgroup, h.group_turned hg e hinner]
    exact ⟨rfl, rfl⟩
  rw [Engine.tickNest_eq]
  show e.Placed final id
  constructor
  case radius =>
    rw [hgroup]
    exact defaultRadius_le e _ id
  case angle =>
    rw [hlist]
    intro i hi
    rw [hinput]
    exact (hseated i hi).angle
  case input =>
    rw [hlist, hcircle.1, hcircle.2]
    intro i hi
    rw [hinput]
    exact (hseated i hi).position
  case output =>
    have hzero : (0.0 : ℝ) = 0 := by norm_num
    rw [hgroup, ← hzero]
  case subgroup =>
    intro s hs
    rw [hfinal.subgroups_eq] at hs
    exact h.settle_encloses hg e hinner inner.2 hs
  case hosted =>
    intro i hi y hy
    rw [hlist] at hi
    have hmem := hanchors.shows.mem_groups hi ((hfinal.hosted_eq i).symm.trans hy)
    have hstay : final.group y = turned.group y := group_settle_ne e inner.1 anchors subgroups
      inner.2 (ne_of_mem_of_not_mem hmem hanchors.home_notMem)
    rw [hinput] at hy ⊢
    rw [hstay]
    exact (hseated i hi).hosted y hy

theorem establishes_placed (hg : g₀.Tidy) (e : Engine ℝ) :
    e.Establishes g₀ Centred e.Placed where
  lasting := lasting_placed hg e
  before := local_centred g₀
  own hn ha hcentred := hn.tick_placed hg e ha hcentred

end

/-- However a graph is drawn from a chain and flattened, and however often it is then laid out with
exact numbers: after each time, what belongs to a live group is where it should be. -/
theorem Graph.geometry_holds (e : Engine ℝ) (names : List Char) (body : Chain) (rest : List Term)
    (n : Nat) : ∃ g : Graph ℝ, ofChain? (.ofTerms (.group names body) rest) = .ok g ∧
      let g' := (e.update (e.run g.flatten n)).1
      ∀ x ∈ g'.liveGroups, e.Placed g' x := by
  obtain ⟨g, first, others, hg, hforest, -⟩ := exists_forest (S := ℝ) names body rest
  have htidy := hforest.flatten.1.tidy
  have hplaced := (establishes_placed htidy e).run htidy (fun _ _ h => h.hosted)
    (fun x hx i hi y hy => hforest.hosted_position hg hy) n
  have hr := ((Rearranged.refl g.flatten).run e n).tick e
  refine ⟨g, hg, fun x hx => ?_⟩
  exact hplaced x (hr.liveGroups_eq ▸ hx)

end LambdaDiagram
