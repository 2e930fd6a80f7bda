import LambdaDiagram.Proofs.Geometry

/-!
What an input gains by turning, with exact numbers. An input should end up where it scores most, of
its own angle and the two that are a step away, as far as these are on the upper half of the
boundary. But only one step is tried after the other: a step back that gains anything is taken even
where a step forward gains more, and a step that gains is taken even where the end of the upper half
cuts it short and less is scored there. `Misses` lists these cases, and in every other case the best
angle is kept.
-/

namespace LambdaDiagram

/-! ## Three angles to choose among -/

/-- The angles that an input may stay at or turn to: its own and those a step away, as far as they
are between two ends. -/
def Candidate (low high angle step a : ℝ) : Prop :=
  (a = angle ∨ a = angle - step ∨ a = angle + step) ∧ low ≤ a ∧ a ≤ high

/-- The angle that is turned to: a step that goes past an end is cut short. -/
noncomputable def climb (score : ℝ → ℝ) (low high angle step : ℝ) : ℝ :=
  if score angle < score (angle - step) ∧ low < angle then max low (angle - step)
  else if score angle < score (angle + step) ∧ angle < high then
    min (angle + step) high
  else angle

/-- The cases in which a better angle is missed. -/
inductive Misses (score : ℝ → ℝ) (low high angle step : ℝ) : Prop
  /-- Both steps gain, and the one back is taken though the one forward gains more. -/
  | hidden (hback : score angle < score (angle - step))
      (hmore : score (angle - step) < score (angle + step))
      (hlow : low ≤ angle - step) (hhigh : angle + step ≤ high)
  /-- A step back gains, but the end cuts it short, and less is scored there than at the angle
  itself or a step forward. -/
  | cutBack (hback : score angle < score (angle - step)) (hstart : low < angle)
      (hlow : angle - step < low)
      (hless : score low < score angle ∨
        angle + step ≤ high ∧ score low < score (angle + step))
  /-- Only a step forward gains, but the end cuts it short, and less is scored there than at the
  angle itself. -/
  | cutForward (hback : low < angle → score (angle - step) ≤ score angle)
      (hforward : score angle < score (angle + step)) (hstart : angle < high)
      (hhigh : high < angle + step) (hless : score high < score angle)

section

variable {score : ℝ → ℝ} {low high angle step : ℝ}

theorem climb_of_back (hback : score angle < score (angle - step)) (hstart : low < angle) :
    climb score low high angle step = max low (angle - step) :=
  if_pos ⟨hback, hstart⟩

theorem climb_of_forward (hback : low < angle → score (angle - step) ≤ score angle)
    (hforward : score angle < score (angle + step)) (hstart : angle < high) :
    climb score low high angle step = min (angle + step) high := by
  have hnot : ¬ (score angle < score (angle - step) ∧ low < angle) :=
    fun h => (hback h.2).not_gt h.1
  rw [climb, if_neg hnot, if_pos ⟨hforward, hstart⟩]

theorem climb_of_neither (hback : low < angle → score (angle - step) ≤ score angle)
    (hforward : angle < high → score (angle + step) ≤ score angle) :
    climb score low high angle step = angle := by
  have hnot : ¬ (score angle < score (angle - step) ∧ low < angle) :=
    fun h => (hback h.2).not_gt h.1
  have hnot' : ¬ (score angle < score (angle + step) ∧ angle < high) :=
    fun h => (hforward h.2).not_gt h.1
  rw [climb, if_neg hnot, if_neg hnot']

/-- Where an angle is missed, it scores more than what is turned to. -/
theorem Misses.exists_better (hlow : low ≤ angle) (hhigh : angle ≤ high)
    (hstep : 0 ≤ step) (h : Misses score low high angle step) :
    ∃ a, Candidate low high angle step a ∧ score (climb score low high angle step) < score a := by
  have hown : Candidate low high angle step angle := ⟨.inl rfl, hlow, hhigh⟩
  have hforward : angle + step ≤ high → Candidate low high angle step (angle + step) :=
    fun hle => ⟨.inr (.inr rfl), hlow.trans (le_add_of_nonneg_right hstep), hle⟩
  cases h with
  | hidden hback hmore hin hin' =>
    have hpos : 0 < step := by
      refine lt_of_le_of_ne hstep fun hzero => ?_
      rw [← hzero, sub_zero] at hback
      exact lt_irrefl _ hback
    have hstart : low < angle := hin.trans_lt (sub_lt_self angle hpos)
    refine ⟨angle + step, hforward hin', ?_⟩
    rwa [climb_of_back hback hstart, max_eq_right hin]
  | cutBack hback hstart hout hless =>
    rw [climb_of_back hback hstart, max_eq_left hout.le]
    obtain hless | ⟨hin, hless⟩ := hless
    · exact ⟨angle, hown, hless⟩
    · exact ⟨angle + step, hforward hin, hless⟩
  | cutForward hback hgain hstart hout hless =>
    rw [climb_of_forward hback hgain hstart, min_eq_right hout.le]
    exact ⟨angle, hown, hless⟩

/-- What scores more than a step back that is taken is missed. -/
theorem Candidate.missed_of_back (hback : score angle < score (angle - step))
    (hstart : low < angle) {a : ℝ} (h : Candidate low high angle step a)
    (hmore : score (climb score low high angle step) < score a) :
    Misses score low high angle step := by
  obtain ⟨hwhich, hlow, hhigh⟩ := h
  rw [climb_of_back hback hstart] at hmore
  obtain hin | hout := le_or_gt low (angle - step)
  · rw [max_eq_right hin] at hmore
    obtain rfl | rfl | rfl := hwhich
    · exact absurd hback hmore.not_gt
    · exact absurd hmore (lt_irrefl _)
    · exact .hidden hback hmore hin hhigh
  · rw [max_eq_left hout.le] at hmore
    obtain rfl | rfl | rfl := hwhich
    · exact .cutBack hback hstart hout (.inl hmore)
    · exact absurd hlow hout.not_ge
    · exact .cutBack hback hstart hout (.inr ⟨hhigh, hmore⟩)

/-- What scores more than the angle turned to is missed. -/
theorem Candidate.missed (hlow : low ≤ angle) (hhigh : angle ≤ high) {a : ℝ}
    (hstep : 0 ≤ step) (h : Candidate low high angle step a)
    (hmore : score (climb score low high angle step) < score a) :
    Misses score low high angle step := by
  by_cases hback : score angle < score (angle - step) ∧ low < angle
  · exact h.missed_of_back hback.1 hback.2 hmore
  have hback : low < angle → score (angle - step) ≤ score angle :=
    fun hstart => not_lt.1 fun hgain => hback ⟨hgain, hstart⟩
  obtain ⟨hwhich, hin, hin'⟩ := h
  -- at an end, a step that does not leave it is no step at all
  have hleast : a = angle - step → score a ≤ score angle := by
    rintro rfl
    obtain hstart | hend := hlow.lt_or_eq
    · exact hback hstart
    · have hsame : angle - step = angle := le_antisymm (sub_le_self _ hstep) (hend ▸ hin)
      rw [hsame]
  by_cases hforward : score angle < score (angle + step) ∧ angle < high
  · rw [climb_of_forward hback hforward.1 hforward.2] at hmore
    obtain hle | hout := le_or_gt (angle + step) high
    · rw [min_eq_left hle] at hmore
      obtain rfl | hback' | rfl := hwhich
      · exact absurd hforward.1 hmore.not_gt
      · exact absurd (hmore.trans_le (hleast hback')) hforward.1.not_gt
      · exact absurd hmore (lt_irrefl _)
    · rw [min_eq_right hout.le] at hmore
      obtain rfl | hback' | rfl := hwhich
      · exact .cutForward hback hforward.1 hforward.2 hout hmore
      · exact .cutForward hback hforward.1 hforward.2 hout (hmore.trans_le (hleast hback'))
      · exact absurd hin' hout.not_ge
  · have hforward : angle < high → score (angle + step) ≤ score angle :=
      fun hstart => not_lt.1 fun hgain => hforward ⟨hgain, hstart⟩
    rw [climb_of_neither hback hforward] at hmore
    obtain rfl | hback' | rfl := hwhich
    · exact absurd hmore (lt_irrefl _)
    · exact absurd hmore (hleast hback').not_gt
    · obtain hstart | hend := hhigh.lt_or_eq
      · exact absurd hmore (hforward hstart).not_gt
      · have hsame : angle + step = angle :=
          le_antisymm (hend ▸ hin') (le_add_of_nonneg_right hstep)
        rw [hsame] at hmore
        exact absurd hmore (lt_irrefl _)

/-- What is turned to is the best angle unless a better one is missed. -/
theorem climb_best_iff (hlow : low ≤ angle) (hhigh : angle ≤ high) (hstep : 0 ≤ step) :
    (∀ a, Candidate low high angle step a → score a ≤ score (climb score low high angle step)) ↔
      ¬ Misses score low high angle step := by
  constructor
  · intro hbest h
    obtain ⟨a, ha, hmore⟩ := h.exists_better hlow hhigh hstep
    exact hmore.not_ge (hbest a ha)
  · intro h a ha
    exact not_lt.1 fun hmore => h (ha.missed hlow hhigh hstep hmore)

end

/-! ## One input turning -/

/-- What an angle scores for an input of a group, which has a number among the inputs there. -/
def Graph.score {S : Type} [Scalar S] (g : Graph S) (x : GroupId) (number : Nat) (i : InputId)
    (a : S) : S :=
  g.clearance (g.group x).inputs number i (.ofPolar (g.group x).radius a (g.group x).position)

/-- A step back can only fall short of the upper half, and a step forward can only pass it. -/
theorem nextAngle_eq_climb {e : Engine ℝ} {g : Graph ℝ} {i : InputId} (x : GroupId) (number : Nat)
    (hstep : 0 ≤ e.angleStep) (hlow : Real.pi ≤ (g.input i).angle)
    (hhigh : (g.input i).angle ≤ 2 * Real.pi) :
    e.nextAngle g x number i =
      climb (g.score x number i) Real.pi (2 * Real.pi) (g.input i).angle e.angleStep := by
  let angle := (g.input i).angle
  let step := e.angleStep
  have htwo : (2.0 : ℝ) = 2 := by norm_num
  have hpi : Real.pi ≤ 2 * Real.pi := hlow.trans hhigh
  let score := g.score x number i
  have hnext : e.nextAngle g x number i = Scalar.clamp Real.pi (2.0 * Real.pi)
      (if score angle < score (angle - step) ∧ Real.pi < angle then angle - step
      else if score angle < score (angle + step) ∧ angle < 2.0 * Real.pi then
        angle + step
      else angle) := rfl
  rw [hnext, htwo, Scalar.clamp_eq hpi, climb]
  split
  case isTrue => rw [min_eq_left ((sub_le_self angle hstep).trans hhigh)]
  case isFalse =>
    split
    case isTrue =>
      have hle : Real.pi ≤ angle + step := hlow.trans (le_add_of_nonneg_right hstep)
      rw [max_eq_right (le_min hle hpi)]
    case isFalse => rw [min_eq_left hhigh, max_eq_right hlow]

/-! ## The inputs of a group turning -/

/-- The graph that the loop over the inputs of a group finds when it comes to an input. -/
def Engine.graphAtTurn {S : Type} [Scalar S] (e : Engine S) (g : Graph S) (x : GroupId)
    (i : InputId) (number : Nat) : Anchors → Graph S
  | .nil => g
  | .bare id rest =>
    if id = i then g else graphAtTurn e (e.turn g x number id).1 x i (number + 1) rest
  | .hosting id hosted rest =>
    if id = i then g
    else
      let (g, moved) := e.turn g x number id
      graphAtTurn e (hosted.move g moved) x i (number + 1) rest

open LambdaDiagram.Graph

section

variable {g₀ g : Graph ℝ} {i : InputId}

/-- `g₀.Directs i g`: in `g`, an input exists as in `g₀`, at the same angle. -/
structure Graph.Directs (g₀ : Graph ℝ) (i : InputId) (g : Graph ℝ) : Prop where
  size : g.inputs.size = g₀.inputs.size
  angle : (g.input i).angle = (g₀.input i).angle

theorem Graph.Directs.refl (g : Graph ℝ) (i : InputId) : g.Directs i g := ⟨rfl, rfl⟩

theorem Graph.Directs.placeInput (h : g₀.Directs i g) (position : Vec ℝ) (j : InputId) :
    g₀.Directs i (g.placeInput position j) := by
  have hangle : ((g.placeInput position j).input i).angle = (g.input i).angle :=
    modifyInput_keeps (f := fun input => { input with position := position }) Input.angle
      (fun _ => rfl) i
  exact ⟨Array.size_modify.trans h.size, hangle.trans h.angle⟩

theorem Graph.Directs.move (h : g₀.Directs i g) (n : Nest) (d : Vec ℝ) :
    g₀.Directs i (n.move g d) := by
  have hkept : KeptByMoves (g₀.Directs i) := {
    group := fun _ _ _ h => ⟨h.size, h.angle⟩
    merge := fun _ _ _ h => ⟨h.size, h.angle⟩
    input := fun _ position j h => h.placeInput position j }
  exact n.move_keeps hkept g d h

/-- Another input turning leaves the angle. -/
theorem Graph.Directs.turn (h : g₀.Directs i g) (e : Engine ℝ) (x : GroupId) (number : Nat)
    {j : InputId} (hne : i ≠ j) : g₀.Directs i (e.turn g x number j).1 := by
  constructor
  · unfold Engine.turn Graph.placeInput Graph.modifyInput
    dsimp only
    rw [Array.size_modify, Array.size_modify, h.size]
  · rw [input_turn_ne e g x number hne, h.angle]

variable (e : Engine ℝ) (x : GroupId)

/-- Inputs leave the angle of one that is not among them. -/
theorem Graph.Directs.turnInputs : {as : Anchors} → {g : Graph ℝ} → (number : Nat) → i ∉ as.own →
    g₀.Directs i g → g₀.Directs i (e.turnInputs g x number as)
  | .nil, _, _, _, h => h
  | .bare id rest, g, number, hout, h => by
    have hne : i ≠ id := List.ne_of_not_mem_cons hout
    have hrest : i ∉ rest.own := List.not_mem_of_not_mem_cons hout
    rw [Engine.turnInputs]
    exact (h.turn e x number hne).turnInputs (number + 1) hrest
  | .hosting id hosted rest, g, number, hout, h => by
    have hne : i ≠ id := List.ne_of_not_mem_cons hout
    have hrest : i ∉ rest.own := List.not_mem_of_not_mem_cons hout
    rw [Engine.turnInputs]
    exact ((h.turn e x number hne).move hosted _).turnInputs (number + 1) hrest

/-- What the loop finds when it comes to an input has that input at the angle it had. -/
theorem directs_graphAtTurn : (number : Nat) → {as : Anchors} → {g : Graph ℝ} → g₀.Directs i g →
    g₀.Directs i (e.graphAtTurn g x i number as)
  | _, .nil, _, h => h
  | number, .bare id rest, g, h => by
    rw [Engine.graphAtTurn]
    split
    case isTrue => exact h
    case isFalse hne => exact directs_graphAtTurn (number + 1) (h.turn e x number (Ne.symm hne))
  | number, .hosting id hosted rest, g, h => by
    rw [Engine.graphAtTurn]
    split
    case isTrue => exact h
    case isFalse hne =>
      exact directs_graphAtTurn (number + 1) ((h.turn e x number (Ne.symm hne)).move hosted _)

/-- An input ends up at the angle that it turns to when the loop comes to it. -/
theorem angle_turnInputs : (number : Nat) → {as : Anchors} → {g : Graph ℝ} → as.own.Nodup →
    i ∈ as.own → i.index < g.inputs.size →
    ((e.turnInputs g x number as).input i).angle =
      e.nextAngle (e.graphAtTurn g x i number as) x (number + as.own.idxOf i) i
  | number, .bare id rest, g, hnodup, hi, hlt => by
    obtain ⟨hout, hrest⟩ := List.nodup_cons.1 hnodup
    rw [Engine.turnInputs, Engine.graphAtTurn, Anchors.own]
    by_cases heq : id = i
    case pos =>
      subst heq
      have hlater := Directs.turnInputs e x (number + 1) hout
        (Directs.refl (e.turn g x number id).1 id)
      rw [if_pos rfl, List.idxOf_cons_self, add_zero, hlater.angle, input_turn e hlt x]
    case neg =>
      have hturn := (Directs.refl g i).turn e x number (Ne.symm heq)
      have hin : i ∈ rest.own := List.mem_of_ne_of_mem (Ne.symm heq) hi
      have hnumber : number + (rest.own.idxOf i + 1) = number + 1 + rest.own.idxOf i := by omega
      rw [if_neg heq, List.idxOf_cons_ne _ heq, hnumber]
      exact angle_turnInputs (number + 1) hrest hin (hturn.size ▸ hlt)
  | number, .hosting id hosted rest, g, hnodup, hi, hlt => by
    obtain ⟨hout, hrest⟩ := List.nodup_cons.1 hnodup
    rw [Engine.turnInputs, Engine.graphAtTurn, Anchors.own]
    by_cases heq : id = i
    case pos =>
      subst heq
      have hmoved := (Directs.refl (e.turn g x number id).1 id).move hosted
        (e.turn g x number id).2
      rw [if_pos rfl, List.idxOf_cons_self, add_zero,
        (hmoved.turnInputs e x (number + 1) hout).angle, input_turn e hlt x]
    case neg =>
      have hmoved := ((Directs.refl g i).turn e x number (Ne.symm heq)).move hosted
        (e.turn g x number id).2
      have hin : i ∈ rest.own := List.mem_of_ne_of_mem (Ne.symm heq) hi
      have hnumber : number + (rest.own.idxOf i + 1) = number + 1 + rest.own.idxOf i := by omega
      rw [if_neg heq, List.idxOf_cons_ne _ heq, hnumber]
      exact angle_turnInputs (number + 1) hrest hin (hmoved.size ▸ hlt)

end

/-- Whatever the inputs of a group are, however far they turn, and wherever the nodes are: with exact
numbers, an input that is on the upper half ends up at the angle that scores most, of its own and
those a step away that are on the upper half, exactly when none of these is missed. The scores are
those when the loop comes to the input. -/
theorem Engine.keeps_best_unless_missed (e : Engine ℝ) (step : ℝ) (g : Graph ℝ) (x : GroupId)
    (as : Anchors) (hnodup : as.own.Nodup) (i : InputId) (hi : i ∈ as.own)
    (hlt : i.index < g.inputs.size) (hlow : Real.pi ≤ (g.input i).angle)
    (hhigh : (g.input i).angle ≤ 2 * Real.pi) :
    let e := e.withAngleStep step
    let angle := (g.input i).angle
    let score := (e.graphAtTurn g x i 0 as).score x (as.own.idxOf i) i
    (∀ a, Candidate Real.pi (2 * Real.pi) angle e.angleStep a →
        score a ≤ score ((e.turnInputs g x 0 as).input i).angle) ↔
      ¬ Misses score Real.pi (2 * Real.pi) angle e.angleStep := by
  intro e angle score
  have hstep : 0 ≤ e.angleStep := abs_nonneg step
  have hangle : ((e.graphAtTurn g x i 0 as).input i).angle = angle :=
    (directs_graphAtTurn e x 0 (Directs.refl g i)).angle
  have hfinal : ((e.turnInputs g x 0 as).input i).angle =
      climb score Real.pi (2 * Real.pi) angle e.angleStep := by
    rw [angle_turnInputs e x 0 hnodup hi hlt, zero_add, nextAngle_eq_climb x _ hstep, hangle]
    · rwa [hangle]
    · rwa [hangle]
  rw [hfinal]
  exact climb_best_iff hlow hhigh hstep

/-! A group of radius one has one input, which is at the top and is used once, by a merge somewhere
else. The input turns by a quarter turn. -/

/-- A group of radius one whose only input is used by a merge at some point. -/
noncomputable def Graph.usedAt (p : Vec ℝ) : Graph ℝ where
  groups := #[{ (Group.blank none .zero : Group ℝ) with radius := 1, inputs := [⟨0⟩] }]
  inputs := #[{ (Input.blank 'x' .zero : Input ℝ) with usages := [.merge ⟨0⟩] }]
  merges := #[.blank none none p]

theorem angle_usedAt (p : Vec ℝ) : ((usedAt p).input ⟨0⟩).angle = Real.pi * 2⁻¹ + Real.pi := by
  have hblank : ((usedAt p).input ⟨0⟩).angle = 3.0 * Real.pi / 2.0 := rfl
  rw [hblank]
  norm_num
  ring

/-- The angle scores the squared distance from the merge. -/
theorem score_usedAt (p : Vec ℝ) (a : ℝ) : (usedAt p).score root 0 ⟨0⟩ a =
    (p.x - Real.cos a) ^ 2 + (p.y - Real.sin a) ^ 2 := by
  let dx := p.x - (0.0 + 1 * Real.cos a)
  let dy := p.y - (0.0 + 1 * Real.sin a)
  have hsum : (usedAt p).score root 0 ⟨0⟩ a = 0.0 + (dx * dx + dy * dy) + 0.0 := rfl
  have hzero : (0.0 : ℝ) = 0 := by norm_num
  rw [hsum]
  simp only [dx, dy, hzero]
  ring

theorem scores_usedAt (p : Vec ℝ) : let angle := Real.pi * 2⁻¹ + Real.pi
    (usedAt p).score root 0 ⟨0⟩ angle = p.x ^ 2 + (p.y + 1) ^ 2 ∧
      (usedAt p).score root 0 ⟨0⟩ (angle - Real.pi * 2⁻¹) = (p.x + 1) ^ 2 + p.y ^ 2 ∧
      (usedAt p).score root 0 ⟨0⟩ (angle + Real.pi * 2⁻¹) = (p.x - 1) ^ 2 + p.y ^ 2 := by
  have hcos : Real.cos (Real.pi * 2⁻¹) = 0 := Real.cos_pi_div_two
  have hsin : Real.sin (Real.pi * 2⁻¹) = 1 := Real.sin_pi_div_two
  have hback : Real.pi * 2⁻¹ + Real.pi - Real.pi * 2⁻¹ = Real.pi := add_sub_cancel_left _ _
  have hforward : Real.pi * 2⁻¹ + Real.pi + Real.pi * 2⁻¹ = 2 * Real.pi := by ring
  intro angle
  simp only [angle, score_usedAt]
  rw [hback, hforward, Real.cos_add_pi, Real.sin_add_pi, hcos, hsin, Real.cos_pi, Real.sin_pi,
    Real.cos_two_pi, Real.sin_two_pi]
  refine ⟨?_, ?_, ?_⟩ <;> ring

theorem angleStep_quarter :
    (Engine.standard.withAngleStep (Real.pi * 2⁻¹) : Engine ℝ).angleStep = Real.pi * 2⁻¹ :=
  abs_of_pos (mul_pos Real.pi_pos (by norm_num))

/-- Only the step back gains here, and it is taken. -/
theorem Engine.keeps_best_step_back :
    let e : Engine ℝ := Engine.standard.withAngleStep (Real.pi * 2⁻¹)
    let g := usedAt ⟨1, -2⟩
    ∀ a, Candidate Real.pi (2 * Real.pi) (g.input ⟨0⟩).angle e.angleStep a → g.score root 0 ⟨0⟩ a ≤
      g.score root 0 ⟨0⟩ ((e.turnInputs g root 0 (.bare ⟨0⟩ .nil)).input ⟨0⟩).angle := by
  obtain ⟨hown, hback, hforward⟩ := scores_usedAt ⟨1, -2⟩
  have hangle := angle_usedAt ⟨1, -2⟩
  have hpi := Real.pi_pos
  refine (Engine.keeps_best_unless_missed .standard (Real.pi * 2⁻¹) (usedAt ⟨1, -2⟩) root
    (.bare ⟨0⟩ .nil) (List.nodup_singleton _) ⟨0⟩ List.mem_cons_self Nat.zero_lt_one ?_ ?_).2 ?_
  · rw [hangle]
    linarith
  · rw [hangle]
    linarith
  · rw [hangle, angleStep_quarter]
    rintro (⟨-, hmore, -, -⟩ | ⟨-, -, hlow, -⟩ | ⟨hless, -, -, -, -⟩)
    · have hmore := hback.symm.trans_lt (hmore.trans_eq hforward)
      norm_num at hmore
    · linarith
    · have hless := hback.symm.trans_le ((hless (by linarith)).trans_eq hown)
      norm_num at hless

/-- Both steps gain here, and the one back is taken though the one forward gains more. -/
theorem Engine.takes_lesser_step_back :
    let e : Engine ℝ := Engine.standard.withAngleStep (Real.pi * 2⁻¹)
    let g := usedAt ⟨-1, -2⟩
    let final := ((e.turnInputs g root 0 (.bare ⟨0⟩ .nil)).input ⟨0⟩).angle
    Candidate Real.pi (2 * Real.pi) (g.input ⟨0⟩).angle e.angleStep (2 * Real.pi) ∧
      g.score root 0 ⟨0⟩ final = 4 ∧ g.score root 0 ⟨0⟩ (2 * Real.pi) = 8 := by
  intro e g final
  let as : Anchors := .bare ⟨0⟩ .nil
  obtain ⟨hown, hback, hforward⟩ := scores_usedAt ⟨-1, -2⟩
  have hangle : (g.input ⟨0⟩).angle = Real.pi * 2⁻¹ + Real.pi := angle_usedAt ⟨-1, -2⟩
  have hstep : e.angleStep = Real.pi * 2⁻¹ := angleStep_quarter
  have hpi := Real.pi_pos
  have hend : Real.pi * 2⁻¹ + Real.pi + Real.pi * 2⁻¹ = 2 * Real.pi := by ring
  have hfinal : final = Real.pi * 2⁻¹ + Real.pi - Real.pi * 2⁻¹ := by
    have hsingle : as.own.Nodup := List.nodup_singleton _
    have hnext : final = e.nextAngle g root 0 ⟨0⟩ :=
      angle_turnInputs e root 0 hsingle List.mem_cons_self Nat.zero_lt_one
    have hgain : g.score root 0 ⟨0⟩ (Real.pi * 2⁻¹ + Real.pi) <
        g.score root 0 ⟨0⟩ (Real.pi * 2⁻¹ + Real.pi - Real.pi * 2⁻¹) := by
      rw [hown, hback]
      norm_num
    rw [hnext, nextAngle_eq_climb, hangle, hstep, climb_of_back hgain (by linarith),
      max_eq_right (by linarith)]
    · exact hstep ▸ by linarith
    · rw [hangle]
      linarith
    · rw [hangle]
      linarith
  refine ⟨⟨.inr (.inr ?_), ?_, ?_⟩, ?_, ?_⟩
  · rw [hangle, hstep, hend]
  · linarith
  · exact le_refl _
  · rw [hfinal, hback]
    norm_num
  · rw [← hend, hforward]
    norm_num

end LambdaDiagram
