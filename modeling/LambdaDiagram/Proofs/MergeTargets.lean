import LambdaDiagram.Layout.Easing
import LambdaDiagram.Proofs.ExactNumbers

/-!
Where merges go, with exact numbers. The target of a merge is looked for on the line from its
function to its consumer, between two limits that keep room for the nodes at the ends. The limits
may lie beyond an end of the segment, where the room that is kept is more than there is, and then so
may the target: `Strays` says when.
-/

namespace LambdaDiagram

/-- `l.Passes p`: the segment from the start of a line to its end goes through a point. -/
def Line.Passes (l : Line ℝ) (p : Vec ℝ) : Prop :=
  ∃ t, 0 ≤ t ∧ t ≤ 1 ∧ p = l.start.lerp l.stop t

/-- The cases in which the target of a merge lies beyond the ends. All lengths are taken along the
line, from the function towards the consumer: how far away the consumer is, where the two limits
are, and where the argument is. -/
inductive Strays (distance first last argument : ℝ) : Prop
  /-- The limits are in one place, which is beyond an end. -/
  | together (hclose : (last - first) ^ 2 ≤ Scalar.epsilon)
      (hout : first < 0 ∨ distance < first)
  /-- A limit lies beyond the consumer, and so does the argument or the other limit. -/
  | beyond (hapart : Scalar.epsilon < (last - first) ^ 2) (hlimit : distance < max first last)
      (hout : distance < argument ∨ distance < min first last)
  /-- A limit lies beyond the function, and so does the argument or the other limit. -/
  | before (hapart : Scalar.epsilon < (last - first) ^ 2) (hlimit : min first last < 0)
      (hout : argument < 0 ∨ max first last < 0)

/-- Where both limits are between the ends, the target is. -/
theorem not_strays {distance first last : ℝ} (hfirst : 0 ≤ first) (hfirst' : first ≤ distance)
    (hlast : 0 ≤ last) (hlast' : last ≤ distance) (argument : ℝ) :
    ¬ Strays distance first last argument := by
  rintro (⟨-, hout⟩ | ⟨-, hlimit, -⟩ | ⟨-, hlimit, -⟩)
  · exact hout.elim hfirst.not_gt hfirst'.not_gt
  · exact hlimit.not_ge (max_le hfirst' hlast')
  · exact hlimit.not_ge (le_min hfirst hlast)

/-! ## Points on a line -/

/-- How far along a line its nearest point to an argument is, between two limits. Limits too close to
have a direction give the first. -/
noncomputable def nearestAlong (first last argument : ℝ) : ℝ :=
  if (last - first) ^ 2 ≤ Scalar.epsilon then first
  else max (min first last) (min argument (max first last))

/-- What is found along a line is between the ends unless it strays. -/
theorem nearestAlong_mem_iff {distance first last argument : ℝ} :
    0 ≤ nearestAlong first last argument ∧ nearestAlong first last argument ≤ distance ↔
      ¬ Strays distance first last argument := by
  unfold nearestAlong
  split
  case isTrue hclose =>
    constructor
    · rintro ⟨hlow, hhigh⟩ (⟨-, hout⟩ | ⟨hapart, -, -⟩ | ⟨hapart, -, -⟩)
      · exact hout.elim hlow.not_gt hhigh.not_gt
      · exact hapart.not_ge hclose
      · exact hapart.not_ge hclose
    · intro h
      exact ⟨not_lt.1 fun hout => h (.together hclose (.inl hout)),
        not_lt.1 fun hout => h (.together hclose (.inr hout))⟩
  case isFalse hapart =>
    have hapart := not_le.1 hapart
    have hle : min first last ≤ max first last := min_le_max
    constructor
    · rintro ⟨hlow, hhigh⟩ (⟨hclose, -⟩ | ⟨-, hlimit, hout⟩ | ⟨-, hlimit, hout⟩)
      · exact hapart.not_ge hclose
      · obtain hout | hout := hout
        · exact (lt_max_of_lt_right (lt_min hout hlimit)).not_ge hhigh
        · exact (lt_max_of_lt_left hout).not_ge hhigh
      · have hmin : min argument (max first last) < 0 := min_lt_iff.2 hout
        exact (max_lt hlimit hmin).not_ge hlow
    · intro h
      refine ⟨not_lt.1 fun hout => ?_, not_lt.1 fun hout => ?_⟩
      · obtain ⟨hlimit, hmin⟩ := max_lt_iff.1 hout
        exact h (.before hapart hlimit (min_lt_iff.1 hmin))
      · obtain hlimit | hmin := lt_max_iff.1 hout
        · exact h (.beyond hapart (hlimit.trans_le hle) (.inr hlimit))
        · obtain ⟨hargument, hlimit⟩ := lt_min_iff.1 hmin
          exact h (.beyond hapart hlimit (.inl hargument))

/-- A share of the way between two limits, cut off where the way ends, gives the number between the
limits that is nearest to a number. -/
theorem add_mul_clamp_eq {first last : ℝ} (hne : last - first ≠ 0) (argument : ℝ) :
    first + (last - first) * max 0 (min ((argument - first) * (last - first)⁻¹) 1) =
      max (min first last) (min argument (max first last)) := by
  have hcancel : (last - first) * ((argument - first) * (last - first)⁻¹) = argument - first := by
    rw [mul_comm (argument - first), mul_inv_cancel_left₀ hne]
  obtain hneg | hpos := lt_or_gt_of_ne hne
  · have hle : last ≤ first := (sub_neg.1 hneg).le
    have hanti : Antitone fun share => (last - first) * share := antitone_mul_left hneg.le
    have hmax : ∀ b c : ℝ,
        (last - first) * max b c = min ((last - first) * b) ((last - first) * c) :=
      fun b c => hanti.map_max
    have hmin : ∀ b c : ℝ,
        (last - first) * min b c = max ((last - first) * b) ((last - first) * c) :=
      fun b c => hanti.map_min
    rw [hmax, hmin, hcancel, mul_zero, mul_one,
      ← min_add_add_left, ← max_add_add_left, add_zero, add_sub_cancel, add_sub_cancel,
      min_eq_right hle, max_eq_left hle, min_max_distrib_left, min_eq_right hle, max_comm,
      min_comm]
  · have hle : first ≤ last := (sub_pos.1 hpos).le
    rw [mul_max_of_nonneg _ _ hpos.le, mul_min_of_nonneg _ _ hpos.le, hcancel, mul_zero, mul_one,
      ← max_add_add_left, ← min_add_add_left, add_zero, add_sub_cancel, add_sub_cancel,
      min_eq_left hle, max_eq_right hle]

namespace Vec

/-- The nearest point of a segment is one of its points. -/
theorem passes_nearestPoint (u v p : Vec ℝ) : (Line.mk u v).Passes (nearestPoint u v p) := by
  have hzero : (0.0 : ℝ) = 0 := by norm_num
  have hone : (1.0 : ℝ) = 1 := by norm_num
  unfold nearestPoint
  dsimp only
  split
  · refine ⟨0, le_refl 0, zero_le_one, ?_⟩
    show u = ⟨u.x + (v.x - u.x) * 0, u.y + (v.y - u.y) * 0⟩
    rw [mul_zero, mul_zero, add_zero, add_zero]
  · rw [hzero, hone]
    obtain ⟨hlow, hhigh⟩ := Scalar.clamp_mem zero_le_one ((p - u).dot (v - u) / (v - u).dot (v - u))
    exact ⟨_, hlow, hhigh, rfl⟩

theorem add_zero_mul (u : Vec ℝ) (a : ℝ) : u + (zero : Vec ℝ) * a = u := by
  have hzero : (0.0 : ℝ) = 0 := by norm_num
  show (⟨u.x + 0.0 * a, u.y + 0.0 * a⟩ : Vec ℝ) = u
  rw [hzero, zero_mul, add_zero, add_zero]

theorem sub_zero_mul (u : Vec ℝ) (a : ℝ) : u - (zero : Vec ℝ) * a = u := by
  have hzero : (0.0 : ℝ) = 0 := by norm_num
  show (⟨u.x - 0.0 * a, u.y - 0.0 * a⟩ : Vec ℝ) = u
  rw [hzero, zero_mul, sub_zero, sub_zero]

theorem epsilon_pos : (0 : ℝ) < Scalar.epsilon := by
  show (0 : ℝ) < 2 ^ (-52 : ℤ)
  positivity

section

variable {u : Vec ℝ}

/-- A vector that is long enough has a direction, and is as long as it is in that direction. -/
theorem eq_unit_mul (h : Scalar.epsilon < u.length) : u = u.unit * u.length := by
  have hne : u.length ≠ 0 := (epsilon_pos.trans h).ne'
  rw [unit, if_pos ⟨h, rfl⟩]
  show u = ⟨u.x / u.length * u.length, u.y / u.length * u.length⟩
  rw [div_mul_cancel₀ _ hne, div_mul_cancel₀ _ hne]

theorem dot_unit (h : Scalar.epsilon < u.length) : u.unit.dot u.unit = 1 := by
  have hne : u.length ≠ 0 := (epsilon_pos.trans h).ne'
  have hsq : u.length * u.length = u.x ^ 2 + u.y ^ 2 := Real.mul_self_sqrt (by positivity)
  rw [unit, if_pos ⟨h, rfl⟩]
  show u.x / u.length * (u.x / u.length) + u.y / u.length * (u.y / u.length) = 1
  rw [div_mul_div_comm, div_mul_div_comm, ← add_div, hsq, ← sq, ← sq, div_self]
  exact hsq ▸ mul_ne_zero hne hne

/-- The points of a line that are some lengths away from one of them, both ways. -/
theorem along_sub (v w : Vec ℝ) (a b : ℝ) : v + w * b - (v + w * a) = w * (b - a) := by
  show (⟨v.x + w.x * b - (v.x + w.x * a), v.y + w.y * b - (v.y + w.y * a)⟩ : Vec ℝ) =
    ⟨w.x * (b - a), w.y * (b - a)⟩
  rw [add_sub_add_left_eq_sub, add_sub_add_left_eq_sub, mul_sub, mul_sub]

theorem along_add (v w : Vec ℝ) (a b : ℝ) : v + w * a + w * b = v + w * (a + b) := by
  show (⟨v.x + w.x * a + w.x * b, v.y + w.y * a + w.y * b⟩ : Vec ℝ) =
    ⟨v.x + w.x * (a + b), v.y + w.y * (a + b)⟩
  rw [mul_add, mul_add, add_assoc, add_assoc]

theorem along_sub_mul (v w : Vec ℝ) (a b : ℝ) : v + w * a - w * b = v + w * (a - b) := by
  show (⟨v.x + w.x * a - w.x * b, v.y + w.y * a - w.y * b⟩ : Vec ℝ) =
    ⟨v.x + w.x * (a - b), v.y + w.y * (a - b)⟩
  rw [mul_sub, mul_sub, add_sub_assoc, add_sub_assoc]

theorem mul_mul (w : Vec ℝ) (a b : ℝ) : w * a * b = w * (a * b) := by
  show (⟨w.x * a * b, w.y * a * b⟩ : Vec ℝ) = ⟨w.x * (a * b), w.y * (a * b)⟩
  rw [mul_assoc, mul_assoc]

variable (hu : u.dot u = 1)

include hu

theorem dot_mul (a b : ℝ) : (u * a).dot (u * b) = a * b := by
  have hdot : u.x * u.x + u.y * u.y = 1 := hu
  show u.x * a * (u.x * b) + u.y * a * (u.y * b) = a * b
  linear_combination a * b * hdot

theorem dot_mul_self (a : ℝ) : (u * a).dot u = a := by
  have hdot : u.x * u.x + u.y * u.y = 1 := hu
  show u.x * a * u.x + u.y * a * u.y = a
  linear_combination a * hdot

/-- How far along the line a point is, from a point of the line. -/
theorem dot_sub_along (v p : Vec ℝ) (a b : ℝ) :
    (p - (v + u * a)).dot (u * b) = ((p - v).dot u - a) * b := by
  have hdot : u.x * u.x + u.y * u.y = 1 := hu
  show (p.x - (v.x + u.x * a)) * (u.x * b) + (p.y - (v.y + u.y * a)) * (u.y * b) =
    ((p.x - v.x) * u.x + (p.y - v.y) * u.y - a) * b
  linear_combination -(a * b) * hdot

theorem nearestPoint_along (v p : Vec ℝ) (a b : ℝ) : nearestPoint (v + u * a) (v + u * b) p =
    v + u * nearestAlong a b ((p - v).dot u) := by
  have hzero : (0.0 : ℝ) = 0 := by norm_num
  have hone : (1.0 : ℝ) = 1 := by norm_num
  unfold nearestPoint nearestAlong
  dsimp only
  rw [along_sub, dot_mul hu, dot_sub_along hu, ← sq]
  split
  case isTrue => rfl
  case isFalse hapart =>
    have hne : b - a ≠ 0 := by
      intro heq
      rw [heq, sq, mul_zero] at hapart
      exact hapart epsilon_pos.le
    rw [mul_mul, along_add, hzero, hone, Scalar.clamp_eq zero_le_one, sq,
      mul_div_mul_right _ _ hne, div_eq_mul_inv, add_mul_clamp_eq hne]

/-- A point of a line is on the segment if it is as far along. -/
theorem passes_along_iff (v : Vec ℝ) {d : ℝ} (hd : 0 < d) (a : ℝ) :
    (Line.mk v (v + u * d)).Passes (v + u * a) ↔ 0 ≤ a ∧ a ≤ d := by
  have hlerp : ∀ t, v.lerp (v + u * d) t = v + u * (d * t) := by
    intro t
    rw [lerp, add_sub_cancel_left, mul_mul]
  constructor
  · rintro ⟨t, hlow, hhigh, heq⟩
    have hlen : a = d * t := by
      have hdot := congrArg (fun w => (w - v).dot u) (heq.trans (hlerp t))
      rwa [add_sub_cancel_left, add_sub_cancel_left, dot_mul_self hu,
        dot_mul_self hu] at hdot
    rw [hlen]
    exact ⟨mul_nonneg hd.le hlow, mul_le_of_le_one_right hd.le hhigh⟩
  · rintro ⟨hlow, hhigh⟩
    refine ⟨a / d, div_nonneg hlow hd.le, (div_le_one hd).2 hhigh, ?_⟩
    rw [hlerp, mul_div_cancel₀ a hd.ne']

end

end Vec

/-! ## Targets -/

section

variable (line : Line ℝ) (p : Vec ℝ) (a b : ℝ)

/-- The point of a line that is nearest to a point, between limits that keep some room for what is
at the ends. -/
noncomputable def Line.between : Vec ℝ :=
  Vec.nearestPoint (line.start + line.direction * a) (line.stop - line.direction * b) p

/-- Ends in one place leave nothing to keep room for. -/
theorem Line.passes_between_of_short (h : line.start.dist line.stop ≤ Scalar.epsilon) :
    line.Passes (line.between p a b) := by
  have hzero : line.direction = .zero := if_neg fun hlong => hlong.1.not_ge h
  rw [between, hzero, Vec.add_zero_mul, Vec.sub_zero_mul]
  exact Vec.passes_nearestPoint ..

/-- Else the point is between the ends unless it strays. -/
theorem Line.passes_between_iff (h : Scalar.epsilon < line.start.dist line.stop) :
    line.Passes (line.between p a b) ↔ ¬ Strays (line.start.dist line.stop) a
      (line.start.dist line.stop - b) ((p - line.start).dot line.direction) := by
  have hu : line.direction.dot line.direction = 1 := Vec.dot_unit h
  have hstop : line.stop = line.start + line.direction * line.start.dist line.stop :=
    (add_sub_cancel ..).symm.trans (congrArg (line.start + ·) (Vec.eq_unit_mul h))
  have hlimit : line.stop - line.direction * b =
      line.start + line.direction * (line.start.dist line.stop - b) := by
    rw [← Vec.along_sub_mul, ← hstop]
  have hpasses : ∀ q, line.Passes q ↔ (Line.mk line.start
      (line.start + line.direction * line.start.dist line.stop)).Passes q := by
    intro q
    rw [← hstop]
  rw [hpasses, between, hlimit, Vec.nearestPoint_along hu,
    Vec.passes_along_iff hu _ (Vec.epsilon_pos.trans h), nearestAlong_mem_iff]

end

/-- With a function, an argument and a consumer, a merge that does not step aside has a target,
wherever the nodes are and however large they are. The target is on the segment from the function to
the consumer exactly when these are in one place or it does not stray. -/
theorem Engine.target_between_unless_strays (e : Engine ℝ) (he : e.disambiguate = false)
    (g : Graph ℝ) (x : GroupId) (m : MergeId) {function argument : Source} {consumer : Sink}
    (hfunction : (g.merge m).function = some function)
    (hargument : (g.merge m).argument = some argument)
    (hconsumer : (g.merge m).consumer = some consumer) :
    let line : Line ℝ := ⟨g.sourcePosition function, g.sinkPosition consumer⟩
    let distance := line.start.dist line.stop
    let first := g.sourceRadius function + (g.merge m).radius
    let last := distance - (g.sinkRadius consumer + (g.merge m).radius)
    let along := (g.sourcePosition argument - line.start).dot line.direction
    ∃ p, e.target? g x m = some p ∧
      (line.Passes p ↔ (Scalar.epsilon < distance → ¬ Strays distance first last along)) := by
  intro line distance first last along
  refine ⟨line.between (g.sourcePosition argument) first
    (g.sinkRadius consumer + (g.merge m).radius), ?_, ?_⟩
  · simp only [Engine.target?, hfunction, hargument, hconsumer, he]
    rfl
  · obtain hshort | hlong := le_or_gt distance Scalar.epsilon
    · have hpasses := line.passes_between_of_short (g.sourcePosition argument) first
        (g.sinkRadius consumer + (g.merge m).radius) hshort
      exact ⟨fun _ hlong => absurd hlong hshort.not_gt, fun _ => hpasses⟩
    · rw [line.passes_between_iff _ _ _ hlong]
      exact ⟨fun h _ => h, fun h => h hlong⟩

/-! One merge is the function of another, which takes an input for its argument and goes to the
output of its group. All of them are one below the other. -/

/-- The input is at the top, the output at the bottom and the function at some height. -/
noncomputable def Graph.column (height : ℝ) : Graph ℝ where
  groups := #[{ (Group.blank none .zero : Group ℝ) with
    output := ⟨⟨0, 25⟩, 5, none, some (.merge ⟨1⟩)⟩ }]
  inputs := #[Input.blank 'x' ⟨0, -25⟩]
  merges := #[⟨none, none, some (.merge ⟨1⟩), ⟨0, height⟩, 10⟩,
    ⟨some (.merge ⟨0⟩), some (.input ⟨0⟩), some (.output Graph.root), .zero, 10⟩]

theorem dist_column {a b : ℝ} (h : a ≤ b) : (⟨0, a⟩ : Vec ℝ).dist ⟨0, b⟩ = b - a := by
  show √((0 - 0) ^ 2 + (b - a) ^ 2) = b - a
  rw [sub_zero, zero_pow two_ne_zero, zero_add, Real.sqrt_sq (sub_nonneg.2 h)]

theorem direction_column {a b : ℝ} (h : a + Scalar.epsilon < b) :
    (Line.mk ⟨0, a⟩ ⟨0, b⟩ : Line ℝ).direction = ⟨0, 1⟩ := by
  have hlt : a < b := (lt_add_of_pos_right a Vec.epsilon_pos).trans h
  have hdist := dist_column hlt.le
  have hlong : Scalar.epsilon < (⟨0, a⟩ : Vec ℝ).dist ⟨0, b⟩ := by
    rw [hdist]
    exact lt_sub_iff_add_lt'.2 h
  have hunit : (Line.mk ⟨0, a⟩ ⟨0, b⟩ : Line ℝ).direction =
      ⟨(0 - 0) / (⟨0, a⟩ : Vec ℝ).dist ⟨0, b⟩, (b - a) / (⟨0, a⟩ : Vec ℝ).dist ⟨0, b⟩⟩ :=
    if_pos ⟨hlong, rfl⟩
  rw [hunit, hdist, sub_zero, zero_div, div_self (sub_pos.2 hlt).ne']

/-- Far enough from the output, the function leaves the target room between the two. -/
theorem Engine.target_between_far_apart :
    ∃ p, (Engine.standard.withDisambiguation false).target? (Graph.column (-75)) Graph.root ⟨1⟩ =
      some p ∧ (Line.mk ⟨0, -75⟩ ⟨0, 25⟩).Passes p := by
  obtain ⟨p, htarget, hpasses⟩ := Engine.target_between_unless_strays
    (Engine.standard.withDisambiguation false) rfl (Graph.column (-75)) Graph.root ⟨1⟩ rfl rfl rfl
  have hdist : (⟨0, -75⟩ : Vec ℝ).dist ⟨0, 25⟩ = 25 - -75 := dist_column (by norm_num)
  refine ⟨p, htarget, hpasses.2 fun _ => not_strays ?_ ?_ ?_ ?_ _⟩
  · show (0 : ℝ) ≤ 10 + 10
    norm_num
  · show (10 + 10 : ℝ) ≤ (⟨0, -75⟩ : Vec ℝ).dist ⟨0, 25⟩
    rw [hdist]
    norm_num
  · show (0 : ℝ) ≤ (⟨0, -75⟩ : Vec ℝ).dist ⟨0, 25⟩ - (5 + 10)
    rw [hdist]
    norm_num
  · show (⟨0, -75⟩ : Vec ℝ).dist ⟨0, 25⟩ - (5 + 10) ≤ (⟨0, -75⟩ : Vec ℝ).dist ⟨0, 25⟩
    rw [hdist]
    norm_num

/-- Close to the output, the function is itself between the output and the target. -/
theorem Engine.target_beyond_function :
    (Engine.standard.withDisambiguation false).target? (Graph.column 20) Graph.root ⟨1⟩ =
      some ⟨0, 10⟩ ∧ ¬ (Line.mk ⟨0, 20⟩ ⟨0, 25⟩).Passes ⟨0, 10⟩ := by
  constructor
  case right =>
    rintro ⟨t, hlow, -, heq⟩
    have hheight : (10 : ℝ) = 20 + (25 - 20) * t := congrArg Vec.y heq
    linarith
  case left =>
    let line : Line ℝ := ⟨⟨0, 20⟩, ⟨0, 25⟩⟩
    let down : Vec ℝ := ⟨0, 1⟩
    have hdirection : line.direction = down := by
      apply direction_column
      show (20 : ℝ) + 2 ^ (-52 : ℤ) < 25
      norm_num
    have hdown : down.dot down = 1 := by
      show (0 : ℝ) * 0 + 1 * 1 = 1
      norm_num
    have hlimit : line.stop - down * (5 + 10 : ℝ) = line.start + down * (-10 : ℝ) := by
      show (⟨0 - 0 * (5 + 10), 25 - 1 * (5 + 10)⟩ : Vec ℝ) = ⟨0 + 0 * -10, 20 + 1 * -10⟩
      norm_num
    have halong : nearestAlong (10 + 10) (-10) (((⟨0, -25⟩ : Vec ℝ) - line.start).dot down) =
        -10 := by
      have hargument : ((⟨0, -25⟩ : Vec ℝ) - line.start).dot down = -45 := by
        show ((0 : ℝ) - 0) * 0 + (-25 - 20) * 1 = -45
        norm_num
      have hapart : ¬ ((-10 : ℝ) - (10 + 10)) ^ 2 ≤ Scalar.epsilon := by
        show ¬ ((-10 : ℝ) - (10 + 10)) ^ 2 ≤ 2 ^ (-52 : ℤ)
        norm_num
      rw [hargument, nearestAlong, if_neg hapart]
      norm_num
    have htarget : (Engine.standard.withDisambiguation false).target? (Graph.column 20)
        Graph.root ⟨1⟩ = some (line.between ⟨0, -25⟩ (10 + 10) (5 + 10)) := rfl
    rw [htarget, Line.between, hdirection, hlimit, Vec.nearestPoint_along hdown, halong]
    show some (⟨0 + 0 * -10, 20 + 1 * -10⟩ : Vec ℝ) = some ⟨0, 10⟩
    norm_num

end LambdaDiagram
