import Mathlib.Analysis.Complex.Norm
import LambdaDiagram.Proofs.MergeTargets

/-!
The nearest point of a segment, with exact numbers. Along a line the square of the distance to a
point grows with the square of the way from where the point is projected to, so on a segment it is
least where that place is cut off at the ends. A segment too short to have a direction gives its
start, which is off by no more than the segment is long.
-/

namespace LambdaDiagram

/-! ## Clamping -/

namespace Scalar

/-- No number between two bounds is nearer to a number than where that is brought to. -/
theorem sq_clamp_sub_le {low high t : ℝ} (hlow : low ≤ t) (hhigh : t ≤ high) (a : ℝ) :
    (clamp low high a - a) ^ 2 ≤ (t - a) ^ 2 := by
  unfold clamp
  split
  case isTrue hless => exact pow_le_pow_left₀ (sub_pos.2 hless).le (sub_le_sub_right hlow a) 2
  case isFalse =>
    split
    case isTrue hmore =>
      rw [← neg_sq, neg_sub, ← neg_sq (t - a), neg_sub]
      exact pow_le_pow_left₀ (sub_pos.2 hmore).le (sub_le_sub_left hhigh a) 2
    case isFalse =>
      rw [sub_self, zero_pow two_ne_zero]
      exact sq_nonneg _

/-- Seen from the other end, a share is what is left of it. -/
theorem clamp_one_sub (a : ℝ) : clamp 0 1 (1 - a) = 1 - clamp 0 1 a := by
  rw [clamp_eq zero_le_one, clamp_eq zero_le_one]
  rcases le_total a 0 with hlow | hlow
  · rw [min_eq_left (hlow.trans zero_le_one), max_eq_left hlow, sub_zero,
      min_eq_right (le_sub_self_iff 1 |>.2 hlow), max_eq_right zero_le_one]
  · rw [min_eq_left (sub_le_self 1 hlow)]
    rcases le_total a 1 with hhigh | hhigh
    · rw [min_eq_left hhigh, max_eq_right hlow, max_eq_right (sub_nonneg.2 hhigh)]
    · rw [min_eq_right hhigh, max_eq_right zero_le_one, sub_self,
        max_eq_left (sub_nonpos.2 hhigh)]

end Scalar

/-! ## Distances -/

namespace Vec

variable (u v p : Vec ℝ)

theorem distSq_comm : v.distSq u = u.distSq v := by
  show (u.x - v.x) * (u.x - v.x) + (u.y - v.y) * (u.y - v.y) =
    (v.x - u.x) * (v.x - u.x) + (v.y - u.y) * (v.y - u.y)
  ring

theorem dist_eq_sqrt : u.dist v = √(u.distSq v) := by
  show √((v.x - u.x) ^ 2 + (v.y - u.y) ^ 2) =
    √((v.x - u.x) * (v.x - u.x) + (v.y - u.y) * (v.y - u.y))
  rw [sq, sq]

theorem dist_triangle : u.dist p ≤ u.dist v + v.dist p := by
  have hnorm : ∀ a b : Vec ℝ, a.dist b = ‖(⟨b.x, b.y⟩ : ℂ) - ⟨a.x, a.y⟩‖ := by
    intro a b
    rw [Complex.norm_eq_sqrt_sq_add_sq]
    rfl
  rw [hnorm, hnorm, hnorm, add_comm]
  exact norm_sub_le_norm_sub_add_norm_sub ..

/-- Where on the line through two points a point is projected to, as a share of the way. -/
noncomputable def shareOf : ℝ := (p - u).dot (v - u) / u.distSq v

/-- The square of the distance from a point of a line: that from where the point is projected to,
and that along the line. -/
theorem distSq_lerp (h : u.distSq v ≠ 0) (t : ℝ) :
    (u.lerp v t).distSq p = u.distSq v * (t - u.shareOf v p) ^ 2 +
      (u.distSq p - u.distSq v * u.shareOf v p ^ 2) := by
  have hshare : u.distSq v * u.shareOf v p = (p - u).dot (v - u) := mul_div_cancel₀ _ h
  have hline : u.distSq v = (v.x - u.x) * (v.x - u.x) + (v.y - u.y) * (v.y - u.y) := rfl
  have hdot : (p - u).dot (v - u) = (p.x - u.x) * (v.x - u.x) + (p.y - u.y) * (v.y - u.y) := rfl
  show (p.x - (u.x + (v.x - u.x) * t)) * (p.x - (u.x + (v.x - u.x) * t)) +
      (p.y - (u.y + (v.y - u.y) * t)) * (p.y - (u.y + (v.y - u.y) * t)) = _ +
      ((p.x - u.x) * (p.x - u.x) + (p.y - u.y) * (p.y - u.y) - _)
  linear_combination -(t ^ 2) * hline + 2 * t * hshare + 2 * t * hdot

/-- From the other end the share of the way is what is left of it. -/
theorem shareOf_swap (h : u.distSq v ≠ 0) : v.shareOf u p = 1 - u.shareOf v p := by
  have hdot : (p - v).dot (u - v) = u.distSq v - (p - u).dot (v - u) := by
    show (p.x - v.x) * (u.x - v.x) + (p.y - v.y) * (u.y - v.y) =
      (v.x - u.x) * (v.x - u.x) + (v.y - u.y) * (v.y - u.y) -
        ((p.x - u.x) * (v.x - u.x) + (p.y - u.y) * (v.y - u.y))
    ring
  rw [shareOf, shareOf, distSq_comm, hdot, sub_div, div_self h]

/-- A segment that is long enough has its nearest point where the point is projected to, cut off at
the ends. -/
theorem nearestPoint_eq (h : Scalar.epsilon < u.distSq v) :
    nearestPoint u v p = u.lerp v (Scalar.clamp 0 1 (u.shareOf v p)) := by
  have hzero : (0.0 : ℝ) = 0 := by norm_num
  have hone : (1.0 : ℝ) = 1 := by norm_num
  have hlong : ¬ (v - u).dot (v - u) ≤ Scalar.epsilon := not_le.2 h
  unfold nearestPoint
  dsimp only
  rw [if_neg hlong, hzero, hone]
  rfl

/-- A segment that is too short has its start. -/
theorem nearestPoint_eq_start (h : u.distSq v ≤ Scalar.epsilon) : nearestPoint u v p = u :=
  if_pos h

theorem lerp_swap (t : ℝ) : v.lerp u (1 - t) = u.lerp v t := by
  show (⟨v.x + (u.x - v.x) * (1 - t), v.y + (u.y - v.y) * (1 - t)⟩ : Vec ℝ) =
    ⟨u.x + (v.x - u.x) * t, u.y + (v.y - u.y) * t⟩
  congr 1 <;> ring

/-- No point of a segment is farther from its start than its end is. -/
theorem dist_le_of_passes {q : Vec ℝ} (h : (Line.mk u v).Passes q) : u.dist q ≤ u.dist v := by
  obtain ⟨t, hlow, hhigh, rfl⟩ := h
  have hsq : u.distSq (u.lerp v t) = u.distSq v * t ^ 2 := by
    show (u.x + (v.x - u.x) * t - u.x) * (u.x + (v.x - u.x) * t - u.x) +
      (u.y + (v.y - u.y) * t - u.y) * (u.y + (v.y - u.y) * t - u.y) =
        ((v.x - u.x) * (v.x - u.x) + (v.y - u.y) * (v.y - u.y)) * t ^ 2
    ring
  have hnonneg : 0 ≤ u.distSq v := add_nonneg (mul_self_nonneg _) (mul_self_nonneg _)
  rw [dist_eq_sqrt, dist_eq_sqrt, hsq]
  exact Real.sqrt_le_sqrt (mul_le_of_le_one_right hnonneg (pow_le_one₀ hlow hhigh))

/-- On a segment that is long enough to have a direction the nearest point is one of its points, no
other one is nearer, and it is the same from either end. On a shorter segment it is the start, and
no point of the segment is nearer by more than the length from which on segments are long enough.
-/
theorem nearestPoint_optimal (a b p : Vec ℝ) :
    (Scalar.epsilon < a.distSq b →
      (Line.mk a b).Passes (nearestPoint a b p) ∧
      (∀ q, (Line.mk a b).Passes q → (nearestPoint a b p).dist p ≤ q.dist p) ∧
      nearestPoint b a p = nearestPoint a b p) ∧
    (a.distSq b ≤ Scalar.epsilon →
      nearestPoint a b p = a ∧
      ∀ q, (Line.mk a b).Passes q → a.dist p ≤ q.dist p + √Scalar.epsilon) := by
  constructor
  case left =>
    intro hlong
    have hpos : 0 < a.distSq b := epsilon_pos.trans hlong
    refine ⟨passes_nearestPoint a b p, ?_, ?_⟩
    · rintro q ⟨t, hlow, hhigh, rfl⟩
      have hshare := Scalar.sq_clamp_sub_le hlow hhigh (a.shareOf b p)
      rw [nearestPoint_eq a b p hlong, dist_eq_sqrt, dist_eq_sqrt, distSq_lerp a b p hpos.ne',
        distSq_lerp a b p hpos.ne']
      apply Real.sqrt_le_sqrt
      gcongr
    · have hback : Scalar.epsilon < b.distSq a := by rwa [distSq_comm]
      rw [nearestPoint_eq b a p hback, nearestPoint_eq a b p hlong, shareOf_swap a b p hpos.ne',
        Scalar.clamp_one_sub, lerp_swap]
  case right =>
    intro hshort
    refine ⟨nearestPoint_eq_start a b p hshort, fun q hq => ?_⟩
    have hlength : a.dist b ≤ √Scalar.epsilon := by
      rw [dist_eq_sqrt]
      exact Real.sqrt_le_sqrt hshort
    calc a.dist p ≤ a.dist q + q.dist p := dist_triangle a q p
      _ ≤ √Scalar.epsilon + q.dist p := by
        gcongr
        exact (dist_le_of_passes a b hq).trans hlength
      _ = q.dist p + √Scalar.epsilon := add_comm ..

/-- A point beyond the end of a segment, and one beside a segment that is a single point. -/
theorem nearestPoint_optimal_beyond :
    let a : Vec ℝ := ⟨0, 0⟩
    let b : Vec ℝ := ⟨10, 0⟩
    let p : Vec ℝ := ⟨40, -1⟩
    (Scalar.epsilon < a.distSq b ∧ (Line.mk a b).Passes (nearestPoint a b p) ∧
      (nearestPoint a b p).dist p ≤ b.dist p ∧ nearestPoint b a p = nearestPoint a b p) ∧
    b.distSq b ≤ Scalar.epsilon ∧ nearestPoint b b p = b := by
  intro a b p
  have hlong : Scalar.epsilon < a.distSq b := by
    show (2 : ℝ) ^ (-52 : ℤ) < (10 - 0) * (10 - 0) + (0 - 0) * (0 - 0)
    norm_num
  have hshort : b.distSq b ≤ Scalar.epsilon := by
    show (10 - 10 : ℝ) * (10 - 10) + (0 - 0) * (0 - 0) ≤ 2 ^ (-52 : ℤ)
    norm_num
  have hend : (Line.mk a b).Passes b := by
    refine ⟨1, zero_le_one, le_refl 1, ?_⟩
    show (⟨10, 0⟩ : Vec ℝ) = ⟨0 + (10 - 0) * 1, 0 + (0 - 0) * 1⟩
    norm_num
  obtain ⟨hpasses, hnearest, hswap⟩ := (nearestPoint_optimal a b p).1 hlong
  have hpoint := ((nearestPoint_optimal b b p).2 hshort).1
  exact ⟨⟨hlong, hpasses, hnearest b hend, hswap⟩, hshort, hpoint⟩

end Vec

end LambdaDiagram
