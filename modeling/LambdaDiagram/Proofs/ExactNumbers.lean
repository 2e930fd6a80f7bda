import LambdaDiagram.Plane.Vec
import Mathlib.Analysis.SpecialFunctions.Sqrt
import Mathlib.Analysis.SpecialFunctions.Trigonometric.Basic

/-!
The real numbers as numbers to compute a drawing with. Every operation is exact and every number is
finite, so what the layout keeps up to rounding it keeps exactly here.
-/

namespace LambdaDiagram

noncomputable instance : Scalar ℝ where
  decidableLT := inferInstance
  decidableLE := inferInstance
  pi := Real.pi
  epsilon := 2 ^ (-52 : ℤ)
  sin := Real.sin
  cos := Real.cos
  abs x := |x|
  hypot x y := √(x ^ 2 + y ^ 2)
  isFinite _ := true

namespace Scalar

theorem larger_eq_max (a b : ℝ) : larger a b = max a b := by
  unfold larger
  rw [if_pos (le_refl a)]
  split
  · rw [max_eq_right (le_of_lt ‹_›)]
  · rw [max_eq_left (not_lt.1 ‹_›)]

/-- A number is brought between two bounds. -/
theorem clamp_mem {low high : ℝ} (h : low ≤ high) (a : ℝ) :
    low ≤ clamp low high a ∧ clamp low high a ≤ high := by
  unfold clamp
  split
  · exact ⟨le_refl low, h⟩
  · split
    · exact ⟨h, le_refl high⟩
    · exact ⟨not_lt.1 ‹_›, not_lt.1 ‹_›⟩

/-- Between bounds in order, clamping is cutting from above and then from below. -/
theorem clamp_eq {low high : ℝ} (h : low ≤ high) (a : ℝ) :
    clamp low high a = max low (min a high) := by
  unfold clamp
  split
  case isTrue hlow =>
    have hmin : min a high ≤ low := (min_le_left a high).trans hlow.le
    exact (max_eq_left hmin).symm
  case isFalse hlow =>
    split
    case isTrue hhigh => rw [min_eq_right hhigh.le, max_eq_right h]
    case isFalse hhigh => rw [min_eq_left (not_lt.1 hhigh), max_eq_right (not_lt.1 hlow)]

theorem le_largest {as : List ℝ} {a : ℝ} (h : a ∈ as) : a ≤ largest as := by
  have hfold : ∀ (as : List ℝ) (b : ℝ),
      b ≤ as.foldl larger b ∧ ∀ a ∈ as, a ≤ as.foldl larger b := by
    intro as
    induction as with
    | nil => exact fun b => ⟨le_refl b, nofun⟩
    | cons c as ih =>
      intro b
      obtain ⟨hb, has⟩ := ih (larger b c)
      rw [larger_eq_max] at hb has
      rw [List.foldl_cons, larger_eq_max]
      refine ⟨le_trans (le_max_left b c) hb, List.forall_mem_cons.2 ⟨?_, has⟩⟩
      exact le_trans (le_max_right b c) hb
  exact (hfold as 0.0).2 a h

end Scalar

namespace Vec

instance : Zero (Vec ℝ) := ⟨⟨0, 0⟩⟩

theorem zero_eq : (zero : Vec ℝ) = 0 := by
  have hzero : (0.0 : ℝ) = 0 := by norm_num
  show (⟨0.0, 0.0⟩ : Vec ℝ) = ⟨0, 0⟩
  rw [hzero]

/-- Vectors are added coordinate by coordinate. -/
noncomputable instance : AddCommGroup (Vec ℝ) where
  add_assoc u v w := by
    show (⟨u.x + v.x + w.x, u.y + v.y + w.y⟩ : Vec ℝ) = ⟨u.x + (v.x + w.x), u.y + (v.y + w.y)⟩
    rw [add_assoc, add_assoc]
  zero_add u := by
    show (⟨0 + u.x, 0 + u.y⟩ : Vec ℝ) = u
    rw [zero_add, zero_add]
  add_zero u := by
    show (⟨u.x + 0, u.y + 0⟩ : Vec ℝ) = u
    rw [add_zero, add_zero]
  add_comm u v := by
    show (⟨u.x + v.x, u.y + v.y⟩ : Vec ℝ) = ⟨v.x + u.x, v.y + u.y⟩
    rw [add_comm, add_comm u.y]
  neg_add_cancel u := by
    show (⟨-u.x + u.x, -u.y + u.y⟩ : Vec ℝ) = ⟨0, 0⟩
    rw [neg_add_cancel, neg_add_cancel]
  sub_eq_add_neg u v := by
    show (⟨u.x - v.x, u.y - v.y⟩ : Vec ℝ) = ⟨u.x + -v.x, u.y + -v.y⟩
    rw [sub_eq_add_neg, sub_eq_add_neg]
  nsmul := nsmulRec
  zsmul := zsmulRec

variable (u v d : Vec ℝ)

/-- Moving the center moves the points around it. -/
theorem ofPolar_add (r a : ℝ) : ofPolar r a u + d = ofPolar r a (u + d) := by
  show (⟨u.x + r * Real.cos a + d.x, u.y + r * Real.sin a + d.y⟩ : Vec ℝ) =
    ⟨u.x + d.x + r * Real.cos a, u.y + d.y + r * Real.sin a⟩
  rw [add_right_comm, add_right_comm u.y]

/-- Moving two points together keeps them as far apart. -/
theorem dist_add : (u + d).dist (v + d) = u.dist v := by
  show √((v.x + d.x - (u.x + d.x)) ^ 2 + (v.y + d.y - (u.y + d.y)) ^ 2) =
    √((v.x - u.x) ^ 2 + (v.y - u.y) ^ 2)
  rw [add_sub_add_right_eq_sub, add_sub_add_right_eq_sub]

end Vec

end LambdaDiagram
