import LambdaDiagram.Number.Hypot
import Mathlib.Order.Compare

/-!
The order of floating-point numbers. Two numbers always compare, one way and the other way round; an
undefined value compares with nothing. So a number that is kept between two bounds does lie between
them, and only an undefined value slips through.
-/

namespace LambdaDiagram

namespace FloatOrder

open Float.Model

section

variable {u v : UnpackedFloat}

/-- Comparing the other way round gives the opposite. -/
theorem compare_swap (u v : UnpackedFloat) : v.compare u = (u.compare v).map Ordering.swap := by
  have hfinite : ∀ (e₁ e₂ : Int) (m₁ m₂ : Nat), (compare e₂ e₁).then (compare m₂ m₁) =
      ((compare e₁ e₂).then (compare m₁ m₂)).swap := by
    intro e₁ e₂ m₁ m₂
    rw [Ordering.swap_then, ← Std.OrientedCmp.eq_swap, ← Std.OrientedCmp.eq_swap]
  cases u with
  | notANumber => cases v <;> rfl
  | infinity s =>
    cases v with
    | notANumber => rfl
    | infinity t => cases s <;> cases t <;> rfl
    | zero t => cases s <;> rfl
    | finite t m e => cases s <;> rfl
  | zero s =>
    cases v with
    | notANumber => rfl
    | infinity t => cases t <;> rfl
    | zero t => rfl
    | finite t m e => cases t <;> rfl
  | finite s m e =>
    cases v with
    | notANumber => rfl
    | infinity t => cases t <;> rfl
    | zero t => cases s <;> rfl
    | finite t m' e' =>
      cases s <;> cases t
      · exact congrArg (fun o => some o.swap) (hfinite e e' m m')
      · rfl
      · rfl
      · exact congrArg some (hfinite e e' m m')

theorem exists_compare (hu : u.isNaN = false) (hv : v.isNaN = false) :
    ∃ o, u.compare v = some o := by
  cases u with
  | notANumber => cases hu
  | infinity s =>
    cases v with
    | notANumber => cases hv
    | infinity t => exact ⟨_, rfl⟩
    | zero t => cases s <;> exact ⟨_, rfl⟩
    | finite t m e => cases s <;> exact ⟨_, rfl⟩
  | zero s =>
    cases v with
    | notANumber => cases hv
    | infinity t => cases t <;> exact ⟨_, rfl⟩
    | zero t => exact ⟨_, rfl⟩
    | finite t m e => cases t <;> exact ⟨_, rfl⟩
  | finite s m e =>
    cases v with
    | notANumber => cases hv
    | infinity t => cases t <;> exact ⟨_, rfl⟩
    | zero t => cases s <;> exact ⟨_, rfl⟩
    | finite t m' e' => cases s <;> cases t <;> exact ⟨_, rfl⟩

end

variable {a b : Float}

theorem lt_iff : a < b ↔ a.toModel.unpack.compare b.toModel.unpack = some .lt := by
  show a.lt b = true ↔ _
  rw [Float.lt, decide_eq_true_iff]
  show a.toModel.lt b.toModel = true ↔ _
  rw [Float.Model.lt, UnpackedFloat.lt, beq_iff_eq]

theorem le_iff : a ≤ b ↔
    ∃ o, a.toModel.unpack.compare b.toModel.unpack = some o ∧ o.isLE = true := by
  show a.le b = true ↔ _
  rw [Float.le, decide_eq_true_iff]
  show a.toModel.le b.toModel = true ↔ _
  rw [Float.Model.le, UnpackedFloat.le, Option.any_eq_true]

/-- Of two numbers one is at most the other. -/
theorem le_of_not_lt (ha : a.isNaN = false) (hb : b.isNaN = false) (h : ¬ a < b) : b ≤ a := by
  obtain ⟨o, ho⟩ := exists_compare ha hb
  rw [le_iff, compare_swap, ho]
  refine ⟨o.swap, rfl, ?_⟩
  cases o with
  | lt => exact absurd (lt_iff.2 ho) h
  | eq => rfl
  | gt => rfl

end FloatOrder

end LambdaDiagram
