import Mathlib
import LambdaDiagram.Number.Hypot

/-!
Adding floating-point numbers. Sums are rounded, so they depend on which numbers are added first, but
not on which number of two comes first. Zero is not neutral, as it turns a negative zero into a
positive one, but adding it again changes nothing more.
-/

namespace LambdaDiagram

namespace FloatAddition

open Float.Model

theorem unpacked_add_comm (spec : Format) (u v : UnpackedFloat) :
    UnpackedFloat.add spec u v = UnpackedFloat.add spec v u := by
  cases u with
  | notANumber => cases v <;> rfl
  | infinity s =>
    cases v with
    | infinity t => cases s <;> cases t <;> rfl
    | notANumber => rfl
    | zero t => rfl
    | finite t m e => rfl
  | zero s =>
    cases v with
    | zero t => cases s <;> cases t <;> rfl
    | notANumber => rfl
    | infinity t => rfl
    | finite t m e => rfl
  | finite s m e =>
    cases v with
    | finite t m' e' =>
      unfold UnpackedFloat.add
      dsimp only
      rw [min_comm, Int.add_comm]
    | notANumber => rfl
    | infinity t => rfl
    | zero t => rfl

theorem add_comm (a b : Float) : a + b = b + a := by
  show Float.ofModel (Float.Model.pack _) = Float.ofModel (Float.Model.pack _)
  rw [unpacked_add_comm]

theorem zero_unpacked_add (spec : Format) (u : UnpackedFloat) :
    UnpackedFloat.add spec (.zero .positive) u = u ∨
      UnpackedFloat.add spec (.zero .positive) u = .zero .positive := by
  cases u with
  | zero t => exact .inr (by cases t <;> rfl)
  | notANumber => exact .inl rfl
  | infinity t => exact .inl rfl
  | finite t m e => exact .inl rfl

/-- Zero changes no number but a negative zero. -/
theorem zero_add_eq (a : Float) : 0.0 + a = a ∨ 0.0 + a = 0.0 := by
  have hzero : (0.0 : Float).toModel.unpack = .zero .positive := rfl
  have hadd : 0.0 + a = .ofModel (.pack (.add .binary64 (.zero .positive) a.toModel.unpack)) := by
    rw [← hzero]
    rfl
  rw [hadd]
  obtain hkept | hlost := zero_unpacked_add .binary64 a.toModel.unpack
  · left
    have hpack : Float.Model.pack a.toModel.unpack = a.toModel := by
      rw [Float.Model.mk.injEq]
      exact congrArg UInt64.ofBitVec (UnpackedFloat.pack_unpack_of_valid a.toModel.valid)
    rw [hkept, hpack]
  · right
    rw [hlost]
    rfl

/-- Zero added again changes nothing more. -/
theorem zero_add_zero_add (a : Float) : 0.0 + (0.0 + a) = 0.0 + a := by
  obtain h | h := zero_add_eq a
  · rw [h, h]
  · rw [h]
    decide +kernel

end FloatAddition

end LambdaDiagram
