import LambdaDiagram.Plane.Vec
import Mathlib.Analysis.SpecialFunctions.Trigonometric.Basic

/-!
Numbers with the special values of floating point. A number is a real number, one of two infinities
or undefined, and the special values arise and pass on as they do in floating point: an infinity less
itself is undefined, what is computed from an undefined value is undefined, and an undefined value
compares with nothing. Finite results are rounded, in any way that keeps the order and changes little
of a number, and a result that is larger than any number becomes an infinity. A special value
remembers whether such an overflow is among what it was computed from, or whether it comes from other
special values alone. Of sines, cosines and lengths no more is asked than how large they are.
-/

namespace LambdaDiagram

/-- How finite results come out. -/
structure Arithmetic where
  /-- What an exact result is rounded to, unless that is too large. -/
  round : ℝ → ℝ
  monotone : Monotone round
  round_zero : round 0 = 0
  round_one : round 1 = 1
  accurate : ∀ x, |round x - x| * 2 ^ 52 ≤ |x| + 1
  /-- The largest number. -/
  largest : ℝ
  le_largest : 2 ^ 200 ≤ largest
  /-- What the sine of a number comes out as. -/
  sin : ℝ → ℝ
  abs_sin_le : ∀ x, |sin x| ≤ 1
  /-- What the cosine of a number comes out as. -/
  cos : ℝ → ℝ
  abs_cos_le : ∀ x, |cos x| ≤ 1
  /-- What the length of a vector comes out as, unless that is too large. -/
  hypot : ℝ → ℝ → ℝ
  le_hypot : ∀ x y, max |x| |y| ≤ 2 * hypot x y
  hypot_le : ∀ x y, hypot x y ≤ 2 * max |x| |y|

namespace Arithmetic

theorem max_abs_le_sqrt (x y : ℝ) : max |x| |y| ≤ 2 * √(x * x + y * y) := by
  have hx : |x| ≤ √(x * x + y * y) := Real.abs_le_sqrt (by nlinarith [mul_self_nonneg y])
  have hy : |y| ≤ √(x * x + y * y) := Real.abs_le_sqrt (by nlinarith [mul_self_nonneg x])
  linarith [max_le hx hy, abs_nonneg x]

theorem sqrt_le_max_abs (x y : ℝ) : √(x * x + y * y) ≤ 2 * max |x| |y| := by
  have hmax : 0 ≤ max |x| |y| := le_max_of_le_left (abs_nonneg x)
  have hx : x * x ≤ max |x| |y| * max |x| |y| := abs_le_iff_mul_self_le.1 (by
    rw [abs_of_nonneg hmax]
    exact le_max_left _ _)
  have hy : y * y ≤ max |x| |y| * max |x| |y| := abs_le_iff_mul_self_le.1 (by
    rw [abs_of_nonneg hmax]
    exact le_max_right _ _)
  rw [Real.sqrt_le_iff]
  constructor <;> nlinarith

theorem id_accurate (x : ℝ) : |id x - x| * 2 ^ 52 ≤ |x| + 1 := by
  rw [id, sub_self, abs_zero, zero_mul]
  positivity

theorem two_pow_le_two_zpow : (2 : ℝ) ^ 200 ≤ ((2 : ℚ) ^ (200 : ℤ) : ℚ) := by
  rw [zpow_ofNat, Rat.cast_pow, Rat.cast_ofNat]

/-- The arithmetic in which nothing is rounded. -/
noncomputable def exact : Arithmetic where
  round := id
  monotone := monotone_id
  round_zero := rfl
  round_one := rfl
  accurate := id_accurate
  largest := ((2 : ℚ) ^ (200 : ℤ) : ℚ)
  le_largest := two_pow_le_two_zpow
  sin := Real.sin
  abs_sin_le := Real.abs_sin_le_one
  cos := Real.cos
  abs_cos_le := Real.abs_cos_le_one
  hypot x y := √(x * x + y * y)
  le_hypot := max_abs_le_sqrt
  hypot_le := sqrt_le_max_abs

variable (A : Arithmetic) {x : ℝ}

theorem one_le_round (h : 1 ≤ x) : 1 ≤ A.round x := by
  rw [← A.round_one]
  exact A.monotone h

theorem abs_round_le (x : ℝ) : |A.round x| ≤ 2 * |x| + 1 := by
  have hround := abs_sub_abs_le_abs_sub (A.round x) x
  linarith [A.accurate x, abs_nonneg x]

/-- A result that is far smaller than the largest number does not overflow. -/
theorem abs_round_le_largest (h : |x| ≤ 2 ^ 100) : |A.round x| ≤ A.largest := by
  linarith [A.abs_round_le x, A.le_largest]

end Arithmetic

/-- A real number, an infinity or no number at all. -/
inductive Extended (A : Arithmetic) where
  | undefined (overflowed : Bool)
  | infinite (negative overflowed : Bool)
  | finite (x : ℝ)

namespace Extended

variable {A : Arithmetic}

/-- Whether an overflow is among what a special value was computed from. -/
def overflowed : Extended A → Bool
  | undefined o => o
  | infinite _ o => o
  | finite _ => false

open Classical in
/-- Whether a number other than zero is below it. -/
noncomputable def isNegative (x : ℝ) : Bool := decide (x < 0)

open Classical in
/-- What an exact result comes out as. -/
noncomputable def ofReal (x : ℝ) : Extended A :=
  if |A.round x| ≤ A.largest then finite (A.round x) else infinite (isNegative x) true

noncomputable instance : Add (Extended A) where
  add
    | finite x, finite y => ofReal (x + y)
    | infinite s o, infinite t o' =>
      if s = t then infinite s (o || o') else undefined (o || o')
    | infinite s o, finite _ => infinite s o
    | finite _, infinite t o => infinite t o
    | a, b => undefined (a.overflowed || b.overflowed)

instance : Neg (Extended A) where
  neg
    | finite x => finite (-x)
    | infinite s o => infinite (!s) o
    | undefined o => undefined o

noncomputable instance : Sub (Extended A) := ⟨fun a b => a + -b⟩

open Classical in
noncomputable instance : Mul (Extended A) where
  mul
    | finite x, finite y => ofReal (x * y)
    | infinite s o, infinite t o' => infinite (s != t) (o || o')
    | infinite s o, finite y => if y = 0 then undefined o else infinite (s != isNegative y) o
    | finite x, infinite t o => if x = 0 then undefined o else infinite (isNegative x != t) o
    | a, b => undefined (a.overflowed || b.overflowed)

open Classical in
/-- Zeros have no sign here: what is divided by zero keeps its own. -/
noncomputable instance : Div (Extended A) where
  div
    | finite x, finite y =>
      if y ≠ 0 then ofReal (x * y⁻¹)
      else if x = 0 then undefined false else infinite (isNegative x) false
    | infinite s o, finite y => infinite (s != isNegative y) o
    | finite _, infinite _ _ => finite 0
    | a, b => undefined (a.overflowed || b.overflowed)

instance : LT (Extended A) where
  lt
    | finite x, finite y => x < y
    | infinite s _, infinite t _ => s = true ∧ t = false
    | infinite s _, finite _ => s = true
    | finite _, infinite t _ => t = false
    | _, _ => False

instance : LE (Extended A) where
  le
    | finite x, finite y => x ≤ y
    | infinite s _, infinite t _ => s = true ∨ t = false
    | infinite s _, finite _ => s = true
    | finite _, infinite t _ => t = false
    | _, _ => False

open Classical in
noncomputable instance : Scalar (Extended A) where
  ofScientific mantissa negative exponent :=
    ofReal (Rat.ofScientific mantissa negative exponent : ℚ)
  decidableLT _ _ := Classical.propDecidable _
  decidableLE _ _ := Classical.propDecidable _
  pi := ofReal Real.pi
  epsilon := finite ((2 : ℚ) ^ (-52 : ℤ) : ℚ)
  sin
    | finite x => finite (A.sin x)
    | a => undefined a.overflowed
  cos
    | finite x => finite (A.cos x)
    | a => undefined a.overflowed
  abs
    | finite x => finite |x|
    | infinite _ o => infinite false o
    | undefined o => undefined o
  hypot
    | finite x, finite y =>
      if A.hypot x y ≤ A.largest then finite (A.hypot x y) else infinite false true
    | infinite _ o, b => infinite false (o || b.overflowed)
    | a, infinite _ o => infinite false (a.overflowed || o)
    | a, b => undefined (a.overflowed || b.overflowed)
  isFinite
    | finite _ => true
    | _ => false

/-! ## Finite numbers -/

section

variable {a b : Extended A} {x : ℝ}

theorem isFinite_iff : Scalar.isFinite a = true ↔ ∃ x, a = finite x := by
  cases a with
  | undefined o => exact ⟨nofun, nofun⟩
  | infinite s o => exact ⟨nofun, nofun⟩
  | finite x => exact ⟨fun _ => ⟨x, rfl⟩, fun _ => rfl⟩

theorem ofReal_eq (h : |x| ≤ 2 ^ 100) : (ofReal x : Extended A) = finite (A.round x) :=
  if_pos (A.abs_round_le_largest h)

theorem isFinite_ofReal (h : |x| ≤ 2 ^ 100) :
    Scalar.isFinite (ofReal x : Extended A) = true := by
  rw [ofReal_eq h]
  rfl

/-- A literal is finite unless it is immense. -/
theorem isFinite_literal {mantissa exponent : Nat} {negative : Bool}
    (h : |Rat.ofScientific mantissa negative exponent| ≤ 2 ^ 100) :
    Scalar.isFinite (OfScientific.ofScientific mantissa negative exponent : Extended A) = true := by
  apply isFinite_ofReal
  exact_mod_cast h

theorem isFinite_pi : Scalar.isFinite (Scalar.pi : Extended A) = true := by
  apply isFinite_ofReal
  rw [abs_of_pos Real.pi_pos]
  linarith [Real.pi_le_four]

theorem isFinite_two_pi : Scalar.isFinite (2.0 * Scalar.pi : Extended A) = true := by
  have hliteral : Rat.ofScientific 20 true 1 = 2 := by decide +kernel
  have htwo : (2.0 : Extended A) = finite (A.round 2) := by
    have habs : |((Rat.ofScientific 20 true 1 : ℚ) : ℝ)| ≤ 2 ^ 100 := by
      rw [hliteral]
      norm_num
    have heq : (2.0 : Extended A) = finite (A.round (Rat.ofScientific 20 true 1 : ℚ)) :=
      ofReal_eq habs
    rw [heq, hliteral, Rat.cast_ofNat]
  have hpi : (Scalar.pi : Extended A) = finite (A.round Real.pi) := by
    apply ofReal_eq
    rw [abs_of_pos Real.pi_pos]
    linarith [Real.pi_le_four]
  have habs : |A.round 2 * A.round Real.pi| ≤ 2 ^ 100 := by
    have h₂ := A.abs_round_le 2
    have hp := A.abs_round_le Real.pi
    rw [abs_two] at h₂
    rw [abs_of_pos Real.pi_pos] at hp
    rw [abs_mul]
    nlinarith [Real.pi_le_four, abs_nonneg (A.round 2), abs_nonneg (A.round Real.pi)]
  rw [htwo, hpi]
  exact isFinite_ofReal habs

theorem isFinite_clamp {low high : Extended A} (hlow : Scalar.isFinite low = true)
    (hhigh : Scalar.isFinite high = true) (ha : ∀ o, a ≠ undefined o) :
    Scalar.isFinite (Scalar.clamp low high a) = true := by
  obtain ⟨x, rfl⟩ := isFinite_iff.1 hlow
  obtain ⟨y, rfl⟩ := isFinite_iff.1 hhigh
  unfold Scalar.clamp
  split
  · rfl
  · rename_i hbelow
    split
    · rfl
    · rename_i habove
      cases a with
      | undefined o => exact absurd rfl (ha o)
      | finite z => rfl
      | infinite s o =>
        cases s with
        | false => exact absurd rfl habove
        | true => exact absurd rfl hbelow

/-! ## Numbers that are due to an overflow -/

/-- A number is excused when it is finite, or an overflow is among what it was computed from. -/
def Excused (a : Extended A) : Prop := Scalar.isFinite a = true ∨ a.overflowed = true

theorem Excused.of_isFinite (h : Scalar.isFinite a = true) : a.Excused := .inl h

theorem excused_undefined {o : Bool} : (undefined o : Extended A).Excused ↔ o = true :=
  ⟨fun h => h.resolve_left nofun, .inr⟩

theorem excused_infinite {s o : Bool} : (infinite s o : Extended A).Excused ↔ o = true :=
  ⟨fun h => h.resolve_left nofun, .inr⟩

theorem excused_ofReal (x : ℝ) : (ofReal x : Extended A).Excused := by
  unfold ofReal
  split
  · exact .inl rfl
  · exact .inr rfl

theorem excused_literal (mantissa : Nat) (negative : Bool) (exponent : Nat) :
    (OfScientific.ofScientific mantissa negative exponent : Extended A).Excused :=
  excused_ofReal _

theorem excused_ofNat (n : Nat) : (Scalar.ofNat n : Extended A).Excused := excused_ofReal _

theorem excused_pi : (Scalar.pi : Extended A).Excused := excused_ofReal _

namespace Excused

theorem add (ha : a.Excused) (hb : b.Excused) : (a + b).Excused := by
  cases a with
  | undefined o =>
    obtain rfl := excused_undefined.1 ha
    cases b <;> exact .inr rfl
  | infinite s o =>
    obtain rfl := excused_infinite.1 ha
    cases b with
    | undefined o' => exact .inr rfl
    | infinite t o' =>
      show (if s = t then infinite s true else undefined true : Extended A).Excused
      split <;> exact .inr rfl
    | finite y => exact .inr rfl
  | finite x =>
    cases b with
    | undefined o' => exact .inr (excused_undefined.1 hb)
    | infinite t o' => exact hb
    | finite y => exact excused_ofReal _

theorem neg (ha : a.Excused) : (-a).Excused := by
  cases a with
  | undefined o => exact ha
  | infinite s o => exact excused_infinite.2 (excused_infinite.1 ha)
  | finite x => exact .inl rfl

theorem sub (ha : a.Excused) (hb : b.Excused) : (a - b).Excused := ha.add hb.neg

theorem mul (ha : a.Excused) (hb : b.Excused) : (a * b).Excused := by
  cases a with
  | undefined o =>
    obtain rfl := excused_undefined.1 ha
    cases b <;> exact .inr rfl
  | infinite s o =>
    obtain rfl := excused_infinite.1 ha
    cases b with
    | undefined o' => exact .inr rfl
    | infinite t o' => exact .inr rfl
    | finite y =>
      show (open Classical in if y = 0 then undefined true
        else infinite (s != isNegative y) true : Extended A).Excused
      split <;> exact .inr rfl
  | finite x =>
    cases b with
    | undefined o' => exact .inr (excused_undefined.1 hb)
    | infinite t o' =>
      obtain rfl := excused_infinite.1 hb
      show (open Classical in if x = 0 then undefined true
        else infinite (isNegative x != t) true : Extended A).Excused
      split <;> exact .inr rfl
    | finite y => exact excused_ofReal _

/-- A quotient is excused unless the divisor is zero. -/
theorem div {y : ℝ} (ha : a.Excused) (hy : y ≠ 0) : (a / finite y).Excused := by
  cases a with
  | undefined o => exact .inr (Bool.or_eq_true_iff.2 (.inl (excused_undefined.1 ha)))
  | infinite s o => exact excused_infinite.2 (excused_infinite.1 ha)
  | finite x =>
    have hdiv : (finite x / finite y : Extended A) =
        open Classical in if y ≠ 0 then ofReal (x * y⁻¹)
          else if x = 0 then undefined false else infinite (isNegative x) false := rfl
    rw [hdiv, if_pos hy]
    exact excused_ofReal _

theorem div_of_epsilon_lt (ha : a.Excused) (hb : Scalar.isFinite b = true)
    (hlt : Scalar.epsilon < b) : (a / b).Excused := by
  obtain ⟨y, rfl⟩ := isFinite_iff.1 hb
  have hy : (((2 : ℚ) ^ (-52 : ℤ) : ℚ) : ℝ) < y := hlt
  apply ha.div
  rintro rfl
  exact absurd hy (not_lt.2 (by positivity))

/-- A result of at least one is no divisor to fear, even if it overflows. -/
theorem div_ofReal (ha : a.Excused) (h : 1 ≤ x) : (a / ofReal x).Excused := by
  unfold ofReal
  split
  · apply ha.div
    intro hzero
    have hone := A.one_le_round h
    rw [hzero] at hone
    exact absurd hone (by norm_num)
  · cases a with
    | undefined o => exact .inr (Bool.or_eq_true_iff.2 (.inl (excused_undefined.1 ha)))
    | infinite s o => exact .inr (Bool.or_eq_true_iff.2 (.inl (excused_infinite.1 ha)))
    | finite x => exact .inl rfl

theorem div_literal {mantissa exponent : Nat} {negative : Bool} (ha : a.Excused)
    (h : 1 ≤ Rat.ofScientific mantissa negative exponent) :
    (a / OfScientific.ofScientific mantissa negative exponent).Excused :=
  ha.div_ofReal (by exact_mod_cast h)

theorem div_ofNat (ha : a.Excused) (n : Nat) : (a / Scalar.ofNat (n + 1)).Excused := by
  apply ha.div_literal
  rw [Rat.ofScientific_false_def]
  norm_cast
  omega

theorem sin (ha : a.Excused) : (Scalar.sin a).Excused := by
  cases a with
  | undefined o => exact ha
  | infinite s o => exact excused_undefined.2 (excused_infinite.1 ha)
  | finite x => exact .inl rfl

theorem cos (ha : a.Excused) : (Scalar.cos a).Excused := by
  cases a with
  | undefined o => exact ha
  | infinite s o => exact excused_undefined.2 (excused_infinite.1 ha)
  | finite x => exact .inl rfl

theorem hypot (ha : a.Excused) (hb : b.Excused) : (Scalar.hypot a b).Excused := by
  cases a with
  | undefined o =>
    obtain rfl := excused_undefined.1 ha
    cases b <;> exact .inr rfl
  | infinite s o =>
    obtain rfl := excused_infinite.1 ha
    cases b <;> exact .inr rfl
  | finite x =>
    cases b with
    | undefined o' => exact .inr (excused_undefined.1 hb)
    | infinite t o' => exact .inr (excused_infinite.1 hb)
    | finite y =>
      show (open Classical in if A.hypot x y ≤ A.largest then finite (A.hypot x y)
        else infinite false true : Extended A).Excused
      split
      · exact .inl rfl
      · exact .inr rfl

theorem larger (ha : a.Excused) (hb : b.Excused) : (Scalar.larger a b).Excused := by
  unfold Scalar.larger
  split
  · split
    · exact hb
    · exact ha
  · exact hb

theorem clamp {low high : Extended A} (hlow : low.Excused) (hhigh : high.Excused)
    (ha : a.Excused) : (Scalar.clamp low high a).Excused := by
  unfold Scalar.clamp
  split
  · exact hlow
  · split
    · exact hhigh
    · exact ha

end Excused

/-! ## The undefined value -/

/-- A number is undefined, whatever the reason. -/
def IsUndefined (a : Extended A) : Prop := ∃ o, a = undefined o

namespace IsUndefined

theorem add_left (ha : a.IsUndefined) (b : Extended A) : (a + b).IsUndefined := by
  obtain ⟨o, rfl⟩ := ha
  cases b <;> exact ⟨_, rfl⟩

theorem add_right (hb : b.IsUndefined) (a : Extended A) : (a + b).IsUndefined := by
  obtain ⟨o, rfl⟩ := hb
  cases a <;> exact ⟨_, rfl⟩

theorem neg (ha : a.IsUndefined) : (-a).IsUndefined := by
  obtain ⟨o, rfl⟩ := ha
  exact ⟨o, rfl⟩

theorem sub_left (ha : a.IsUndefined) (b : Extended A) : (a - b).IsUndefined := ha.add_left (-b)

theorem sub_right (hb : b.IsUndefined) (a : Extended A) : (a - b).IsUndefined :=
  hb.neg.add_right a

theorem mul_right (hb : b.IsUndefined) (a : Extended A) : (a * b).IsUndefined := by
  obtain ⟨o, rfl⟩ := hb
  cases a <;> exact ⟨_, rfl⟩

theorem cos (ha : a.IsUndefined) : (Scalar.cos a).IsUndefined := by
  obtain ⟨o, rfl⟩ := ha
  exact ⟨o, rfl⟩

theorem not_lt (hb : b.IsUndefined) (a : Extended A) : ¬ a < b := by
  obtain ⟨o, rfl⟩ := hb
  cases a <;> exact id

end IsUndefined

protected theorem lt_irrefl (a : Extended A) : ¬ a < a := by
  cases a with
  | undefined o => exact id
  | infinite s o =>
    rintro ⟨htrue, hfalse⟩
    exact absurd (htrue.symm.trans hfalse) (by decide)
  | finite x => exact lt_irrefl x

end

end Extended

/-! ## Points -/

namespace Vec

variable {A : Arithmetic} {u v : Vec (Extended A)} {k r a : Extended A}

open Extended

theorem isFinite_iff {S : Type} [Scalar S] {v : Vec S} :
    v.isFinite = true ↔ Scalar.isFinite v.x = true ∧ Scalar.isFinite v.y = true :=
  Bool.and_eq_true_iff

/-- Both coordinates are excused. -/
structure Excused (v : Vec (Extended A)) : Prop where
  x : v.x.Excused
  y : v.y.Excused

theorem Excused.of_isFinite (h : v.isFinite = true) : v.Excused :=
  ⟨.inl (isFinite_iff.1 h).1, .inl (isFinite_iff.1 h).2⟩

theorem excused_zero : (zero : Vec (Extended A)).Excused :=
  ⟨excused_literal 0 true 1, excused_literal 0 true 1⟩

namespace Excused

theorem add (hu : u.Excused) (hv : v.Excused) : (u + v).Excused := ⟨hu.x.add hv.x, hu.y.add hv.y⟩

theorem sub (hu : u.Excused) (hv : v.Excused) : (u - v).Excused := ⟨hu.x.sub hv.x, hu.y.sub hv.y⟩

theorem neg (hu : u.Excused) : (-u).Excused := ⟨hu.x.neg, hu.y.neg⟩

theorem mul (hu : u.Excused) (hk : k.Excused) : (u * k).Excused := ⟨hu.x.mul hk, hu.y.mul hk⟩

theorem lerp (hu : u.Excused) (hv : v.Excused) (hk : k.Excused) : (u.lerp v k).Excused :=
  hu.add ((hv.sub hu).mul hk)

theorem ofPolar (hr : r.Excused) (ha : a.Excused) (hu : u.Excused) :
    (ofPolar r a u).Excused :=
  ⟨hu.x.add (hr.mul ha.cos), hu.y.add (hr.mul ha.sin)⟩

theorem dist (hu : u.Excused) (hv : v.Excused) : (u.dist v).Excused :=
  (hv.sub hu).x.hypot (hv.sub hu).y

/-- A direction is excused, however short its vector is. -/
theorem unit (hu : u.Excused) : u.unit.Excused := by
  unfold Vec.unit
  dsimp only
  split
  · rename_i h
    exact ⟨hu.x.div_of_epsilon_lt h.2 h.1, hu.y.div_of_epsilon_lt h.2 h.1⟩
  · exact excused_zero

end Excused

end Vec

end LambdaDiagram
