/-!
Decimal text of floating-point numbers. A number is taken apart into the integer and the power of
two that it is the product of; what is written is the exact product, rounded once.
-/

namespace LambdaDiagram

/-- What a floating-point number stands for. -/
inductive Magnitude where
  | undefined
  | infinite
  /-- An integer times a power of two. -/
  | finite (integer : Nat) (exponent : Int)
deriving DecidableEq, Repr

namespace Magnitude

/-- The sign bit of a floating-point number. -/
def isNegative (x : Float) : Bool := x.toBits.toNat / Nat.pow 2 63 = 1

/-- The absolute value of a floating-point number. -/
def ofFloat (x : Float) : Magnitude :=
  let bits : Nat := x.toBits.toNat
  let biased : Nat := bits / Nat.pow 2 52 % Nat.pow 2 11
  let fraction : Nat := bits % Nat.pow 2 52
  if biased = Nat.pow 2 11 - 1 then if fraction = 0 then infinite else undefined
  else if biased = 0 then finite fraction (-1074)
  else finite (fraction + Nat.pow 2 52) ((biased : Int) - 1075)

end Magnitude

namespace Decimal

/-- A quotient rounded to the nearest integer; one in the middle goes to the even neighbour. -/
def roundDiv (numerator denominator : Nat) : Nat :=
  let q := numerator / denominator
  let r := numerator % denominator
  if 2 * r < denominator then q
  else if denominator < 2 * r then q + 1
  else if q % 2 = 0 then q
  else q + 1

/-- A rounded quotient is within half a unit of the exact one. -/
theorem roundDiv_near {n d : Nat} (h : 0 < d) :
    2 * n ≤ (2 * roundDiv n d + 1) * d ∧ 2 * roundDiv n d * d ≤ 2 * n + d := by
  have hdiv := Nat.div_add_mod n d
  have hlt := Nat.mod_lt n h
  have hmul : d * (n / d) = n / d * d := Nat.mul_comm ..
  simp only [roundDiv]
  split
  · constructor <;> grind
  · split
    · constructor <;> grind
    · split <;> constructor <;> grind

/-- A quotient in the middle between two integers goes to the even one. -/
theorem roundDiv_mod_two {n d : Nat} (h : 2 * (n % d) = d) : roundDiv n d % 2 = 0 := by
  simp only [roundDiv, h, Nat.lt_irrefl, if_false]
  split
  · assumption
  · omega

/-- An integer times a power of two in units of a power of ten, rounded. -/
def roundAt (integer : Nat) (exponent places : Int) : Nat :=
  roundDiv (integer * Nat.pow 2 exponent.toNat * Nat.pow 10 places.toNat)
    (Nat.pow 2 (-exponent).toNat * Nat.pow 10 (-places).toNat)

/-- The digits of an integer, with zeros in front up to a width. -/
def padded (width n : Nat) : List Char :=
  let digits := Nat.toDigits 10 n
  List.replicate (width - digits.length) '0' ++ digits

/-- An integer with its last digits behind a point. -/
def pointed (places n : Nat) : List Char :=
  Nat.toDigits 10 (n / Nat.pow 10 places) ++ '.' :: padded places (n % Nat.pow 10 places)

/-- The text of a floating-point number with a fixed number of places. The sign of a zero is kept,
also of one that only rounding has made. -/
def fixed (places : Nat) (x : Float) : String :=
  match Magnitude.ofFloat x with
  | .undefined => "NaN"
  | .infinite => if Magnitude.isNegative x then "-inf" else "inf"
  | .finite integer exponent =>
    let digits := pointed places (roundAt integer exponent places)
    String.ofList (if Magnitude.isNegative x then '-' :: digits else digits)

example : fixed 2 0.125 = "0.12" := by decide +kernel

example : fixed 2 0.375 = "0.38" := by decide +kernel

example : fixed 2 (-0.001) = "-0.00" := by decide +kernel

example : fixed 1 (-1.0 / 0.0) = "-inf" := by decide +kernel

end Decimal

end LambdaDiagram
