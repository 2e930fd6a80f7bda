/-!
Numbers to compute a drawing with. Everything from the plane to the picture is written for any
such numbers, so that it runs on floating-point numbers and can be reasoned about on exact ones.
Floating-point numbers may be infinite or no number at all: each operation here says what it does
with a value that compares with nothing.
-/

namespace LambdaDiagram

/-- Numbers with the operations that a drawing is computed with. -/
class Scalar (S : Type) extends Add S, Sub S, Mul S, Div S, Neg S, LT S, LE S, OfScientific S where
  decidableLT : DecidableLT S
  decidableLE : DecidableLE S
  /-- Half the turn, in radians. -/
  pi : S
  /-- The gap between one and the next greater floating-point number. -/
  epsilon : S
  sin : S → S
  cos : S → S
  abs : S → S
  /-- The length of the third side of a right-angled triangle. -/
  hypot : S → S → S
  /-- Whether a number is neither infinite nor undefined. -/
  isFinite : S → Bool

instance Scalar.instDecidableLT {S : Type} [Scalar S] : DecidableLT S := Scalar.decidableLT

instance Scalar.instDecidableLE {S : Type} [Scalar S] : DecidableLE S := Scalar.decidableLE

namespace Scalar

variable {S : Type} [Scalar S]

/-- A count as a number. -/
def ofNat (n : Nat) : S := OfScientific.ofScientific n false 0

/-- The larger of two numbers; of an undefined one and a number, the number. -/
def larger (a b : S) : S :=
  if a ≤ a then if a < b then b else a else b

/-- The smaller of two numbers; of an undefined one and a number, the number. -/
def smaller (a b : S) : S :=
  if a ≤ a then if b < a then b else a else b

/-- The number between two bounds that is nearest to a number; an undefined one stays as it is. -/
def clamp (low high a : S) : S :=
  if a < low then low else if high < a then high else a

/-- Two numbers are the same when neither is less; an undefined one is not even the same as
itself. -/
def same (a b : S) : Bool := decide (a ≤ b) && decide (b ≤ a)

/-- The sum of some numbers, added from left to right. -/
def sum (as : List S) : S := as.foldl (· + ·) 0.0

/-- The largest of some numbers and zero. -/
def largest (as : List S) : S := as.foldl larger 0.0

end Scalar

end LambdaDiagram
