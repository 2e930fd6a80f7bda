import LambdaDiagram.Number.Scalar

/-!
The hypotenuse of a right-angled triangle in floating-point numbers, and with it floating-point
numbers as scalars. Squares may be out of range although the hypotenuse is not, so very large and
very small sides are scaled by a power of two first.
-/

namespace LambdaDiagram

namespace Hypot

/-- Two to the power of 600. -/
def huge : Float := Float.ofBits 0x6570000000000000

/-- Two to the power of -600. -/
def tiny : Float := Float.ofBits 0x1a70000000000000

/-- Sides above this bound, two to the power of 511, are scaled down. -/
def largeBound : Float := Float.ofBits 0x5fe0000000000000

/-- Sides below this bound, two to the power of -459, are scaled up. -/
def smallBound : Float := Float.ofBits 0x2340000000000000

/-- A side below this share of the other, two to the power of -54, is lost in rounding. -/
def negligible : Float := Float.ofBits 0x3c90000000000000

/-- The hypotenuse over a longer side `a` and a shorter one `b` whose squares are in range. One
step of correction takes out the error that the square root leaves. -/
def core (a b : Float) : Float :=
  let h := (a * a + b * b).sqrt
  if h ≤ 2.0 * b then
    let d := h - b
    let t := a * (2.0 * d - a)
    let u := (d - 2.0 * (a - b)) * d
    h - (t + u) / (2.0 * h)
  else
    let d := h - a
    let t := 2.0 * d * (a - 2.0 * b)
    let u := (4.0 * d - b) * b + d * d
    h - (t + u) / (2.0 * h)

/-- The hypotenuse over a longer side `a` and a shorter one `b`. -/
def ordered (a b : Float) : Float :=
  if largeBound < a then
    if b ≤ a * negligible then a + b else core (a * tiny) (b * tiny) * huge
  else if b < smallBound then
    if b ≤ a * negligible then a + b else core (a * huge) (b * huge) * tiny
  else if b ≤ a * negligible then a + b
  else core a b

end Hypot

/-- The length of the third side of a right-angled triangle: infinite when a side is, whatever the
other one. -/
def hypotenuse (x y : Float) : Float :=
  let a := x.abs
  let b := y.abs
  if a.isInf then a
  else if b.isInf then b
  else if a < b then Hypot.ordered b a
  else Hypot.ordered a b

instance : Scalar Float where
  decidableLT := inferInstance
  decidableLE := inferInstance
  pi := 3.141592653589793
  epsilon := 2.220446049250313e-16
  sin := Float.sin
  cos := Float.cos
  abs := Float.abs
  hypot := hypotenuse
  isFinite := Float.isFinite

end LambdaDiagram
