import LambdaDiagram.Number.Scalar

/-!
Reading numbers that someone typed: counts and decimal numbers. A sign is allowed in front of
either (only a plus in front of a count), blanks and separators are not.
-/

namespace LambdaDiagram

namespace Numeral

/-- The value of a decimal digit. -/
def digit? (c : Char) : Option Nat :=
  if c.isDigit then some (c.toNat - '0'.toNat) else none

/-- The number that some digits write, unless there are none or one is no digit. -/
def digits? : List Char → Option Nat
  | [] => none
  | c :: cs => (c :: cs).foldlM (fun n d => (digit? d).map (10 * n + ·)) 0

/-- The greatest count that can be typed. -/
def maxCount : Nat := Nat.pow 2 64 - 1

/-- The count that a text writes. -/
def count? (s : String) : Option Nat :=
  let cs := match s.toList with
    | '+' :: cs => cs
    | cs => cs
  (digits? cs).filter (· ≤ maxCount)

/-- The sign in front of a text, as whether it is a minus, and the text after it. -/
def splitSign : List Char → Bool × List Char
  | '-' :: cs => (true, cs)
  | '+' :: cs => (false, cs)
  | cs => (false, cs)

/-- The exponent that ends a number: none at all, or a letter and an integer. -/
def exponent? : List Char → Option Int
  | [] => some 0
  | c :: cs =>
    if c = 'e' ∨ c = 'E' then
      let (negative, ds) := splitSign cs
      (digits? ds).map fun n => if negative then -n else n
    else none

/-- The digits around the point of a number, and what follows them. -/
def splitDecimal (cs : List Char) : List Char × List Char × List Char :=
  match cs.dropWhile Char.isDigit with
  | '.' :: rest =>
    (cs.takeWhile Char.isDigit, rest.takeWhile Char.isDigit, rest.dropWhile Char.isDigit)
  | rest => (cs.takeWhile Char.isDigit, [], rest)

/-- An integer times a power of ten as the nearest floating-point number. Powers that are out of
range whatever the digits are not worked out. -/
def scientific (integer : Nat) (exponent : Int) : Float :=
  let digits : Int := (Nat.toDigits 10 integer).length
  if integer = 0 ∨ digits + exponent < -400 then 0.0
  else if 400 < digits + exponent then 1.0 / 0.0
  else OfScientific.ofScientific integer (exponent < 0) exponent.natAbs

/-- The finite number that a text writes: digits with at most one point among or beside them, and
perhaps an exponent. -/
def number? (s : String) : Option Float := do
  let (negative, cs) := splitSign s.toList
  let (whole, fraction, rest) := splitDecimal cs
  let integer ← digits? (whole ++ fraction)
  let exponent ← exponent? rest
  let x := scientific integer (exponent - fraction.length)
  if x.isFinite then some (if negative then -x else x) else none

end Numeral

end LambdaDiagram
