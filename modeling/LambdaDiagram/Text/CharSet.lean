/-!
Sets of characters given by ranges of code points. A set is written down as the ascending code
points at which membership changes, starting outside; a character belongs to it when an odd number
of changes lies at or below it.
-/

namespace LambdaDiagram.Text

/-- A set of characters, as the ascending code points at which membership changes. -/
structure CharSet where
  /-- The set that starts outside and changes at each of these code points. -/
  ofChanges ::
  changes : List Nat
deriving DecidableEq, Repr

namespace CharSet

/-- A character belongs to a set when an odd number of changes lies at or below it. -/
def contains (s : CharSet) (c : Char) : Bool :=
  (s.changes.takeWhile (· ≤ c.toNat)).length % 2 = 1

end CharSet

end LambdaDiagram.Text
