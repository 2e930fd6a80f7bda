import LambdaDiagram.Plane.Shape

/-!
Pictures. A picture is the list of the primitives that it is painted with, from the back to the
front; each says which kind of node it belongs to, so that it can be styled.
-/

namespace LambdaDiagram

/-- The kind of node that a primitive belongs to. -/
inductive Role where
  | group
  | input
  | merge
  | output
deriving DecidableEq, Repr

/-- The name that a kind of node is styled by. -/
def Role.className : Role → String
  | group => "group"
  | input => "input"
  | merge => "merge"
  | output => "output"

/-- What a picture is painted with. -/
inductive Primitive (S : Type) where
  | strokeCircle (role : Role) (circle : Circle S)
  | fillCircle (role : Role) (circle : Circle S)
  | line (role : Role) (line : Line S)
  | curve (role : Role) (curve : Quadratic S)
  | label (role : Role) (center : Vec S) (text : String)
deriving Repr

/-- Primitives from the back to the front. -/
abbrev Picture (S : Type) := List (Primitive S)

end LambdaDiagram
