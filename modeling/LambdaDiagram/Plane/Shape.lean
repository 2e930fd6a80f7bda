import LambdaDiagram.Plane.Vec

/-!
The shapes that a drawing is made of: circles, lines and quadratic curves.
-/

namespace LambdaDiagram

/-- A circle by its center and its radius. -/
structure Circle (S : Type) where
  center : Vec S
  radius : S
deriving Repr

/-- A segment with a direction. -/
structure Line (S : Type) where
  start : Vec S
  stop : Vec S
deriving Repr

/-- A quadratic curve: it leaves its start towards the control point and reaches its end from
there. -/
structure Quadratic (S : Type) where
  start : Vec S
  control : Vec S
  stop : Vec S
deriving Repr

variable {S : Type} [Scalar S]

/-- Two circles overlap when their centers are closer than their radii together. -/
def Circle.overlaps (c d : Circle S) : Bool := c.center.dist d.center < c.radius + d.radius

/-- The vector of length one from the start of a line towards its end. -/
def Line.direction (l : Line S) : Vec S := (l.stop - l.start).unit

/-- The point of a line that is nearest to a point. -/
def Line.nearestPoint (l : Line S) (p : Vec S) : Vec S := Vec.nearestPoint l.start l.stop p

/-- The point of a curve at a parameter between zero and one. -/
def Quadratic.pointAt (q : Quadratic S) (t : S) : Vec S :=
  (q.start.lerp q.control t).lerp (q.control.lerp q.stop t) t

end LambdaDiagram
