import LambdaDiagram.Number.Scalar

/-!
Points and vectors of the plane. The first coordinate grows to the right and the second downwards,
so angles grow clockwise.
-/

namespace LambdaDiagram

/-- A point of the plane, or the vector from the origin to it. -/
structure Vec (S : Type) where
  x : S
  y : S
deriving Repr

namespace Vec

variable {S : Type} [Scalar S]

/-- The origin. -/
def zero : Vec S := ⟨0.0, 0.0⟩

instance : Inhabited (Vec S) := ⟨zero⟩

instance : Add (Vec S) := ⟨fun u v => ⟨u.x + v.x, u.y + v.y⟩⟩

instance : Sub (Vec S) := ⟨fun u v => ⟨u.x - v.x, u.y - v.y⟩⟩

instance : Neg (Vec S) := ⟨fun v => ⟨-v.x, -v.y⟩⟩

instance : HMul (Vec S) S (Vec S) := ⟨fun v k => ⟨v.x * k, v.y * k⟩⟩

/-- The point at a distance and an angle from a center. -/
def ofPolar (radius angle : S) (center : Vec S) : Vec S :=
  ⟨center.x + radius * Scalar.cos angle, center.y + radius * Scalar.sin angle⟩

/-- The distance from the origin. -/
def length (v : Vec S) : S := Scalar.hypot v.x v.y

/-- The distance between two points. -/
def dist (u v : Vec S) : S := (v - u).length

/-- The square of the distance between two points. -/
def distSq (u v : Vec S) : S :=
  let d := v - u
  d.x * d.x + d.y * d.y

/-- The inner product. -/
def dot (u v : Vec S) : S := u.x * v.x + u.y * v.y

/-- The vector of length one in the same direction. A vector without a direction, because it is too
short or too long to measure, gives the zero vector. -/
def unit (v : Vec S) : Vec S :=
  let len := v.length
  if Scalar.epsilon < len ∧ Scalar.isFinite len = true then ⟨v.x / len, v.y / len⟩ else zero

/-- The vector after a quarter turn. -/
def perp (v : Vec S) : Vec S := ⟨v.y, -v.x⟩

/-- The point that is a share of the way from one point to another. -/
def lerp (u v : Vec S) (t : S) : Vec S := u + (v - u) * t

/-- Whether a point can be placed: neither coordinate is infinite or undefined. -/
def isFinite (v : Vec S) : Bool := Scalar.isFinite v.x && Scalar.isFinite v.y

/-- Two points are the same when both coordinates are. -/
def same (u v : Vec S) : Bool := Scalar.same u.x v.x && Scalar.same u.y v.y

/-- The point of the segment from `a` to `b` that is nearest to `p`; `a` if the segment is too
short to have a direction. -/
def nearestPoint (a b p : Vec S) : Vec S :=
  let ab := b - a
  let lenSq := ab.dot ab
  if lenSq ≤ Scalar.epsilon then a
  else a + ab * Scalar.clamp 0.0 1.0 ((p - a).dot ab / lenSq)

end Vec

end LambdaDiagram
