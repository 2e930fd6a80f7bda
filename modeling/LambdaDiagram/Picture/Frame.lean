import LambdaDiagram.Picture.Primitive

/-!
The frame of a picture: the smallest rectangle around its circles, lines and curves, with some
padding. Labels count for nothing, and a curve counts by its ends and its middle.
-/

namespace LambdaDiagram

/-- A rectangle between two corners. -/
structure Box (S : Type) where
  low : Vec S
  high : Vec S
deriving Repr

/-- A rectangle by its corner and its size. -/
structure Frame (S : Type) where
  x : S
  y : S
  width : S
  height : S
deriving Repr

variable {S : Type} [Scalar S]

namespace Box

/-- The square around a point that reaches to a distance. -/
def around (p : Vec S) (extent : S) : Box S :=
  ⟨⟨p.x - extent, p.y - extent⟩, ⟨p.x + extent, p.y + extent⟩⟩

/-- The least box around two. -/
def join (a b : Box S) : Box S :=
  ⟨⟨Scalar.smaller a.low.x b.low.x, Scalar.smaller a.low.y b.low.y⟩,
    ⟨Scalar.larger a.high.x b.high.x, Scalar.larger a.high.y b.high.y⟩⟩

/-- Widen a box by the square around a point. A point that cannot be placed and a distance that is
undefined are left out. -/
def include? (box : Option (Box S)) (p : Vec S) (extent : S) : Option (Box S) :=
  if p.isFinite = true ∧ extent ≤ extent then
    match box with
    | none => some (around p extent)
    | some box => some (box.join (around p extent))
  else box

end Box

/-- The points that a primitive counts by, each with the distance that it reaches to. -/
def Primitive.extents : Primitive S → List (Vec S × S)
  | .strokeCircle _ c => [(c.center, c.radius)]
  | .fillCircle _ c => [(c.center, c.radius)]
  | .line _ l => [(l.start, 0.0), (l.stop, 0.0)]
  | .curve _ q => [(q.start, 0.0), (q.pointAt 0.5, 0.0), (q.stop, 0.0)]
  | .label _ _ _ => []

namespace Frame

/-- The room between the picture and its frame. -/
def padding : S := 20.0

/-- The box around a picture, if anything in it counts. -/
def box? (picture : Picture S) : Option (Box S) :=
  (picture.flatMap Primitive.extents).foldl (fun box (p, extent) => Box.include? box p extent) none

/-- The frame of a picture. Circles of negative radius may turn the box inside out; such a box is
taken for the origin, like that of a picture in which nothing counts. -/
def ofPicture (picture : Picture S) : Frame S :=
  let origin : Box S := ⟨.zero, .zero⟩
  let box := match box? picture with
    | none => origin
    | some box => if box.low.x ≤ box.high.x then box else origin
  { x := box.low.x - padding
    y := box.low.y - padding
    width := box.high.x - box.low.x + padding * 2.0
    height := box.high.y - box.low.y + padding * 2.0 }

end Frame

end LambdaDiagram
