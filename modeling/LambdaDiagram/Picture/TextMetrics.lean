import LambdaDiagram.Plane.Vec
import LambdaDiagram.Text.Columns

/-!
Where to put a label so that it is centered on a point.
-/

namespace LambdaDiagram

/-- The measures of a fixed-width face. -/
structure TextMetrics (S : Type) where
  /-- The width of a column. -/
  charWidth : S
  /-- How far the baseline lies below the middle of a line. -/
  baselineOffset : S
deriving Repr

namespace TextMetrics

variable {S : Type} [Scalar S]

/-- The face that labels are set in. -/
def standard : TextMetrics S where
  charWidth := 7.0
  baselineOffset := 4.0

/-- The width of a text. -/
def width (m : TextMetrics S) (text : String) : S :=
  Scalar.ofNat (Text.columns text.toList) * m.charWidth

/-- Where a text starts that is centered on a point. -/
def origin (m : TextMetrics S) (center : Vec S) (text : String) : Vec S :=
  ⟨center.x - m.width text / 2.0, center.y + m.baselineOffset⟩

end TextMetrics

end LambdaDiagram
