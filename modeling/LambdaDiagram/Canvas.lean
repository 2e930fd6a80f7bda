import LambdaDiagram.Drawing
import LambdaDiagram.Picture.Svg

/-!
A drawing that is edited and laid out step by step, and the picture of a text after some ticks.
-/

namespace LambdaDiagram

/-- How many ticks a drawing is laid out for unless another number is asked for. -/
def defaultTicks : Nat := 300

/-- The document of a text laid out for some ticks, or the report of why it cannot be drawn. -/
def renderText (source : String) (ticks : Option Nat) : Except String String :=
  match Drawing.ofText? source with
  | .error e => .error e.message
  | .ok d => .ok (d.run .standard (ticks.getD defaultTicks)).graph.toSvg

/-- A drawing laid out by the standard engine. -/
structure Canvas where
  drawing : Drawing Float
deriving Inhabited

namespace Canvas

/-- A canvas without a text. -/
def empty : Canvas := ⟨.empty⟩

/-- Give the drawing a new text; also returned is the report of why it cannot be drawn, if so. -/
def setText (c : Canvas) (text : String) : Canvas × Option String :=
  let (d, error) := c.drawing.setText text
  (⟨d⟩, error.map (·.message))

/-- Whether the last text could not be drawn. -/
def isInvalid (c : Canvas) : Bool := c.drawing.invalid

/-- Lay out the drawing for one tick. -/
def tick (c : Canvas) : Canvas := ⟨c.drawing.tick .standard⟩

/-- The document of the drawing. -/
def toSvg (c : Canvas) : String := c.drawing.graph.toSvg

end Canvas

end LambdaDiagram
