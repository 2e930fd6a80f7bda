import LambdaDiagram.Diagram.Flatten
import LambdaDiagram.Diagram.OfChain
import LambdaDiagram.Layout.Tick
import LambdaDiagram.Term.Parser

/-!
Drawings: a text and the graph of the last text that could be drawn. A text that cannot be drawn
leaves the graph and its layout as they were.
-/

namespace LambdaDiagram

/-- Why a text cannot be drawn. -/
inductive DrawingError where
  | unreadable (error : SyntaxError)
  | undrawable (error : InvalidTree)
deriving DecidableEq, Repr

/-- The report of a text that cannot be drawn. -/
def DrawingError.message : DrawingError → String
  | unreadable e => "Syntax error: " ++ e.message
  | undrawable e => "Invalid tree: " ++ e.message

variable {S : Type} [Scalar S]

/-- The graph of a text before any layout. -/
def Graph.ofText? (text : String) : Except DrawingError (Graph S) :=
  match Chain.parse text with
  | .error e => .error (.unreadable e)
  | .ok ts =>
    match Graph.ofChain? ts with
    | .error e => .error (.undrawable e)
    | .ok g => .ok g.flatten

/-- A text, the graph of the last text that could be drawn, and whether the text could not. -/
structure Drawing (S : Type) where
  source : String
  graph : Graph S
  invalid : Bool
deriving Repr

namespace Drawing

/-- A drawing without a text. -/
def empty : Drawing S := ⟨"", .empty, false⟩

instance : Inhabited (Drawing S) := ⟨empty⟩

/-- Give a drawing a new text; also returned is why it cannot be drawn, if so. -/
def setText (d : Drawing S) (text : String) : Drawing S × Option DrawingError :=
  match Graph.ofText? text with
  | .ok g => (⟨text, g, false⟩, none)
  | .error e => (⟨text, d.graph, true⟩, some e)

/-- The drawing of a text. -/
def ofText? (text : String) : Except DrawingError (Drawing S) :=
  match empty.setText text with
  | (d, none) => .ok d
  | (_, some e) => .error e

/-- Lay out a drawing for one tick. -/
def tick (d : Drawing S) (e : Engine S) : Drawing S := { d with graph := e.tick d.graph }

/-- Lay out a drawing for some ticks. -/
def run (d : Drawing S) (e : Engine S) : Nat → Drawing S
  | 0 => d
  | n + 1 => (d.tick e).run e n

end Drawing

end LambdaDiagram
