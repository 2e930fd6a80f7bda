import LambdaDiagram.Drawing

/-!
Stages: several drawings that are laid out together. Each has a number, issued in order and never
issued again, and they are shown in the order of their numbers.
-/

namespace LambdaDiagram

/-- The number of a drawing on a stage. -/
structure DrawingId where
  index : Nat
deriving DecidableEq, Repr

/-- Drawings with their numbers, the engine that lays them out, and the next number. -/
structure Stage (S : Type) where
  engine : Engine S
  drawings : List (DrawingId × Drawing S)
  next : Nat
deriving Repr

namespace Stage

variable {S : Type} [Scalar S]

/-- A stage without drawings. -/
def empty (e : Engine S) : Stage S := ⟨e, [], 0⟩

/-- Put one more drawing on a stage. -/
def add (s : Stage S) (d : Drawing S) : Stage S × DrawingId :=
  ({ s with drawings := s.drawings ++ [(⟨s.next⟩, d)], next := s.next + 1 }, ⟨s.next⟩)

/-- The drawing of a number. -/
def get? (s : Stage S) (id : DrawingId) : Option (Drawing S) := s.drawings.lookup id

/-- Take a drawing off a stage. -/
def remove (s : Stage S) (id : DrawingId) : Stage S × Option (Drawing S) :=
  ({ s with drawings := s.drawings.eraseP (·.1 = id) }, s.get? id)

/-- The numbers of the drawings, in order. -/
def ids (s : Stage S) : List DrawingId := s.drawings.map (·.1)

/-- Change the drawing of a number. -/
def modify (s : Stage S) (id : DrawingId) (f : Drawing S → Drawing S) : Stage S :=
  { s with drawings := s.drawings.map fun (i, d) => if i = id then (i, f d) else (i, d) }

/-- Give a drawing a new text; also returned is why it cannot be drawn, if so. Without a drawing of
the number there is nothing to return. -/
def setText (s : Stage S) (id : DrawingId) (text : String) :
    Stage S × Option (Option DrawingError) :=
  match s.get? id with
  | none => (s, none)
  | some d =>
    let (d, error) := d.setText text
    (s.modify id fun _ => d, some error)

/-- Lay out every drawing for one tick. -/
def tick (s : Stage S) : Stage S :=
  { s with drawings := s.drawings.map fun (i, d) => (i, d.tick s.engine) }

/-- One frame of an animation: every drawing is laid out for one tick, then all are shown. -/
def frame (s : Stage S) : Stage S × List (DrawingId × Drawing S) := (s.tick, s.tick.drawings)

end Stage

end LambdaDiagram
