import LambdaDiagram.Number.Scalar

/-!
The settings of the layout engine.
-/

namespace LambdaDiagram

/-- How a drawing is laid out. -/
structure Engine (S : Type) where
  /-- The least radius of a group. -/
  defaultRadius : S
  /-- The room between a group's boundary and what lies in it, and between sub-groups. -/
  margin : S
  /-- The radius of an input that hosts nothing. -/
  inputRadius : S
  /-- The room around a group that an input hosts. -/
  inputPadding : S
  /-- How far an input turns in one tick, in radians. -/
  angleStep : S
  /-- The share of its way that a merge moves in one tick. -/
  ease : S
  /-- The share of their overlap by which two sub-groups part in one tick. -/
  separationEase : S
  /-- How far a merge steps aside to keep clear of others. -/
  nudge : S
  /-- Whether merges step aside at all. -/
  disambiguate : Bool
deriving Repr

namespace Engine

variable {S : Type} [Scalar S]

/-- The settings that a drawing has unless others are asked for. -/
def standard : Engine S where
  defaultRadius := 25.0
  margin := 10.0
  inputRadius := 10.0
  inputPadding := 10.0
  angleStep := 0.01
  ease := 0.2
  separationEase := 0.2
  nudge := 1.0
  disambiguate := true

instance : Inhabited (Engine S) := ⟨standard⟩

def withDisambiguation (e : Engine S) (enabled : Bool) : Engine S :=
  { e with disambiguate := enabled }

/-- Set the share of its way that a merge moves, which lies between zero and one. -/
def withEase (e : Engine S) (ease : S) : Engine S :=
  { e with ease := Scalar.clamp 0.0 1.0 ease }

/-- Set how far an input turns; the sign does not count. -/
def withAngleStep (e : Engine S) (step : S) : Engine S :=
  { e with angleStep := Scalar.abs step }

end Engine

end LambdaDiagram
