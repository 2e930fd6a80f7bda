import LambdaDiagram.Diagram.Graph
import LambdaDiagram.Layout.Engine
import LambdaDiagram.Plane.Shape

/-!
Where merges go. A merge eases towards the point that is nearest to its argument on the line from
its function to its consumer, and steps aside from that point to keep clear of the other merges of
its group.
-/

namespace LambdaDiagram

variable {S : Type} [Scalar S]

namespace Engine

variable (e : Engine S)

/-- Step aside from a point if that is farther from the other merges of the group; the first of two
equally good ways wins. -/
def stepAside (g : Graph S) (group : GroupId) (id : MergeId) (center side : Vec S) : Vec S :=
  let others := (g.group group).merges.filter (· ≠ id)
  let spread (p : Vec S) : S := Scalar.sum (others.map fun m => p.distSq (g.merge m).position)
  let better (best candidate : Vec S) : Vec S :=
    if spread best < spread candidate then candidate else best
  better (better center (center + side * e.nudge)) (center - side * e.nudge)

/-- The point that a merge eases towards. A merge without an argument goes halfway from its function
to its consumer; one without a function takes its argument for the function; one without either, or
without a consumer, goes nowhere. -/
def target? (g : Graph S) (group : GroupId) (id : MergeId) : Option (Vec S) := do
  let merge := g.merge id
  let (start, argument) ← match merge.function, merge.argument with
    | some function, argument => some (function, argument)
    | none, some argument => some (argument, none)
    | none, none => none
  let stop ← merge.consumer
  let startPosition := g.sourcePosition start
  let stopPosition := g.sinkPosition stop
  match argument with
  | none => return startPosition.lerp stopPosition 0.5
  | some argument =>
    let direction := (Line.mk startPosition stopPosition).direction
    let startLimit := startPosition + direction * (g.sourceRadius start + merge.radius)
    let stopLimit := stopPosition - direction * (g.sinkRadius stop + merge.radius)
    let center := (Line.mk startLimit stopLimit).nearestPoint (g.sourcePosition argument)
    if e.disambiguate then return e.stepAside g group id center direction.perp
    else return center

/-- Ease a merge towards its target, if there is one that can be computed. -/
def easeMerge (g : Graph S) (group : GroupId) (id : MergeId) : Graph S :=
  match e.target? g group id with
  | none => g
  | some target =>
    if target.isFinite then
      g.modifyMerge id fun merge => { merge with position := merge.position.lerp target e.ease }
    else g

end Engine

end LambdaDiagram
