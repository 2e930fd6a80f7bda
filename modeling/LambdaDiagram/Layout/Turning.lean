import LambdaDiagram.Diagram.Motion
import LambdaDiagram.Layout.Engine

/-!
How inputs turn. Each input of a group tries a step back and then a step forward along the upper
half of the boundary, and takes the first that brings it farther from its uses and from the other
inputs.
-/

namespace LambdaDiagram

variable {S : Type} [Scalar S]

namespace Graph

/-- How far a point keeps from the uses of an input, which has a number among some inputs, and from
the inputs beside it: the squared distances to all of them, less the radii of the inputs. -/
def clearance (g : Graph S) (siblings : List InputId) (number : Nat) (own : InputId)
    (p : Vec S) : S :=
  let usage := (g.input own).usages.map fun sink => p.distSq (g.sinkPosition sink)
  let spread := (siblings.eraseIdx number).map fun id =>
    p.distSq (g.input id).position - (g.input id).radius
  Scalar.sum usage + Scalar.sum spread

end Graph

namespace Engine

variable (e : Engine S)

/-- The angle that an input of a group turns to: a step back if that scores more, else a step
forward if that does, else none; on the upper half of the boundary in any case. -/
def nextAngle (g : Graph S) (group : GroupId) (number : Nat) (own : InputId) : S :=
  let center := (g.group group).position
  let radius := (g.group group).radius
  let score (a : S) : S :=
    g.clearance (g.group group).inputs number own (.ofPolar radius a center)
  let angle := (g.input own).angle
  let smaller := angle - e.angleStep
  let bigger := angle + e.angleStep
  let next :=
    if score angle < score smaller ∧ Scalar.pi < angle then smaller
    else if score angle < score bigger ∧ angle < 2.0 * Scalar.pi then bigger
    else angle
  Scalar.clamp Scalar.pi (2.0 * Scalar.pi) next

/-- Turn an input of a group, without the group that it hosts; also returned is how far the input
has moved. -/
def turn (g : Graph S) (group : GroupId) (number : Nat) (id : InputId) : Graph S × Vec S :=
  let angle := e.nextAngle g group number id
  let before := (g.input id).position
  let after := .ofPolar (g.group group).radius angle (g.group group).position
  let g := g.modifyInput id fun input => { input with angle := angle }
  (g.placeInput after id, after - before)

/-- Turn the inputs of a group one after the other, each with the group that it hosts. -/
def turnInputs (g : Graph S) (group : GroupId) (number : Nat) : Anchors → Graph S
  | .nil => g
  | .bare id rest => turnInputs (e.turn g group number id).1 group (number + 1) rest
  | .hosting id hosted rest =>
    let (g, moved) := e.turn g group number id
    turnInputs (hosted.move g moved) group (number + 1) rest

end Engine

end LambdaDiagram
