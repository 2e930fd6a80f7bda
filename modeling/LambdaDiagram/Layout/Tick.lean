import LambdaDiagram.Layout.Spacing
import LambdaDiagram.Layout.Turning
import LambdaDiagram.Layout.Easing

/-!
One tick of the layout. A group is laid out after the groups that its inputs host and after its
sub-groups, so that sizes reach the root within a tick.
-/

namespace LambdaDiagram

variable {S : Type} [Scalar S]

/-- Write down the radius of an input. -/
def Graph.resizeInput (g : Graph S) (radius : S) (id : InputId) : Graph S :=
  g.modifyInput id fun input => { input with radius := radius }

namespace Engine

variable (e : Engine S)

/-- What a group does once everything in it is laid out: its sub-groups part, it takes its size, its
inputs turn, its output and its merges find their places. -/
def settle (g : Graph S) (id : GroupId) (anchors : Anchors) (subgroups : Nests)
    (largestInput : S) : Graph S :=
  let g := e.separate g 0 subgroups.toList
  let g := e.resize g id largestInput
  let g := (e.turnInputs g id 0 anchors).lowerOutput id
  (g.group id).merges.foldl (fun g m => e.easeMerge g id m) g

mutual

/-- Lay out a group for one tick. -/
def tickNest (g : Graph S) : Nest → Graph S
  | .group id anchors subgroups =>
    let (g, largestInput) := tickAnchors g 0.0 anchors
    e.settle (tickNests g subgroups) id anchors subgroups largestInput

/-- Size inputs by the groups that they host, once those are laid out; also returned is the largest
radius, no less than the one given. -/
def tickAnchors (g : Graph S) (largest : S) : Anchors → Graph S × S
  | .nil => (g, largest)
  | .bare id rest =>
    let radius := e.inputRadius
    tickAnchors (g.resizeInput radius id) (Scalar.larger largest radius) rest
  | .hosting id hosted rest =>
    let g := tickNest g hosted
    let radius := (g.group hosted.id).outerRadius + e.inputPadding
    tickAnchors (g.resizeInput radius id) (Scalar.larger largest radius) rest

/-- Lay out groups side by side, in order. -/
def tickNests (g : Graph S) : Nests → Graph S
  | .nil => g
  | .cons n rest => tickNests (tickNest g n) rest

end

/-- Lay out a graph for one tick. -/
def tick (g : Graph S) : Graph S := e.tickNest g (g.nest Graph.root)

/-- Lay out a graph for one tick; also returned is the outer radius that the root comes out with. -/
def update (g : Graph S) : Graph S × S :=
  let g := e.tick g
  (g, (g.group Graph.root).outerRadius)

/-- Lay out a graph for some ticks. -/
def run (g : Graph S) : Nat → Graph S
  | 0 => g
  | ticks + 1 => run (e.tick g) ticks

end Engine

end LambdaDiagram
