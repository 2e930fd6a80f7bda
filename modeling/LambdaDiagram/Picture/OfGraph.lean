import LambdaDiagram.Diagram.Nest
import LambdaDiagram.Picture.Primitive

/-!
The picture of a graph. A group shows its boundary, its output, its sub-groups, its merges and its
inputs, in this order; an input shows the group that it hosts, or else its name.
-/

namespace LambdaDiagram

variable {S : Type} [Scalar S]

namespace Graph

/-- The two circles of a group's boundary. -/
def boundaryPicture (g : Graph S) (id : GroupId) : Picture S :=
  let group := g.group id
  [.strokeCircle .group ⟨group.position, group.radius + 1.5⟩,
    .strokeCircle .group ⟨group.position, group.radius - 1.5⟩]

/-- A group's output, with the line to where it leads. -/
def outputPicture (g : Graph S) (id : GroupId) : Picture S :=
  let output := (g.group id).output
  let dot := .fillCircle .output ⟨output.position, output.radius⟩
  match output.downstream with
  | none => [dot]
  | some sink => [.line .output ⟨output.position, g.sinkPosition sink⟩, dot]

/-- The curves from a merge's function into the merge and on to its consumer, bowed to one side so
that applications side by side can be told apart, and the line from its argument. A merge that has
nothing to join is a dot. -/
def mergePicture (g : Graph S) (id : MergeId) : Picture S :=
  let merge := g.merge id
  match merge.function, merge.consumer with
  | some function, some consumer =>
    let start := g.sourcePosition function
    let stop := g.sinkPosition consumer
    let length := start.dist stop
    let direction := (stop - start).unit
    let bow := direction.perp.lerp direction 0.5
    [.curve .merge ⟨start, start + bow * (length / 3.0), merge.position⟩,
      .curve .merge ⟨merge.position, merge.position + direction * (length / 3.0), stop⟩] ++
    match merge.argument with
    | none => []
    | some argument => [.line .merge ⟨g.sourcePosition argument, merge.position⟩]
  | _, _ => [.fillCircle .merge ⟨merge.position, merge.radius / 2.0⟩]

/-- The disc of an input and its rim. -/
def discPicture (g : Graph S) (id : InputId) : Picture S :=
  let input := g.input id
  [.fillCircle .input ⟨input.position, input.radius⟩,
    .strokeCircle .input ⟨input.position, input.radius⟩]

/-- The name of an input. -/
def namePicture (g : Graph S) (id : InputId) : Picture S :=
  let input := g.input id
  [.label .input input.position input.identifier.toString]

end Graph

mutual

/-- The picture of a group with everything in it. -/
def Nest.picture (g : Graph S) : Nest → Picture S
  | .group id anchors subgroups =>
    g.boundaryPicture id ++ g.outputPicture id ++ subgroups.picture g ++
      (g.group id).merges.flatMap g.mergePicture ++ anchors.picture g

/-- The picture of some inputs. -/
def Anchors.picture (g : Graph S) : Anchors → Picture S
  | .nil => []
  | .bare id rest => g.discPicture id ++ g.namePicture id ++ rest.picture g
  | .hosting id hosted rest => g.discPicture id ++ hosted.picture g ++ rest.picture g

/-- The picture of groups side by side. -/
def Nests.picture (g : Graph S) : Nests → Picture S
  | .nil => []
  | .cons n rest => n.picture g ++ rest.picture g

end

namespace Graph

/-- The picture of a group with everything in it. -/
def groupPicture (g : Graph S) (id : GroupId) : Picture S := (g.nest id).picture g

/-- The picture of an input with the group that it hosts. -/
def inputPicture (g : Graph S) (id : InputId) : Picture S :=
  match (g.input id).hosted with
  | none => g.discPicture id ++ g.namePicture id
  | some hosted => g.discPicture id ++ g.groupPicture hosted

/-- The picture of a graph. -/
def picture (g : Graph S) : Picture S := g.groupPicture root

end Graph

end LambdaDiagram
