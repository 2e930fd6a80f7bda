import LambdaDiagram.Diagram.Nest

/-!
Moving groups and inputs. Whatever lies in a group moves with it, and a hosted group moves with its
input.
-/

namespace LambdaDiagram

variable {S : Type} [Scalar S]

namespace Graph

/-- Move a group's circle and output, leaving what lies in it. -/
def shiftGroup (g : Graph S) (d : Vec S) (id : GroupId) : Graph S := g.modifyGroup id (·.moved d)

/-- Move a merge. -/
def shiftMerge (g : Graph S) (d : Vec S) (id : MergeId) : Graph S :=
  g.modifyMerge id fun merge => { merge with position := merge.position + d }

/-- Put an input's own point somewhere, leaving the group that it hosts. -/
def placeInput (g : Graph S) (position : Vec S) (id : InputId) : Graph S :=
  g.modifyInput id fun input => { input with position := position }

end Graph

mutual

/-- Move a group with everything in it. -/
def Nest.move (g : Graph S) (d : Vec S) : Nest → Graph S
  | .group id anchors subgroups =>
    let g := g.shiftGroup d id
    let g := (g.group id).merges.foldl (·.shiftMerge d) g
    let g := anchors.move g d
    subgroups.move g d

/-- Move inputs with the groups that they host. A hosted group moves by as much as its input turns
out to have moved. -/
def Anchors.move (g : Graph S) (d : Vec S) : Anchors → Graph S
  | .nil => g
  | .bare id rest => rest.move (g.placeInput ((g.input id).position + d) id) d
  | .hosting id hosted rest =>
    let before := (g.input id).position
    let after := before + d
    rest.move (hosted.move (g.placeInput after id) (after - before)) d

/-- Move groups side by side. -/
def Nests.move (g : Graph S) (d : Vec S) : Nests → Graph S
  | .nil => g
  | .cons n rest => rest.move (n.move g d) d

end

namespace Graph

/-- Move a group with everything in it. -/
def move (g : Graph S) (id : GroupId) (d : Vec S) : Graph S := (g.nest id).move g d

/-- Put an input somewhere, together with the group that it hosts. -/
def moveInput (g : Graph S) (id : InputId) (position : Vec S) : Graph S :=
  let before := (g.input id).position
  match (g.input id).hosted with
  | none => g.placeInput position id
  | some hosted => (g.nest hosted).move (g.placeInput position id) (position - before)

end Graph

end LambdaDiagram
