import LambdaDiagram.Diagram.Graph

/-!
How a graph grows: new groups, inputs and merges take the next free name, and nodes are linked as
they are made.
-/

namespace LambdaDiagram

variable {S : Type} [Scalar S]

namespace Graph

/-- A group of its own, in whose scope names are looked up further in `parent`. -/
def addGroup (g : Graph S) (parent : Option GroupId) : Graph S × GroupId :=
  let position := match parent with
    | none => .zero
    | some p => (g.group p).position
  ({ g with groups := g.groups.push (.blank parent position) }, ⟨g.groups.size⟩)

/-- How far from the center of a group its sub-group of a number is put: the sub-groups lie on a
spiral, each a golden angle on from the one before and a little farther out. -/
def spiral (number : Nat) : Vec S :=
  let n : S := Scalar.ofNat number
  .ofPolar (1.0 + n) (n * 2.399963) .zero

/-- A group inside another. -/
def addSubgroup (g : Graph S) (parent : GroupId) : Graph S × GroupId :=
  let offset := spiral (g.group parent).subgroups.length
  let (g, id) := g.addGroup (some parent)
  let g := g.modifyGroup id (·.moved offset)
  (g.modifyGroup parent fun group => { group with subgroups := group.subgroups ++ [id] }, id)

/-- Space some inputs evenly over the upper half of their group, in steps from a number on. -/
def spaceInputs (g : Graph S) (step : S) (number : Nat) : List InputId → Graph S
  | [] => g
  | id :: ids =>
    let angle := Scalar.pi + step * Scalar.ofNat (number + 1)
    (g.modifyInput id fun input => { input with angle := angle }).spaceInputs step (number + 1) ids

/-- One more input of a group; its inputs are spaced anew. -/
def addInput (g : Graph S) (group : GroupId) (identifier : Char) : Graph S × InputId :=
  let id : InputId := ⟨g.inputs.size⟩
  let node := Input.blank identifier (g.group group).position
  let g := { g with inputs := g.inputs.push node }
  let g := g.modifyGroup group fun group => { group with inputs := group.inputs ++ [id] }
  let ids := (g.group group).inputs
  (g.spaceInputs (Scalar.pi / Scalar.ofNat (ids.length + 1)) 0 ids, id)

/-- Put a group in the place of a variable. -/
def host (g : Graph S) (input : InputId) (group : GroupId) : Graph S :=
  let outer := (g.group group).outerRadius
  g.modifyInput input fun input =>
    { input with hosted := some group, radius := outer + Input.defaultRadius }

/-- The application of a function to an argument inside a group. -/
def addMerge (g : Graph S) (group : GroupId) (function argument : Option Source) :
    Graph S × MergeId :=
  let id : MergeId := ⟨g.merges.size⟩
  let node := Merge.blank function argument (g.group group).position
  let g := { g with merges := g.merges.push node }
  let g := (g.connect? function (.merge id)).connect? argument (.merge id)
  (g.modifyGroup group fun group => { group with merges := group.merges ++ [id] }, id)

/-- Let a value leave a group through its output. -/
def feed (g : Graph S) (group : GroupId) (source : Option Source) : Graph S :=
  (g.modifyOutput group fun output => { output with producer := source }).connect?
    source (.output group)

end Graph

end LambdaDiagram
