import LambdaDiagram.Plane.Vec

/-!
The nodes that a term is drawn with. Groups are circles; a group's inputs sit on its upper half, one
for each binder, and its output sits at the bottom. A merge is the application of a function to an
argument. Nodes name each other by their index in the order of creation. A group contains its
inputs, its merges and its sub-groups, and an input contains the group that it hosts; every other
link is only a name.
-/

namespace LambdaDiagram

/-- The index of a group. -/
structure GroupId where
  index : Nat
deriving DecidableEq, Repr, Inhabited

/-- The index of an input. -/
structure InputId where
  index : Nat
deriving DecidableEq, Repr, Inhabited

/-- The index of a merge. -/
structure MergeId where
  index : Nat
deriving DecidableEq, Repr, Inhabited

/-- Where a value comes from: a bound variable, an application, or the output of a group. -/
inductive Source where
  | input (id : InputId)
  | merge (id : MergeId)
  | output (id : GroupId)
deriving DecidableEq, Repr

/-- Where a value goes: a slot of an application, or the output of a group. -/
inductive Sink where
  | merge (id : MergeId)
  | output (id : GroupId)
deriving DecidableEq, Repr

/-- The point at the bottom of a group through which its value leaves. -/
structure Output (S : Type) where
  position : Vec S
  radius : S
  downstream : Option Sink
  producer : Option Source
deriving Repr

/-- A circle with its inputs and what is drawn inside. The outer radius reaches to the far side of
the largest input. -/
structure Group (S : Type) where
  position : Vec S
  radius : S
  outerRadius : S
  parent : Option GroupId
  inputs : List InputId
  merges : List MergeId
  subgroups : List GroupId
  output : Output S
deriving Repr

/-- A bound variable, with the group put in its place if it has an argument, and one use for each
slot that refers to it. -/
structure Input (S : Type) where
  identifier : Char
  angle : S
  radius : S
  position : Vec S
  hosted : Option GroupId
  usages : List Sink
deriving Repr

/-- The application of a function to an argument; a slot is empty where a variable is free. -/
structure Merge (S : Type) where
  function : Option Source
  argument : Option Source
  consumer : Option Sink
  position : Vec S
  radius : S
deriving Repr

variable {S : Type} [Scalar S]

/-- An output below the center of a group. -/
def Output.below (center : Vec S) (radius : S) : Output S where
  position := center + ⟨0.0, radius⟩
  radius := 5.0
  downstream := none
  producer := none

/-- The radius of a group before anything is in it. -/
def Group.defaultRadius : S := 25.0

/-- A group with nothing in it. -/
def Group.blank (parent : Option GroupId) (position : Vec S) : Group S where
  position := position
  radius := Group.defaultRadius
  outerRadius := Group.defaultRadius
  parent := parent
  inputs := []
  merges := []
  subgroups := []
  output := .below position Group.defaultRadius

/-- The radius of an input that hosts nothing, and the room around a group that one hosts. -/
def Input.defaultRadius : S := 10.0

/-- An input that hosts nothing and is not used. -/
def Input.blank (identifier : Char) (position : Vec S) : Input S where
  identifier := identifier
  angle := 3.0 * Scalar.pi / 2.0
  radius := Input.defaultRadius
  position := position
  hosted := none
  usages := []

/-- A merge of two values that goes nowhere. -/
def Merge.blank (function argument : Option Source) (position : Vec S) : Merge S where
  function := function
  argument := argument
  consumer := none
  position := position
  radius := 10.0

instance : Inhabited (Group S) := ⟨.blank none .zero⟩

instance : Inhabited (Input S) := ⟨.blank 'x' .zero⟩

instance : Inhabited (Merge S) := ⟨.blank none none .zero⟩

/-- A group and its output, moved. -/
def Group.moved (g : Group S) (d : Vec S) : Group S :=
  { g with
    position := g.position + d
    output := { g.output with position := g.output.position + d } }

end LambdaDiagram
