import LambdaDiagram.Diagram.Node

/-!
The graph that a term is drawn from: three stores of nodes, which are read and changed by name. A
name that was never given reads as a node with nothing in it, and changing it changes nothing.
-/

namespace LambdaDiagram

/-- The nodes of a drawing. -/
structure Graph (S : Type) where
  groups : Array (Group S)
  inputs : Array (Input S)
  merges : Array (Merge S)
deriving Repr

variable {S : Type} [Scalar S]

namespace Graph

/-- The graph of a single group with nothing in it. -/
def empty : Graph S := ⟨#[.blank none .zero], #[], #[]⟩

instance : Inhabited (Graph S) := ⟨empty⟩

/-- The group that contains all others. -/
def root : GroupId := ⟨0⟩

/-! ## Reading and changing nodes -/

/-- The group of a name. -/
def group (g : Graph S) (id : GroupId) : Group S := g.groups.getD id.index default

/-- The input of a name. -/
def input (g : Graph S) (id : InputId) : Input S := g.inputs.getD id.index default

/-- The merge of a name. -/
def merge (g : Graph S) (id : MergeId) : Merge S := g.merges.getD id.index default

/-- Change the group of a name. -/
def modifyGroup (g : Graph S) (id : GroupId) (f : Group S → Group S) : Graph S :=
  { g with groups := g.groups.modify id.index f }

/-- Change the input of a name. -/
def modifyInput (g : Graph S) (id : InputId) (f : Input S → Input S) : Graph S :=
  { g with inputs := g.inputs.modify id.index f }

/-- Change the merge of a name. -/
def modifyMerge (g : Graph S) (id : MergeId) (f : Merge S → Merge S) : Graph S :=
  { g with merges := g.merges.modify id.index f }

/-- Change what a group's output says. -/
def modifyOutput (g : Graph S) (id : GroupId) (f : Output S → Output S) : Graph S :=
  g.modifyGroup id fun group => { group with output := f group.output }

/-! A change leaves all other nodes alone. -/

section

variable (g : Graph S) (id id' : GroupId) (i i' : InputId) (m m' : MergeId)
variable (f : Group S → Group S) (h : Input S → Input S) (k : Merge S → Merge S)

@[simp] theorem input_modifyGroup : (g.modifyGroup id f).input i = g.input i := rfl

@[simp] theorem merge_modifyGroup : (g.modifyGroup id f).merge m = g.merge m := rfl

@[simp] theorem group_modifyInput : (g.modifyInput i h).group id = g.group id := rfl

@[simp] theorem merge_modifyInput : (g.modifyInput i h).merge m = g.merge m := rfl

@[simp] theorem group_modifyMerge : (g.modifyMerge m k).group id = g.group id := rfl

@[simp] theorem input_modifyMerge : (g.modifyMerge m k).input i = g.input i := rfl

theorem group_modifyGroup : (g.modifyGroup id f).group id' =
    if id = id' ∧ id'.index < g.groups.size then f (g.group id') else g.group id' := by
  cases id; cases id'
  simp only [group, modifyGroup, Array.getD_eq_getD_getElem?, Array.getElem?_modify,
    GroupId.mk.injEq]
  grind

theorem input_modifyInput : (g.modifyInput i h).input i' =
    if i = i' ∧ i'.index < g.inputs.size then h (g.input i') else g.input i' := by
  cases i; cases i'
  simp only [input, modifyInput, Array.getD_eq_getD_getElem?, Array.getElem?_modify,
    InputId.mk.injEq]
  grind

theorem merge_modifyMerge : (g.modifyMerge m k).merge m' =
    if m = m' ∧ m'.index < g.merges.size then k (g.merge m') else g.merge m' := by
  cases m; cases m'
  simp only [merge, modifyMerge, Array.getD_eq_getD_getElem?, Array.getElem?_modify,
    MergeId.mk.injEq]
  grind

end

/-! ## Where values come from and go to -/

/-- The point that a value comes from. -/
def sourcePosition (g : Graph S) : Source → Vec S
  | .input id => (g.input id).position
  | .merge id => (g.merge id).position
  | .output id => (g.group id).output.position

/-- The radius of the node that a value comes from. -/
def sourceRadius (g : Graph S) : Source → S
  | .input id => (g.input id).radius
  | .merge id => (g.merge id).radius
  | .output id => (g.group id).output.radius

/-- The point that a value goes to. -/
def sinkPosition (g : Graph S) : Sink → Vec S
  | .merge id => (g.merge id).position
  | .output id => (g.group id).output.position

/-- The radius of the node that a value goes to. -/
def sinkRadius (g : Graph S) : Sink → S
  | .merge id => (g.merge id).radius
  | .output id => (g.group id).output.radius

/-- Note that a value goes to a sink. A variable can be used many times; any other value has one
consumer, the last one noted. -/
def connect (g : Graph S) (source : Source) (sink : Sink) : Graph S :=
  match source with
  | .input id => g.modifyInput id fun input => { input with usages := input.usages ++ [sink] }
  | .merge id => g.modifyMerge id fun merge => { merge with consumer := some sink }
  | .output id => g.modifyOutput id fun output => { output with downstream := some sink }

/-- Note that a value goes to a sink, unless the value is missing. -/
def connect? (g : Graph S) (source : Option Source) (sink : Sink) : Graph S :=
  match source with
  | none => g
  | some source => g.connect source sink

end Graph

end LambdaDiagram
