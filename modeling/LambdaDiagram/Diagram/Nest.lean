import LambdaDiagram.Diagram.Graph

/-!
What lies in what. A nest is a group with everything in it, read off a graph: the inputs with the
groups that they host, and the sub-groups. Moving, laying out and displaying a group go through its
nest; none of them changes what lies in what, so the nest is read once.
-/

namespace LambdaDiagram

mutual

/-- A group and what lies in it. -/
inductive Nest where
  | group (id : GroupId) (anchors : Anchors) (subgroups : Nests)

/-- The inputs of a group, each with the group that it hosts, if any. -/
inductive Anchors where
  | nil
  | bare (input : InputId) (rest : Anchors)
  | hosting (input : InputId) (hosted : Nest) (rest : Anchors)

/-- Groups side by side. -/
inductive Nests where
  | nil
  | cons (nest : Nest) (rest : Nests)

end

deriving instance Repr for Nest, Anchors, Nests

/-- The group that a nest is about. -/
def Nest.id : Nest → GroupId
  | .group id _ _ => id

/-- The groups side by side, in order. -/
def Nests.toList : Nests → List Nest
  | .nil => []
  | .cons n rest => n :: rest.toList

variable {S : Type} [Scalar S]

namespace Graph

/-- Inputs as anchors, given how to read a nest off. -/
def anchorsWith (g : Graph S) (nestOf : GroupId → Nest) : List InputId → Anchors
  | [] => .nil
  | id :: ids =>
    match (g.input id).hosted with
    | none => .bare id (g.anchorsWith nestOf ids)
    | some hosted => .hosting id (nestOf hosted) (g.anchorsWith nestOf ids)

/-- Sub-groups as nests, given how to read a nest off. -/
def nestsWith (nestOf : GroupId → Nest) : List GroupId → Nests
  | [] => .nil
  | id :: ids => .cons (nestOf id) (nestsWith nestOf ids)

/-- A group with what lies in it, down to a depth. -/
def nestTo (g : Graph S) : Nat → GroupId → Nest
  | 0, id => .group id .nil .nil
  | depth + 1, id =>
    .group id (g.anchorsWith (g.nestTo depth) (g.group id).inputs)
      (nestsWith (g.nestTo depth) (g.group id).subgroups)

/-- A group with everything that lies in it. No group lies in itself, so nothing lies deeper than
there are groups. -/
def nest (g : Graph S) (id : GroupId) : Nest := g.nestTo g.groups.size id

end Graph

/-! ## Listing -/

mutual

/-- A group, the groups in it from the last to the first, and the groups that its inputs host from
the last to the first, each followed by what lies in it. -/
def Nest.groups : Nest → List GroupId
  | .group id anchors subgroups => id :: (subgroups.groups ++ anchors.groups)

def Anchors.groups : Anchors → List GroupId
  | .nil => []
  | .bare _ rest => rest.groups
  | .hosting _ hosted rest => rest.groups ++ hosted.groups

def Nests.groups : Nests → List GroupId
  | .nil => []
  | .cons n rest => rest.groups ++ n.groups

end

namespace Graph

/-- Every group that lies in the root, those around before those inside. -/
def liveGroups (g : Graph S) : List GroupId := (g.nest root).groups

/-- Every merge of a live group. -/
def liveMerges (g : Graph S) : List MergeId := g.liveGroups.flatMap fun id => (g.group id).merges

/-- Every input of a live group. -/
def liveInputs (g : Graph S) : List InputId := g.liveGroups.flatMap fun id => (g.group id).inputs

end Graph

end LambdaDiagram
