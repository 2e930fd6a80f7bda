import LambdaDiagram.Diagram.Graph

/-!
What a name refers to. Scopes are nested like the groups that they belong to: the nearest group
with an input of the name decides.
-/

namespace LambdaDiagram

variable {S : Type} [Scalar S]

namespace Graph

/-- The right-most of some inputs with a name. -/
def lastNamed (g : Graph S) (identifier : Char) (ids : List InputId) : Option InputId :=
  ids.reverse.find? fun id => (g.input id).identifier = identifier

/-- The input that a name refers to in a group: the right-most one of that name in the nearest
group around that has one. A group is younger than the one around it. -/
def lookup (g : Graph S) (id : GroupId) (identifier : Char) : Option InputId :=
  match g.lastNamed identifier (g.group id).inputs with
  | some found => some found
  | none =>
    match (g.group id).parent with
    | none => none
    | some parent =>
      if parent.index < id.index then g.lookup parent identifier else none
termination_by id.index

end Graph

end LambdaDiagram
