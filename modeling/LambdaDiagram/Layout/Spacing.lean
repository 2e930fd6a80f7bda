import LambdaDiagram.Diagram.Motion
import LambdaDiagram.Layout.Engine
import LambdaDiagram.Plane.Shape

/-!
The sizes of groups, and how sub-groups part. A group is large enough for its inputs to lie side by
side on a quarter of its boundary and for its sub-groups to lie inside. Two sub-groups that come
too close are pushed apart along the line of their centers, each by half of what is due.
-/

namespace LambdaDiagram

variable {S : Type} [Scalar S]

/-- The radius of a circle on whose quarter some diameters fit side by side; zero without any. -/
def fittingRadius (diameters : List S) (margin : S) : S :=
  let total := Scalar.sum diameters
  if total ≤ 0.0 then 0.0 else total / (Scalar.pi / 2.0) + margin

namespace Engine

variable (e : Engine S)

/-- How far the sub-groups of a group reach from its center, with some margin; zero without any. -/
def reach (g : Graph S) (id : GroupId) : S :=
  match (g.group id).subgroups with
  | [] => 0.0
  | subs =>
    let center := (g.group id).position
    Scalar.largest (subs.map fun sub =>
      center.dist (g.group sub).position + (g.group sub).outerRadius) + e.margin

/-- The radius that a group needs. One that cannot be computed is replaced by the least. -/
def neededRadius (g : Graph S) (id : GroupId) : S :=
  let diameters := (g.group id).inputs.map fun input => 2.0 * (g.input input).radius
  let fitting := fittingRadius diameters e.margin
  let radius := Scalar.larger (Scalar.larger e.defaultRadius fitting) (e.reach g id)
  if Scalar.isFinite radius then radius else e.defaultRadius

/-- Give a group the radius that it needs, and an outer radius for its largest input. -/
def resize (g : Graph S) (id : GroupId) (largestInput : S) : Graph S :=
  let radius := e.neededRadius g id
  g.modifyGroup id fun group =>
    { group with radius := radius, outerRadius := radius + largestInput }

/-- The direction in which the second of two sub-groups is pushed. Two that lie in one place part
in a direction that depends on their numbers only. -/
def separationDirection (number number' : Nat) (center center' : Vec S) : Vec S :=
  let direction := (center' - center).unit
  if direction.same .zero then .ofPolar 1.0 (Scalar.ofNat (number + number')) .zero
  else direction

/-- Push two sub-groups apart if they overlap, each by half of the eased overlap. -/
def separatePair (g : Graph S) (number number' : Nat) (a b : Nest) : Graph S :=
  let center := (g.group a.id).position
  let center' := (g.group b.id).position
  let wanted : Circle S := ⟨center, (g.group a.id).outerRadius + e.margin⟩
  let other : Circle S := ⟨center', (g.group b.id).outerRadius⟩
  if wanted.overlaps other then
    let direction := separationDirection number number' center center'
    let overlap := wanted.radius + other.radius - center.dist center'
    let push := overlap * 0.5 * e.separationEase
    b.move (a.move g (-direction * push)) (direction * push)
  else g

/-- Push a sub-group and those after it apart. -/
def separateFrom (g : Graph S) (number : Nat) (a : Nest) (number' : Nat) : List Nest → Graph S
  | [] => g
  | b :: bs => separateFrom (e.separatePair g number number' a b) number a (number' + 1) bs

/-- Push overlapping sub-groups apart, each with those after it in turn. -/
def separate (g : Graph S) (number : Nat) : List Nest → Graph S
  | [] => g
  | a :: as => separate (e.separateFrom g number a (number + 1) as) (number + 1) as

end Engine

/-- Put a group's output at the bottom of its boundary. -/
def Graph.lowerOutput (g : Graph S) (id : GroupId) : Graph S :=
  g.modifyGroup id fun group =>
    { group with
      output := { group.output with position := group.position + ⟨0.0, group.radius⟩ } }

end LambdaDiagram
