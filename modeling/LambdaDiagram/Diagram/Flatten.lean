import LambdaDiagram.Diagram.Nest

/-!
Flattening. A sub-group without inputs binds nothing, so its circle says nothing: it is dissolved
into the group around it, which takes over its merges and sub-groups, and the value that left
through its output goes straight to where the output led.
-/

namespace LambdaDiagram

variable {S : Type} [Scalar S]

namespace Graph

/-- Let a value go to `new` wherever it went to `old`; without a new sink, nowhere. -/
def redirect (g : Graph S) (source : Source) (old : Sink) (new : Option Sink) : Graph S :=
  match source with
  | .input id => g.modifyInput id fun input =>
    match new with
    | some new =>
      { input with usages := input.usages.map fun sink => if sink = old then new else sink }
    | none => { input with usages := input.usages.filter fun sink => sink ≠ old }
  | .merge id => g.modifyMerge id fun merge =>
    if merge.consumer = some old then { merge with consumer := new } else merge
  | .output id => g.modifyOutput id fun output =>
    if output.downstream = some old then { output with downstream := new } else output

/-- Let a sink take its value from `new` wherever it took it from `old`. -/
def reroute (g : Graph S) (sink : Sink) (old : Source) (new : Option Source) : Graph S :=
  match sink with
  | .merge id => g.modifyMerge id fun merge =>
    { merge with
      function := if merge.function = some old then new else merge.function
      argument := if merge.argument = some old then new else merge.argument }
  | .output id => g.modifyOutput id fun output =>
    if output.producer = some old then { output with producer := new } else output

/-- Join what feeds a group's output to what it leads to. -/
def bypass (g : Graph S) (id : GroupId) : Graph S :=
  let producer := (g.group id).output.producer
  let downstream := (g.group id).output.downstream
  let g := match producer with
    | none => g
    | some source => g.redirect source (.output id) downstream
  match downstream with
  | none => g
  | some sink => g.reroute sink (.output id) producer

/-- Dissolve a sub-group: the group around it takes over its merges and becomes the parent of its
sub-groups, which are also returned. -/
def dissolve (g : Graph S) (id parent : GroupId) : Graph S × List GroupId :=
  let g := g.bypass id
  let merges := (g.group id).merges
  let orphans := (g.group id).subgroups
  let g := g.modifyGroup id fun group =>
    { group with
      merges := []
      subgroups := []
      output := { group.output with producer := none, downstream := none } }
  let g := orphans.foldl (fun g orphan =>
    g.modifyGroup orphan fun group => { group with parent := some parent }) g
  (g.modifyGroup parent fun group => { group with merges := group.merges ++ merges }, orphans)

/-- Flatten a group down to a depth: first the groups that its inputs host, then its sub-groups in
order, each of which is dissolved if it has no inputs. -/
def flattenTo : Nat → Graph S → GroupId → Graph S
  | 0, g, _ => g
  | depth + 1, g, id =>
    let hosted := (g.group id).inputs.filterMap fun input => (g.input input).hosted
    let g := hosted.foldl (flattenTo depth) g
    let (g, kept) := (g.group id).subgroups.foldl (fun (g, kept) sub =>
      let g := flattenTo depth g sub
      if (g.group sub).inputs.isEmpty then
        let (g, orphans) := g.dissolve sub id
        (g, kept ++ orphans)
      else (g, kept ++ [sub])) (g, [])
    g.modifyGroup id fun group => { group with subgroups := kept }

/-- Dissolve every live sub-group without inputs. No group lies deeper than there are groups. -/
def flatten (g : Graph S) : Graph S := flattenTo g.groups.size g root

end Graph

end LambdaDiagram
