import LambdaDiagram.Picture.OfGraph
import LambdaDiagram.Proofs.NestView
import LambdaDiagram.Proofs.Planting
import LambdaDiagram.Proofs.Rearranging

/-!
In which order a graph is painted. A picture is made up of what its nodes are painted with, node
after node: each live node has its turn once, and what lies in a group has its turn after the group
and before anything that comes after the group. What a node is painted with depends on its links but
for the numbers, so a graph that is laid out is painted with the same primitives as before.
-/

namespace LambdaDiagram

/-! ## Primitives without their numbers -/

/-- What a primitive is, wherever it is painted. -/
inductive Mark where
  | strokeCircle (role : Role)
  | fillCircle (role : Role)
  | line (role : Role)
  | curve (role : Role)
  | label (role : Role) (text : String)
deriving DecidableEq, Repr

variable {S : Type}

/-- A primitive without its numbers. -/
def Primitive.mark : Primitive S → Mark
  | strokeCircle role _ => .strokeCircle role
  | fillCircle role _ => .fillCircle role
  | line role _ => .line role
  | curve role _ => .curve role
  | label role _ text => .label role text

/-- A node that is painted by itself; an output is painted with its group. -/
inductive Node where
  | group (id : GroupId)
  | merge (id : MergeId)
  | input (id : InputId)
deriving DecidableEq, Repr

variable [Scalar S]

namespace Graph

/-- What a node is painted with, without what lies in it. -/
def nodePicture (g : Graph S) : Node → Picture S
  | .group x => g.boundaryPicture x ++ g.outputPicture x
  | .merge m => g.mergePicture m
  | .input i => g.discPicture i ++ if (g.input i).hosted.isNone then g.namePicture i else []

/-- What a node is painted with according to its links: a group with two circles, the line of its
output, if this leads anywhere, and the dot of its output; a merge with a dot, if its function or its
consumer is missing, and else with two curves and the line from its argument, if it has one; and an
input with a disc, its rim, and its name, if it hosts nothing. -/
def nodeMarks (g : Graph S) : Node → List Mark
  | .group x => [.strokeCircle .group, .strokeCircle .group] ++
      (if (g.group x).output.downstream.isSome then [.line .output] else []) ++
      [.fillCircle .output]
  | .merge m =>
    if (g.merge m).function.isNone ∨ (g.merge m).consumer.isNone then [.fillCircle .merge]
    else [.curve .merge, .curve .merge] ++
      if (g.merge m).argument.isSome then [.line .merge] else []
  | .input i => [.fillCircle .input, .strokeCircle .input] ++
      if (g.input i).hosted.isNone then [.label .input (g.input i).identifier.toString] else []

theorem map_mark_nodePicture (g : Graph S) (node : Node) :
    (g.nodePicture node).map Primitive.mark = g.nodeMarks node := by
  cases node with
  | group x =>
    rw [nodePicture, nodeMarks, boundaryPicture, outputPicture]
    cases (g.group x).output.downstream <;> rfl
  | merge m =>
    rw [nodePicture, nodeMarks, mergePicture]
    cases hf : (g.merge m).function with
    | none => simp [Primitive.mark]
    | some function =>
      cases hc : (g.merge m).consumer with
      | none => simp [Primitive.mark]
      | some consumer => cases (g.merge m).argument <;> simp [Primitive.mark]
  | input i =>
    rw [nodePicture, nodeMarks, discPicture, namePicture]
    cases (g.input i).hosted <;> rfl

end Graph

/-! ## Turns -/

mutual

/-- The nodes of a group in the order in which they are painted. -/
def Nest.painted (g : Graph S) : Nest → List Node
  | .group id anchors subgroups =>
    .group id :: (subgroups.painted g ++ (g.group id).merges.map .merge ++ anchors.painted g)

/-- Some inputs and what they host in the order in which they are painted. -/
def Anchors.painted (g : Graph S) : Anchors → List Node
  | .nil => []
  | .bare id rest => .input id :: rest.painted g
  | .hosting id hosted rest => .input id :: (hosted.painted g ++ rest.painted g)

/-- The nodes of groups side by side in the order in which they are painted. -/
def Nests.painted (g : Graph S) : Nests → List Node
  | .nil => []
  | .cons n rest => n.painted g ++ rest.painted g

end

section

variable {g : Graph S} {x : GroupId}

mutual

/-- The picture of a group is what its nodes are painted with, in turn. -/
theorem Nest.Shows.picture_eq : {n : Nest} → n.Shows g →
    n.picture g = (n.painted g).flatMap g.nodePicture
  | .group id anchors subgroups, ⟨_, _, ha, hs⟩ => by
    rw [Nest.picture, Nest.painted, ha.picture_eq, hs.picture_eq]
    simp [Graph.nodePicture, List.flatMap_map]

theorem Anchors.Shows.picture_eq : {as : Anchors} → as.Shows g →
    as.picture g = (as.painted g).flatMap g.nodePicture
  | .nil, _ => rfl
  | .bare id rest, ⟨hhosted, hrest⟩ => by
    rw [Anchors.picture, Anchors.painted, hrest.picture_eq]
    simp [Graph.nodePicture, hhosted]
  | .hosting id hosted rest, ⟨hid, hhosted, hrest⟩ => by
    rw [Anchors.picture, Anchors.painted, hhosted.picture_eq, hrest.picture_eq]
    simp [Graph.nodePicture, hid]

theorem Nests.Shows.picture_eq : {ns : Nests} → ns.Shows g →
    ns.picture g = (ns.painted g).flatMap g.nodePicture
  | .nil, _ => rfl
  | .cons n rest, ⟨hn, hrest⟩ => by
    rw [Nests.picture, Nests.painted, hn.picture_eq, hrest.picture_eq, List.flatMap_append]

end

mutual

theorem Nest.painted_congr {g' : Graph S} (h : ∀ x, (g'.group x).merges = (g.group x).merges) :
    (n : Nest) → n.painted g' = n.painted g
  | .group id anchors subgroups => by
    rw [Nest.painted, Nest.painted, subgroups.painted_congr h, anchors.painted_congr h, h]

theorem Anchors.painted_congr {g' : Graph S} (h : ∀ x, (g'.group x).merges = (g.group x).merges) :
    (as : Anchors) → as.painted g' = as.painted g
  | .nil => rfl
  | .bare _ rest => by rw [Anchors.painted, Anchors.painted, rest.painted_congr h]
  | .hosting _ hosted rest => by
    rw [Anchors.painted, Anchors.painted, hosted.painted_congr h, rest.painted_congr h]

theorem Nests.painted_congr {g' : Graph S} (h : ∀ x, (g'.group x).merges = (g.group x).merges) :
    (ns : Nests) → ns.painted g' = ns.painted g
  | .nil => rfl
  | .cons n rest => by
    rw [Nests.painted, Nests.painted, n.painted_congr h, rest.painted_congr h]

end

/-- A group with its merges and its inputs. -/
def Graph.household (g : Graph S) (x : GroupId) : List Node :=
  .group x :: ((g.group x).merges.map .merge ++ (g.group x).inputs.map .input)

mutual

/-- All groups of a nest are painted with their merges and their inputs, and nothing else is. -/
theorem Nest.Shows.painted_perm : {n : Nest} → n.Shows g →
    (n.painted g).Perm (n.groups.flatMap g.household)
  | .group id anchors subgroups, ⟨hinputs, _, ha, hs⟩ => by
    rw [Nest.painted, Nest.groups, List.flatMap_cons, List.flatMap_append, Graph.household,
      ← hinputs]
    have hsubgroups := hs.painted_perm
    have hanchors := ha.painted_perm
    rw [List.perm_iff_count] at hsubgroups hanchors ⊢
    intro node
    have hsub := hsubgroups node
    have hanc := hanchors node
    simp only [List.count_cons, List.count_append, List.cons_append] at hsub hanc ⊢
    omega

/-- Some anchors are painted with the groups that they host. -/
theorem Anchors.Shows.painted_perm : {as : Anchors} → as.Shows g →
    (as.painted g).Perm (as.own.map .input ++ as.groups.flatMap g.household)
  | .nil, _ => .refl _
  | .bare id rest, h => by
    rw [Anchors.painted, Anchors.own, Anchors.groups]
    exact h.2.painted_perm.cons (.input id)
  | .hosting id hosted rest, h => by
    have hboth := (h.2.1.painted_perm.append h.2.2.painted_perm).trans List.perm_append_comm
    rw [List.append_assoc] at hboth
    rw [Anchors.painted, Anchors.own, Anchors.groups, List.flatMap_append]
    exact hboth.cons (.input id)

theorem Nests.Shows.painted_perm : {ns : Nests} → ns.Shows g →
    (ns.painted g).Perm (ns.groups.flatMap g.household)
  | .nil, _ => .refl _
  | .cons n rest, h => by
    rw [Nests.painted, Nests.groups, List.flatMap_append]
    exact (h.1.painted_perm.append h.2.painted_perm).trans List.perm_append_comm

end

mutual

/-- The nodes of a group in a nest have their turns one after the other. -/
theorem Nest.Shows.exists_stretch : {n : Nest} → n.Shows g → x ∈ n.groups →
    ∃ m : Nest, m.Shows g ∧ m.id = x ∧ m.painted g <:+: n.painted g
  | .group id anchors subgroups, h, hx => by
    rw [Nest.painted]
    rcases List.mem_cons.1 hx with rfl | hx
    · refine ⟨_, h, rfl, ?_⟩
      rw [Nest.painted]
    · obtain ⟨-, -, ha, hs⟩ := h
      rcases List.mem_append.1 hx with hx | hx
      · obtain ⟨m, hm, hid, hin⟩ := hs.exists_stretch hx
        exact ⟨m, hm, hid, List.infix_cons (List.infix_append_of_infix_left
          (List.infix_append_of_infix_left hin))⟩
      · obtain ⟨m, hm, hid, hin⟩ := ha.exists_stretch hx
        exact ⟨m, hm, hid, List.infix_cons (List.infix_append_of_infix_right hin)⟩

theorem Anchors.Shows.exists_stretch : {as : Anchors} → as.Shows g → x ∈ as.groups →
    ∃ m : Nest, m.Shows g ∧ m.id = x ∧ m.painted g <:+: as.painted g
  | .nil, _, hx => nomatch hx
  | .bare _ _, h, hx => by
    obtain ⟨m, hm, hid, hin⟩ := h.2.exists_stretch hx
    exact ⟨m, hm, hid, List.infix_cons hin⟩
  | .hosting _ _ _, h, hx => by
    rw [Anchors.painted]
    rcases List.mem_append.1 hx with hx | hx
    · obtain ⟨m, hm, hid, hin⟩ := h.2.2.exists_stretch hx
      exact ⟨m, hm, hid, List.infix_cons (List.infix_append_of_infix_right hin)⟩
    · obtain ⟨m, hm, hid, hin⟩ := h.2.1.exists_stretch hx
      exact ⟨m, hm, hid, List.infix_cons (List.infix_append_of_infix_left hin)⟩

theorem Nests.Shows.exists_stretch : {ns : Nests} → ns.Shows g → x ∈ ns.groups →
    ∃ m : Nest, m.Shows g ∧ m.id = x ∧ m.painted g <:+: ns.painted g
  | .nil, _, hx => nomatch hx
  | .cons _ _, h, hx => by
    rw [Nests.painted]
    rcases List.mem_append.1 hx with hx | hx
    · obtain ⟨m, hm, hid, hin⟩ := h.2.exists_stretch hx
      exact ⟨m, hm, hid, List.infix_append_of_infix_right hin⟩
    · obtain ⟨m, hm, hid, hin⟩ := h.1.exists_stretch hx
      exact ⟨m, hm, hid, List.infix_append_of_infix_left hin⟩

end

end

namespace Graph

/-- The nodes of a group in the order in which they are painted. -/
def paintedGroup (g : Graph S) (x : GroupId) : List Node := (g.nest x).painted g

/-- An input and what it hosts in the order in which they are painted. -/
def paintedInput (g : Graph S) (i : InputId) : List Node :=
  .input i :: ((g.input i).hosted.elim [] g.paintedGroup)

/-- The nodes of a graph in the order in which they are painted. -/
def painted (g : Graph S) : List Node := g.paintedGroup root

section

variable {g g' : Graph S}

theorem painted_nestsWith (g : Graph S) (xs : List GroupId) :
    (nestsWith g.nest xs).painted g = xs.flatMap g.paintedGroup := by
  induction xs with
  | nil => rfl
  | cons x xs ih => rw [nestsWith, Nests.painted, ih, List.flatMap_cons, paintedGroup]

theorem painted_anchorsWith (g : Graph S) (ids : List InputId) :
    (g.anchorsWith g.nest ids).painted g = ids.flatMap g.paintedInput := by
  induction ids with
  | nil => rfl
  | cons i ids ih =>
    rw [anchorsWith, List.flatMap_cons, paintedInput]
    cases (g.input i).hosted with
    | none => rw [Anchors.painted, ih]; rfl
    | some x => rw [Anchors.painted, ih]; rfl

/-- A group has its turn before what lies in it: its sub-groups come first, then its merges, and then
its inputs with the groups that they host. -/
theorem Acyclic.paintedGroup_eq (hg : g.Acyclic) (x : GroupId) : g.paintedGroup x =
    .group x :: ((g.group x).subgroups.flatMap g.paintedGroup ++ (g.group x).merges.map .merge ++
      (g.group x).inputs.flatMap g.paintedInput) := by
  rw [paintedGroup, hg.nest_eq, Nest.painted, painted_nestsWith, painted_anchorsWith]

/-- The nodes of a live group have their turns one after the other. -/
theorem Acyclic.paintedGroup_stretch (hg : g.Acyclic) {x : GroupId} (hx : x ∈ g.liveGroups) :
    g.paintedGroup x <:+: g.painted := by
  obtain ⟨m, hm, hid, hin⟩ := (hg.shows_nest root).exists_stretch hx
  have hnest : m = g.nest x := hm.unique (hg.shows_nest x) (hid.trans (g.id_nestTo _ x).symm)
  rw [hnest] at hin
  exact hin

end

/-! ## Every live node once -/

section

variable {g : Graph S}

/-- The live nodes, groups before merges before inputs. -/
def liveNodes (g : Graph S) : List Node :=
  g.liveGroups.map .group ++ g.liveMerges.map .merge ++ g.liveInputs.map .input

theorem households_perm (g : Graph S) (xs : List GroupId) : (xs.flatMap g.household).Perm
    (xs.map .group ++ (xs.flatMap fun x => (g.group x).merges).map .merge ++
      (xs.flatMap fun x => (g.group x).inputs).map .input) := by
  rw [List.perm_iff_count]
  intro node
  induction xs with
  | nil => rfl
  | cons x xs ih =>
    simp only [List.flatMap_cons, List.map_cons, List.map_append, List.count_append,
      List.count_cons, household, List.cons_append] at ih ⊢
    omega

theorem Acyclic.painted_perm (hg : g.Acyclic) : g.painted.Perm g.liveNodes :=
  (hg.shows_nest root).painted_perm.trans (g.households_perm g.liveGroups)

theorem nodup_liveNodes (hgroups : g.liveGroups.Nodup) (hmerges : g.liveMerges.Nodup)
    (hinputs : g.liveInputs.Nodup) : g.liveNodes.Nodup := by
  have hgroup : (g.liveGroups.map Node.group).Nodup := hgroups.map fun _ _ h => Node.group.inj h
  have hmerge : (g.liveMerges.map Node.merge).Nodup := hmerges.map fun _ _ h => Node.merge.inj h
  have hinput : (g.liveInputs.map Node.input).Nodup := hinputs.map fun _ _ h => Node.input.inj h
  refine List.nodup_append.2 ⟨List.nodup_append.2 ⟨hgroup, hmerge, ?_⟩, hinput, ?_⟩
  · simp
  · rintro node hnode _ hi rfl
    obtain ⟨i, -, rfl⟩ := List.mem_map.1 hi
    simp at hnode

theorem Forest.nodup_liveNodes {first : Tree} {others : List Tree} (h : g.Forest first others) :
    g.liveNodes.Nodup :=
  Graph.nodup_liveNodes h.ownershipTree.nodup h.liveMerges_inventory.1 h.liveInputs_inventory.1

/-- `g.PaintedOnce`: the picture of a graph is made up of what its live nodes are painted with, each
of which has its turn once. -/
structure PaintedOnce (g : Graph S) : Prop where
  /-- No node has its turn twice. -/
  nodup : g.painted.Nodup
  /-- The live nodes have their turns, and no others. -/
  live : g.painted.Perm g.liveNodes
  /-- The picture goes through the turns. -/
  picture : g.picture = g.painted.flatMap g.nodePicture
  /-- The primitives of the picture are those of the live nodes. -/
  marks : (g.picture.map Primitive.mark).Perm (g.liveNodes.flatMap g.nodeMarks)
  /-- A live group has its turn together with what lies in it, and before that: first its
  sub-groups, then its merges, and then its inputs, each before the group that it hosts. -/
  order : ∀ x ∈ g.liveGroups, g.paintedGroup x <:+: g.painted ∧
    g.paintedGroup x =
      .group x :: ((g.group x).subgroups.flatMap g.paintedGroup ++
        (g.group x).merges.map .merge ++ (g.group x).inputs.flatMap g.paintedInput)

theorem map_mark_flatMap (g : Graph S) (nodes : List Node) :
    (nodes.flatMap g.nodePicture).map Primitive.mark = nodes.flatMap g.nodeMarks := by
  rw [List.map_flatMap]
  simp only [map_mark_nodePicture]

theorem Acyclic.picture_eq (hg : g.Acyclic) : g.picture = g.painted.flatMap g.nodePicture :=
  (hg.shows_nest root).picture_eq

theorem Acyclic.paintedOnce (hg : g.Acyclic) (hnodup : g.liveNodes.Nodup) : g.PaintedOnce where
  nodup := hg.painted_perm.nodup_iff.2 hnodup
  live := hg.painted_perm
  picture := hg.picture_eq
  marks := by
    rw [hg.picture_eq, map_mark_flatMap]
    exact hg.painted_perm.flatMap_right _
  order x hx := ⟨hg.paintedGroup_stretch hx, hg.paintedGroup_eq x⟩

end

/-! ## Laying out -/

namespace Rearranged

variable {g g' : Graph S}

theorem acyclic (h : g.Rearranged g') (hg : g.Acyclic) : g'.Acyclic := by
  have hcontains : g'.Contains = g.Contains := by
    funext x y
    rw [Contains, Contains, h.subgroups_eq, h.inputs_eq]
    simp only [h.hosted_eq]
  rw [Acyclic, hcontains]
  exact hg

theorem liveNodes_eq (h : g.Rearranged g') : g'.liveNodes = g.liveNodes := by
  have hinputs : g'.liveInputs = g.liveInputs := by
    rw [liveInputs, liveInputs, h.liveGroups_eq]
    exact List.flatMap_congr fun x _ => h.inputs_eq x
  rw [liveNodes, liveNodes, h.liveGroups_eq, h.liveMerges_eq, hinputs]

/-- The nodes have their turns in the same order. -/
theorem painted_eq (h : g.Rearranged g') : g'.painted = g.painted := by
  rw [painted, painted, paintedGroup, paintedGroup, h.nest_eq]
  exact Nest.painted_congr h.merges_eq _

theorem nodeMarks_eq (h : g.Rearranged g') (node : Node) : g'.nodeMarks node = g.nodeMarks node := by
  cases node with
  | group x =>
    have hdownstream : (g'.group x).output.downstream = (g.group x).output.downstream :=
      congrArg (fun group => group.output.downstream) (h.group x)
    rw [nodeMarks, nodeMarks, hdownstream]
  | merge m =>
    have hfunction : (g'.merge m).function = (g.merge m).function :=
      congrArg (fun merge => merge.function) (h.merge m)
    have hargument : (g'.merge m).argument = (g.merge m).argument :=
      congrArg (fun merge => merge.argument) (h.merge m)
    have hconsumer : (g'.merge m).consumer = (g.merge m).consumer :=
      congrArg (fun merge => merge.consumer) (h.merge m)
    rw [nodeMarks, nodeMarks, hfunction, hargument, hconsumer]
  | input i =>
    have hidentifier : (g'.input i).identifier = (g.input i).identifier :=
      congrArg (fun input => input.identifier) (h.input i)
    rw [nodeMarks, nodeMarks, h.hosted_eq, hidentifier]

/-- The same primitives are painted in the same order, but for their numbers. -/
theorem map_mark_picture (h : g.Rearranged g') (hg : g.Acyclic) :
    g'.picture.map Primitive.mark = g.picture.map Primitive.mark := by
  rw [hg.picture_eq, (h.acyclic hg).picture_eq, map_mark_flatMap, map_mark_flatMap, h.painted_eq]
  exact List.flatMap_congr fun node _ => h.nodeMarks_eq node

end Rearranged

/-- The picture of a chain that starts with a group is made up of what the live nodes of its graph
are painted with, each of which has its turn once. However long the graph has been laid out, these
are the same primitives in the same order, but for their numbers. -/
theorem paints_live_nodes_once (names : List Char) (body : Chain) (rest : List Term) :
    ∃ g : Graph S, ofChain? (.ofTerms (.group names body) rest) = .ok g ∧
      ∀ (e : Engine S) (n : Nat), (e.run g.flatten n).PaintedOnce ∧
        (e.run g.flatten n).picture.map Primitive.mark = g.flatten.picture.map Primitive.mark := by
  obtain ⟨g, first, others, hg, hforest, -⟩ := exists_forest (S := S) names body rest
  have hflat := hforest.flatten.1
  refine ⟨g, hg, fun e n => ?_⟩
  have hrun := run_rearranged e g.flatten n
  have hnodup : (e.run g.flatten n).liveNodes.Nodup := by
    rw [hrun.liveNodes_eq]
    exact hflat.nodup_liveNodes
  exact ⟨(hrun.acyclic hflat.acyclic).paintedOnce hnodup, hrun.map_mark_picture hflat.acyclic⟩

end Graph

end LambdaDiagram
