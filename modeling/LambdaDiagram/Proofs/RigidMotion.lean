import LambdaDiagram.Proofs.Establishing
import LambdaDiagram.Proofs.ExactNumbers

/-!
Moving a nest with exact numbers. An input takes what it hosts along by as much as the input turns
out to have moved, which with exact numbers is as much as it was to move. So a nest is moved by
moving each of its nodes as often as the nest lists it; in a graph in which everything has one place
that is once for every group of the nest and every input of one.
-/

namespace LambdaDiagram

variable {S : Type} [Scalar S]

/-- An input, moved. -/
def Input.moved (input : Input S) (d : Vec S) : Input S :=
  { input with position := input.position + d }

/-- A merge, moved. -/
def Merge.moved (merge : Merge S) (d : Vec S) : Merge S :=
  { merge with position := merge.position + d }

namespace Graph

/-! ## Moving nodes as often as they are listed -/

/-- `Moves d xs is ms g g'`: to come from `g` to `g'` each group, input and merge is moved as often
as it is listed. -/
structure Moves (d : Vec S) (xs : List GroupId) (is : List InputId) (ms : List MergeId)
    (g g' : Graph S) : Prop where
  groups : ∀ k : Nat, g'.groups[k]? = g.groups[k]?.map (Group.moved · d)^[xs.count ⟨k⟩]
  inputs : ∀ k : Nat, g'.inputs[k]? = g.inputs[k]?.map (Input.moved · d)^[is.count ⟨k⟩]
  merges : ∀ k : Nat, g'.merges[k]? = g.merges[k]?.map (Merge.moved · d)^[ms.count ⟨k⟩]

/-- The inputs of some groups. -/
def inputsOf (g : Graph S) (xs : List GroupId) : List InputId :=
  xs.flatMap fun x => (g.group x).inputs

/-- The merges of some groups. -/
def mergesOf (g : Graph S) (xs : List GroupId) : List MergeId :=
  xs.flatMap fun x => (g.group x).merges

variable {g₀ g g' g'' : Graph S} {d : Vec S} {x : GroupId} {i : InputId}
  {xs xs' : List GroupId} {is is' : List InputId} {ms ms' : List MergeId}

theorem inputsOf_append (g : Graph S) (xs xs' : List GroupId) :
    g.inputsOf (xs ++ xs') = g.inputsOf xs ++ g.inputsOf xs' := List.flatMap_append

theorem mergesOf_append (g : Graph S) (xs xs' : List GroupId) :
    g.mergesOf (xs ++ xs') = g.mergesOf xs ++ g.mergesOf xs' := List.flatMap_append

theorem inputsOf_cons (g : Graph S) (x : GroupId) (xs : List GroupId) :
    g.inputsOf (x :: xs) = (g.group x).inputs ++ g.inputsOf xs := List.flatMap_cons

theorem mergesOf_cons (g : Graph S) (x : GroupId) (xs : List GroupId) :
    g.mergesOf (x :: xs) = (g.group x).merges ++ g.mergesOf xs := List.flatMap_cons

namespace Moves

theorem trans (h : Moves d xs is ms g g') (h' : Moves d xs' is' ms' g' g'') :
    Moves d (xs ++ xs') (is ++ is') (ms ++ ms') g g'' where
  groups k := by
    rw [h'.groups, h.groups, Option.map_map, ← Function.iterate_add, List.count_append,
      Nat.add_comm]
  inputs k := by
    rw [h'.inputs, h.inputs, Option.map_map, ← Function.iterate_add, List.count_append,
      Nat.add_comm]
  merges k := by
    rw [h'.merges, h.merges, Option.map_map, ← Function.iterate_add, List.count_append,
      Nat.add_comm]

theorem perm (h : Moves d xs is ms g g') (hx : xs.Perm xs') (hi : is.Perm is')
    (hm : ms.Perm ms') : Moves d xs' is' ms' g g' where
  groups k := by rw [h.groups, hx.count_eq]
  inputs k := by rw [h.inputs, hi.count_eq]
  merges k := by rw [h.merges, hm.count_eq]

theorem refl (d : Vec S) (g : Graph S) : Moves d [] [] [] g g where
  groups _ := Option.map_id_apply.symm
  inputs _ := Option.map_id_apply.symm
  merges _ := Option.map_id_apply.symm

theorem group (h : Moves d xs is ms g g') (hx : xs.count x = 1) (hlt : x.index < g.groups.size) :
    g'.group x = (g.group x).moved d := by
  rw [Graph.group, Graph.group, Array.getD_eq_getD_getElem?, Array.getD_eq_getD_getElem?, h.groups,
    hx, Array.getElem?_eq_getElem hlt]
  rfl

theorem input (h : Moves d xs is ms g g') (hi : is.count i = 1) (hlt : i.index < g.inputs.size) :
    g'.input i = (g.input i).moved d := by
  rw [Graph.input, Graph.input, Array.getD_eq_getD_getElem?, Array.getD_eq_getD_getElem?, h.inputs,
    hi, Array.getElem?_eq_getElem hlt]
  rfl

end Moves

theorem getElem?_modify_iterate {α : Type} (a : Array α) (f : α → α) (j k : Nat) :
    (a.modify j f)[k]? = a[k]?.map f^[if j = k then 1 else 0] := by
  rw [Array.getElem?_modify]
  split
  · rfl
  · exact Option.map_id_apply.symm

theorem shiftGroup_moves (g : Graph S) (d : Vec S) (x : GroupId) :
    Moves d [x] [] [] g (g.shiftGroup d x) where
  groups k := by
    cases x
    simp only [List.count_singleton, beq_iff_eq, GroupId.mk.injEq]
    exact getElem?_modify_iterate ..
  inputs _ := Option.map_id_apply.symm
  merges _ := Option.map_id_apply.symm

theorem shiftMerge_moves (g : Graph S) (d : Vec S) (m : MergeId) :
    Moves d [] [] [m] g (g.shiftMerge d m) where
  groups _ := Option.map_id_apply.symm
  inputs _ := Option.map_id_apply.symm
  merges k := by
    cases m
    simp only [List.count_singleton, beq_iff_eq, MergeId.mk.injEq]
    exact getElem?_modify_iterate ..

theorem placeInput_eq (g : Graph S) (d : Vec S) (i : InputId) :
    g.placeInput ((g.input i).position + d) i = g.modifyInput i (·.moved d) := by
  have hinputs : g.inputs.modify i.index
      (fun input => { input with position := (g.input i).position + d }) =
        g.inputs.modify i.index (·.moved d) := by
    apply Array.ext_getElem?
    intro k
    rw [Array.getElem?_modify, Array.getElem?_modify]
    split
    case isTrue hik =>
      subst hik
      cases hinput : g.inputs[i.index]? with
      | none => rfl
      | some input =>
        have hread : g.input i = input := by
          rw [Graph.input, Array.getD_eq_getD_getElem?, hinput]
          rfl
        rw [hread]
        rfl
    case isFalse => rfl
  rw [placeInput, modifyInput, hinputs, modifyInput]

theorem placeInput_moves (g : Graph S) (d : Vec S) (i : InputId) :
    Moves d [] [i] [] g (g.placeInput ((g.input i).position + d) i) := by
  rw [placeInput_eq]
  refine ⟨fun _ => Option.map_id_apply.symm, fun k => ?_, fun _ => Option.map_id_apply.symm⟩
  cases i
  simp only [List.count_singleton, beq_iff_eq, InputId.mk.injEq]
  exact getElem?_modify_iterate ..

theorem shiftMerges_moves (d : Vec S) (ms : List MergeId) (g : Graph S) :
    Moves d [] [] ms g (ms.foldl (·.shiftMerge d) g) := by
  induction ms generalizing g with
  | nil => exact .refl d g
  | cons m ms ih => exact (shiftMerge_moves g d m).trans (ih _)

end Graph

open LambdaDiagram.Graph

/-! ## Moving a nest -/

mutual

/-- A nest is moved by moving each of its nodes as often as it lists it. -/
theorem Nest.Shows.move_moves {g₀ : Graph ℝ} (d : Vec ℝ) : {n : Nest} → n.Shows g₀ →
    {g : Graph ℝ} → g₀.Alike g →
    Moves d n.groups (g₀.inputsOf n.groups) (g₀.mergesOf n.groups) g (n.move g d)
  | .group id anchors subgroups, ⟨hinputs, _, ha, hs⟩, g, hg => by
    let shifted := g.shiftGroup d id
    let here := (shifted.group id).merges.foldl (·.shiftMerge d) shifted
    have hshift : Moves d [id] [] [] g shifted := shiftGroup_moves g d id
    have hlike : g₀.Alike shifted := hg.trans (modifyGroup_alike fun _ => rfl)
    have hmerges : (shifted.group id).merges = (g₀.group id).merges :=
      congrArg Content.merges (congrFun hlike.content id)
    have hhere : Moves d [] [] (g₀.group id).merges shifted here :=
      hmerges ▸ shiftMerges_moves d (shifted.group id).merges shifted
    have hchanges : g₀.Changes [] [] shifted here := shiftMerges_changes _ _ d
    have hanchors := ha.move_moves d (hlike.trans hchanges.alike)
    have hsubgroups := hs.move_moves d
      ((hlike.trans hchanges.alike).trans (ha.move_changes here d).alike)
    have hall : Moves d (id :: (anchors.groups ++ subgroups.groups))
        (anchors.own ++ g₀.inputsOf anchors.groups ++ g₀.inputsOf subgroups.groups)
        ((g₀.group id).merges ++ (g₀.mergesOf anchors.groups ++ g₀.mergesOf subgroups.groups)) g
        (subgroups.move (anchors.move here d) d) :=
      (hshift.trans hhere).trans (hanchors.trans hsubgroups)
    rw [Nest.move, Nest.groups, inputsOf_cons, inputsOf_append, mergesOf_cons, mergesOf_append,
      ← hinputs]
    -- the nest lists its sub-groups first, but they are moved last
    refine hall.perm (List.perm_append_comm.cons id) ?_ (List.perm_append_comm.append_left _)
    rw [List.append_assoc]
    exact List.perm_append_comm.append_left _

theorem Anchors.Shows.move_moves {g₀ : Graph ℝ} (d : Vec ℝ) : {as : Anchors} → as.Shows g₀ →
    {g : Graph ℝ} → g₀.Alike g →
    Moves d as.groups (as.own ++ g₀.inputsOf as.groups) (g₀.mergesOf as.groups) g (as.move g d)
  | .nil, _, g, _ => .refl d g
  | .bare id rest, h, g, hg => by
    have hplace := placeInput_moves g d id
    have hlike : g₀.Alike (g.placeInput ((g.input id).position + d) id) :=
      hg.trans (modifyInput_alike (fun _ => rfl) fun _ => rfl)
    exact hplace.trans (h.2.move_moves d hlike)
  | .hosting id hosted rest, h, g, hg => by
    let placed := g.placeInput ((g.input id).position + d) id
    have hplace : Moves d [] [id] [] g placed := placeInput_moves g d id
    have hlike : g₀.Alike placed := hg.trans (modifyInput_alike (fun _ => rfl) fun _ => rfl)
    have hhosted := h.2.1.move_moves d hlike
    have hrest := h.2.2.move_moves d (hlike.trans (hosted.move_alike placed d))
    have hall : Moves d (hosted.groups ++ rest.groups)
        (id :: (g₀.inputsOf hosted.groups ++ (rest.own ++ g₀.inputsOf rest.groups)))
        (g₀.mergesOf hosted.groups ++ g₀.mergesOf rest.groups) g
        (rest.move (hosted.move placed d) d) := hplace.trans (hhosted.trans hrest)
    rw [Anchors.move, Anchors.groups, Anchors.own, add_sub_cancel_left, inputsOf_append,
      mergesOf_append]
    refine hall.perm List.perm_append_comm (List.Perm.cons id ?_) List.perm_append_comm
    exact (List.perm_append_comm_assoc ..).trans
      (List.perm_append_comm.append_left _)

theorem Nests.Shows.move_moves {g₀ : Graph ℝ} (d : Vec ℝ) : {ns : Nests} → ns.Shows g₀ →
    {g : Graph ℝ} → g₀.Alike g →
    Moves d ns.groups (g₀.inputsOf ns.groups) (g₀.mergesOf ns.groups) g (ns.move g d)
  | .nil, _, g, _ => .refl d g
  | .cons n rest, h, g, hg => by
    have hhead := h.1.move_moves d hg
    have hrest := h.2.move_moves d (hg.trans (n.move_alike g d))
    rw [Nests.move, Nests.groups, inputsOf_append, mergesOf_append]
    exact (hhead.trans hrest).perm List.perm_append_comm List.perm_append_comm List.perm_append_comm

end

namespace Graph

/-! ## Moving a nest in which everything has one place -/

/-- A group and its inputs have been moved. -/
def Shifted (g₀ : Graph S) (d : Vec S) (g g' : Graph S) (x : GroupId) : Prop :=
  g'.group x = (g.group x).moved d ∧ ∀ i ∈ (g₀.group x).inputs, g'.input i = (g.input i).moved d

theorem Tidy.nodup_inputsOf {g : Graph S} {xs : List GroupId} (hg : g.Tidy) (hxs : xs.Nodup)
    (hlive : xs ⊆ g.liveGroups) : (g.inputsOf xs).Nodup :=
  nodup_flatMap_of_apart hxs (fun x hx => hg.inputs x (hlive hx)) fun x hx y hy =>
    hg.owner x (hlive hx) y (hlive hy)

end Graph

/-- Every group of a nest that fits is moved with its inputs. -/
theorem Nest.Fits.move_shifted {g₀ g : Graph ℝ} {n : Nest} (hg : g₀.Tidy) (d : Vec ℝ)
    (h : n.Fits g₀) (ha : g₀.Alike g) : ∀ x ∈ n.groups, g₀.Shifted d g (n.move g d) x := by
  have hmoves := h.shows.move_moves d ha
  have hinputs := hg.nodup_inputsOf h.nodup h.live
  intro x hx
  have hlive := h.live hx
  refine ⟨hmoves.group (List.count_eq_one_of_mem h.nodup hx) ?_, fun i hi =>
    hmoves.input (List.count_eq_one_of_mem hinputs (List.mem_flatMap.2 ⟨x, hx, hi⟩)) ?_⟩
  · rw [ha.groups_size]
    exact hg.groups_lt x hlive
  · rw [ha.inputs_size]
    exact hg.inputs_lt x hlive i hi

end LambdaDiagram
