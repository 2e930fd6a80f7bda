import LambdaDiagram.Proofs.Containment
import LambdaDiagram.Proofs.RigidMotion

/-!
Moving a group moves what lies in it once. With exact numbers a nest is moved by moving each of its
nodes as often as the nest lists it; where containment is a tree that is once for what lies in the
group, and nothing else moves. So one move after another is one by the sum, and moves can be undone.
-/

namespace LambdaDiagram

variable {S : Type} [Scalar S]

/-! ## Moving twice -/

section

variable (d e : Vec ℝ)

theorem Group.moved_moved (group : Group ℝ) : (group.moved d).moved e = group.moved (d + e) := by
  simp only [Group.moved, add_assoc]

theorem Input.moved_moved (input : Input ℝ) : (input.moved d).moved e = input.moved (d + e) := by
  simp only [Input.moved, add_assoc]

theorem Merge.moved_moved (merge : Merge ℝ) : (merge.moved d).moved e = merge.moved (d + e) := by
  simp only [Merge.moved, add_assoc]

end

namespace Graph

omit [Scalar S] in
theorem eq_of_getElem? {g g' : Graph S} (hgroups : ∀ k : Nat, g.groups[k]? = g'.groups[k]?)
    (hinputs : ∀ k : Nat, g.inputs[k]? = g'.inputs[k]?)
    (hmerges : ∀ k : Nat, g.merges[k]? = g'.merges[k]?) : g = g' := by
  cases g
  cases g'
  congr
  · exact Array.ext_getElem? hgroups
  · exact Array.ext_getElem? hinputs
  · exact Array.ext_getElem? hmerges

variable {g g' g'' : Graph S} {d : Vec S} {xs : List GroupId} {is : List InputId}
  {ms : List MergeId}

theorem map_iterate_iterate {α : Type} {f f' f'' : α → α} (h : ∀ a, f' (f a) = f'' a)
    (h' : ∀ a, f (f' a) = f'' a) (n : Nat) (a : Option α) :
    (a.map f^[n]).map f'^[n] = a.map f''^[n] := by
  have hcommute : Function.Commute f' f := fun a => (h a).trans (h' a).symm
  have hsum : f' ∘ f = f'' := funext h
  rw [Option.map_map, ← hcommute.comp_iterate, hsum]

namespace Moves

/-- Moving nodes by one vector and then by another is moving them by the sum. -/
theorem add {d e : Vec ℝ} {g g' g'' : Graph ℝ} (h : Moves d xs is ms g g')
    (h' : Moves e xs is ms g' g'') : Moves (d + e) xs is ms g g'' where
  groups k := by
    rw [h'.groups, h.groups]
    exact map_iterate_iterate (fun group => group.moved_moved d e)
      (fun group => add_comm d e ▸ group.moved_moved e d) ..
  inputs k := by
    rw [h'.inputs, h.inputs]
    exact map_iterate_iterate (fun input => input.moved_moved d e)
      (fun input => add_comm d e ▸ input.moved_moved e d) ..
  merges k := by
    rw [h'.merges, h.merges]
    exact map_iterate_iterate (fun merge => merge.moved_moved d e)
      (fun merge => add_comm d e ▸ merge.moved_moved e d) ..

theorem unique (h : Moves d xs is ms g g') (h' : Moves d xs is ms g g'') : g' = g'' := by
  refine eq_of_getElem? (fun k => ?_) (fun k => ?_) fun k => ?_
  · rw [h.groups, h'.groups]
  · rw [h.inputs, h'.inputs]
  · rw [h.merges, h'.merges]

end Moves

/-- An input that is not moved may as well be put elsewhere first. -/
theorem Moves.placeInput {i : InputId} (h : Moves d xs is ms g g') (hi : i ∉ is)
    (position : Vec S) :
    Moves d xs is ms (g.placeInput position i) (g'.placeInput position i) where
  groups := h.groups
  inputs k := by
    unfold Graph.placeInput modifyInput
    rw [Array.getElem?_modify, Array.getElem?_modify, h.inputs]
    split
    case isTrue hik =>
      rw [show (⟨k⟩ : InputId) = i from congrArg InputId.mk hik.symm,
        List.count_eq_zero_of_not_mem hi]
      simp only [Function.iterate_zero, Option.map_id_fun, id_eq]
    case isFalse => rfl
  merges := h.merges

/-! ## Moving what lies in a group -/

open Classical in
/-- The graph in which a group, its output and all that lies in it have been moved, and nothing
else. -/
noncomputable def movedInside (g : Graph ℝ) (x : GroupId) (d : Vec ℝ) : Graph ℝ where
  groups := g.groups.mapIdx fun k group => if g.Inside x ⟨k⟩ then group.moved d else group
  inputs := g.inputs.mapIdx fun k input => if g.InputInside x ⟨k⟩ then input.moved d else input
  merges := g.merges.mapIdx fun k merge => if g.MergeInside x ⟨k⟩ then merge.moved d else merge

/-- What is listed once is moved once. -/
theorem iterate_count {α β : Type} [DecidableEq β] {l : List β} (hl : l.Nodup) (b : β)
    (p : Prop) [Decidable p] (hp : b ∈ l ↔ p) (f : α → α) :
    f^[l.count b] = fun a => if p then f a else a := by
  funext a
  split
  case isTrue h => rw [List.count_eq_one_of_mem hl (hp.2 h), Function.iterate_one]
  case isFalse h => rw [List.count_eq_zero_of_not_mem (mt hp.1 h), Function.iterate_zero_apply]

variable {g g' g'' : Graph ℝ} {x y : GroupId} {i : InputId} {m : MergeId}

theorem move_alike (g : Graph ℝ) (x : GroupId) (d : Vec ℝ) : g.Alike (g.move x d) :=
  (g.nest x).move_alike g d

namespace TreeBelow

variable (h : g.TreeBelow x)

include h

theorem mem_inputsOf : i ∈ g.inputsOf (g.nest x).groups ↔ g.InputInside x i := by
  simp only [inputsOf, List.mem_flatMap, h.acyclic.mem_groups_iff]
  rfl

theorem mem_mergesOf : m ∈ g.mergesOf (g.nest x).groups ↔ g.MergeInside x m := by
  simp only [mergesOf, List.mem_flatMap, h.acyclic.mem_groups_iff]
  rfl

theorem move_moves (d : Vec ℝ) : Moves d (g.nest x).groups (g.inputsOf (g.nest x).groups)
    (g.mergesOf (g.nest x).groups) g (g.move x d) :=
  h.acyclic.shows_nest.move_moves d (.refl g)

theorem move_eq (d : Vec ℝ) : g.move x d = g.movedInside x d := by
  classical
  have hmoves := h.move_moves d
  have hgroups := h.nodup_groups
  have hinside : ∀ y ∈ (g.nest x).groups, g.Inside x y := fun y => h.acyclic.mem_groups_iff.1
  have hinputs : (g.inputsOf (g.nest x).groups).Nodup := h.inputs.nodup_flatMap hgroups hinside
  have hmerges : (g.mergesOf (g.nest x).groups).Nodup := h.merges.nodup_flatMap hgroups hinside
  refine eq_of_getElem? (fun k => ?_) (fun k => ?_) fun k => ?_
  · rw [hmoves.groups, movedInside, Array.getElem?_mapIdx,
      iterate_count hgroups _ _ h.acyclic.mem_groups_iff]
  · rw [hmoves.inputs, movedInside, Array.getElem?_mapIdx,
      iterate_count hinputs _ _ h.mem_inputsOf]
  · rw [hmoves.merges, movedInside, Array.getElem?_mapIdx,
      iterate_count hmerges _ _ h.mem_mergesOf]

/-- Two moves are one by the sum. -/
theorem move_move (d e : Vec ℝ) : (g.move x d).move x e = g.move x (d + e) := by
  have hlike := g.move_alike x d
  have hsecond := h.acyclic.shows_nest.move_moves e hlike
  have hsum := (h.move_moves d).add hsecond
  rw [move, hlike.nest_eq]
  exact hsum.unique (h.move_moves (d + e))

/-- A move back undoes a move. -/
theorem move_move_neg (d : Vec ℝ) : (g.move x d).move x (-d) = g := by
  rw [h.move_move, h.move_eq, add_neg_cancel]
  refine eq_of_getElem? (fun k => ?_) (fun k => ?_) fun k => ?_
  · simp [movedInside, Group.moved]
  · simp [movedInside, Input.moved]
  · simp [movedInside, Merge.moved]

/-- An input that hosts a group does not lie in it. -/
theorem not_inputInside (hi : (g.input i).hosted = some x) : ¬ g.InputInside x i := by
  rintro ⟨y, hxy, hy⟩
  exact h.acyclic x .refl (.tail' hxy (.inr ⟨i, hy, hi⟩))

/-- An input is put somewhere together with the group that it hosts. -/
theorem moveInput_eq (hi : (g.input i).hosted = some x) (p : Vec ℝ) :
    g.moveInput i p = (g.move x (p - (g.input i).position)).placeInput p i := by
  have hlike : g.Alike (g.placeInput p i) := modifyInput_alike (fun _ => rfl) fun _ => rfl
  have hafter := h.acyclic.shows_nest.move_moves (p - (g.input i).position) hlike
  have hbefore := (h.move_moves (p - (g.input i).position)).placeInput
    (mt h.mem_inputsOf.1 (h.not_inputInside hi)) p
  simp only [moveInput, hi]
  exact hafter.unique hbefore

end TreeBelow

/-- Moving a group moves what lies in it once. Where containment below the group is a tree, its
output, the groups in it with their outputs, their merges and their inputs are moved by the vector
and nothing else changes. So two moves are one by the sum, a move back undoes a move, and to put an
input that lies there somewhere is to put its point there and to move what it hosts by as much. -/
theorem moves_everything_once (h : g.TreeBelow x) :
    (∀ d, g.move x d = g.movedInside x d) ∧
    (∀ d e, (g.move x d).move x e = g.move x (d + e)) ∧
    (∀ d, (g.move x d).move x (-d) = g) ∧
    ∀ i p, ((g.input i).hosted = none → g.moveInput i p = g.placeInput p i) ∧
      ∀ y, (g.input i).hosted = some y → g.Inside x y →
        g.moveInput i p = (g.move y (p - (g.input i).position)).placeInput p i := by
  refine ⟨h.move_eq, h.move_move, h.move_move_neg, fun i p => ⟨fun hi => ?_, fun y hi hy => ?_⟩⟩
  · simp only [moveInput, hi]
  · exact (h.of_inside hy).moveInput_eq hi p

/-- In the drawing of a group with a group in it and a group for its input, the root is moved and
moved back. -/
theorem moves_everything_once_nested :
    ∃ g : Graph ℝ,
      ofChain? (.ofTerms (.group ['x'] (.last (.group ['y'] (.last (.var 'y')))))
        [.group ['z'] (.last (.var 'z'))]) = .ok g ∧
      g.TreeBelow root ∧ ∀ d, g.move root d = g.movedInside root d ∧
        (g.move root d).move root (-d) = g := by
  obtain ⟨g, first, others, hg, hforest, -⟩ := exists_forest (S := ℝ) ['x']
    (.last (.group ['y'] (.last (.var 'y')))) [.group ['z'] (.last (.var 'z'))]
  have htree := hforest.treeBelow
  obtain ⟨hmove, -, hback, -⟩ := moves_everything_once htree
  exact ⟨g, hg, htree, fun d => ⟨hmove d, hback d⟩⟩

end Graph

end LambdaDiagram
