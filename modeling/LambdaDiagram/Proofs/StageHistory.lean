import LambdaDiagram.Proofs.DrawingHistory
import LambdaDiagram.Stage
import Mathlib.Data.List.Range

/-!
What a stage goes through: drawings come and go, are edited by their numbers, and are laid out
together. Numbers are issued in order, so a number always means the drawing that it was issued for;
and what befalls that drawing is what would befall it alone, its own edits and the common ticks.
-/

namespace LambdaDiagram.Stage

variable {S : Type}

/-- A step of what a stage goes through. -/
inductive Step (S : Type) where
  | add (d : Drawing S)
  | remove (id : DrawingId)
  | edit (id : DrawingId) (text : String)
  | tick
  | frame

/-- What a step does to the drawing of a number. -/
def Step.own (id : DrawingId) : Step S → Option Drawing.Step
  | .edit i text => if i = id then some (.edit text) else none
  | .tick | .frame => some .tick
  | .add _ | .remove _ => none

section

variable [Scalar S]

/-- A stage after one step. -/
def perform (s : Stage S) : Step S → Stage S
  | .add d => (s.add d).1
  | .remove id => (s.remove id).1
  | .edit id text => (s.setText id text).1
  | .tick => s.tick
  | .frame => s.frame.1

/-- A stage after some steps. -/
def follow (s : Stage S) (steps : List (Step S)) : Stage S := steps.foldl perform s

/-- The number that a step issues. -/
def issue? (s : Stage S) : Step S → Option DrawingId
  | .add d => some (s.add d).2
  | _ => none

/-- The numbers that some steps issue, in order. -/
def issued (s : Stage S) : List (Step S) → List DrawingId
  | [] => []
  | step :: steps => (s.issue? step).toList ++ (s.perform step).issued steps

theorem follow_cons (s : Stage S) (step : Step S) (steps : List (Step S)) :
    s.follow (step :: steps) = (s.perform step).follow steps := rfl

theorem follow_append (s : Stage S) (before after : List (Step S)) :
    s.follow (before ++ after) = (s.follow before).follow after :=
  List.foldl_append

end

/-! ## The drawing of a number -/

section

variable {s : Stage S} {id : DrawingId} {d : Drawing S}

/-- Looking up a number in drawings that are changed in place. -/
theorem lookup_map (f : DrawingId → Drawing S → Drawing S) (ds : List (DrawingId × Drawing S)) :
    (ds.map fun p => (p.1, f p.1 p.2)).lookup id = (ds.lookup id).map (f id) := by
  induction ds with
  | nil => rfl
  | cons p ds ih =>
    obtain ⟨j, d⟩ := p
    rw [List.map_cons, List.lookup_cons, List.lookup_cons, ih]
    cases h : id == j with
    | false => rfl
    | true => rw [eq_of_beq h]; rfl

/-- Looking up a number after another is taken off. -/
theorem lookup_eraseP {i : DrawingId} (h : i ≠ id) (ds : List (DrawingId × Drawing S)) :
    (ds.eraseP (·.1 = i)).lookup id = ds.lookup id := by
  induction ds with
  | nil => rfl
  | cons p ds ih =>
    obtain ⟨j, d⟩ := p
    rw [List.eraseP_cons]
    by_cases hj : j = i
    · have hne : (id == j) = false := by simp [hj, h.symm]
      rw [decide_eq_true hj, cond_true, List.lookup_cons, hne]
    · rw [decide_eq_false hj, cond_false, List.lookup_cons, List.lookup_cons, ih]

theorem drawings_modify (i : DrawingId) (f : Drawing S → Drawing S) : (s.modify i f).drawings =
    s.drawings.map fun p => (p.1, if p.1 = i then f p.2 else p.2) := by
  refine List.map_congr_left fun p _ => ?_
  by_cases h : p.1 = i <;> simp [h]

theorem get?_modify (i : DrawingId) (f : Drawing S → Drawing S) :
    (s.modify i f).get? id = if i = id then (s.get? id).map f else s.get? id := by
  rw [get?, drawings_modify, lookup_map fun j d => if j = i then f d else d, get?]
  by_cases h : i = id
  · simp [h]
  · have hne : ¬ id = i := fun he => h he.symm
    simp [h, hne]

theorem get?_remove {i : DrawingId} (h : i ≠ id) : (s.remove i).1.get? id = s.get? id :=
  lookup_eraseP h s.drawings

theorem get?_add_of_eq_some (h : s.get? id = some d) (d' : Drawing S) :
    (s.add d').1.get? id = some d := by
  unfold get? at h
  rw [get?, add, List.lookup_append, h, Option.some_or]

theorem mem_ids_of_get? (h : s.get? id = some d) : id ∈ s.ids := by
  obtain ⟨before, after, hds, -⟩ := List.lookup_eq_some_iff.1 h
  rw [ids, hds]
  simp

variable [Scalar S]

theorem get?_tick : s.tick.get? id = (s.get? id).map (·.tick s.engine) :=
  lookup_map (fun _ d => d.tick s.engine) s.drawings

theorem get?_setText (i : DrawingId) (text : String) : (s.setText i text).1.get? id =
    if i = id then (s.get? id).map fun d => (d.setText text).1 else s.get? id := by
  unfold setText
  cases hi : s.get? i with
  | none =>
    by_cases h : i = id
    · subst h
      simp [hi]
    · simp [h]
  | some d' =>
    simp only [get?_modify]
    by_cases h : i = id
    · subst h
      simp [hi]
    · simp [h]

/-- A step does to a drawing what it does to its number, unless it takes the drawing off. -/
theorem get?_perform (h : s.get? id = some d) {step : Step S} (hr : step ≠ .remove id) :
    (s.perform step).get? id = some (d.follow s.engine (step.own id).toList) := by
  cases step with
  | add d' => exact get?_add_of_eq_some h d'
  | remove i =>
    have hne : i ≠ id := fun he => hr (congrArg Step.remove he)
    exact (get?_remove hne).trans h
  | edit i text =>
    rw [perform, get?_setText, h, Step.own]
    by_cases hi : i = id <;> simp only [hi, if_true, if_false] <;> rfl
  | tick | frame =>
    refine get?_tick.trans ?_
    rw [h]
    rfl

theorem engine_perform (s : Stage S) (step : Step S) : (s.perform step).engine = s.engine := by
  cases step with
  | edit id text =>
    rw [perform, setText]
    cases s.get? id <;> rfl
  | add | remove | tick | frame => rfl

theorem engine_follow (s : Stage S) (steps : List (Step S)) :
    (s.follow steps).engine = s.engine := by
  induction steps generalizing s with
  | nil => rfl
  | cons step steps ih => rw [follow_cons, ih, engine_perform]

/-- As long as it is not taken off, a drawing goes through its own steps. -/
theorem get?_follow {s : Stage S} {id : DrawingId} {d : Drawing S} {steps : List (Step S)}
    (h : s.get? id = some d) (hr : .remove id ∉ steps) :
    (s.follow steps).get? id = some (d.follow s.engine (steps.filterMap (Step.own id))) := by
  induction steps generalizing s d with
  | nil => exact h
  | cons step steps ih =>
    have hstep := get?_perform h (List.ne_of_not_mem_cons hr).symm
    have hown : (step :: steps).filterMap (Step.own id) =
        (step.own id).toList ++ steps.filterMap (Step.own id) := by
      rw [List.filterMap_cons]
      cases step.own id <;> rfl
    rw [follow_cons, ih hstep (List.not_mem_of_not_mem_cons hr), engine_perform, hown,
      Drawing.follow_append]

end

/-! ## Numbers -/

/-- The numbers on a stage are in order, and were issued before. -/
structure Orderly (s : Stage S) : Prop where
  sorted : s.ids.Pairwise (·.index < ·.index)
  below : ∀ id ∈ s.ids, id.index < s.next

section

variable {s : Stage S} {id : DrawingId}

theorem ids_modify (id : DrawingId) (f : Drawing S → Drawing S) : (s.modify id f).ids = s.ids := by
  rw [ids, drawings_modify, List.map_map]
  rfl

theorem ids_remove (id : DrawingId) : (s.remove id).1.ids = s.ids.erase id := by
  rw [ids, ids, List.erase_eq_eraseP', List.eraseP_map]
  rfl

theorem Orderly.nodup (h : s.Orderly) : s.ids.Nodup := by
  refine h.sorted.imp ?_
  intro i j hlt he
  rw [he] at hlt
  exact Nat.lt_irrefl _ hlt

/-- A number that is issued means the drawing that is added. -/
theorem Orderly.get?_add (h : s.Orderly) (d : Drawing S) :
    (s.add d).1.get? (s.add d).2 = some d := by
  have hnone : s.drawings.lookup ⟨s.next⟩ = none := by
    refine List.lookup_eq_none_iff.2 fun p hp => ?_
    have hlt := h.below p.1 (List.mem_map_of_mem hp)
    rw [bne_iff_ne]
    intro he
    rw [← he] at hlt
    exact Nat.lt_irrefl _ hlt
  rw [get?, add, List.lookup_append, hnone]
  simp

/-- Every drawing is the one of its number. -/
theorem Orderly.get?_of_mem (h : s.Orderly) {d : Drawing S} (hd : (id, d) ∈ s.drawings) :
    s.get? id = some d := by
  obtain ⟨before, after, hds⟩ := List.append_of_mem hd
  refine List.lookup_eq_some_iff.2 ⟨before, after, hds, fun p hp => ?_⟩
  have hsorted := h.sorted
  rw [ids, hds, List.map_append, List.pairwise_append] at hsorted
  have hlt := hsorted.2.2 p.1 (List.mem_map_of_mem hp) id (by simp)
  rw [bne_iff_ne]
  intro he
  rw [he] at hlt
  exact Nat.lt_irrefl _ hlt

variable [Scalar S]

theorem next_perform (s : Stage S) (step : Step S) :
    (s.perform step).next = s.next + (s.issue? step).toList.length := by
  cases step with
  | edit id text =>
    rw [perform, setText]
    cases s.get? id <;> rfl
  | add | remove | tick | frame => rfl

/-- What a step does to the numbers on a stage: a new one comes last. -/
theorem ids_perform (s : Stage S) (step : Step S) : (s.perform step).ids =
    match step with
    | .add _ => s.ids ++ [⟨s.next⟩]
    | .remove id => s.ids.erase id
    | _ => s.ids := by
  cases step with
  | add d => exact List.map_append
  | remove id => exact ids_remove id
  | edit id text =>
    rw [perform, setText]
    cases s.get? id with
    | none => rfl
    | some d => exact ids_modify id _
  | tick | frame => exact List.map_map

theorem Orderly.perform (h : s.Orderly) (step : Step S) : (s.perform step).Orderly := by
  have hnext := next_perform s step
  have hids := ids_perform s step
  -- a step that issues no number can only take one off
  have hsublist : (s.perform step).ids.Sublist s.ids → (s.perform step).Orderly := by
    refine fun hsub => ⟨h.sorted.sublist hsub, fun id hid => ?_⟩
    have hlt := h.below id (hsub.subset hid)
    omega
  cases step with
  | add d =>
    refine ⟨?_, fun id hid => ?_⟩
    · rw [hids, List.pairwise_append]
      refine ⟨h.sorted, List.pairwise_singleton _ _, fun id hid last hlast => ?_⟩
      rw [List.mem_singleton.1 hlast]
      exact h.below id hid
    · show id.index < s.next + 1
      rw [hids, List.mem_append, List.mem_singleton] at hid
      rcases hid with hid | rfl
      · exact Nat.lt_succ_of_lt (h.below id hid)
      · exact Nat.lt_succ_self s.next
  | remove i => exact hsublist (hids ▸ List.erase_sublist)
  | edit | tick | frame => exact hsublist (hids ▸ List.Sublist.refl s.ids)

theorem Orderly.follow (h : s.Orderly) (steps : List (Step S)) : (s.follow steps).Orderly := by
  induction steps generalizing s with
  | nil => exact h
  | cons step steps ih => exact ih (h.perform step)

/-- The numbers after a step are those that were there and are not removed, and one that is
issued. -/
theorem Orderly.mem_ids_perform (h : s.Orderly) {step : Step S} (hid : id ∈ (s.perform step).ids) :
    (∃ d, step = .add d ∧ (s.add d).2 = id) ∨ id ∈ s.ids ∧ step ≠ .remove id := by
  rw [ids_perform] at hid
  cases step with
  | add d =>
    rcases List.mem_append.1 hid with hid | hid
    · exact .inr ⟨hid, nofun⟩
    · exact .inl ⟨d, rfl, (List.mem_singleton.1 hid).symm⟩
  | remove i =>
    obtain ⟨hne, hid⟩ := h.nodup.mem_erase_iff.1 hid
    exact .inr ⟨hid, fun he => hne (Step.remove.inj he).symm⟩
  | edit | tick | frame => exact .inr ⟨hid, nofun⟩

/-- Numbers are issued in order, from the next one on. -/
theorem issued_eq_range (s : Stage S) (steps : List (Step S)) :
    s.issued steps = (List.range' s.next (s.issued steps).length).map .mk := by
  induction steps generalizing s with
  | nil => rfl
  | cons step steps ih =>
    have hrest := ih (s.perform step)
    rw [next_perform] at hrest
    rw [issued, List.length_append, hrest, List.length_map, List.length_range']
    cases step with
    | add d => simp [issue?, add, List.range'_succ, Nat.add_comm 1]
    | remove | edit | tick | frame => simp [issue?]

end

/-! ## Whole histories -/

variable [Scalar S]

section

variable {e : Engine S} {steps : List (Step S)} {id : DrawingId} {d : Drawing S}
  {since : List (Step S)}

theorem orderly_follow_empty (e : Engine S) (steps : List (Step S)) :
    ((empty e).follow steps).Orderly := by
  apply Orderly.follow
  exact ⟨.nil, fun id hid => nomatch hid⟩

/-- A number stands for a drawing: some steps end with adding `d`, which issues `id`, and with
`since`, which do not remove it. -/
structure Standing (e : Engine S) (steps : List (Step S)) (id : DrawingId) (d : Drawing S)
    (since : List (Step S)) : Prop where
  added : ∃ before, steps = before ++ .add d :: since ∧ (((empty e).follow before).add d).2 = id
  kept : .remove id ∉ since

theorem Standing.get?_eq (h : Standing e steps id d since) :
    ((empty e).follow steps).get? id = some (d.follow e (since.filterMap (Step.own id))) := by
  obtain ⟨⟨before, rfl, rfl⟩, hkept⟩ := h
  have hadd := (orderly_follow_empty e before).get?_add d
  rw [follow_append, follow_cons, perform, get?_follow hadd hkept, add, engine_follow]
  rfl

theorem exists_standing (h : id ∈ ((empty e).follow steps).ids) :
    ∃ d since, Standing e steps id d since := by
  induction steps using List.reverseRecOn with
  | nil => cases h
  | append_singleton steps step ih =>
    rw [follow_append] at h
    rcases (orderly_follow_empty e steps).mem_ids_perform h with ⟨d, rfl, hid⟩ | ⟨hold, hr⟩
    · exact ⟨d, [], ⟨steps, rfl, hid⟩, nofun⟩
    · obtain ⟨d, since, ⟨before, rfl, hid⟩, hkept⟩ := ih hold
      refine ⟨d, since ++ [step], ⟨before, by simp, hid⟩, fun hm => ?_⟩
      rcases List.mem_append.1 hm with hm | hm
      · exact hkept hm
      · exact hr (List.mem_singleton.1 hm).symm

/-- A frame shows the drawings by their numbers, each after one tick. -/
theorem Orderly.frame_eq {s : Stage S} (h : s.Orderly) :
    s.frame.2 = s.ids.filterMap fun id => (s.get? id).map fun d => (id, d.tick s.engine) := by
  have hget : ∀ p ∈ s.drawings,
      ((s.get? p.1).map fun d => (p.1, d.tick s.engine)) = some (p.1, p.2.tick s.engine) := by
    intro p hp
    rw [h.get?_of_mem hp, Option.map_some]
  rw [ids, List.filterMap_map, frame, tick]
  exact ((List.filterMap_congr hget).trans (congrFun List.filterMap_eq_map s.drawings)).symm

end

/-- A stage `s` keeps its drawings apart: it is laid out by `e`, was empty at first, and went
through `steps`. -/
structure KeepsApart (e : Engine S) (steps : List (Step S)) (s : Stage S) : Prop where
  /-- Numbers are issued in order, so none is issued twice. -/
  issued : ((empty e).issued steps).Pairwise (·.index < ·.index)
  /-- The numbers on the stage are in order. -/
  ordered : s.ids.Pairwise (·.index < ·.index)
  /-- They are those that were issued and not removed since. -/
  listed : ∀ id, id ∈ s.ids ↔ ∃ d since, Standing e steps id d since
  /-- A frame shows the drawings of these numbers in order, each after one tick. -/
  shown : s.frame.2 = s.ids.filterMap fun id => (s.get? id).map fun d => (id, d.tick e)
  /-- What is shown stays on the stage. -/
  framed : s.frame.1.drawings = s.frame.2
  /-- A drawing is what it would be alone, after its own edits and the common ticks since it was
  added. -/
  alone : ∀ id d since, Standing e steps id d since →
    s.get? id = some (d.follow e (since.filterMap (Step.own id)))

/-- Every stage keeps its drawings apart, whatever it goes through. -/
theorem keeps_apart (e : Engine S) (steps : List (Step S)) :
    KeepsApart e steps ((empty e).follow steps) := by
  have horderly := orderly_follow_empty e steps
  refine ⟨?_, horderly.sorted, fun id => ⟨exists_standing, ?_⟩, ?_, rfl, ?_⟩
  · rw [issued_eq_range, List.pairwise_map]
    exact List.pairwise_lt_range'
  · rintro ⟨d, since, h⟩
    exact mem_ids_of_get? h.get?_eq
  · rw [horderly.frame_eq, engine_follow]
    rfl
  · intro id d since h
    exact h.get?_eq

end LambdaDiagram.Stage
