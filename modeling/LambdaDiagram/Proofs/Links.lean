import LambdaDiagram.Diagram.Growth

/-!
The two ends of a link. A value is held by slots, and the sinks that it goes to are noted where it
comes from. A graph is linked when both ends agree: a value is noted to go to a sink as many times
as slots of the sink hold it. A link is made by filling an empty slot; a group that is held by one
slot is taken out by joining the two links that meet in it.
-/

namespace LambdaDiagram

/-- A place that takes a value: either slot of a merge, or the output of a group. -/
inductive Slot where
  | function (id : MergeId)
  | argument (id : MergeId)
  | producer (id : GroupId)
deriving DecidableEq, Repr

/-- The sink that a slot belongs to. -/
def Slot.sink : Slot → Sink
  | function id => .merge id
  | argument id => .merge id
  | producer id => .output id

@[simp] theorem Slot.sink_function (id : MergeId) : (function id).sink = .merge id := rfl

@[simp] theorem Slot.sink_argument (id : MergeId) : (argument id).sink = .merge id := rfl

@[simp] theorem Slot.sink_producer (id : GroupId) : (producer id).sink = .output id := rfl

/-- The slots of a sink. -/
def Sink.slots : Sink → List Slot
  | merge id => [.function id, .argument id]
  | output id => [.producer id]

theorem Sink.mem_slots {sink : Sink} {slot : Slot} : slot ∈ sink.slots ↔ slot.sink = sink := by
  cases sink <;> cases slot <;> simp [Sink.slots]

theorem Sink.nodup_slots (sink : Sink) : sink.slots.Nodup := by
  cases sink <;> simp [Sink.slots]

/-- How many slots of a sink hold a value, given what each slot holds. -/
def Sink.holding (sink : Sink) (held : Slot → Option Source) (source : Source) : Nat :=
  sink.slots.countP fun slot => held slot = some source

variable {S : Type} [Scalar S]

namespace Graph

/-- What a slot holds. -/
def held (g : Graph S) : Slot → Option Source
  | .function id => (g.merge id).function
  | .argument id => (g.merge id).argument
  | .producer id => (g.group id).output.producer

/-- The sinks that a value is noted to go to. -/
def noted (g : Graph S) : Source → List Sink
  | .input id => (g.input id).usages
  | .merge id => (g.merge id).consumer.toList
  | .output id => (g.group id).output.downstream.toList

/-- Both ends of each link agree: a value is noted to go to a sink once for each slot of the sink
that holds it. -/
def Linked (g : Graph S) : Prop :=
  ∀ source sink, (g.noted source).count sink = sink.holding g.held source

end Graph

/-- Counting after one element has changed sides. -/
theorem countP_change {α : Type} [DecidableEq α] {l : List α} (hl : l.Nodup) {p q : α → Bool}
    {a : α} (h : ∀ b, b ≠ a → p b = q b) :
    l.countP p + (if a ∈ l ∧ q a then 1 else 0) = l.countP q + (if a ∈ l ∧ p a then 1 else 0) := by
  induction l with
  | nil => simp
  | cons b l ih =>
    obtain ⟨hb, hl⟩ := List.nodup_cons.1 hl
    have ih := ih hl
    by_cases hab : a = b
    · subst hab
      simp only [hb, false_and, if_false, Nat.add_zero] at ih
      simp only [List.countP_cons, List.mem_cons_self, true_and, ih]
      omega
    · simp only [List.countP_cons, List.mem_cons, hab, false_or, h b (Ne.symm hab)]
      omega

/-- Counting after one element has been put in the place of another. -/
theorem count_replace {α : Type} [DecidableEq α] (l : List α) {a b : α} (h : a ≠ b) (c : α) :
    (l.map fun x => if x = a then b else x).count c =
      (if c = a then 0 else l.count c) + (if c = b then l.count a else 0) := by
  induction l with
  | nil => simp
  | cons x l ih =>
    simp only [List.map_cons, List.count_cons, ih]
    grind

namespace Sink

variable {sink : Sink} {held held' : Slot → Option Source} {source : Source} {slot : Slot}

theorem holding_pos_iff :
    0 < sink.holding held source ↔ ∃ slot, slot.sink = sink ∧ held slot = some source := by
  simp only [holding, List.countP_pos_iff, Sink.mem_slots, decide_eq_true_eq]

/-- How many slots hold a value after one slot has changed. -/
theorem holding_change (h : ∀ s, s ≠ slot → held' s = held s) (sink : Sink) (source : Source) :
    sink.holding held' source + (if slot.sink = sink ∧ held slot = some source then 1 else 0) =
      sink.holding held source +
        (if slot.sink = sink ∧ held' slot = some source then 1 else 0) := by
  have hc := countP_change sink.nodup_slots (p := fun s => decide (held' s = some source))
    (q := fun s => decide (held s = some source)) (a := slot) (fun s hs => by rw [h s hs])
  simpa only [holding, Sink.mem_slots, decide_eq_true_eq] using hc

/-- How many slots hold a value after one slot has taken over what another held. -/
theorem holding_join {other : Slot} (hne : slot ≠ other)
    (h : ∀ s, held' s = if s = slot then held other else if s = other then none else held s)
    (sink : Sink) (source : Source) :
    sink.holding held' source + (if slot.sink = sink ∧ held slot = some source then 1 else 0) +
        (if other.sink = sink ∧ held other = some source then 1 else 0) =
      sink.holding held source +
        (if slot.sink = sink ∧ held other = some source then 1 else 0) := by
  -- the two slots change one after the other
  let between : Slot → Option Source := fun s => if s = other then none else held s
  have hs : between slot = held slot := if_neg hne
  have ho : between other = none := if_pos rfl
  have hbefore : ∀ s, s ≠ other → between s = held s := fun s hs => if_neg hs
  have hafter : ∀ s, s ≠ slot → held' s = between s := fun s hs => by rw [h, if_neg hs]
  have h₁ := holding_change hbefore sink source
  have h₂ := holding_change hafter sink source
  have hslot : held' slot = held other := by rw [h, if_pos rfl]
  rw [ho] at h₁
  rw [hs, hslot] at h₂
  simp only [reduceCtorEq, and_false, if_false] at h₁
  omega

end Sink

namespace Graph

variable {g g' : Graph S} {slot : Slot} {source : Source} {sink : Sink}

namespace Linked

/-- What a slot holds is noted to go there. -/
theorem sink_mem_noted (hg : g.Linked) (h : g.held slot = some source) :
    slot.sink ∈ g.noted source := by
  rw [← List.count_pos_iff, hg, Sink.holding_pos_iff]
  exact ⟨slot, rfl, h⟩

/-- A sink that a value is noted to go to has a slot that holds it. -/
theorem exists_held (hg : g.Linked) (h : sink ∈ g.noted source) :
    ∃ slot, slot.sink = sink ∧ g.held slot = some source := by
  rwa [← List.count_pos_iff, hg, Sink.holding_pos_iff] at h

/-- Filling an empty slot with a value that is then noted to go there makes a link. -/
theorem fill {value : Option Source} (hg : g.Linked) (hempty : g.held slot = none)
    (hslot : g'.held slot = value) (hheld : ∀ s, s ≠ slot → g'.held s = g.held s)
    (hnoted : ∀ x, g'.noted x =
      if value = some x then g.noted x ++ [slot.sink] else g.noted x) : g'.Linked := by
  intro x sink
  have hc := Sink.holding_change hheld sink x
  have hx := hg x sink
  simp only [hempty, hslot, reduceCtorEq, and_false, if_false, Nat.add_zero] at hc
  rw [hnoted, hc]
  by_cases he : value = some x
  · simp [he, List.count_append, List.count_singleton, hx]
  · simp [he, hx]

/-- A value that is noted to go to one sink at most goes where it is held. -/
theorem noted_eq_singleton (hg : g.Linked) (hlen : (g.noted source).length ≤ 1)
    (h : g.held slot = some source) : g.noted source = [slot.sink] := by
  have hm := hg.sink_mem_noted h
  match hl : g.noted source, hm with
  | [sink], hm => rw [List.mem_singleton.1 hm]
  | _ :: _ :: _, _ => simp [hl] at hlen

/-- A value that is noted to go to one sink at most is held by one slot at most. -/
theorem slot_unique (hg : g.Linked) (hlen : (g.noted source).length ≤ 1) {slot₁ slot₂ : Slot}
    (h₁ : g.held slot₁ = some source) (h₂ : g.held slot₂ = some source) : slot₁ = slot₂ := by
  have hsink : slot₁.sink = slot₂.sink := by
    have hs := hg.noted_eq_singleton hlen h₁
    rw [hg.noted_eq_singleton hlen h₂] at hs
    exact (List.singleton_inj.1 hs).symm
  have hone : slot₁.sink.holding g.held source ≤ 1 := by
    rw [← hg]
    exact Nat.le_trans List.count_le_length hlen
  -- two slots of one sink are the two slots of a merge
  cases slot₁ <;> cases slot₂ <;> simp_all [Sink.holding, Sink.slots]

/-- A group that a slot holds is taken out: the slot takes over what the group's output held, and
that value is noted to go there instead. -/
theorem join (hg : g.Linked) {id : GroupId} (hslot : g.held slot = some (.output id))
    (hne : slot ≠ .producer id)
    (hheld : ∀ s, g'.held s = if s = slot then g.held (.producer id)
      else if s = .producer id then none else g.held s)
    (hnoted : ∀ x, g'.noted x = if x = .output id then []
      else if g.held (.producer id) = some x then
        (g.noted x).map fun sink => if sink = .output id then slot.sink else sink
      else g.noted x)
    (hlen : (g.noted (.output id)).length ≤ 1) : g'.Linked := by
  have hsink : slot.sink ≠ .output id := by
    rintro he
    cases slot <;> simp_all
  have hself : g.held (.producer id) ≠ some (.output id) := fun he =>
    hne (hg.slot_unique hlen hslot he)
  intro x sink
  have hx := hg x sink
  have hj := Sink.holding_join hne hheld sink x
  rw [hslot, Slot.sink_producer] at hj
  rw [hnoted]
  by_cases hid : x = .output id
  · subst hid
    rw [hg.noted_eq_singleton hlen hslot, List.count_singleton] at hx
    simp only [hself, and_false, if_false, and_true, beq_iff_eq] at hj hx
    simp only [if_true, List.count_nil]
    omega
  rw [if_neg hid]
  have hne' : (some (Source.output id) = some x) = False := by simp [Ne.symm hid]
  simp only [hne', and_false, if_false] at hj
  by_cases hpx : g.held (.producer id) = some x
  · have hone : (g.noted x).count (.output id) = 1 := by
      rw [hg]
      simp [Sink.holding, Sink.slots, hpx]
    rw [if_pos hpx, count_replace _ (Ne.symm hsink), hone, hx]
    simp only [hpx, and_true] at hj
    by_cases hs : sink = .output id
    · subst hs
      rw [hone] at hx
      rw [if_pos rfl, if_neg hsink] at hj
      rw [if_pos rfl, if_neg (Ne.symm hsink)]
      omega
    · rw [if_neg (Ne.symm hs)] at hj
      rw [if_neg hs]
      simp only [eq_comm (a := sink)]
      omega
  · simp only [hpx, and_false, if_false] at hj
    rw [if_neg hpx]
    omega

end Linked

end Graph

end LambdaDiagram
