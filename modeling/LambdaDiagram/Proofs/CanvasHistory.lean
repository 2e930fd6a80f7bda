import LambdaDiagram.Canvas
import LambdaDiagram.Proofs.DrawingHistory
import Mathlib.Data.List.Count

/-!
What a canvas goes through, as seen from outside: the answers to its edits, whether it is invalid,
and its document. Each is what drawing a text from scratch gives, whatever edits failed before it
and in between.
-/

namespace LambdaDiagram.Canvas

/-- What is seen of a step: the answer to an edit, or a tick. -/
inductive Event where
  | edited (text : String) (answer : Option String)
  | ticked
deriving DecidableEq, Repr

/-- The step that is seen. -/
def Event.step : Event → Drawing.Step
  | .edited text _ => .edit text
  | .ticked => .tick

/-- A canvas after one step, and what is seen of the step. -/
def perform (c : Canvas) : Drawing.Step → Canvas × Event
  | .edit text => ((c.setText text).1, .edited text (c.setText text).2)
  | .tick => (c.tick, .ticked)

/-- A canvas after some steps. -/
def follow (c : Canvas) (steps : List Drawing.Step) : Canvas :=
  steps.foldl (fun c step => (c.perform step).1) c

/-- What is seen of some steps, in order. -/
def transcript (c : Canvas) : List Drawing.Step → List Event
  | [] => []
  | step :: steps => (c.perform step).2 :: (c.perform step).1.transcript steps

/-! ## What is seen of a step -/

/-- The report of why a text cannot be drawn, if so. -/
def report? (text : String) : Option String :=
  match Drawing.ofText? (S := Float) text with
  | .ok _ => none
  | .error error => some error.message

/-- What is seen of a step of any canvas. -/
def event : Drawing.Step → Event
  | .edit text => .edited text (report? text)
  | .tick => .ticked

theorem step_event (step : Drawing.Step) : (event step).step = step := by
  cases step <;> rfl

theorem event_injective : Function.Injective event :=
  Function.LeftInverse.injective step_event

theorem setText_answer (c : Canvas) (text : String) : (c.setText text).2 = report? text := by
  unfold setText report?
  cases h : Drawing.ofText? (S := Float) text with
  | ok d => rw [Drawing.setText_of_ok h]; rfl
  | error error => rw [Drawing.setText_of_error h]; rfl

/-- What is seen of a step does not depend on the canvas. -/
theorem perform_event (c : Canvas) (step : Drawing.Step) : (c.perform step).2 = event step := by
  cases step with
  | tick => rfl
  | edit text => exact congrArg (Event.edited text) (c.setText_answer text)

theorem transcript_eq_map (c : Canvas) (steps : List Drawing.Step) :
    c.transcript steps = steps.map event := by
  induction steps generalizing c with
  | nil => rfl
  | cons step steps ih => rw [transcript, perform_event, ih, List.map_cons]

theorem drawing_follow (c : Canvas) (steps : List Drawing.Step) :
    (c.follow steps).drawing = c.drawing.follow .standard steps := by
  induction steps generalizing c with
  | nil => rfl
  | cons step steps ih =>
    rw [Drawing.follow_cons, follow, List.foldl_cons]
    refine (ih (c.perform step).1).trans ?_
    cases step <;> rfl

/-! ## Drawing a text from scratch -/

section

variable {text : String}

theorem report?_eq_none_iff : report? text = none ↔
    ∃ d, Drawing.ofText? (S := Float) text = .ok d := by
  unfold report?
  cases Drawing.ofText? (S := Float) text <;> simp

theorem report?_eq_some_iff {report : String} : report? text = some report ↔
    ∃ error, Drawing.ofText? (S := Float) text = .error error ∧ error.message = report := by
  unfold report?
  cases Drawing.ofText? (S := Float) text <;> simp

/-- A text is drawn or reported. -/
theorem renderText_eq_error_iff {report : String} (ticks : Option Nat) :
    renderText text ticks = .error report ↔ report? text = some report := by
  rw [report?_eq_some_iff]
  unfold renderText
  cases Drawing.ofText? (S := Float) text <;> simp

theorem exists_renderText_iff (ticks : Option Nat) :
    (∃ svg, renderText text ticks = .ok svg) ↔ report? text = none := by
  rw [report?_eq_none_iff]
  unfold renderText
  cases Drawing.ofText? (S := Float) text <;> simp

end

/-- A step that is seen is one that was taken. -/
theorem exists_of_map_event {steps : List Drawing.Step} {before after : List Event} {seen : Event}
    (h : steps.map event = before ++ seen :: after) :
    ∃ earlier later, steps = earlier ++ seen.step :: later ∧ earlier.map event = before ∧
      event seen.step = seen ∧ later.map event = after := by
  obtain ⟨earlier, rest, rfl, hearlier, hrest⟩ := List.map_eq_append_iff.1 h
  obtain ⟨step, later, rfl, rfl, hlater⟩ := List.map_eq_cons_iff.1 hrest
  rw [step_event]
  exact ⟨earlier, later, rfl, hearlier, rfl, hlater⟩

theorem count_map_event (steps : List Drawing.Step) :
    (steps.map event).count .ticked = steps.count .tick :=
  List.count_map_of_injective steps event event_injective .tick

/-! ## Whole histories -/

/-- A canvas reflects its history: `events` is what was seen of `steps`, after which it is `c`. -/
structure Reflects (c : Canvas) (steps : List Drawing.Step) (events : List Event) : Prop where
  /-- Every step is seen. -/
  recorded : events.map Event.step = steps
  /-- An edit is answered by nothing when its text is drawn from scratch, and by the report of
  drawing it from scratch when it is not. -/
  answered : ∀ text answer, .edited text answer ∈ events → ∀ ticks,
    (answer = none ↔ ∃ svg, renderText text ticks = .ok svg) ∧
      ∀ report, answer = some report ↔ renderText text ticks = .error report
  /-- A canvas is invalid just when the last edit failed. -/
  invalid : c.isInvalid = true ↔ ∃ before text report after,
    events = before ++ .edited text (some report) :: after ∧ ∀ seen ∈ after, seen = .ticked
  /-- The document is that of the last text that could be drawn, laid out for every tick since. -/
  document : ∀ before text after, events = before ++ .edited text none :: after →
    (∀ later, .edited later none ∉ after) →
      renderText text (some (after.count .ticked)) = .ok c.toSvg
  /-- Without such a text it is that of the empty graph, laid out for every tick. -/
  blank : (∀ text, .edited text none ∉ events) →
    c.toSvg = (Engine.standard.run .empty (events.count .ticked)).toSvg

/-- Where no edit is seen to succeed, none did. -/
theorem refused_of_map_event {steps : List Drawing.Step}
    (h : ∀ text, .edited text none ∉ steps.map event) :
    ∀ text, .edit text ∈ steps → ∃ error, Drawing.ofText? (S := Float) text = .error error := by
  intro text hm
  cases hd : Drawing.ofText? (S := Float) text with
  | error error => exact ⟨error, rfl⟩
  | ok d =>
    have hevent : event (.edit text) = .edited text none := by
      rw [event, report?_eq_none_iff.2 ⟨d, hd⟩]
    refine absurd ?_ (h text)
    rw [← hevent]
    exact List.mem_map_of_mem hm

/-- Without an edit that succeeds a canvas is only laid out. -/
theorem toSvg_follow_of_refused (c : Canvas) {steps : List Drawing.Step}
    (h : ∀ text, .edited text none ∉ steps.map event) :
    (c.follow steps).toSvg =
      (Engine.standard.run c.drawing.graph ((steps.map event).count .ticked)).toSvg := by
  rw [toSvg, drawing_follow, Drawing.graph_follow_of_refused (refused_of_map_event h),
    count_map_event]

/-- From an edit that succeeds on, the document is that of its text, whatever the canvas was. -/
theorem renderText_of_last (c : Canvas) {earlier later : List Drawing.Step} {text : String}
    (htext : report? text = none) (hlast : ∀ text, .edited text none ∉ later.map event) :
    renderText text (some ((later.map event).count .ticked)) =
      .ok (c.follow (earlier ++ .edit text :: later)).toSvg := by
  obtain ⟨d, hd⟩ := report?_eq_none_iff.1 htext
  have hfollow : c.follow (earlier ++ .edit text :: later) =
      ((c.follow earlier).perform (.edit text)).1.follow later := by
    rw [follow, List.foldl_append, List.foldl_cons]
    rfl
  have hdrawing : ((c.follow earlier).perform (.edit text)).1.drawing = d :=
    congrArg Prod.fst (Drawing.setText_of_ok hd (c.follow earlier).drawing)
  rw [renderText, hd, hfollow, toSvg_follow_of_refused _ hlast, hdrawing, ← Drawing.graph_run]
  rfl

/-- A canvas that was valid is invalid just when the last edit that is seen failed. -/
theorem isInvalid_follow_iff {c : Canvas} (hvalid : c.isInvalid = false)
    (steps : List Drawing.Step) : (c.follow steps).isInvalid = true ↔
      ∃ before text report after, steps.map event = before ++ .edited text (some report) :: after ∧
        ∀ seen ∈ after, seen = .ticked := by
  rw [isInvalid, drawing_follow, Drawing.invalid_follow_iff hvalid]
  constructor
  · rintro ⟨before, text, error, after, rfl, hd, hticks⟩
    refine ⟨before.map event, text, error.message, after.map event, ?_, ?_⟩
    · rw [List.map_append, List.map_cons, event, report?_eq_some_iff.2 ⟨error, hd, rfl⟩]
    · intro seen hm
      obtain ⟨step, hstep, rfl⟩ := List.mem_map.1 hm
      rw [hticks step hstep]
      rfl
  · rintro ⟨before, text, report, after, he, hticks⟩
    obtain ⟨earlier, later, rfl, -, hevent, rfl⟩ := exists_of_map_event he
    obtain ⟨error, hd, -⟩ := report?_eq_some_iff.1 (Event.edited.inj hevent).2
    refine ⟨earlier, text, error, later, rfl, hd, fun step hstep => ?_⟩
    exact event_injective (hticks (event step) (List.mem_map_of_mem hstep))

/-- A canvas reflects what it goes through, whatever that is. -/
theorem reflects_history (steps : List Drawing.Step) :
    Reflects (empty.follow steps) steps (empty.transcript steps) := by
  rw [transcript_eq_map]
  refine ⟨?_, ?_, isInvalid_follow_iff rfl steps, ?_, toSvg_follow_of_refused empty⟩
  · rw [List.map_map]
    exact List.map_id'' step_event steps
  · intro text answer hm ticks
    obtain ⟨step, -, hstep⟩ := List.mem_map.1 hm
    cases step with
    | tick => cases hstep
    | edit text' =>
      cases hstep
      exact ⟨(exists_renderText_iff ticks).symm, fun report =>
        (renderText_eq_error_iff ticks).symm⟩
  · intro before text after he hlast
    obtain ⟨earlier, later, rfl, -, hevent, rfl⟩ := exists_of_map_event he
    exact renderText_of_last empty (Event.edited.inj hevent).2 hlast

end LambdaDiagram.Canvas
