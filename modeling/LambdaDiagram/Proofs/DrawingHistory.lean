import LambdaDiagram.Drawing

/-!
What a drawing goes through: its text is edited, and it is laid out tick by tick. An edit that can
be drawn starts the drawing over, whatever came before it; one that cannot touches nothing that is
laid out. What is seen at the end goes back to the last text that could be drawn and to the number
of ticks since.
-/

namespace LambdaDiagram

/-- A step of what a drawing goes through. -/
inductive Drawing.Step where
  | edit (text : String)
  | tick
deriving DecidableEq, Repr

namespace Drawing

variable {S : Type} [Scalar S]

/-- A drawing after one step. -/
def perform (e : Engine S) (d : Drawing S) : Step → Drawing S
  | .edit text => (d.setText text).1
  | .tick => d.tick e

/-- A drawing after some steps. -/
def follow (e : Engine S) (d : Drawing S) (steps : List Step) : Drawing S :=
  steps.foldl (perform e) d

/-! ## One edit -/

section

variable {text : String}

theorem ofText?_eq_ok_iff {d : Drawing S} :
    ofText? text = .ok d ↔ ∃ g, Graph.ofText? text = .ok g ∧ d = ⟨text, g, false⟩ := by
  unfold ofText? setText
  cases Graph.ofText? (S := S) text <;> simp [eq_comm]

theorem ofText?_eq_error_iff {error : DrawingError} :
    ofText? (S := S) text = .error error ↔ Graph.ofText? (S := S) text = .error error := by
  unfold ofText? setText
  cases Graph.ofText? (S := S) text <;> simp

/-- An edit to a text that can be drawn forgets what the drawing was. -/
theorem setText_of_ok {d' : Drawing S} (h : ofText? text = .ok d') (d : Drawing S) :
    d.setText text = (d', none) := by
  obtain ⟨g, hg, rfl⟩ := ofText?_eq_ok_iff.1 h
  rw [setText, hg]

/-- An edit to a text that cannot be drawn keeps the graph. -/
theorem setText_of_error {error : DrawingError} (h : ofText? (S := S) text = .error error)
    (d : Drawing S) : d.setText text = (⟨text, d.graph, true⟩, some error) := by
  rw [setText, ofText?_eq_error_iff.1 h]

end

/-! ## Many steps -/

section

variable {e : Engine S} {d : Drawing S} {steps : List Step}

theorem follow_cons (step : Step) :
    d.follow e (step :: steps) = (d.perform e step).follow e steps := rfl

theorem follow_append (before after : List Step) :
    d.follow e (before ++ after) = (d.follow e before).follow e after :=
  List.foldl_append

theorem graph_run (n : Nat) : (d.run e n).graph = e.run d.graph n := by
  induction n generalizing d with
  | zero => rfl
  | succ n ih => exact ih

/-- Without a text that can be drawn, a drawing is only laid out. -/
theorem graph_follow_of_refused
    (h : ∀ text, .edit text ∈ steps → ∃ error, ofText? (S := S) text = .error error) :
    (d.follow e steps).graph = e.run d.graph (steps.count .tick) := by
  induction steps generalizing d with
  | nil => rfl
  | cons step steps ih =>
    rw [follow_cons, ih fun text hm => h text (List.mem_cons_of_mem step hm)]
    cases step with
    | tick =>
      rw [List.count_cons_self]
      rfl
    | edit text =>
      obtain ⟨error, herror⟩ := h text List.mem_cons_self
      rw [List.count_cons_of_ne (show Step.edit text ≠ .tick from nofun), perform,
        setText_of_error herror]

/-- Laying out a drawing does not decide whether its text can be drawn. -/
theorem invalid_follow_of_ticks (h : ∀ step ∈ steps, step = .tick) :
    (d.follow e steps).invalid = d.invalid := by
  induction steps generalizing d with
  | nil => rfl
  | cons step steps ih =>
    obtain ⟨rfl, hsteps⟩ := List.forall_mem_cons.1 h
    rw [follow_cons, ih hsteps]
    rfl

end

/-- Steps are ticks only, or have a last edit. -/
theorem ticks_or_exists_edit (steps : List Step) :
    (∀ step ∈ steps, step = .tick) ∨ ∃ before text after,
      steps = before ++ .edit text :: after ∧ ∀ step ∈ after, step = .tick := by
  induction steps with
  | nil => exact .inl nofun
  | cons step steps ih =>
    rcases ih with hticks | ⟨before, text, after, rfl, hticks⟩
    · cases step with
      | tick => exact .inl (List.forall_mem_cons.2 ⟨rfl, hticks⟩)
      | edit text => exact .inr ⟨[], text, steps, rfl, hticks⟩
    · exact .inr ⟨step :: before, text, after, rfl, hticks⟩

/-- A drawing that was valid is invalid just when the last edit since could not be drawn. -/
theorem invalid_follow_iff {e : Engine S} {d : Drawing S} {steps : List Step}
    (hvalid : d.invalid = false) :
    (d.follow e steps).invalid = true ↔ ∃ before text error after,
      steps = before ++ .edit text :: after ∧ ofText? (S := S) text = .error error ∧
        ∀ step ∈ after, step = .tick := by
  have hlast : ∀ before text after, (∀ step ∈ after, step = .tick) →
      (d.follow e (before ++ .edit text :: after)).invalid =
        ((d.follow e before).setText text).1.invalid := by
    intro before text after hticks
    rw [follow_append, follow_cons, invalid_follow_of_ticks hticks]
    rfl
  constructor
  · intro h
    rcases ticks_or_exists_edit steps with hticks | ⟨before, text, after, rfl, hticks⟩
    · rw [invalid_follow_of_ticks hticks, hvalid] at h
      cases h
    · rw [hlast before text after hticks] at h
      cases hd : ofText? (S := S) text with
      | error error => exact ⟨before, text, error, after, rfl, hd, hticks⟩
      | ok d' =>
        obtain ⟨g, -, rfl⟩ := ofText?_eq_ok_iff.1 hd
        rw [setText_of_ok hd] at h
        cases h
  · rintro ⟨before, text, error, after, rfl, hd, hticks⟩
    rw [hlast before text after hticks, setText_of_error hd]

end Drawing

end LambdaDiagram
