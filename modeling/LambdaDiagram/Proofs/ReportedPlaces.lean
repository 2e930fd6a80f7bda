import Mathlib.Data.List.DropRight
import LambdaDiagram.Proofs.Blanks
import LambdaDiagram.Proofs.PrintedDocument

/-!
Where the command line says that a file is wrong. The text of the file is trimmed before it is read,
so the place that is reported is counted from its first character that is no blank: it is the place
in the file, less the blanks that the file begins with.
-/

namespace LambdaDiagram

open Text

/-! ## Blanks around a text -/

/-- How many blanks a text begins with. -/
def leadingBlanks (s : String) : Nat := (s.toList.takeWhile isBlank).length

theorem exists_trimBlanks (s : String) : ∃ after,
    s.toList = s.toList.takeWhile isBlank ++ ((trimBlanks s).toList ++ after) := by
  obtain ⟨after, hafter⟩ := List.rdropWhile_prefix isBlank (s.toList.dropWhile isBlank)
  refine ⟨after, ?_⟩
  have hcore : (trimBlanks s).toList = (s.toList.dropWhile isBlank).rdropWhile isBlank :=
    String.toList_ofList
  rw [hcore, hafter, List.takeWhile_append_dropWhile]

namespace Text

theorem place_append_blanks {before : List Char} (h : ∀ c ∈ before, isBlank c = true)
    (cs : List Char) (k : Nat) : place (before ++ cs) k = before.length + place cs k := by
  induction before with
  | nil => rw [List.nil_append, List.length_nil, Nat.zero_add]
  | cons c before ih =>
    obtain ⟨hc, hbefore⟩ := List.forall_mem_cons.1 h
    rw [List.cons_append, place_blank hc, ih hbefore, List.length_cons, Nat.add_right_comm]

theorem place_append_left {cs : List Char} {k : Nat} (h : k < (dropBlanks cs).length)
    (after : List Char) : place (cs ++ after) k = place cs k := by
  induction cs generalizing k with
  | nil => cases h
  | cons c cs ih =>
    rw [List.cons_append]
    cases hb : isBlank c with
    | true =>
      rw [dropBlanks_blank hb] at h
      rw [place_blank hb, place_blank hb, ih h]
    | false =>
      rw [dropBlanks_cons hb, List.length_cons] at h
      cases k with
      | zero => rw [place_zero hb, place_zero hb]
      | succ k => rw [place_succ hb, place_succ hb, ih (Nat.lt_of_succ_lt_succ h)]

end Text

/-- The characters of a text come as much later than in the trimmed text as the text begins with
blanks. -/
theorem follows_trimBlanks (s : String) :
    Follows (fun k => leadingBlanks s + place (trimBlanks s).toList k) 0 0 s.toList := by
  intro k hk
  obtain ⟨after, hs⟩ := exists_trimBlanks s
  have hblanks : ∀ c ∈ s.toList.takeWhile isBlank, isBlank c = true :=
    fun c => List.mem_takeWhile_imp
  rw [← dropBlanks_trimBlanks] at hk
  rw [Nat.zero_add, Nat.zero_add, hs, place_append_blanks hblanks, place_append_left hk]
  rfl

/-! ## What is wrong with a trimmed text -/

/-- A text comes to what the trimmed text comes to, with the place of what is wrong counted from
the start of the text. -/
theorem Chain.parse_eq_trimBlanks (s : String) :
    Chain.parse s = (Chain.parse (trimBlanks s)).mapError fun e =>
      if e.fault = .emptyInput then e else e.relocate (leadingBlanks s + ·) := by
  have hwhole := Chain.parse_eq_relocate (follows_trimBlanks s)
  have hcore := Chain.parse_eq_relocate (follows_place (trimBlanks s).toList)
  rw [String.ofList_toList] at hwhole hcore
  rw [hwhole, hcore, dropBlanks_trimBlanks]
  cases Chain.parse (String.ofList (dropBlanks s.toList)) with
  | ok ts => simp only [Except.mapError]
  | error e =>
    by_cases he : e.fault = .emptyInput
    · simp only [Except.mapError, he, if_true]
    · simp only [Except.mapError, SyntaxError.relocate, he, if_false]

/-- What is wrong with a trimmed text is what is wrong with the text, at the same character. -/
theorem Chain.parse_trimBlanks_error {s : String} {e : SyntaxError} (h : Chain.parse s = .error e) :
    Chain.parse (trimBlanks s) = .error (e.relocate (· - leadingBlanks s)) ∧
      if e.fault = .emptyInput then e.position = 0 else leadingBlanks s ≤ e.position := by
  have hwhole := Chain.parse_eq_trimBlanks s
  rw [h] at hwhole
  cases hcore : Chain.parse (trimBlanks s) with
  | ok ts =>
    rw [hcore] at hwhole
    cases hwhole
  | error e' =>
    rw [hcore] at hwhole
    obtain rfl := Except.error.inj hwhole
    by_cases hempty : e'.fault = .emptyInput
    · have hzero : e'.position = 0 := ((Chain.fault_of_parse_error hcore).2 hempty).1
      simp only [if_pos hempty, SyntaxError.relocate, hzero, Nat.zero_sub, and_true]
      rw [← hzero]
    · have hplace : leadingBlanks s + e'.position - leadingBlanks s = e'.position :=
        Nat.add_sub_cancel_left ..
      simp only [if_neg hempty, SyntaxError.relocate, hplace, true_and]
      exact Nat.le_add_right ..

/-! ## What is reported -/

theorem Numeral.toString_inj {m n : Nat} : toString m = toString n ↔ m = n := by
  refine ⟨fun h => ?_, congrArg toString⟩
  rw [Nat.toString_eq_ofList_toDigits, Nat.toString_eq_ofList_toDigits, String.ofList_inj] at h
  rw [← Nat.ofDigitChars_ten_toDigits (n := m), h, Nat.ofDigitChars_ten_toDigits]

/-- Two reports of one fault differ just when their places do. -/
theorem SyntaxError.message_relocate_inj {e : SyntaxError} {f : Nat → Nat} :
    (e.relocate f).message = e.message ↔ f e.position = e.position := by
  simp only [message, relocate, String.append_right_inj, String.append_left_inj]
  exact Numeral.toString_inj

namespace DrawingError

/-- `e.Placed`: the error points at a character of the text. -/
inductive Placed : DrawingError → Prop
  | unreadable {e : SyntaxError} (h : e.fault ≠ .emptyInput) : Placed (.unreadable e)

/-- The error with its place, if it has one, counted from the character with the index `n` on. -/
def countedFrom (n : Nat) : DrawingError → DrawingError
  | unreadable e => .unreadable (e.relocate (· - n))
  | undrawable e => .undrawable e

end DrawingError

section

variable {S : Type} [Scalar S] {s : String} {e : DrawingError}

/-- A trimmed text cannot be drawn for the reason for which the text cannot, and the place of that
is counted from the first character that is no blank. -/
theorem Graph.ofText?_trimBlanks (he : ofText? (S := S) s = .error e) :
    ofText? (S := S) (trimBlanks s) = .error (e.countedFrom (leadingBlanks s)) := by
  rcases ofText?_eq_error_iff.1 he with ⟨e', hs, rfl⟩ | ⟨ts, e', hs, hts, rfl⟩
  · exact ofText?_eq_error_iff.2 (.inl ⟨_, (Chain.parse_trimBlanks_error hs).1, rfl⟩)
  · have hcore := (Chain.parse_eq_ok_congr (dropBlanks_trimBlanks s)).2 hs
    exact ofText?_eq_error_iff.2 (.inr ⟨ts, e', hcore, hts, rfl⟩)

/-- The report is the same only if no blanks have gone from the start, or if it has no place. -/
theorem DrawingError.message_countedFrom (he : Graph.ofText? (S := S) s = .error e) :
    (e.countedFrom (leadingBlanks s)).message = e.message ↔ leadingBlanks s = 0 ∨ ¬ e.Placed := by
  rcases Graph.ofText?_eq_error_iff.1 he with ⟨e', hs, rfl⟩ | ⟨ts, e', -, -, rfl⟩
  · have hplace := (Chain.parse_trimBlanks_error hs).2
    have hmessage : (countedFrom (leadingBlanks s) (.unreadable e')).message =
        (unreadable e').message ↔ e'.position - leadingBlanks s = e'.position :=
      (String.append_right_inj _).trans SyntaxError.message_relocate_inj
    rw [hmessage]
    by_cases hempty : e'.fault = .emptyInput
    · rw [if_pos hempty] at hplace
      have hnone : ¬ Placed (.unreadable e') := by
        rintro ⟨h⟩
        exact h hempty
      simp only [hplace, Nat.zero_sub, hnone, not_false_eq_true, or_true]
    · rw [if_neg hempty] at hplace
      have hsome : Placed (.unreadable e') := .unreadable hempty
      simp only [hsome, not_true_eq_false, or_false]
      omega
  · have hnone : ¬ Placed (.undrawable e') := by rintro ⟨⟩
    simp only [countedFrom, hnone, not_false_eq_true, or_true]

end

theorem renderText_unreadable {source : String} {ticks : Option Nat} {e : SyntaxError}
    (h : Chain.parse source = .error e) :
    renderText source ticks = .error (DrawingError.unreadable e).message :=
  renderText_eq_error_iff.2 ⟨_, Graph.ofText?_eq_error_iff.2 (.inl ⟨e, h, rfl⟩), rfl⟩

namespace CommandLine

theorem Report.stderr_failure (message : String) :
    (Report.failure [message]).stderr = message ++ "\n" := by
  simp [Report.failure, String.join]

section

variable {path source message : String} {d : Directory} {args : List String} {settings : Settings}

theorem Settings.document_eq_error_iff : settings.document source = .error message ↔
    ∃ e, Graph.ofText? (S := Float) (trimBlanks source) = .error e ∧ e.message = message := by
  unfold Settings.document
  cases hd : Drawing.ofText? (S := Float) (trimBlanks source) with
  | error e =>
    rw [Drawing.ofText?_eq_error_iff] at hd
    simp [hd]
  | ok d =>
    obtain ⟨g, hg, rfl⟩ := Drawing.ofText?_eq_ok_iff.1 hd
    simp [hg]

/-- When the file that is asked for cannot be drawn, why is reported, and no file is touched. -/
theorem run_of_undrawable (program : String) (hargs : Settings.ofArguments args = .ok settings)
    (hpath : settings.inputPath = some path) (hfile : d.read path = .ok source)
    (hdocument : settings.document source = .error message) :
    (run program args : StateM Directory Report).run d = (.failure [message], d) := by
  have hsource := settings.source_file program hpath hfile
  rw [run, hargs]
  simp only [StateT.run_bind, hsource, pure_bind, hdocument]
  rfl

end

/-- When a file cannot be drawn, the command line reports why, whatever else it is asked for, and
touches no file. The place that it reports is counted from the first character of the file that is
no blank; so the report is that of the text itself just when the text begins with no blank or the
report names no place. -/
theorem reports_place_in_trimmed_text (program path source : String) (d : Directory)
    (args : List String) (settings : Settings) (hargs : Settings.ofArguments args = .ok settings)
    (hpath : settings.inputPath = some path) (hfile : d.read path = .ok source)
    (ticks : Option Nat) (message : String) (hfails : renderText source ticks = .error message) :
    ∃ e : DrawingError, Graph.ofText? (S := Float) source = .error e ∧
      (∀ ticks', renderText source ticks' = .error e.message) ∧
      ∃ report, (run program args : StateM Directory Report).run d = (report, d) ∧
        report.code = 1 ∧ report.stdout = "" ∧
        report.stderr = (e.countedFrom (leadingBlanks source)).message ++ "\n" ∧
        (report.stderr = message ++ "\n" ↔ leadingBlanks source = 0 ∨ ¬ e.Placed) := by
  obtain ⟨e, he, rfl⟩ := renderText_eq_error_iff.1 hfails
  have hdocument : settings.document source =
      .error (e.countedFrom (leadingBlanks source)).message :=
    Settings.document_eq_error_iff.2 ⟨_, Graph.ofText?_trimBlanks he, rfl⟩
  refine ⟨e, he, fun ticks' => renderText_eq_error_iff.2 ⟨e, he, rfl⟩, _,
    run_of_undrawable program hargs hpath hfile hdocument, rfl, rfl, Report.stderr_failure _, ?_⟩
  rw [Report.stderr_failure, String.append_left_inj, DrawingError.message_countedFrom he]

theorem reports_place_in_trimmed_text_lone :
    Settings.ofArguments ["-f", "a"] = .ok (.ofFile "a" none) ∧
      (⟨[("a", " (")]⟩ : Directory).read "a" = .ok " (" ∧
      renderText " (" none = .error
        "Syntax error: Mismatched parentheses, expected a matching pair (at position 1)" ∧
      ∃ report, (run "lgg" ["-f", "a"] : StateM Directory Report).run ⟨[("a", " (")]⟩ =
          (report, ⟨[("a", " (")]⟩) ∧ report.code = 1 ∧ report.stdout = "" := by
  have hparse : Chain.parse " (" = .error ⟨.mismatchedParentheses, 1⟩ := by decide +kernel
  have hmessage : (DrawingError.unreadable ⟨.mismatchedParentheses, 1⟩).message =
      "Syntax error: Mismatched parentheses, expected a matching pair (at position 1)" := by
    decide +kernel
  have hargs : Settings.ofArguments ["-f", "a"] = .ok (.ofFile "a" none) := by rfl
  have hfails : renderText " (" none = .error _ := hmessage ▸ renderText_unreadable hparse
  obtain ⟨e, -, -, report, hrun, hcode, hstdout, -⟩ :=
    reports_place_in_trimmed_text "lgg" "a" " (" ⟨[("a", " (")]⟩ ["-f", "a"] (.ofFile "a" none)
      hargs rfl rfl none _ hfails
  exact ⟨hargs, rfl, hfails, report, hrun, hcode, hstdout⟩

/-- A parenthesis without a partner after one blank: it is at position 1 of the text, but that of a
file is reported at position 0. -/
theorem reports_earlier_place :
    renderText " (" none = .error
        "Syntax error: Mismatched parentheses, expected a matching pair (at position 1)" ∧
      ((run "lgg" ["-f", "a"] : StateM Directory Report).run ⟨[("a", " (")]⟩).1.stderr =
        "Syntax error: Mismatched parentheses, expected a matching pair (at position 0)\n" := by
  have hparse : Chain.parse " (" = .error ⟨.mismatchedParentheses, 1⟩ := by decide +kernel
  have htrimmed : Chain.parse (trimBlanks " (") = .error ⟨.mismatchedParentheses, 0⟩ := by
    decide +kernel
  have hargs : Settings.ofArguments ["-f", "a"] = .ok (.ofFile "a" none) := by rfl
  have hfile : (⟨[("a", " (")]⟩ : Directory).read "a" = .ok " (" := rfl
  have hdocument : (Settings.ofFile "a" none).document " (" = .error _ :=
    Settings.document_eq_error_iff.2
      ⟨_, Graph.ofText?_eq_error_iff.2 (.inl ⟨_, htrimmed, rfl⟩), rfl⟩
  refine ⟨(renderText_unreadable hparse).trans (by decide +kernel), ?_⟩
  rw [run_of_undrawable "lgg" hargs rfl hfile hdocument, Report.stderr_failure]
  decide +kernel

end CommandLine

end LambdaDiagram
