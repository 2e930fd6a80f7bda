import LambdaDiagram.CommandLine.Run
import LambdaDiagram.Proofs.DrawingHistory
import LambdaDiagram.Proofs.Parsing

/-!
What the command line prints for a file. The text is trimmed before it is drawn, and the number of
ticks is written out and read again, but neither makes a difference: a file is drawn just when its
text is, and what is printed is the document of the text.
-/

namespace LambdaDiagram

open Text

/-! ## Counts as they are typed -/

namespace Numeral

theorem foldlM_digits {cs : List Char} (h : ∀ c ∈ cs, c.isDigit = true) (n : Nat) :
    cs.foldlM (fun n d => (digit? d).map (10 * n + ·)) n = some (Nat.ofDigitChars 10 cs n) := by
  induction cs generalizing n with
  | nil => rfl
  | cons c cs ih =>
    obtain ⟨hc, hcs⟩ := List.forall_mem_cons.1 h
    rw [List.foldlM_cons, Nat.ofDigitChars_cons, digit?, if_pos hc]
    exact ih hcs _

/-- The usual digits of a count are read as that count. -/
theorem count?_toString {n : Nat} (h : n ≤ maxCount) : count? (toString n) = some n := by
  have hdigit : ∀ c ∈ Nat.toDigits 10 n, c.isDigit = true := fun c hc =>
    Nat.isDigit_of_mem_toDigits (by decide) (by decide) hc
  have hfold := foldlM_digits hdigit 0
  rw [Nat.ofDigitChars_ten_toDigits] at hfold
  obtain ⟨c, cs, hcs⟩ := List.exists_cons_of_ne_nil (Nat.toDigits_ne_nil (n := n) (b := 10))
  have hsign : c ≠ '+' := by
    rintro rfl
    exact absurd (hdigit '+' (hcs ▸ List.mem_cons_self)) (by decide)
  rw [hcs] at hfold
  rw [count?, Nat.toString_eq_ofList_toDigits, String.toList_ofList, hcs]
  simp [hsign, digits?, hfold, h]

end Numeral

/-! ## Blanks at the ends -/

theorem dropBlanks_dropWhile (cs : List Char) :
    dropBlanks (cs.dropWhile isBlank) = dropBlanks cs := by
  induction cs with
  | nil => rfl
  | cons c cs ih =>
    rw [List.dropWhile_cons]
    split
    · rename_i hb
      rw [ih]
      simp [dropBlanks, hb]
    · rfl

theorem dropBlanks_trimBlanks (s : String) :
    dropBlanks (trimBlanks s).toList = dropBlanks s.toList := by
  have hreverse : ∀ cs : List Char, dropBlanks cs.reverse = (dropBlanks cs).reverse :=
    fun cs => List.filter_reverse
  rw [trimBlanks, String.toList_ofList, hreverse, dropBlanks_dropWhile, hreverse,
    List.reverse_reverse, dropBlanks_dropWhile]

/-! ## The graph of a text -/

section

variable {S : Type} [Scalar S] {s t : String}

theorem Chain.parse_eq_ok_congr (h : dropBlanks s.toList = dropBlanks t.toList) {ts : Chain} :
    Chain.parse s = .ok ts ↔ Chain.parse t = .ok ts :=
  ⟨fun hs => Chain.Written.parse_eq (h ▸ Chain.written_of_parse hs),
    fun ht => Chain.Written.parse_eq (h ▸ Chain.written_of_parse ht)⟩

theorem Graph.ofText?_eq_ok_iff {g : Graph S} : ofText? s = .ok g ↔
    ∃ ts built, Chain.parse s = .ok ts ∧ ofChain? ts = .ok built ∧ g = built.flatten := by
  unfold ofText?
  cases Chain.parse s with
  | error e => simp
  | ok ts => cases hb : ofChain? (S := S) ts <;> simp [hb, eq_comm (a := g)]

theorem Graph.ofText?_eq_error_iff {e : DrawingError} : ofText? (S := S) s = .error e ↔
    (∃ e', Chain.parse s = .error e' ∧ e = .unreadable e') ∨
      ∃ ts e', Chain.parse s = .ok ts ∧ ofChain? (S := S) ts = .error e' ∧ e = .undrawable e' := by
  unfold ofText?
  cases Chain.parse s with
  | error e' => simp [eq_comm (a := e)]
  | ok ts => cases hb : ofChain? (S := S) ts <;> simp [hb, eq_comm (a := e)]

/-- Texts that differ in their blanks only have the same graph. -/
theorem Graph.ofText?_eq_ok_congr (h : dropBlanks s.toList = dropBlanks t.toList) {g : Graph S} :
    ofText? s = .ok g ↔ ofText? t = .ok g := by
  simp only [ofText?_eq_ok_iff, Chain.parse_eq_ok_congr h]

end

/-- The document of a text is that of its graph, laid out. -/
theorem renderText_eq_ok_iff {source svg : String} {ticks : Option Nat} :
    renderText source ticks = .ok svg ↔ ∃ g, Graph.ofText? source = .ok g ∧
      (Engine.standard.run g (ticks.getD defaultTicks)).toSvg = svg := by
  unfold renderText
  cases hd : Drawing.ofText? (S := Float) source with
  | error e =>
    rw [Drawing.ofText?_eq_error_iff] at hd
    simp [hd]
  | ok d =>
    obtain ⟨g, hg, rfl⟩ := Drawing.ofText?_eq_ok_iff.1 hd
    simp [hg, Drawing.graph_run]

theorem renderText_eq_error_iff {source message : String} {ticks : Option Nat} :
    renderText source ticks = .error message ↔
      ∃ e, Graph.ofText? (S := Float) source = .error e ∧ e.message = message := by
  unfold renderText
  cases hd : Drawing.ofText? (S := Float) source with
  | error e =>
    rw [Drawing.ofText?_eq_error_iff] at hd
    simp [hd]
  | ok d =>
    obtain ⟨g, hg, rfl⟩ := Drawing.ofText?_eq_ok_iff.1 hd
    simp [hg]

/-- The document does not depend on the blanks around a text. -/
theorem renderText_trimBlanks (source : String) {svg : String} {ticks : Option Nat} :
    renderText (trimBlanks source) ticks = .ok svg ↔ renderText source ticks = .ok svg := by
  simp only [renderText_eq_ok_iff, Graph.ofText?_eq_ok_congr (dropBlanks_trimBlanks source)]

namespace CommandLine

/-! ## Drawing a file -/

/-- `DrawsFile path args ticks`: the arguments ask for a file to be drawn and, if anything else, for
a number of ticks. -/
inductive DrawsFile (path : String) : List String → Option Nat → Prop
  | plain : DrawsFile path ["-f", path] none
  | ticksLast (n : Nat) : DrawsFile path ["-f", path, "-t", toString n] (some n)
  | ticksFirst (n : Nat) : DrawsFile path ["-t", toString n, "-f", path] (some n)

/-- What is asked for when a file is drawn. -/
def Settings.ofFile (path : String) (ticks : Option Nat) : Settings :=
  { standard with inputPath := some path, ticks := ticks.getD defaultTicks }

theorem ofArguments_of_drawsFile {path : String} {args : List String} {ticks : Option Nat}
    (h : DrawsFile path args ticks) (hticks : ∀ n ∈ ticks, n < UInt32.size) :
    Settings.ofArguments args = .ok (.ofFile path ticks) := by
  have hfile : Argument.ofString "-f" = .parameter .file := by decide
  have hcount : Argument.ofString "-t" = .parameter .ticks := by decide
  have htyped : ∀ n ∈ ticks, Numeral.count? (toString n) = some n := by
    intro n hn
    have hmax : Numeral.maxCount = 18446744073709551615 := by decide
    have hlt : n < 4294967296 := hticks n hn
    exact Numeral.count?_toString (by omega)
  cases h with
  | plain => rfl
  | ticksLast n =>
    have hset : (Settings.ofFile path none).set (toString n) .ticks =
        .ok (.ofFile path (some n)) := by
      rw [Settings.set, htyped n rfl]
      rfl
    calc Settings.ofArguments ["-f", path, "-t", toString n]
      _ = (Settings.ofFile path none).extend ["-t", toString n] := by
        simp only [Settings.ofArguments, Settings.extend, hfile]
        rfl
      _ = .ok (.ofFile path (some n)) := by
        simp only [Settings.extend, hcount, hset]
        rfl
  | ticksFirst n =>
    have hset : Settings.standard.set (toString n) .ticks =
        .ok { Settings.standard with ticks := n } := by
      rw [Settings.set, htyped n rfl]
    calc Settings.ofArguments ["-t", toString n, "-f", path]
      _ = { Settings.standard with ticks := n }.extend ["-f", path] := by
        simp only [Settings.ofArguments, Settings.extend, hcount, hset]
        rfl
      _ = .ok (.ofFile path (some n)) := by
        simp only [Settings.extend, hfile]
        rfl

theorem Settings.document_ofFile (path source : String) (ticks : Option Nat) :
    (Settings.ofFile path ticks).document source = renderText (trimBlanks source) ticks := by
  unfold Settings.document renderText
  cases Drawing.ofText? (S := Float) (trimBlanks source) <;> rfl

/-- What comes of drawing a file: its document, or the report of why there is none. -/
def Report.ofDocument : Except String String → Report
  | .error message => .failure [message]
  | .ok document => .success document

/-- The text of the file that is asked for is what is drawn. -/
theorem Settings.source_file {path source : String} {d : Directory} (settings : Settings)
    (program : String) (hpath : settings.inputPath = some path) (hfile : d.read path = .ok source) :
    (settings.source program : StateM Directory (Except Report String)).run d =
      pure (.ok source, d) := by
  have hread : (Files.read path : StateM Directory _).run d = (.ok source, d) := by
    rw [← hfile]
    rfl
  unfold Settings.source
  simp only [hpath, StateT.run_bind, hread]
  rfl

theorem run_of_drawsFile {path source : String} {d : Directory} {args : List String}
    {ticks : Option Nat} (program : String) (hfile : d.read path = .ok source)
    (hargs : Settings.ofArguments args = .ok (.ofFile path ticks)) :
    (run program args : StateM Directory Report).run d =
      (.ofDocument (renderText (trimBlanks source) ticks), d) := by
  have hsource := (Settings.ofFile path ticks).source_file program rfl hfile
  rw [run, hargs]
  simp only [StateT.run_bind, hsource, pure_bind, Settings.document_ofFile]
  cases renderText (trimBlanks source) ticks with
  | error message => rfl
  | ok document => rfl

/-- Drawing a file prints the document of its text, if that can be drawn, and else fails. No file
is touched. -/
theorem prints_rendered_text (program path source : String) (d : Directory) (args : List String)
    (ticks : Option Nat) (hfile : d.read path = .ok source) (hargs : DrawsFile path args ticks)
    (hticks : ∀ n ∈ ticks, n < UInt32.size) :
    ∃ report, (run program args : StateM Directory Report).run d = (report, d) ∧
      (report.code = 0 ↔ ∃ svg, renderText source ticks = .ok svg) ∧
      ∀ svg, renderText source ticks = .ok svg → report.stdout = svg := by
  refine ⟨_, run_of_drawsFile program hfile (ofArguments_of_drawsFile hargs hticks), ?_⟩
  simp only [← renderText_trimBlanks source]
  cases renderText (trimBlanks source) ticks <;>
    simp [Report.ofDocument, Report.failure, Report.success]

theorem prints_rendered_text_identity :
    ∃ report, (run "lgg" ["-f", "a", "-t", toString 2] : StateM Directory Report).run
        ⟨[("a", " (\\x.x) ")]⟩ = (report, ⟨[("a", " (\\x.x) ")]⟩) ∧
      (report.code = 0 ↔ ∃ svg, renderText " (\\x.x) " (some 2) = .ok svg) ∧
      ∀ svg, renderText " (\\x.x) " (some 2) = .ok svg → report.stdout = svg :=
  prints_rendered_text "lgg" "a" " (\\x.x) " ⟨[("a", " (\\x.x) ")]⟩ _ (some 2) (by rfl)
    (.ticksLast 2) (by simp [UInt32.size])

end CommandLine

end LambdaDiagram
