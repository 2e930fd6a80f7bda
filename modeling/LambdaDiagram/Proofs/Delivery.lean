import LambdaDiagram.Proofs.PrintedDocument

/-!
What a command line leaves behind. Whatever its arguments say and whatever files there are, it either
fails, reports why and leaves every file as it was, or it delivers one whole document: to the file
that the last output option with a value names, and otherwise to standard output.
-/

namespace LambdaDiagram

/-! ## Whole documents -/

namespace Svg

/-- A line that opens or closes the root element. -/
def IsRootTag (line : String) : Prop :=
  "<svg".toList <+: line.toList ∨ "</svg".toList <+: line.toList

/-- A text is one whole document: a line that opens the root element, lines that neither open nor
close one, and the line that closes it. -/
def Whole (text : String) : Prop :=
  ∃ opening inner, text = String.join ((opening :: inner ++ ["</svg>"]).map (· ++ "\n")) ∧
    "<svg ".toList <+: opening.toList ∧ ∀ line ∈ inner, ¬ IsRootTag line

theorem toList_openTag (name : String) (attributes : List (String × String)) :
    ∃ rest, (openTag name attributes).toList = '<' :: (name.toList ++ rest) := by
  rw [openTag, String.toList_append, String.toList_append]
  exact ⟨_, rfl⟩

/-- An element whose name starts with another letter is no root element. -/
theorem not_isRootTag_openTag {name : String} {c : Char} {cs : List Char}
    (hname : name.toList = c :: cs) (hs : c ≠ 's') (hslash : c ≠ '/')
    (attributes : List (String × String)) (rest : String) :
    ¬ IsRootTag (openTag name attributes ++ rest) := by
  obtain ⟨more, hmore⟩ := toList_openTag name attributes
  rintro (h | h)
  · simp [hmore, hname, List.cons_prefix_cons, Ne.symm hs] at h
  · simp [hmore, hname, List.cons_prefix_cons, Ne.symm hslash] at h

theorem not_isRootTag_style : ∀ line ∈ style, ¬ IsRootTag line := by
  unfold IsRootTag
  decide

theorem not_isRootTag_paint (p : Primitive Float) : ¬ IsRootTag (paint p) := by
  cases p with
  | strokeCircle role c => exact not_isRootTag_openTag rfl (by decide) (by decide) _ _
  | fillCircle role c => exact not_isRootTag_openTag rfl (by decide) (by decide) _ _
  | line role l => exact not_isRootTag_openTag rfl (by decide) (by decide) _ _
  | curve role q => exact not_isRootTag_openTag rfl (by decide) (by decide) _ _
  | label role center text =>
    rw [paint, String.append_assoc, String.append_assoc]
    exact not_isRootTag_openTag rfl (by decide) (by decide) _ _

theorem whole_document (picture : Picture Float) : Whole (document picture) := by
  refine ⟨rootTag (Frame.ofPicture picture), style ++ picture.map paint, ?_, ?_, ?_⟩
  · rw [document, lines, List.cons_append]
  · simp [rootTag, openTag, attr]
  · intro line hline
    rcases List.mem_append.1 hline with hline | hline
    · exact not_isRootTag_style line hline
    · obtain ⟨p, -, rfl⟩ := List.mem_map.1 hline
      exact not_isRootTag_paint p

end Svg

namespace CommandLine

/-! ## What a failure reports -/

theorem Report.stderr_failure_ne {lines : List String} (h : lines ≠ []) :
    (Report.failure lines).stderr ≠ "" := by
  obtain ⟨line, lines, rfl⟩ := List.exists_cons_of_ne_nil h
  intro he
  have hlen := congrArg String.length he
  simp [Report.failure] at hlen

theorem Refusal.lines_ne_nil (program : String) (refusal : Refusal) :
    refusal.lines program ≠ [] := by
  cases refusal <;> exact List.cons_ne_nil _ _

/-! ## What an option is given -/

/-- The values that some arguments give to a parameter, from left to right. Whatever follows a
parameter is its value. -/
def valuesOf (p : Parameter) : List String → List String
  | [] => []
  | a :: as =>
    match Argument.ofString a with
    | .parameter q =>
      match as with
      | [] => []
      | value :: as => if q = p then value :: valuesOf p as else valuesOf p as
    | _ => valuesOf p as

/-- The last of some values counts, and a path that was there before only without any. -/
theorem getLast?_cons_or (value : String) (values : List String) (path : Option String) :
    (value :: values).getLast?.or path = values.getLast?.or (some value) := by
  rw [List.getLast?_cons]
  cases values.getLast? <;> rfl

namespace Settings

theorem outputPath_set {s s' : Settings} {value : String} {p : Parameter}
    (h : s.set value p = .ok s') :
    s'.outputPath = if p = .output then some value else s.outputPath := by
  cases p with
  | file | output =>
    cases h
    rfl
  | ticks | ease | angleStep =>
    rw [set] at h
    split at h
    · cases h
    · cases h
      rfl

/-- The output path is the last value of its option, if that has any. -/
theorem outputPath_extend {s s' : Settings} {args : List String} (h : s.extend args = .ok s') :
    s'.outputPath = (valuesOf .output args).getLast?.or s.outputPath := by
  fun_induction extend s args with
  | case1 s =>
    cases h
    rfl
  | case2 s a p ha =>
    cases h
    rw [valuesOf, ha]
    rfl
  | case3 s a p ha value as ih =>
    cases hset : s.set value p with
    | error refusal =>
      rw [hset] at h
      cases h
    | ok s'' =>
      rw [hset] at h
      rw [ih s'' h, outputPath_set hset, valuesOf, ha]
      dsimp only
      split
      · rw [getLast?_cons_or]
      · rfl
  | case4 s a as ha ih =>
    rw [ih h, valuesOf, ha]
  | case5 => cases h
  | case6 s a as text ha _ ih =>
    rw [ih h, valuesOf, ha]
  | case7 => cases h
  | case8 => cases h

theorem outputPath_ofArguments {s : Settings} {args : List String}
    (h : ofArguments args = .ok s) : s.outputPath = (valuesOf .output args).getLast? := by
  unfold ofArguments at h
  split at h
  · cases h
  · rw [outputPath_extend h]
    exact Option.or_none

theorem document_eq_ok_iff {s : Settings} {text document : String} :
    s.document text = .ok document ↔ ∃ g, Graph.ofText? (Text.trimBlanks text) = .ok g ∧
      (s.engine.run g s.ticks).toSvg = document := by
  unfold Settings.document
  cases hd : Drawing.ofText? (S := Float) (Text.trimBlanks text) with
  | error e =>
    rw [Drawing.ofText?_eq_error_iff] at hd
    simp [hd]
  | ok d =>
    obtain ⟨g, hg, rfl⟩ := Drawing.ofText?_eq_ok_iff.1 hd
    simp [hg, Drawing.graph_run]

end Settings

/-! ## Stores of files -/

/-- A store of files as a value: the text of each file, the file that a path leads to, and how paths
are read and written. Reading changes nothing. Writing gives the file that the path leads to its new
text and no other file another one, or it fails and there is no new store. -/
structure Store (σ : Type) where
  /-- The names of files. -/
  File : Type
  text? : σ → File → Option String
  place? : σ → String → Option File
  read : σ → String → Except FileError String
  write : σ → String → String → Except FileError σ
  write_ok : ∀ {s s' : σ} {path text : String}, write s path text = .ok s' →
    ∃ file, place? s path = some file ∧ text? s' file = some text ∧
      ∀ other, other ≠ file → text? s' other = text? s other

namespace Store

variable {σ : Type} (store : Store σ)

/-- The files after a path has been written, or as they were if it cannot be. -/
def written (path text : String) (s : σ) : Except FileError Unit × σ :=
  match store.write s path text with
  | .error e => (.error e, s)
  | .ok s' => (.ok (), s')

/-- Files as a command line sees them, kept in a store. -/
@[reducible]
def files : Files (StateM σ) where
  read path s := (store.read s path, s)
  write := store.written

/-- What a command line reports, and the files after it. -/
def run (program : String) (args : List String) (s : σ) : Report × σ :=
  (@CommandLine.run (StateM σ) _ store.files program args).run s

/-- The text that some settings ask to be drawn: that of their file, or else their expression. -/
def asked (s : σ) (settings : Settings) : Option String :=
  match settings.inputPath with
  | some path => (store.read s path).toOption
  | none => settings.expression

/-- Some arguments ask for a document: they make sense, and it is that of the text that they ask for,
laid out as they say. -/
def Asks (s : σ) (args : List String) (document : String) : Prop :=
  ∃ settings text g, Settings.ofArguments args = .ok settings ∧
    store.asked s settings = some text ∧ Graph.ofText? (Text.trimBlanks text) = .ok g ∧
    (settings.engine.run g settings.ticks).toSvg = document

/-! ### One command line -/

section

variable {store} {s s' : σ} {settings : Settings} {program text path document : String}

theorem run_read (path : String) (s : σ) :
    (store.files.read path).run s = pure (store.read s path, s) := rfl

theorem run_write_error {e : FileError} (h : store.write s path text = .error e) :
    (store.files.write path text).run s = pure (.error e, s) := by
  show store.written path text s = (.error e, s)
  rw [written, h]

theorem run_write_ok (h : store.write s path text = .ok s') :
    (store.files.write path text).run s = pure (.ok (), s') := by
  show store.written path text s = (.ok (), s')
  rw [written, h]

/-- What arguments that make sense ask for. -/
theorem asks_iff {args : List String} (h : Settings.ofArguments args = .ok settings) :
    store.Asks s args document ↔
      ∃ text, store.asked s settings = some text ∧ settings.document text = .ok document := by
  unfold Asks
  simp only [Settings.document_eq_ok_iff, h, Except.ok.injEq]
  constructor
  · rintro ⟨_, text, g, rfl, htext, hg⟩
    exact ⟨text, htext, g, hg⟩
  · rintro ⟨text, htext, g, hg⟩
    exact ⟨settings, text, g, rfl, htext, hg⟩

theorem Asks.whole {args : List String} (h : store.Asks s args document) :
    Svg.Whole document := by
  obtain ⟨-, -, -, -, -, -, rfl⟩ := h
  exact Svg.whole_document _

/-- The text that is asked for is found, or else there is a report of why not; either way the files
stay as they are. -/
theorem run_source (program : String) (settings : Settings) (s : σ) :
    letI := store.files
    (∃ text, store.asked s settings = some text ∧
        (settings.source program : StateM σ (Except Report String)).run s = pure (.ok text, s)) ∨
      (store.asked s settings = none ∧ ∃ lines, lines ≠ [] ∧
        (settings.source program : StateM σ (Except Report String)).run s =
          pure (.error (.failure lines), s)) := by
  unfold Settings.source asked
  cases settings.inputPath with
  | none =>
    cases settings.expression with
    | none => exact .inr ⟨rfl, _, List.cons_ne_nil _ _, rfl⟩
    | some text => exact .inl ⟨text, rfl, rfl⟩
  | some path =>
    simp only [StateT.run_bind, run_read, pure_bind]
    cases store.read s path with
    | error e => exact .inr ⟨rfl, _, List.cons_ne_nil _ _, rfl⟩
    | ok text => exact .inl ⟨text, rfl, rfl⟩

/-- A document is delivered to the path that is asked for, or else there is a report of why not and
the files stay as they are. -/
theorem run_deliver (settings : Settings) (document : String) (s : σ) :
    letI := store.files
    (settings.outputPath = none ∧
        (settings.deliver document : StateM σ Report).run s = (.success document, s)) ∨
      (∃ path s', settings.outputPath = some path ∧ store.write s path document = .ok s' ∧
        (settings.deliver document : StateM σ Report).run s = (.success "", s')) ∨
      (∃ path e lines, settings.outputPath = some path ∧ store.write s path document = .error e ∧
        lines ≠ [] ∧ (settings.deliver document : StateM σ Report).run s = (.failure lines, s)) := by
  unfold Settings.deliver
  cases settings.outputPath with
  | none => exact .inl ⟨rfl, rfl⟩
  | some path =>
    simp only [StateT.run_bind]
    cases hwrite : store.write s path document with
    | error e =>
      rw [run_write_error hwrite]
      exact .inr (.inr ⟨path, e, _, rfl, hwrite, List.cons_ne_nil _ _, rfl⟩)
    | ok s' =>
      rw [run_write_ok hwrite]
      exact .inr (.inl ⟨path, s', rfl, hwrite, rfl⟩)

/-- Without a document that is asked for there is a report of why not, and the files stay as they
are. -/
theorem run_of_not_asks (program : String) {args : List String}
    (h : ∀ document, ¬ store.Asks s args document) :
    ∃ lines, lines ≠ [] ∧ store.run program args s = (.failure lines, s) := by
  let _ := store.files
  cases hargs : Settings.ofArguments args with
  | error refusal =>
    refine ⟨refusal.lines program, refusal.lines_ne_nil program, ?_⟩
    rw [Store.run, CommandLine.run, hargs]
    rfl
  | ok settings =>
    rw [Store.run, CommandLine.run, hargs]
    simp only [StateT.run_bind]
    rcases store.run_source program settings s with
      ⟨text, htext, hsource⟩ | ⟨-, lines, hlines, hsource⟩
    · cases hdocument : settings.document text with
      | error message =>
        refine ⟨[message], List.cons_ne_nil _ _, ?_⟩
        rw [hsource, pure_bind]
        simp only [hdocument]
        rfl
      | ok document => exact absurd ((asks_iff hargs).2 ⟨text, htext, hdocument⟩) (h document)
    · refine ⟨lines, hlines, ?_⟩
      rw [hsource, pure_bind]
      rfl

/-- A document that is asked for is delivered. -/
theorem run_of_asks (program : String) {args : List String} (h : store.Asks s args document) :
    letI := store.files
    ∃ settings, settings.outputPath = (valuesOf .output args).getLast? ∧
      store.run program args s = (Settings.deliver settings document : StateM σ Report).run s := by
  let _ := store.files
  have ⟨settings, _, _, hargs, _⟩ := h
  obtain ⟨text, htext, hdocument⟩ := (asks_iff hargs).1 h
  refine ⟨settings, Settings.outputPath_ofArguments hargs, ?_⟩
  rw [Store.run, CommandLine.run, hargs]
  simp only [StateT.run_bind]
  rcases store.run_source program settings s with ⟨text', htext', hsource⟩ | ⟨hnone, -⟩
  · obtain rfl := Option.some.inj (htext.symm.trans htext')
    rw [hsource, pure_bind]
    simp only [hdocument]
  · rw [hnone] at htext
    cases htext

end

/-- Whatever a command line says and whatever files there are, it fails or it delivers. It fails with
exit code 1, a report on standard error and nothing on standard output, and every file stays as it
was; this happens only if no document is asked for or its path cannot be written. Otherwise the exit
code is 0, nothing is on standard error, and the document that is asked for, a whole one, goes to the
file that the last output option with a value names, no other file being touched, or, without one, to
standard output, no file at all being touched. -/
theorem delivers_or_changes_nothing (program : String) (args : List String) (s : σ) :
    ∃ report s', store.run program args s = (report, s') ∧
      ((report.code = 1 ∧ report.stdout = "" ∧ report.stderr ≠ "" ∧ s' = s ∧
          ((∀ document, ¬ store.Asks s args document) ∨ ∃ document path e,
            store.Asks s args document ∧ (valuesOf .output args).getLast? = some path ∧
              store.write s path document = .error e)) ∨
        (report.code = 0 ∧ report.stderr = "" ∧ ∃ document, store.Asks s args document ∧
          Svg.Whole document ∧
          (((valuesOf .output args).getLast? = none ∧ report.stdout = document ∧ s' = s) ∨
            ∃ path file, (valuesOf .output args).getLast? = some path ∧ report.stdout = "" ∧
              store.place? s path = some file ∧ store.text? s' file = some document ∧
              ∀ other, other ≠ file → store.text? s' other = store.text? s other))) := by
  let _ := store.files
  by_cases h : ∃ document, store.Asks s args document
  · obtain ⟨document, hasks⟩ := h
    have hwhole := hasks.whole
    obtain ⟨settings, hlast, hrun⟩ := run_of_asks program hasks
    rw [← hlast]
    rcases store.run_deliver settings document s with
      ⟨hpath, hdeliver⟩ | ⟨path, s', hpath, hwrite, hdeliver⟩ |
      ⟨path, e, lines, hpath, hwrite, hlines, hdeliver⟩
    · exact ⟨_, _, hrun.trans hdeliver,
        .inr ⟨rfl, rfl, document, hasks, hwhole, .inl ⟨hpath, rfl, rfl⟩⟩⟩
    · obtain ⟨file, hfile, htext, hothers⟩ := store.write_ok hwrite
      exact ⟨_, _, hrun.trans hdeliver, .inr ⟨rfl, rfl, document, hasks, hwhole,
        .inr ⟨path, file, hpath, rfl, hfile, htext, hothers⟩⟩⟩
    · exact ⟨_, _, hrun.trans hdeliver, .inl ⟨rfl, rfl, Report.stderr_failure_ne hlines, rfl,
        .inr ⟨document, path, e, hasks, hpath, hwrite⟩⟩⟩
  · have hnone := not_exists.1 h
    obtain ⟨lines, hlines, hrun⟩ := run_of_not_asks program hnone
    exact ⟨_, _, hrun, .inl ⟨rfl, rfl, Report.stderr_failure_ne hlines, rfl, .inl hnone⟩⟩

end Store

namespace Directory

theorem get?_put (d : Directory) (name text : String) : (d.put name text).get? name = some text :=
  List.lookup_cons_self

theorem get?_put_ne (d : Directory) (text : String) {name other : String} (h : other ≠ name) :
    (d.put name text).get? other = d.get? other := by
  have hfilter : ∀ files : List (String × String),
      (files.filter fun file => file.1 ≠ name).lookup other = files.lookup other := by
    intro files
    induction files with
    | nil => rfl
    | cons file files ih =>
      obtain ⟨key, value⟩ := file
      by_cases hk : key = name
      · subst hk
        rw [List.filter_cons_of_neg (by simp), ih, List.lookup_cons, beq_eq_false_iff_ne.2 h]
      · rw [List.filter_cons_of_pos (by simp [hk]), List.lookup_cons, List.lookup_cons, ih]
  rw [get?, put, List.lookup_cons, beq_eq_false_iff_ne.2 h]
  exact hfilter d.files

/-- The file that a path leads to in a directory, if it leads to one in there. -/
def place? (d : Directory) (path : String) : Option String :=
  match d.locate path with
  | .ok (.entry .inside name) => some name
  | _ => none

/-- What is written goes to the file that the path leads to. -/
theorem write_eq_ok {d d' : Directory} {path text : String} (h : d.write path text = .ok d') :
    ∃ name, d.place? path = some name ∧ d' = d.put name text := by
  rw [write] at h
  unfold place?
  cases hp : d.locate path with
  | error e =>
    rw [hp] at h
    cases h
  | ok place =>
    rw [hp] at h
    cases place with
    | directory => cases h
    | entry site name =>
      dsimp only [bind, Except.bind] at h
      split at h
      · cases h
      · split at h
        · cases h
        · cases site with
          | around => cases h
          | inside =>
            cases h
            exact ⟨name, rfl, rfl⟩

/-- The directories of files as a store. -/
def store : Store Directory where
  File := String
  text? := get?
  place? := place?
  read := read
  write := write
  write_ok := by
    intro d d' path text h
    obtain ⟨name, hname, rfl⟩ := write_eq_ok h
    exact ⟨name, hname, d.get?_put name text, fun other hother => d.get?_put_ne text hother⟩

theorem files_store : store.files = inferInstanceAs (Files (StateM Directory)) := by
  unfold Store.files
  congr
  funext path text d
  simp only [bind, StateT.bind, get, getThe, MonadStateOf.get, StateT.get, pure, Store.written,
    store]
  cases d.write path text <;> rfl

/-- What the command line does in a directory is what it does in that store. -/
theorem run_store (program : String) (args : List String) (d : Directory) :
    store.run program args d = (CommandLine.run program args : StateM Directory Report).run d := by
  rw [Store.run, files_store]

end Directory

end CommandLine

end LambdaDiagram
