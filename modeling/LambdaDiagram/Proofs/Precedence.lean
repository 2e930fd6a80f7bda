import LambdaDiagram.Proofs.FirstFault
import LambdaDiagram.Proofs.Mismatch

/-!
Which fault is reported when a text has several. A parenthesis without a partner comes first, then a
character that no term is written with, whatever stands before it; only a text with neither is read
as terms, and a text of nothing but blanks is empty. Reading terms therefore never comes to a
parenthesis without a partner.
-/

namespace LambdaDiagram

open Text

/-! ## What reading comes to -/

/-- `Visits ls later`: reading the terms of some lexemes comes to reading those of `later`, which
are what stands after a variable, the body of a group, or what stands after a group whose body has
been read. -/
inductive Visits : List Lexeme → List Lexeme → Prop
  | here (ls : List Lexeme) : Visits ls ls
  | afterVariable {name : Char} {p : Nat} {ls later : List Lexeme} (h : Visits ls later) :
      Visits (⟨.letter name, p⟩ :: ls) later
  | body {p : Nat} {ls inside rest body later : List Lexeme} {close : Lexeme} {bs : List Char}
      (hs : Lexeme.splitClose 0 ls = some (inside, close, rest))
      (hb : Lexeme.splitBinders close.position inside = .ok (bs, body)) (h : Visits body later) :
      Visits (⟨.openParen, p⟩ :: ls) later
  | afterGroup {p : Nat} {ls inside rest body later : List Lexeme} {close : Lexeme}
      {bs : List Char} {t : Term} {ts : List Term}
      (hs : Lexeme.splitClose 0 ls = some (inside, close, rest))
      (hb : Lexeme.splitBinders close.position inside = .ok (bs, body))
      (hread : parseTerms body = .ok (t :: ts)) (h : Visits rest later) :
      Visits (⟨.openParen, p⟩ :: ls) later

/-- `Unpaired ls p`: reading the terms of some lexemes stops at once, at a parenthesis without a
partner. Either it closes a group where a term is due, or it opens a group that does not end. -/
inductive Unpaired : List Lexeme → Nat → Prop
  | closing (p : Nat) (ls : List Lexeme) : Unpaired (⟨.closeParen, p⟩ :: ls) p
  | opening {p : Nat} {ls : List Lexeme} (hs : Lexeme.splitClose 0 ls = none) :
      Unpaired (⟨.openParen, p⟩ :: ls) p

/-- The lexemes inside a group that is cut out of a balanced text are balanced, and so are those
after it. -/
theorem exists_spells_of_splitClose {w : List Char} {p : Nat} {ls inside rest : List Lexeme}
    {close : Lexeme} (hw : Spells w (⟨.openParen, p⟩ :: ls)) (hd : depthAfter 0 w = some 0)
    (hs : Lexeme.splitClose 0 ls = some (inside, close, rest)) :
    ∃ u v, Spells u inside ∧ Spells v rest ∧ depthAfter 0 u = some 0 ∧
      depthAfter 0 v = some 0 := by
  obtain ⟨c, x, rfl, hc, hx⟩ := Spells.cons_iff.1 hw
  obtain rfl : '(' = c := Symbol.toChar_of_ofChar? hc
  rw [depthAfter_open] at hd
  obtain ⟨inside', close', rest', u, v, hs', hu, hv, hdu, hdv⟩ := Lexeme.closed_of_depthAfter hx hd
  rw [hs] at hs'
  cases hs'
  exact ⟨u, v, hu, hv, hdu, hdv⟩

/-- Reading balanced lexemes comes to balanced lexemes only. -/
theorem Visits.exists_spells {w : List Char} {ls later : List Lexeme} (h : Visits ls later)
    (hw : Spells w ls) (hd : depthAfter 0 w = some 0) :
    ∃ v, Spells v later ∧ depthAfter 0 v = some 0 := by
  induction h generalizing w with
  | here ls => exact ⟨w, hw, hd⟩
  | afterVariable h ih =>
    obtain ⟨c, v, rfl, hc, hv⟩ := Spells.cons_iff.1 hw
    have hl : IsLetter c := (Symbol.exists_letter_iff hc).1 ⟨_, rfl⟩
    rw [depthAfter_cons hl.ne_openParen hl.ne_closeParen] at hd
    exact ih hv hd
  | body hs hb h ih =>
    obtain ⟨u, v, hu, -, hdu, -⟩ := exists_spells_of_splitClose hw hd hs
    obtain ⟨x, hx, hdx⟩ := Place.exists_spells_body hu hdu hb
    exact ih hx hdx
  | afterGroup hs hb hread h ih =>
    obtain ⟨u, v, -, hv, -, hdv⟩ := exists_spells_of_splitClose hw hd hs
    exact ih hv hdv

/-- Balanced lexemes start with no parenthesis without a partner. -/
theorem not_unpaired_of_spells {w : List Char} {ls : List Lexeme} {p : Nat} (hw : Spells w ls)
    (hd : depthAfter 0 w = some 0) : ¬ Unpaired ls p := by
  intro h
  cases h with
  | closing p ls =>
    obtain ⟨c, v, rfl, hc, -⟩ := Spells.cons_iff.1 hw
    obtain rfl : ')' = c := Symbol.toChar_of_ofChar? hc
    simp [depthAfter] at hd
  | opening hs =>
    obtain ⟨c, v, rfl, hc, hv⟩ := Spells.cons_iff.1 hw
    obtain rfl : '(' = c := Symbol.toChar_of_ofChar? hc
    rw [depthAfter_open] at hd
    obtain ⟨inside, close, rest, -, -, hs', -⟩ := Lexeme.closed_of_depthAfter hv hd
    rw [hs] at hs'
    cases hs'

/-- Reading balanced lexemes comes to no parenthesis without a partner. -/
theorem Visits.not_unpaired {w : List Char} {ls later : List Lexeme} {p : Nat}
    (h : Visits ls later) (hw : Spells w ls) (hd : depthAfter 0 w = some 0) :
    ¬ Unpaired later p := by
  obtain ⟨v, hv, hdv⟩ := h.exists_spells hw hd
  exact not_unpaired_of_spells hv hdv

/-- Binders are at fault for no parenthesis. -/
theorem Lexeme.splitBinders_ne_mismatched (close : Nat) (ls : List Lexeme) (p : Nat) :
    splitBinders close ls ≠ .error ⟨.mismatchedParentheses, p⟩ := by
  intro h
  fun_cases splitBinders close ls with
  | case1 | case2 | case3 | case4 => simp_all [splitBinders]

/-- A parenthesis is reported only where reading comes to one without a partner. -/
theorem exists_visits_of_mismatched {ls : List Lexeme} {p : Nat}
    (h : parseTerms ls = .error ⟨.mismatchedParentheses, p⟩) :
    ∃ later, Visits ls later ∧ Unpaired later p := by
  fun_induction parseTerms ls with
  | case1 | case7 | case8 => cases h
  | case2 c q ls ih =>
    cases hts : parseTerms ls with
    | ok ts =>
      rw [hts] at h
      cases h
    | error e =>
      rw [hts] at h
      obtain ⟨later, hv, hu⟩ := ih (hts.trans h)
      exact ⟨later, .afterVariable hv, hu⟩
  | case3 q ls hs =>
    cases h
    exact ⟨_, .here _, .opening hs⟩
  | case4 q ls inside close rest hs e hb =>
    cases h
    exact absurd hb (Lexeme.splitBinders_ne_mismatched close.position inside p)
  | case5 q ls inside close rest hs binders body hb ihBody ihRest =>
    cases hts : parseTerms body with
    | error e =>
      rw [hts] at h
      obtain ⟨later, hv, hu⟩ := ihBody (hts.trans h)
      exact ⟨later, .body hs hb hv, hu⟩
    | ok ts =>
      rw [hts] at h
      cases ts with
      | nil => cases h
      | cons t ts =>
        cases hrs : parseTerms rest with
        | ok rs => simp [hrs, bind, Except.bind, Except.map, Chain.ofList?] at h
        | error e =>
          simp only [hrs, bind, Except.bind, Except.map, Chain.ofList?] at h
          obtain ⟨later, hv, hu⟩ := ihRest (hrs.trans h)
          exact ⟨later, .afterGroup hs hb hts hv, hu⟩
  | case6 q ls =>
    cases h
    exact ⟨_, .here _, .closing p ls⟩

/-! ## Foreign characters -/

/-- A character that no term is written with. -/
def IsForeign (c : Char) : Prop := isBlank c = false ∧ ¬ IsLetter c ∧ c ∉ ['(', ')', '\\', '.']

/-- The first foreign character of a text is `c`, and stands at `p`. -/
def FirstForeign (cs : List Char) (c : Char) (p : Nat) : Prop :=
  ∃ before after, cs = before ++ c :: after ∧ before.length = p ∧ IsForeign c ∧
    ∀ d ∈ before, ¬ IsForeign d

theorem isForeign_iff {c : Char} : IsForeign c ↔ isBlank c = false ∧ Symbol.ofChar? c = none := by
  refine and_congr_right fun _ => ?_
  constructor
  · rintro ⟨hl, hc⟩
    simp only [List.mem_cons, List.not_mem_nil, or_false, not_or] at hc
    obtain ⟨ho, hcl, hb, hd⟩ := hc
    fun_cases Symbol.ofChar? c with
    | case1 | case2 | case3 | case4 => contradiction
    | case5 _ _ _ _ _ halpha => exact absurd ((isAlpha_iff_isLetter c).1 halpha) hl
    | case6 => rfl
  · intro h
    refine ⟨fun hl => ?_, ?_⟩
    · rw [Symbol.ofChar?_of_isLetter hl] at h
      cases h
    · simp only [List.mem_cons, List.not_mem_nil, or_false]
      rintro (rfl | rfl | rfl | rfl) <;> cases h

/-- A text without lexemes has a first foreign character, and that is reported. -/
theorem Lexeme.firstForeign_of_scan {p : Nat} {cs : List Char} {e : UnexpectedCharacter}
    (h : scan p cs = .error e) : ∃ q, FirstForeign cs e.char q ∧ e.position = p + q := by
  induction cs generalizing p with
  | nil => cases h
  | cons c cs ih =>
    rw [scan] at h
    have hlater : ¬ IsForeign c → scan (p + 1) cs = .error e →
        ∃ q, FirstForeign (c :: cs) e.char q ∧ e.position = p + q := by
      intro hc hscan
      obtain ⟨q, ⟨before, after, rfl, rfl, hf, hall⟩, hq⟩ := ih hscan
      refine ⟨before.length + 1, ⟨c :: before, after, rfl, rfl, hf, ?_⟩, by omega⟩
      exact List.forall_mem_cons.2 ⟨hc, hall⟩
    split at h
    · rename_i hb
      exact hlater (fun hf => by simp [hf.1] at hb) h
    · rename_i hb
      split at h
      · rename_i hc
        obtain rfl := Except.error.inj h
        have hf : IsForeign c := isForeign_iff.2 ⟨by simpa using hb, hc⟩
        exact ⟨0, ⟨[], cs, rfl, rfl, hf, List.forall_mem_nil _⟩, rfl⟩
      · rename_i s hs
        refine hlater (fun hf => ?_) ?_
        · rw [(isForeign_iff.1 hf).2] at hs
          cases hs
        · cases hscan : scan (p + 1) cs with
          | error e' =>
            rw [hscan] at h
            exact congrArg Except.error (Except.error.inj h)
          | ok ls =>
            rw [hscan] at h
            cases h

/-- A text with lexemes has no foreign character. -/
theorem Lexeme.not_isForeign_of_scan {p : Nat} {cs : List Char} {ls : List Lexeme}
    (h : scan p cs = .ok ls) {c : Char} (hc : c ∈ cs) : ¬ IsForeign c := by
  intro hf
  have hm : c ∈ dropBlanks cs := List.mem_filter.2 ⟨hc, by rw [hf.1]; rfl⟩
  have hs : Symbol.ofChar? c ∈ (dropBlanks cs).map Symbol.ofChar? := List.mem_map_of_mem hm
  rw [Lexeme.spells_scan h, (isForeign_iff.1 hf).2] at hs
  obtain ⟨l, -, hl⟩ := List.mem_map.1 hs
  cases hl

/-- A text without lexemes to read is blank. -/
theorem Lexeme.scan_eq_nil_iff {p : Nat} {cs : List Char} :
    scan p cs = .ok [] ↔ ∀ c ∈ cs, isBlank c = true := by
  have hdrop : dropBlanks cs = [] ↔ ∀ c ∈ cs, isBlank c = true := by
    simp [dropBlanks, List.filter_eq_nil_iff]
  rw [← hdrop]
  constructor
  · intro h
    exact Spells.nil_iff.1 (Lexeme.spells_scan h)
  · intro h
    have hsome : ∀ c ∈ dropBlanks cs, (Symbol.ofChar? c).isSome := by simp [h]
    obtain ⟨ls, hls⟩ := Lexeme.exists_scan hsome p
    have hw := Lexeme.spells_scan hls
    rw [h] at hw
    obtain rfl : ls = [] := by simpa [Spells] using hw
    exact hls

/-! ## Which fault comes first -/

section

variable {s : String}

theorem Chain.parse_of_mismatchedAt {p : Nat} (h : MismatchedAt s.toList p) :
    Chain.parse s = .error ⟨.mismatchedParentheses, p⟩ := by
  rw [Chain.parse, (pairParentheses_eq_error_iff s.toList p).2 h]

theorem Chain.parse_of_scan_error {e : UnexpectedCharacter} (hb : Balanced s.toList)
    (h : Lexeme.scan 0 s.toList = .error e) :
    Chain.parse s = .error ⟨.unexpectedSymbol e.char, e.position⟩ := by
  obtain ⟨ps, hps⟩ := @exists_pairParentheses s.toList [] 0 (balanced_iff.1 hb)
  rw [Chain.parse, hps, Lexeme.ofText, h]

theorem Chain.parse_of_blank (h : ∀ c ∈ s.toList, isBlank c = true) :
    Chain.parse s = .error ⟨.emptyInput, 0⟩ := by
  have hscan : Lexeme.scan 0 s.toList = .ok [] := Lexeme.scan_eq_nil_iff.2 h
  have hdepth : depthAfter 0 s.toList = some 0 := by
    rw [← depthAfter_dropBlanks, Spells.nil_iff.1 (Lexeme.spells_scan hscan)]
    rfl
  obtain ⟨ps, hps⟩ := @exists_pairParentheses s.toList [] 0 hdepth
  rw [Chain.parse, hps, Lexeme.ofText, hscan]
  simp only [parseTerms]
  rfl

/-- The last pass finds no parenthesis without a partner, and finds a text empty only when it has no
lexemes. -/
theorem Chain.fault_of_scan {ls : List Lexeme} {e : SyntaxError} (hb : Balanced s.toList)
    (hls : Lexeme.scan 0 s.toList = .ok ls) (h : Chain.parse s = .error e) :
    ls = [] ∧ e = ⟨.emptyInput, 0⟩ ∨
      e.fault ≠ .mismatchedParentheses ∧ e.fault ≠ .emptyInput := by
  have hd := balanced_iff.1 hb
  by_cases hne : ls = []
  · subst hne
    rw [Chain.parse_of_blank (Lexeme.scan_eq_nil_iff.1 hls)] at h
    exact .inl ⟨rfl, (Except.error.inj h).symm⟩
  · right
    constructor
    · intro hm
      obtain ⟨fault, p⟩ := e
      obtain rfl : fault = .mismatchedParentheses := hm
      have hreport := parseTerms_of_parse_error hd hls hne h
      have hw := Lexeme.spells_scan hls
      rw [← depthAfter_dropBlanks] at hd
      obtain ⟨later, hv, hu⟩ := exists_visits_of_mismatched hreport
      exact hv.not_unpaired hw hd hu
    · obtain ⟨before, c, after, -, -, hshows⟩ := exists_shows_of_parse_error hd hls hne h
      exact hshows.not_emptyInput

/-- A parenthesis that is reported is the one to blame, and a text that is reported empty is
blank. -/
theorem Chain.fault_of_parse_error {e : SyntaxError} (h : Chain.parse s = .error e) :
    (e.fault = .mismatchedParentheses → MismatchedAt s.toList e.position) ∧
      (e.fault = .emptyInput → e.position = 0 ∧ ∀ c ∈ s.toList, isBlank c = true) := by
  by_cases hb : Balanced s.toList
  · cases hscan : Lexeme.scan 0 s.toList with
    | error e' =>
      rw [Chain.parse_of_scan_error hb hscan] at h
      cases h
      exact ⟨nofun, nofun⟩
    | ok ls =>
      rcases Chain.fault_of_scan hb hscan h with ⟨rfl, rfl⟩ | ⟨hm, he⟩
      · exact ⟨nofun, fun _ => ⟨rfl, Lexeme.scan_eq_nil_iff.1 hscan⟩⟩
      · exact ⟨fun hm' => absurd hm' hm, fun he' => absurd he' he⟩
  · obtain ⟨p, hp⟩ := (exists_mismatchedAt_iff s.toList).2 hb
    rw [Chain.parse_of_mismatchedAt hp] at h
    cases h
    exact ⟨fun _ => hp, nofun⟩

end

/-- Which fault reading a text reports, of those that it has. -/
structure FaultPrecedence (s : String) : Prop where
  /-- A parenthesis is reported just when it is the one to blame, whatever else the text holds. -/
  mismatched : ∀ p, Chain.parse s = .error ⟨.mismatchedParentheses, p⟩ ↔ MismatchedAt s.toList p
  /-- That happens just when the parentheses do not balance. -/
  unbalanced : (∃ p, Chain.parse s = .error ⟨.mismatchedParentheses, p⟩) ↔ ¬ Balanced s.toList
  /-- The first foreign character comes next, even where there is a fault before it. -/
  foreign : Balanced s.toList → (∃ c ∈ s.toList, IsForeign c) →
    ∃ c p, FirstForeign s.toList c p ∧ Chain.parse s = .error ⟨.unexpectedSymbol c, p⟩
  /-- A text is empty just when it is blank, and that shows at its start. -/
  empty : ∀ p, Chain.parse s = .error ⟨.emptyInput, p⟩ ↔
    p = 0 ∧ ∀ c ∈ s.toList, isBlank c = true
  /-- Reading terms never comes to a parenthesis without a partner. -/
  paired : Balanced s.toList → ∀ ls later p, Lexeme.ofText s = .ok ls → Visits ls later →
    ¬ Unpaired later p

/-- Parentheses come first, foreign characters next, and blank texts before what reading terms
finds. -/
theorem Chain.parse_precedence (s : String) : FaultPrecedence s := by
  have hmismatched : ∀ p, Chain.parse s = .error ⟨.mismatchedParentheses, p⟩ ↔
      MismatchedAt s.toList p := fun p =>
    ⟨fun h => (Chain.fault_of_parse_error h).1 rfl, Chain.parse_of_mismatchedAt⟩
  refine ⟨hmismatched, ?_, ?_, ?_, ?_⟩
  · rw [← exists_mismatchedAt_iff]
    exact exists_congr hmismatched
  · rintro hb ⟨c, hc, hf⟩
    cases hscan : Lexeme.scan 0 s.toList with
    | ok ls => exact absurd hf (Lexeme.not_isForeign_of_scan hscan hc)
    | error e =>
      obtain ⟨q, hq, hp⟩ := Lexeme.firstForeign_of_scan hscan
      rw [Nat.zero_add] at hp
      refine ⟨e.char, q, hq, ?_⟩
      rw [← hp]
      exact Chain.parse_of_scan_error hb hscan
  · intro p
    constructor
    · intro h
      exact (Chain.fault_of_parse_error h).2 rfl
    · rintro ⟨rfl, hblank⟩
      exact Chain.parse_of_blank hblank
  · intro hb ls later p hls hvisits
    have hd := balanced_iff.1 hb
    rw [← depthAfter_dropBlanks] at hd
    exact hvisits.not_unpaired (Lexeme.spells_scan hls) hd

/-- The group that no term stands in comes first in the text, but not among its faults. -/
example : Chain.parse "() 1" = .error ⟨.unexpectedSymbol '1', 3⟩ := by decide +kernel

end LambdaDiagram
