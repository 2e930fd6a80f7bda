import LambdaDiagram.Proofs.Precedence

/-!
Blanks do not matter. A text and the same text without its blanks have the same parentheses, the
same symbols and the same terms, and what is wrong with one is wrong with the other, at the same
character. No pass of the reader looks at the positions that it hands on, so relocating what is read
relocates the fault that is reported and changes nothing else.
-/

namespace LambdaDiagram

open Text

/-! ## Relocating -/

/-- A lexeme with its position read off another scale. -/
def Lexeme.relocate (f : Nat → Nat) (l : Lexeme) : Lexeme := ⟨l.symbol, f l.position⟩

/-- A syntax error with its position read off another scale. -/
def SyntaxError.relocate (f : Nat → Nat) (e : SyntaxError) : SyntaxError := ⟨e.fault, f e.position⟩

section

variable (f : Nat → Nat)

namespace Lexeme

theorem positionOr_relocate (next : Nat) (ls : List Lexeme) :
    positionOr (f next) (ls.map (relocate f)) = f (positionOr next ls) := by
  cases ls <;> rfl

theorem splitClose_relocate (depth : Nat) (ls : List Lexeme) :
    splitClose depth (ls.map (relocate f)) = (splitClose depth ls).map fun (inside, close, rest) =>
      (inside.map (relocate f), close.relocate f, rest.map (relocate f)) := by
  induction ls generalizing depth with
  | nil => rfl
  | cons l ls ih =>
    obtain ⟨symbol, p⟩ := l
    cases symbol with
    | closeParen => cases depth <;> simp [relocate, splitClose, ih, Function.comp_def]
    | openParen | letter | lambda | dot => simp [relocate, splitClose, ih, Function.comp_def]

theorem spanLetters_relocate (ls : List Lexeme) :
    spanLetters (ls.map (relocate f)) =
      ((spanLetters ls).1, (spanLetters ls).2.map (relocate f)) := by
  induction ls with
  | nil => rfl
  | cons l ls ih =>
    obtain ⟨symbol, p⟩ := l
    cases symbol with
    | letter c => simp [relocate, spanLetters, ih]
    | openParen | closeParen | lambda | dot => simp [relocate, spanLetters]

theorem splitBinders_relocate (close : Nat) (ls : List Lexeme) :
    splitBinders (f close) (ls.map (relocate f)) =
      ((splitBinders close ls).map fun (binders, body) => (binders, body.map (relocate f))).mapError
        (SyntaxError.relocate f) := by
  cases ls with
  | nil => rfl
  | cons l ls =>
    obtain ⟨symbol, p⟩ := l
    cases symbol with
    | lambda =>
      have hspan := spanLetters_relocate f ls
      rcases hs : spanLetters ls with ⟨_ | ⟨b, bs⟩, rest⟩
      · rw [hs] at hspan
        simp [relocate, splitBinders, hspan, hs, positionOr_relocate, Except.map, Except.mapError,
          SyntaxError.relocate]
      · rw [hs] at hspan
        rcases rest with _ | ⟨⟨symbol, q⟩, rest⟩
        · simp [relocate, splitBinders, hspan, hs, positionOr, Except.map, Except.mapError,
            SyntaxError.relocate]
        · cases symbol <;> simp [relocate, splitBinders, hspan, hs, positionOr, Except.map,
            Except.mapError, SyntaxError.relocate]
    | letter | openParen | closeParen | dot =>
      simp [relocate, splitBinders, Except.map, Except.mapError]

end Lexeme

/-- A group is cut out before it is read. -/
theorem parseTerms_openParen (p : Nat) (ls : List Lexeme) :
    parseTerms (⟨.openParen, p⟩ :: ls) =
      match Lexeme.splitClose 0 ls with
      | none => .error ⟨.mismatchedParentheses, p⟩
      | some (inside, close, rest) =>
        match Lexeme.splitBinders close.position inside with
        | .error e => .error e
        | .ok (binders, body) => parseTerms body >>= fun ts =>
          match Chain.ofList? ts with
          | none => .error ⟨.emptyGroup, close.position⟩
          | some body => (parseTerms rest).map fun us => .group binders body :: us := by
  rw [parseTerms]
  split
  · rename_i hs
    rewrite [hs]
    rfl
  · rename_i inside close rest hs
    rewrite [hs]
    dsimp only
    split
    · rename_i hb
      rewrite [hb]
      rfl
    · rename_i hb
      rewrite [hb]
      rfl

theorem parseTerms_relocate (ls : List Lexeme) :
    parseTerms (ls.map (Lexeme.relocate f)) = (parseTerms ls).mapError (SyntaxError.relocate f) := by
  fun_induction parseTerms ls with
  | case1 => simp [parseTerms, Except.mapError]
  | case2 c p ls ih =>
    rw [List.map_cons, Lexeme.relocate, parseTerms, ih]
    cases parseTerms ls <;> rfl
  | case3 p ls hs =>
    have hsplit := Lexeme.splitClose_relocate f 0 ls
    rw [hs] at hsplit
    rw [List.map_cons, Lexeme.relocate, parseTerms_openParen, hsplit]
    rfl
  | case4 p ls inside close rest hs e hb =>
    have hsplit := Lexeme.splitClose_relocate f 0 ls
    have hbinders := Lexeme.splitBinders_relocate f close.position inside
    rw [hs] at hsplit
    rw [hb] at hbinders
    rw [List.map_cons, Lexeme.relocate, parseTerms_openParen, hsplit]
    simp [Lexeme.relocate, hbinders, Except.map, Except.mapError]
  | case5 p ls inside close rest hs binders body hb ihBody ihRest =>
    have hsplit := Lexeme.splitClose_relocate f 0 ls
    have hbinders := Lexeme.splitBinders_relocate f close.position inside
    rw [hs] at hsplit
    rw [hb] at hbinders
    rw [List.map_cons, Lexeme.relocate, parseTerms_openParen, hsplit]
    simp only [Option.map_some, Lexeme.relocate, hbinders, Except.map, Except.mapError]
    rw [ihBody, ihRest]
    cases parseTerms body with
    | error e => rfl
    | ok ts =>
      simp only [Except.mapError, bind, Except.bind]
      cases Chain.ofList? ts with
      | none => rfl
      | some body => cases parseTerms rest <;> rfl
  | case6 p ls => simp [Lexeme.relocate, parseTerms, Except.mapError, SyntaxError.relocate]
  | case7 p ls => simp [Lexeme.relocate, parseTerms, Except.mapError, SyntaxError.relocate]
  | case8 p ls => simp [Lexeme.relocate, parseTerms, Except.mapError, SyntaxError.relocate]

end

/-! ## Places in a text -/

/-- The index in a text of the character that has the index `k` once the blanks are dropped. -/
def Text.place : List Char → Nat → Nat
  | [], k => k
  | c :: cs, k => if isBlank c then place cs k + 1 else k.casesOn 0 fun k => place cs k + 1

/-- `KeptAt cs i k`: the character at the index `i` of a text is not blank, and it has the index `k`
once the blanks are dropped. -/
def KeptAt (cs : List Char) (i k : Nat) : Prop :=
  ∃ before c after, cs = before ++ c :: after ∧ isBlank c = false ∧ before.length = i ∧
    (dropBlanks before).length = k

section

variable {f : Nat → Nat} {c : Char} {cs : List Char} {p q : Nat}

theorem dropBlanks_blank (h : isBlank c = true) (cs : List Char) :
    dropBlanks (c :: cs) = dropBlanks cs := by
  simp [dropBlanks, h]

theorem place_blank (h : isBlank c = true) (cs : List Char) (k : Nat) :
    place (c :: cs) k = place cs k + 1 := by
  rw [place, if_pos h]

theorem place_zero (h : isBlank c = false) (cs : List Char) : place (c :: cs) 0 = 0 := by
  simp [place, h]

theorem place_succ (h : isBlank c = false) (cs : List Char) (k : Nat) :
    place (c :: cs) (k + 1) = place cs k + 1 := by
  simp [place, h]

theorem KeptAt.cons_blank {i k : Nat} (hb : isBlank c = true) (h : KeptAt cs i k) :
    KeptAt (c :: cs) (i + 1) k := by
  obtain ⟨before, d, after, rfl, hd, rfl, rfl⟩ := h
  exact ⟨c :: before, d, after, rfl, hd, rfl, by rw [dropBlanks_blank hb]⟩

theorem KeptAt.cons {i k : Nat} (hb : isBlank c = false) (h : KeptAt cs i k) :
    KeptAt (c :: cs) (i + 1) (k + 1) := by
  obtain ⟨before, d, after, rfl, hd, rfl, rfl⟩ := h
  exact ⟨c :: before, d, after, rfl, hd, rfl, by rw [dropBlanks_cons hb, List.length_cons]⟩

theorem keptAt_place (cs : List Char) {k : Nat} (h : k < (dropBlanks cs).length) :
    KeptAt cs (place cs k) k := by
  induction cs generalizing k with
  | nil => cases h
  | cons c cs ih =>
    by_cases hb : isBlank c = true
    · rw [dropBlanks_blank hb] at h
      rw [place_blank hb]
      exact (ih h).cons_blank hb
    · rw [Bool.not_eq_true] at hb
      rw [dropBlanks_cons hb, List.length_cons] at h
      cases k with
      | zero =>
        rw [place_zero hb]
        exact ⟨[], c, cs, rfl, hb, rfl, rfl⟩
      | succ k =>
        rw [place_succ hb]
        exact (ih (Nat.lt_of_succ_lt_succ h)).cons hb

/-- `Follows f q p cs`: the characters of a text that stands at `p` are where `f` says, counted from
`q` on once the blanks are dropped. -/
def Follows (f : Nat → Nat) (q p : Nat) (cs : List Char) : Prop :=
  ∀ k < (dropBlanks cs).length, f (q + k) = p + place cs k

theorem follows_place (cs : List Char) : Follows (place cs) 0 0 cs := fun k _ => by
  rw [Nat.zero_add, Nat.zero_add]

theorem Follows.of_blank (hb : isBlank c = true) (h : Follows f q p (c :: cs)) :
    Follows f q (p + 1) cs := by
  intro k hk
  rw [h k (by rwa [dropBlanks_blank hb]), place_blank hb]
  omega

theorem Follows.head (hb : isBlank c = false) (h : Follows f q p (c :: cs)) : f q = p := by
  have hc := h 0 (by rw [dropBlanks_cons hb]; exact Nat.succ_pos _)
  rwa [place_zero hb] at hc

theorem Follows.tail (hb : isBlank c = false) (h : Follows f q p (c :: cs)) :
    Follows f (q + 1) (p + 1) cs := by
  intro k hk
  have hc := h (k + 1) (by rw [dropBlanks_cons hb]; exact Nat.succ_lt_succ hk)
  rw [place_succ hb] at hc
  rw [Nat.add_right_comm, Nat.add_assoc, hc]
  omega

/-- The lexemes of a text are those of the text without its blanks, relocated. -/
theorem Lexeme.scan_dropBlanks (h : Follows f q p cs) :
    scan p cs = ((scan q (dropBlanks cs)).map (List.map (relocate f))).mapError fun e =>
      ⟨e.char, f e.position⟩ := by
  induction cs generalizing p q with
  | nil => rfl
  | cons c cs ih =>
    by_cases hb : isBlank c = true
    · rw [dropBlanks_blank hb, scan, if_pos hb]
      exact ih (h.of_blank hb)
    · rw [Bool.not_eq_true] at hb
      have hvisible : ¬ isBlank c = true := by simp [hb]
      rw [dropBlanks_cons hb, scan, if_neg hvisible, scan, if_neg hvisible]
      cases Symbol.ofChar? c with
      | none => simp [Except.map, Except.mapError, h.head hb]
      | some s =>
        simp only [ih (h.tail hb)]
        cases scan (q + 1) (dropBlanks cs) <;>
          simp [Except.map, Except.mapError, relocate, h.head hb]

/-- The pairs of parentheses of a text are those of the text without its blanks, relocated. -/
theorem pairParentheses_dropBlanks (waiting : List Nat) (h : Follows f q p cs) :
    pairParentheses p (waiting.map f) cs =
      ((pairParentheses q waiting (dropBlanks cs)).map (List.map (Prod.map f f))).mapError f := by
  induction cs generalizing p q waiting with
  | nil =>
    have hlast : (waiting.map f).getLast? = waiting.getLast?.map f := List.getLast?_map
    rw [dropBlanks, List.filter_nil, pairParentheses, pairParentheses, hlast]
    cases waiting.getLast? <;> rfl
  | cons c cs ih =>
    by_cases hb : isBlank c = true
    · have ho : c ≠ '(' := by rintro rfl; exact absurd hb (by decide)
      have hc : c ≠ ')' := by rintro rfl; exact absurd hb (by decide)
      rw [dropBlanks_blank hb, pairParentheses_cons ho hc]
      exact ih _ (h.of_blank hb)
    · rw [Bool.not_eq_true] at hb
      have htail := h.tail hb
      rw [dropBlanks_cons hb]
      by_cases ho : c = '('
      · subst ho
        rw [pairParentheses_open, pairParentheses_open, ← ih _ htail, List.map_cons, h.head hb]
      · by_cases hc : c = ')'
        · subst hc
          cases waiting with
          | nil => simp [pairParentheses, Except.map, Except.mapError, h.head hb]
          | cons r waiting =>
            rw [List.map_cons, pairParentheses_close, pairParentheses_close, ih _ htail]
            cases pairParentheses (q + 1) waiting (dropBlanks cs) <;>
              simp [Except.map, Except.mapError, h.head hb]
        · rw [pairParentheses_cons ho hc, pairParentheses_cons ho hc, ih _ htail]

theorem isBlank_of_mem_dropBlanks (h : c ∈ dropBlanks cs) : isBlank c = false := by
  simpa using (List.mem_filter.1 h).2

theorem dropBlanks_dropBlanks (cs : List Char) : dropBlanks (dropBlanks cs) = dropBlanks cs :=
  List.filter_filter.trans (by simp only [Bool.and_self]; rfl)

theorem Lexeme.splitBinders_ne_emptyInput (close : Nat) (ls : List Lexeme) (p : Nat) :
    splitBinders close ls ≠ .error ⟨.emptyInput, p⟩ := by
  intro h
  fun_cases splitBinders close ls with
  | case1 | case2 | case3 | case4 => simp_all [splitBinders]

/-- The last pass does not find a text empty. -/
theorem parseTerms_ne_emptyInput {ls : List Lexeme} {e : SyntaxError}
    (h : parseTerms ls = .error e) : e.fault ≠ .emptyInput := by
  fun_induction parseTerms ls generalizing e with
  | case1 => cases h
  | case2 c p ls ih =>
    cases hts : parseTerms ls with
    | ok ts => rw [hts] at h; cases h
    | error e' => rw [hts] at h; exact ih (hts.trans h)
  | case4 p ls inside close rest hs e' hb =>
    obtain ⟨fault, q⟩ := e
    rintro rfl
    rw [Except.error.inj h] at hb
    exact Lexeme.splitBinders_ne_emptyInput _ inside q hb
  | case5 p ls inside close rest hs binders body hb ihBody ihRest =>
    cases hts : parseTerms body with
    | error e' => rw [hts] at h; exact ihBody (hts.trans h)
    | ok ts =>
      rw [hts] at h
      cases ts with
      | nil =>
        obtain rfl := Except.error.inj h
        rintro ⟨⟩
      | cons t ts =>
        cases hrs : parseTerms rest with
        | ok us => simp [hrs, bind, Except.bind, Except.map, Chain.ofList?] at h
        | error e' =>
          simp only [hrs, bind, Except.bind, Except.map, Chain.ofList?] at h
          exact ihRest (hrs.trans h)
  | case3 | case6 | case7 | case8 =>
    obtain rfl := Except.error.inj h
    rintro ⟨⟩

/-- Reading a text comes to what reading it without its blanks comes to, relocated. A text that is
empty but for blanks has nothing that the error could point at. -/
theorem Chain.parse_eq_relocate (h : Follows f 0 0 cs) :
    Chain.parse (String.ofList cs) =
      (Chain.parse (String.ofList (dropBlanks cs))).mapError fun e =>
        if e.fault = .emptyInput then e else e.relocate f := by
  have hpairs := pairParentheses_dropBlanks [] h
  have hscan := Lexeme.scan_dropBlanks h
  rw [List.map_nil] at hpairs
  rw [Chain.parse, Chain.parse, Lexeme.ofText, Lexeme.ofText, String.toList_ofList,
    String.toList_ofList, hpairs, hscan]
  cases pairParentheses 0 [] (dropBlanks cs) with
  | error p => rfl
  | ok ps =>
    cases Lexeme.scan 0 (dropBlanks cs) with
    | error e => rfl
    | ok ls =>
      simp only [Except.map, Except.mapError, parseTerms_relocate]
      cases hts : parseTerms ls with
      | error e => simp [bind, Except.bind, parseTerms_ne_emptyInput hts]
      | ok ts => cases ts <;> rfl

theorem place_dropBlanks {k : Nat} (h : k < (dropBlanks cs).length) :
    place (dropBlanks cs) k = k := by
  have hplace := keptAt_place (dropBlanks cs) (by rwa [dropBlanks_dropBlanks])
  obtain ⟨before, c, after, hcs, -, hi, hk⟩ := hplace
  have hbefore : dropBlanks before = before := by
    refine List.filter_eq_self.2 fun d hd => ?_
    have hd' : d ∈ dropBlanks cs := hcs ▸ List.mem_append_left _ hd
    rw [isBlank_of_mem_dropBlanks hd']
    rfl
  rw [← hi, ← hk, hbefore]

/-- The error of a text points into the text. -/
theorem Chain.position_lt_of_parse_error {e : SyntaxError}
    (h : Chain.parse (String.ofList (dropBlanks cs)) = .error e) (hne : e.fault ≠ .emptyInput) :
    e.position < (dropBlanks cs).length := by
  -- a scale that differs from the usual one beyond the text only makes no difference
  have hfollows : Follows (fun k => if k < (dropBlanks cs).length then k else k + 1) 0 0
      (dropBlanks cs) := by
    intro k hk
    rw [dropBlanks_dropBlanks] at hk
    simp [hk, place_dropBlanks hk]
  have hmoved := Chain.parse_eq_relocate hfollows
  rw [dropBlanks_dropBlanks, h] at hmoved
  simp only [Except.mapError, if_neg hne] at hmoved
  have hposition : e.position = _ := congrArg SyntaxError.position (Except.error.inj hmoved)
  simp only [SyntaxError.relocate] at hposition
  grind

end

/-! ## Reading -/

/-- `Agree cs outcome bare`: reading a text and reading it without its blanks come to the same, but
for positions. -/
inductive Agree (cs : List Char) : Except SyntaxError Chain → Except SyntaxError Chain → Prop
  | ok (ts : Chain) : Agree cs (.ok ts) (.ok ts)
  | empty : Agree cs (.error ⟨.emptyInput, 0⟩) (.error ⟨.emptyInput, 0⟩)
  | fault {fault : SyntaxFault} {i k : Nat} (hne : fault ≠ .emptyInput) (h : KeptAt cs i k) :
      Agree cs (.error ⟨fault, i⟩) (.error ⟨fault, k⟩)

/-- What is wrong with a text does not hang on its blanks. -/
theorem Chain.mapError_parse_dropBlanks (cs : List Char) :
    (Chain.parse (String.ofList cs)).mapError SyntaxError.fault =
      (Chain.parse (String.ofList (dropBlanks cs))).mapError SyntaxError.fault := by
  rw [Chain.parse_eq_relocate (follows_place cs)]
  cases Chain.parse (String.ofList (dropBlanks cs)) with
  | ok ts => rfl
  | error e =>
    simp only [Except.mapError]
    split
    · rfl
    · rfl

/-- Where something is wrong with a text does not hang on its blanks either. -/
theorem Chain.agree_dropBlanks (cs : List Char) : Agree cs (Chain.parse (String.ofList cs))
    (Chain.parse (String.ofList (dropBlanks cs))) := by
  rw [Chain.parse_eq_relocate (follows_place cs)]
  cases hbare : Chain.parse (String.ofList (dropBlanks cs)) with
  | ok ts => exact .ok ts
  | error e =>
    obtain ⟨fault, k⟩ := e
    by_cases hne : fault = .emptyInput
    · subst hne
      obtain ⟨rfl, -⟩ := (Chain.fault_of_parse_error hbare).2 rfl
      exact .empty
    · simp only [Except.mapError, if_neg hne]
      exact .fault hne (keptAt_place _ (Chain.position_lt_of_parse_error hbare hne))

/-- Blanks do not matter: a text and the same text without its blanks are read as the same chain, or
the same is wrong with both, and the positions that are reported are those of the same character.
A text of blanks only is reported empty at its start. So blanks can be put in and taken out
anywhere. -/
theorem Chain.parse_ignores_blanks (s : String) :
    Agree s.toList (Chain.parse s) (Chain.parse (String.ofList (dropBlanks s.toList))) ∧
      ∀ before blanks after, s.toList = before ++ after → (∀ c ∈ blanks, isBlank c = true) →
        (Chain.parse (String.ofList (before ++ blanks ++ after))).mapError SyntaxError.fault =
          (Chain.parse s).mapError SyntaxError.fault := by
  constructor
  · have hagree := Chain.agree_dropBlanks s.toList
    rwa [String.ofList_toList] at hagree
  · intro before blanks after hs hblanks
    have hnone : dropBlanks blanks = [] := by
      refine List.filter_eq_nil_iff.2 fun c hc => ?_
      simp [hblanks c hc]
    have hsame : dropBlanks (before ++ blanks ++ after) = dropBlanks s.toList := by
      rw [hs, dropBlanks_append, dropBlanks_append, dropBlanks_append, hnone, List.append_nil]
    have hparse := Chain.mapError_parse_dropBlanks s.toList
    rw [String.ofList_toList] at hparse
    rw [Chain.mapError_parse_dropBlanks, hsame, hparse]

/-- Two blanks among the binders of a group, one of them outside ASCII: the dot is still missing
where the group closes. -/
theorem Chain.parse_ignores_blanks_binders :
    Agree "(\\x \u3000y)".toList (.error ⟨.missingDot, 6⟩) (.error ⟨.missingDot, 4⟩) ∧
      (Chain.parse "(\\x \u3000y)").mapError SyntaxError.fault =
        (Chain.parse "(\\xy)").mapError SyntaxError.fault := by
  have hspace : isBlank ' ' = true := by decide
  have hwide : isBlank '\u3000' = true := by decide
  have hwith : Chain.parse "(\\x \u3000y)" = .error ⟨.missingDot, 6⟩ := by decide +kernel
  have hbare : Chain.parse (String.ofList (dropBlanks "(\\x \u3000y)".toList)) =
      .error ⟨.missingDot, 4⟩ := by decide +kernel
  have hagree := (Chain.parse_ignores_blanks "(\\x \u3000y)").1
  rw [hwith, hbare] at hagree
  exact ⟨hagree, (Chain.parse_ignores_blanks "(\\xy)").2 ['(', '\\', 'x'] [' ', '\u3000']
    ['y', ')'] (by decide) (by simp [hspace, hwide])⟩

end LambdaDiagram
