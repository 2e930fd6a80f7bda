import LambdaDiagram.Proofs.Places
import Mathlib.Data.List.Induction

/-!
Where a text stops being the beginning of a term. A balanced text of symbols and blanks that is not
read has a first character after which no text can go on to one that is read; the reader reports
this character, and the fault says what was due there. What is due is a matter of the last few
symbols before.
-/

namespace LambdaDiagram

open Text

/-- Some text goes on with this one to a text that is read. -/
def Viable (cs : List Char) : Prop := ∃ more ts, Chain.parse (String.ofList (cs ++ more)) = .ok ts

/-! Where a text without blanks ends. -/

/-- Right after the opening parenthesis of a group. -/
def AfterOpening (w : List Char) : Prop := ['('] <:+ w

/-- Right after the backslash that opens the binders of a group. -/
def AfterBackslash (w : List Char) : Prop := ['(', '\\'] <:+ w

/-- After one or more binders of a group. -/
def AfterBinders (w : List Char) : Prop :=
  ∃ bs, bs ≠ [] ∧ (∀ c ∈ bs, IsLetter c) ∧ '(' :: '\\' :: bs <:+ w

/-- Right after the dot that closes the binders of a group. -/
def AfterDot (w : List Char) : Prop := ∃ v, AfterBinders v ∧ w = v ++ ['.']

/-- `Shows fault before c`: the fault of a text shows at the character `c`, which stands after
`before` and is the first that no text with this beginning can have there. -/
structure Shows (fault : SyntaxFault) (before : List Char) (c : Char) : Prop where
  visible : isBlank c = false
  viable : Viable before
  impossible : ¬ Viable (before ++ [c])
  /-- A group closes where its first term, or that of its body, is due. -/
  emptyGroup : fault = .emptyGroup ↔
    c = ')' ∧ (AfterOpening (dropBlanks before) ∨ AfterDot (dropBlanks before))
  /-- The first binder of a group is due. -/
  missingBinder : fault = .missingBinder ↔ ¬ IsLetter c ∧ AfterBackslash (dropBlanks before)
  /-- One more binder or the dot is due. -/
  missingDot : fault = .missingDot ↔ ¬ IsLetter c ∧ c ≠ '.' ∧ AfterBinders (dropBlanks before)
  /-- A term or the end of a group can stand here, but not this symbol. -/
  unexpectedSymbol : ∀ d, fault = .unexpectedSymbol d ↔ d = c ∧ (c = '\\' ∨ c = '.') ∧
    (Viable (before ++ ['(']) ∨ Viable (before ++ [')'])) ∧
    ¬ (c = '\\' ∧ AfterOpening (dropBlanks before))
  not_emptyInput : fault ≠ .emptyInput
  not_mismatched : fault ≠ .mismatchedParentheses

/-! ## What is due after a text -/

section

variable {w : List Char} {c : Char}

theorem concat_suffix_concat {v : List Char} {a : Char} :
    v ++ [a] <:+ w ++ [c] ↔ c = a ∧ v <:+ w := by
  rw [List.suffix_concat_iff]
  constructor
  · rintro (h | ⟨t, ht, hs⟩)
    · simp at h
    · obtain ⟨rfl, he⟩ := List.append_inj' ht rfl
      exact ⟨(List.singleton_inj.1 he).symm, hs⟩
  · rintro ⟨rfl, hs⟩
    exact .inr ⟨v, rfl, hs⟩

theorem afterOpening_concat : AfterOpening (w ++ [c]) ↔ c = '(' := by
  have h := concat_suffix_concat (w := w) (c := c) (v := []) (a := '(')
  rw [List.nil_append] at h
  rw [AfterOpening, h]
  exact and_iff_left (List.nil_suffix)

theorem afterBackslash_concat : AfterBackslash (w ++ [c]) ↔ AfterOpening w ∧ c = '\\' := by
  rw [and_comm]
  exact concat_suffix_concat (v := ['('])

theorem afterBinders_concat :
    AfterBinders (w ++ [c]) ↔ (AfterBackslash w ∨ AfterBinders w) ∧ IsLetter c := by
  constructor
  · rintro ⟨bs, hne, hbs, hs⟩
    obtain rfl | ⟨bs, b, rfl⟩ := bs.eq_nil_or_concat
    · exact absurd rfl hne
    rw [List.concat_eq_append] at hbs hs
    obtain ⟨hlast, hsuffix⟩ := concat_suffix_concat (v := '(' :: '\\' :: bs) |>.1 hs
    obtain ⟨hinit, hb⟩ := List.forall_mem_append.1 hbs
    subst hlast
    refine ⟨?_, hb _ (List.mem_singleton.2 rfl)⟩
    by_cases he : bs = []
    · subst he
      exact .inl hsuffix
    · exact .inr ⟨bs, he, hinit, hsuffix⟩
  · rintro ⟨hw | ⟨bs, hne, hbs, hs⟩, hc⟩
    · refine ⟨[c], by simp, ?_, ?_⟩
      · intro d hd
        obtain rfl := List.mem_singleton.1 hd
        exact hc
      · exact concat_suffix_concat (v := ['(', '\\']) |>.2 ⟨rfl, hw⟩
    · refine ⟨bs ++ [c], by simp, ?_, ?_⟩
      · refine List.forall_mem_append.2 ⟨hbs, ?_⟩
        intro d hd
        obtain rfl := List.mem_singleton.1 hd
        exact hc
      · exact concat_suffix_concat (v := '(' :: '\\' :: bs) |>.2 ⟨rfl, hs⟩

theorem afterDot_concat : AfterDot (w ++ [c]) ↔ AfterBinders w ∧ c = '.' := by
  constructor
  · rintro ⟨v, hv, he⟩
    obtain ⟨rfl, hc⟩ := List.append_inj' he rfl
    exact ⟨hv, List.singleton_inj.1 hc⟩
  · rintro ⟨hw, rfl⟩
    exact ⟨w, hw, rfl⟩

end

/-- A place in a text says how the text ends. -/
structure Place.EndsWith (place : Place) (w : List Char) : Prop where
  inside : place.due = .inside ↔ AfterOpening w
  binder : place.due = .binder ↔ AfterBackslash w
  dot : place.due = .dot ↔ AfterBinders w
  first : place.due = .first ↔ w = [] ∨ AfterDot w

namespace Place

/-- The place where a text starts. -/
def start : Place := ⟨0, .first⟩

variable {place place' : Place} {s : Symbol} {c : Char} {w : List Char} {ls : List Lexeme}
variable {fault : SyntaxFault}

theorem start_endsWith : start.EndsWith [] where
  inside := by simp [start, AfterOpening]
  binder := by simp [start, AfterBackslash]
  dot := by simp [start, AfterBinders]
  first := by simp [start]

/-- What is due next depends on what is due and on the symbol. -/
theorem due_of_next (h : place.next s = .ok place') :
    (place'.due = .inside ↔ s = .openParen) ∧
      (place'.due = .binder ↔ place.due = .inside ∧ s = .lambda) ∧
      (place'.due = .dot ↔ (place.due = .binder ∨ place.due = .dot) ∧ ∃ c, s = .letter c) ∧
      (place'.due = .first ↔ place.due = .dot ∧ s = .dot) := by
  obtain ⟨depth, due⟩ := place
  cases due <;> cases s <;> cases depth <;> cases h <;> simp

theorem EndsWith.next (h : place.EndsWith w) (hc : Symbol.ofChar? c = some s)
    (hn : place.next s = .ok place') : place'.EndsWith (w ++ [c]) := by
  obtain ⟨hinside, hbinder, hdot, hfirst⟩ := due_of_next hn
  refine ⟨?_, ?_, ?_, ?_⟩
  · rw [hinside, afterOpening_concat]
    exact Symbol.eq_iff hc (t := .openParen) rfl
  · rw [hbinder, afterBackslash_concat, h.inside]
    exact and_congr_right' (Symbol.eq_iff hc (t := .lambda) rfl)
  · rw [hdot, afterBinders_concat, h.binder, h.dot]
    exact and_congr_right' (Symbol.exists_letter_iff hc)
  · have hnil : w ++ [c] ≠ [] := by simp
    rw [hfirst, afterDot_concat, h.dot, or_iff_right hnil]
    exact and_congr_right' (Symbol.eq_iff hc (t := .dot) rfl)

/-- The place after a text says how the text ends. -/
theorem endsWith_of_walk (hw : Spells w ls) (h : start.walk ls = .ok place) :
    place.EndsWith w := by
  induction ls using List.reverseRecOn generalizing w place with
  | nil =>
    obtain rfl := Spells.nil_iff.1 hw
    obtain rfl := Except.ok.inj h
    exact start_endsWith
  | append_singleton ls l ih =>
    obtain ⟨v, last, rfl, hv, hlast⟩ := Spells.append_iff.1 hw
    obtain ⟨c, rest, rfl, hc, hrest⟩ := Spells.cons_iff.1 hlast
    obtain rfl := Spells.nil_iff.1 hrest
    rw [walk_append] at h
    obtain ⟨place', hplace', hlast⟩ := ok_of_bind h
    rw [walk] at hlast
    split at hlast
    · cases hlast
    · rename_i hn
      obtain rfl := Except.ok.inj hlast
      exact (ih hv hplace').next hc hn

/-! ## Texts that can go on -/

/-- What ends a text at a place. -/
def ending : Place → List Char
  | ⟨depth, due⟩ =>
    (match due with
      | .first => ['x']
      | .inside => ['x']
      | .binder => ['x', '.', 'x']
      | .dot => ['.', 'x']
      | .more => []) ++ List.replicate depth ')'

/-- Going on with a character. -/
theorem exists_walk_of_spells (place : Place) (s : Symbol) (hw : Spells (c :: w) ls)
    (hc : Symbol.ofChar? c = some s) (hn : place.next s = .ok place') :
    ∃ ls', Spells w ls' ∧ place.walk ls = place'.walk ls' := by
  obtain ⟨l, ls', rfl, hl, hw'⟩ := Spells.of_cons hw
  obtain rfl : s = l.symbol := Option.some.inj (hc.symm.trans hl)
  exact ⟨ls', hw', walk_cons_ok hn⟩

theorem walk_closers {depth : Nat} (hw : Spells (List.replicate depth ')') ls) :
    walk ⟨depth, .more⟩ ls = .ok ⟨0, .more⟩ := by
  induction depth generalizing ls with
  | zero =>
    obtain rfl : ls = [] := by simpa [Spells] using hw
    rfl
  | succ depth ih =>
    obtain ⟨ls', hw', he⟩ := exists_walk_of_spells ⟨depth + 1, .more⟩ .closeParen hw rfl rfl
    rw [he]
    exact ih hw'

theorem walk_variable {depth : Nat} {due : Due} (hw : Spells ('x' :: List.replicate depth ')') ls)
    (hdue : next ⟨depth, due⟩ (.letter 'x') = .ok ⟨depth, .more⟩) :
    walk ⟨depth, due⟩ ls = .ok ⟨0, .more⟩ := by
  obtain ⟨ls', hw', he⟩ := exists_walk_of_spells ⟨depth, due⟩ (.letter 'x') hw (by decide) hdue
  rw [he]
  exact walk_closers hw'

theorem walk_dot {depth : Nat} (hw : Spells ('.' :: 'x' :: List.replicate depth ')') ls) :
    walk ⟨depth, .dot⟩ ls = .ok ⟨0, .more⟩ := by
  obtain ⟨ls', hw', he⟩ := exists_walk_of_spells ⟨depth, .dot⟩ .dot hw rfl rfl
  rw [he]
  exact walk_variable hw' rfl

/-- From each place its ending leads to the end of the terms. -/
theorem walk_ending (hw : Spells place.ending ls) : place.walk ls = .ok ⟨0, .more⟩ := by
  obtain ⟨depth, due⟩ := place
  cases due with
  | first => exact walk_variable hw rfl
  | inside => exact walk_variable hw rfl
  | binder =>
    obtain ⟨ls', hw', he⟩ :=
      exists_walk_of_spells ⟨depth, .binder⟩ (.letter 'x') hw (by decide) rfl
    rw [he]
    exact walk_dot hw'
  | dot => exact walk_dot hw
  | more => exact walk_closers hw

theorem mem_ending (hc : c ∈ place.ending) : c = 'x' ∨ c = '.' ∨ c = ')' := by
  obtain ⟨depth, due⟩ := place
  cases due <;> simp [ending] at hc <;> tauto

end Place

namespace Lexeme

theorem scan_append (p : Nat) (v w : List Char) :
    scan p (v ++ w) = (scan p v).bind fun ls => (scan (p + v.length) w).map (ls ++ ·) := by
  induction v generalizing p with
  | nil => cases h : scan p w <;> simp [scan, Except.bind, Except.map, h]
  | cons c v ih =>
    have hp : p + (c :: v).length = p + 1 + v.length := by
      rw [List.length_cons]
      omega
    rw [List.cons_append, scan, scan, hp]
    split
    · exact ih (p + 1)
    · split
      · rfl
      · rw [ih]
        cases scan (p + 1) v with
        | error e => rfl
        | ok ls => cases scan (p + 1 + v.length) w <;> rfl

/-- A lexeme is read off a character that is not blank, at its position. -/
theorem scan_split {p : Nat} {cs : List Char} {ls₁ ls₂ : List Lexeme} {l : Lexeme}
    (h : scan p cs = .ok (ls₁ ++ l :: ls₂)) :
    ∃ before c after, cs = before ++ c :: after ∧ scan p before = .ok ls₁ ∧
      Text.isBlank c = false ∧ Symbol.ofChar? c = some l.symbol ∧
      l.position = p + before.length := by
  induction cs generalizing p ls₁ with
  | nil => simp [scan] at h
  | cons c cs ih =>
    rw [scan] at h
    split at h
    · rename_i hb
      obtain ⟨before, d, after, rfl, hs, hd, hl, hp⟩ := ih h
      refine ⟨c :: before, d, after, rfl, ?_, hd, hl, ?_⟩
      · rw [scan, if_pos hb, hs]
      · rw [hp, List.length_cons]
        omega
    · rename_i hb
      split at h
      · cases h
      · rename_i s hc
        obtain ⟨ls, hls, he⟩ := ok_of_map h
        cases ls₁ with
        | nil =>
          obtain ⟨rfl, -⟩ := List.cons.inj he
          exact ⟨[], c, cs, rfl, rfl, by simpa using hb, hc, rfl⟩
        | cons l₁ ls₁ =>
          obtain ⟨rfl, rfl⟩ := List.cons.inj he
          obtain ⟨before, d, after, rfl, hs, hd, hl, hp⟩ := ih hls
          refine ⟨c :: before, d, after, rfl, ?_, hd, hl, ?_⟩
          · rw [scan, if_neg hb, hc, hs]
            rfl
          · rw [hp, List.length_cons]
            omega

end Lexeme

section

variable {cs more before : List Char} {ls : List Lexeme} {place : Place} {c : Char} {s : Symbol}

/-- A text whose lexemes lead to the end of some terms is read. -/
theorem exists_parse_of_walk (hs : Lexeme.scan 0 cs = .ok ls)
    (h : Place.start.walk ls = .ok ⟨0, .more⟩) :
    ∃ ts, Chain.parse (String.ofList cs) = .ok ts := by
  have hw := Lexeme.spells_scan hs
  have hd : depthAfter 0 (dropBlanks cs) = some 0 := Place.depthAfter_of_walk hw h
  have hwalk := Place.walk_parseTerms hw hd (.inl rfl) 0
  rw [show (⟨0, .first⟩ : Place) = Place.start from rfl, h] at hwalk
  obtain ⟨ts, hts, hmore⟩ := ok_of_map hwalk.symm
  cases ts with
  | nil => cases hmore
  | cons t ts =>
    refine ⟨Chain.ofTerms t ts, Chain.Written.parse_eq ?_⟩
    rw [String.toList_ofList, Chain.written_iff_writtenTerms, Chain.toList_ofTerms]
    exact writtenTerms_of_parseTerms hw hts

/-- The lexemes of a text that is read lead somewhere. -/
theorem exists_walk_of_parse {ts : Chain} (hs : Lexeme.scan 0 cs = .ok ls)
    (h : Chain.parse (String.ofList cs) = .ok ts) : ∃ place, Place.start.walk ls = .ok place := by
  have hw := Lexeme.spells_scan hs
  have hwritten := Chain.written_of_parse h
  rw [String.toList_ofList] at hwritten
  have hwalk := Place.walk_parseTerms hw (hwritten.depthAfter_eq 0) (.inl rfl) 0
  rw [hwritten.parseTerms_toList hw] at hwalk
  exact ⟨_, hwalk⟩

/-- A text can go on to one that is read just when its lexemes lead somewhere. -/
theorem viable_iff (hs : Lexeme.scan 0 cs = .ok ls) :
    Viable cs ↔ ∃ place, Place.start.walk ls = .ok place := by
  constructor
  · rintro ⟨more, ts, h⟩
    have hwritten := Chain.written_of_parse h
    rw [String.toList_ofList] at hwritten
    obtain ⟨ls', hls'⟩ := Lexeme.exists_scan hwritten.isSome_ofChar? 0
    obtain ⟨place, hplace⟩ := exists_walk_of_parse hls' h
    rw [Lexeme.scan_append, hs] at hls'
    obtain ⟨ls₂, -, rfl⟩ := ok_of_map hls'
    rw [Place.walk_append] at hplace
    obtain ⟨place', hplace', -⟩ := ok_of_bind hplace
    exact ⟨place', hplace'⟩
  · rintro ⟨place, hplace⟩
    have hblank : ∀ c ∈ place.ending, isBlank c = false := by
      intro c hc
      rcases Place.mem_ending hc with rfl | rfl | rfl <;> decide
    have hdrop : dropBlanks place.ending = place.ending := by
      apply List.filter_eq_self.2
      intro c hc
      rw [hblank c hc]
      rfl
    have hsome : ∀ c ∈ dropBlanks place.ending, (Symbol.ofChar? c).isSome := by
      rw [hdrop]
      intro c hc
      rcases Place.mem_ending hc with rfl | rfl | rfl <;> decide
    obtain ⟨ls', hls'⟩ := Lexeme.exists_scan hsome (0 + cs.length)
    have hending := Lexeme.spells_scan hls'
    rw [hdrop] at hending
    have hscan : Lexeme.scan 0 (cs ++ place.ending) = .ok (ls ++ ls') := by
      rw [Lexeme.scan_append, hs]
      exact congrArg (Except.map (ls ++ ·)) hls'
    have hwalk : Place.start.walk (ls ++ ls') = .ok ⟨0, .more⟩ := by
      rw [Place.walk_append, hplace]
      exact Place.walk_ending hending
    obtain ⟨ts, hts⟩ := exists_parse_of_walk hscan hwalk
    exact ⟨place.ending, ts, hts⟩

/-- A text can go on with a symbol just when the place after it does. -/
theorem viable_concat_iff (hs : Lexeme.scan 0 before = .ok ls)
    (hplace : Place.start.walk ls = .ok place) (hb : isBlank c = false)
    (hc : Symbol.ofChar? c = some s) :
    Viable (before ++ [c]) ↔ ∃ place', place.next s = .ok place' := by
  have hscan : Lexeme.scan 0 (before ++ [c]) = .ok (ls ++ [⟨s, 0 + before.length⟩]) := by
    rw [Lexeme.scan_append, hs]
    simp [Except.bind, Lexeme.scan, hb, hc, Except.map]
  rw [viable_iff hscan, Place.walk_append, hplace]
  constructor
  · rintro ⟨place', h⟩
    cases hn : place.next s with
    | error fault =>
      have hwalk : (Except.ok place).bind (fun p => p.walk [⟨s, 0 + before.length⟩]) =
          .error ⟨fault, 0 + before.length⟩ := Place.walk_cons_error hn
      rw [hwalk] at h
      cases h
    | ok place' => exact ⟨place', rfl⟩
  · rintro ⟨place', hn⟩
    exact ⟨place', Place.walk_cons_ok hn⟩

end

/-! ## What a fault says -/

section

variable {place : Place} {s : Symbol} {fault : SyntaxFault}

/-- Only a parenthesis that closes no group is mismatched. -/
theorem next_mismatched (h : place.next s = .error .mismatchedParentheses) :
    place.depth = 0 ∧ s = .closeParen := by
  obtain ⟨depth, due⟩ := place
  cases due <;> cases s <;> cases depth <;> cases h <;> exact ⟨rfl, rfl⟩

/-- Where a group can close, one can open. -/
theorem exists_next_openParen (h : ∃ place', place.next .closeParen = .ok place') :
    ∃ place', place.next .openParen = .ok place' := by
  obtain ⟨place', h⟩ := h
  obtain ⟨depth, due⟩ := place
  cases due <;> cases depth <;> cases h
  exact ⟨_, rfl⟩

/-- A group can open unless binders are due. -/
theorem exists_next_openParen_iff :
    (∃ place', place.next .openParen = .ok place') ↔ place.due ≠ .binder ∧ place.due ≠ .dot := by
  obtain ⟨depth, due⟩ := place
  cases due with
  | binder => exact ⟨nofun, fun h => absurd rfl h.1⟩
  | dot => exact ⟨nofun, fun h => absurd rfl h.2⟩
  | first | inside | more => exact ⟨fun _ => ⟨nofun, nofun⟩, fun _ => ⟨_, rfl⟩⟩

/-- What a fault says about what is due, when the symbol closes a group only
where one is open. -/
theorem fault_of_next (h : place.next s = .error fault) (hm : fault ≠ .mismatchedParentheses) :
    (fault = .emptyGroup ↔ s = .closeParen ∧ (place.due = .inside ∨ place.due = .first)) ∧
      (fault = .missingBinder ↔ place.due = .binder) ∧
      (fault = .missingDot ↔ place.due = .dot) ∧
      (∀ d, fault = .unexpectedSymbol d ↔ d = s.toChar ∧ (s = .lambda ∨ s = .dot) ∧
        place.due ≠ .binder ∧ place.due ≠ .dot) ∧
      fault ≠ .emptyInput := by
  obtain ⟨depth, due⟩ := place
  cases due <;> cases s <;> cases depth <;> cases h <;> simp [Symbol.toChar, eq_comm] at hm ⊢

end

/-- In a text of symbols and blanks with balanced parentheses, the last pass reports the error. -/
theorem parseTerms_of_parse_error {s : String} {e : SyntaxError} {ls : List Lexeme}
    (hd : depthAfter 0 s.toList = some 0) (hs : Lexeme.scan 0 s.toList = .ok ls) (hne : ls ≠ [])
    (h : Chain.parse s = .error e) : parseTerms ls = .error e := by
  obtain ⟨ps, hps⟩ := @exists_pairParentheses s.toList [] 0 hd
  rw [Chain.parse, hps, Lexeme.ofText, hs] at h
  cases hts : parseTerms ls with
  | error e' =>
    simp only [hts, bind, Except.bind] at h
    rw [Except.error.inj h]
  | ok ts =>
    cases ts with
    | nil =>
      have hw := Lexeme.spells_scan hs
      have hnil : dropBlanks s.toList = [] := writtenTerms_of_parseTerms hw hts
      rw [hnil] at hw
      exact absurd (by simpa [Spells] using hw) hne
    | cons t ts => simp [hts, bind, Except.bind, Chain.ofList?] at h

/-- In balanced parentheses, what closes a group closes one that is open. -/
theorem ne_mismatched_of_next {before after : List Char} {c : Char} {s : Symbol} {ls : List Lexeme}
    {place : Place} {fault : SyntaxFault}
    (hd : depthAfter 0 (before ++ c :: after) = some 0) (hs : Lexeme.scan 0 before = .ok ls)
    (hc : Symbol.ofChar? c = some s) (hplace : Place.start.walk ls = .ok place)
    (hn : place.next s = .error fault) : fault ≠ .mismatchedParentheses := by
  rintro rfl
  obtain ⟨hdepth, rfl⟩ := next_mismatched hn
  obtain rfl : ')' = c := Symbol.toChar_of_ofChar? hc
  have hbefore : depthAfter Place.start.depth before = some 0 := by
    rw [← depthAfter_dropBlanks, ← hdepth]
    exact Place.depthAfter_of_walk (Lexeme.spells_scan hs) hplace
  rw [depthAfter_append, show depthAfter 0 before = some 0 from hbefore] at hd
  simp [depthAfter] at hd

/-- Where the walk along a balanced text ends early, the fault shows at the next character. -/
theorem shows_of_next {before after : List Char} {c : Char} {s : Symbol} {ls : List Lexeme}
    {place : Place} {fault : SyntaxFault}
    (hd : depthAfter 0 (before ++ c :: after) = some 0) (hs : Lexeme.scan 0 before = .ok ls)
    (hb : isBlank c = false) (hc : Symbol.ofChar? c = some s)
    (hplace : Place.start.walk ls = .ok place) (hn : place.next s = .error fault) :
    Shows fault before c := by
  have hw := Lexeme.spells_scan hs
  have hends := Place.endsWith_of_walk hw hplace
  have hm := ne_mismatched_of_next hd hs hc hplace hn
  obtain ⟨hempty, hbinder, hdot, hunexpected, hinput⟩ := fault_of_next hn hm
  have hletter : ¬ IsLetter c := by
    intro hl
    obtain ⟨d, rfl⟩ := (Symbol.exists_letter_iff hc).2 hl
    obtain ⟨depth, due⟩ := place
    cases due <;> cases hn
  have hclose : s = .closeParen ↔ c = ')' := Symbol.eq_iff hc (t := .closeParen) rfl
  have hlambda : s = .lambda ↔ c = '\\' := Symbol.eq_iff hc (t := .lambda) rfl
  have hfull : s = .dot ↔ c = '.' := Symbol.eq_iff hc (t := .dot) rfl
  have hopens : ∀ {d t}, isBlank d = false → Symbol.ofChar? d = some t →
      (Viable (before ++ [d]) ↔ ∃ place', place.next t = .ok place') :=
    fun hd ht => viable_concat_iff hs hplace hd ht
  refine ⟨hb, (viable_iff hs).2 ⟨place, hplace⟩, ?_, ?_, ?_, ?_, ?_, hinput, hm⟩
  · rw [hopens hb hc, hn]
    rintro ⟨place', h⟩
    cases h
  · rw [hempty, hclose, hends.inside, hends.first]
    refine and_congr_right fun hc' => or_congr_right (or_iff_right ?_)
    -- no group is open at the start
    intro hnil
    rw [hnil] at hw
    obtain rfl : ls = [] := by simpa [Spells] using hw
    obtain rfl := Except.ok.inj hplace
    rw [hclose.2 hc'] at hn
    exact hm (Except.error.inj hn).symm
  · rw [hbinder, hends.binder]
    exact (and_iff_right hletter).symm
  · rw [hdot, hends.dot]
    refine ⟨fun hbinders => ⟨hletter, ?_, hbinders⟩, fun h => h.2.2⟩
    -- a dot is what is due there
    intro hc'
    rw [hfull.2 hc'] at hn
    have hdue := hends.dot.2 hbinders
    obtain ⟨depth, due⟩ := place
    obtain rfl : due = .dot := hdue
    cases hn
  · intro d
    have hterm : (∃ place', place.next .openParen = .ok place') ↔
        Viable (before ++ ['(']) ∨ Viable (before ++ [')']) := by
      rw [hopens (d := '(') (by decide) rfl, hopens (d := ')') (by decide) rfl]
      exact (or_iff_left_of_imp exists_next_openParen).symm
    have hinside : ¬ (c = '\\' ∧ AfterOpening (dropBlanks before)) := by
      rintro ⟨hc', hopening⟩
      rw [hlambda.2 hc'] at hn
      have hdue := hends.inside.2 hopening
      obtain ⟨depth, due⟩ := place
      obtain rfl : due = .inside := hdue
      cases depth <;> cases hn
    rw [hunexpected, ← exists_next_openParen_iff, hterm, Symbol.toChar_of_ofChar? hc, hlambda,
      hfull, and_iff_left hinside]

/-- The error that the last pass reports points at the first character after which no text is read,
and says what was due there. -/
theorem exists_shows_of_parse_error {s : String} {e : SyntaxError} {ls : List Lexeme}
    (hbalanced : depthAfter 0 s.toList = some 0) (hls : Lexeme.scan 0 s.toList = .ok ls)
    (hne : ls ≠ []) (h : Chain.parse s = .error e) :
    ∃ before c after, s.toList = before ++ c :: after ∧ before.length = e.position ∧
      Shows e.fault before c := by
  have hw := Lexeme.spells_scan hls
  have hparse := parseTerms_of_parse_error hbalanced hls hne h
  have hwalk : Place.start.walk ls = .error e := by
    rw [← depthAfter_dropBlanks] at hbalanced
    have hterms := Place.walk_parseTerms hw hbalanced (.inl rfl) 0
    rw [hparse] at hterms
    exact hterms
  obtain ⟨ls₁, l, ls₂, place, rfl, hplace, hn, hp⟩ := Place.walk_eq_error hwalk
  obtain ⟨before, c, after, hs, hbefore, hb, hc, hposition⟩ := Lexeme.scan_split hls
  rw [hs] at hbalanced
  refine ⟨before, c, after, hs, ?_, shows_of_next hbalanced hbefore hb hc hplace hn⟩
  omega

/-- The error of a text of symbols and blanks with balanced parentheses points at the first
character after which no text is read, and says what was due there. -/
theorem Chain.parse_error_shows (s : String) (e : SyntaxError)
    (hbalanced : depthAfter 0 s.toList = some 0)
    (hsymbols : ∀ c ∈ s.toList, isBlank c = true ∨ IsLetter c ∨ c ∈ ['(', ')', '\\', '.'])
    (hvisible : ∃ c ∈ s.toList, isBlank c = false) (h : Chain.parse s = .error e) :
    ∃ before c after, s.toList = before ++ c :: after ∧ before.length = e.position ∧
      Shows e.fault before c := by
  have hsome : ∀ c ∈ dropBlanks s.toList, (Symbol.ofChar? c).isSome := by
    intro c hc
    obtain ⟨hm, hb⟩ := List.mem_filter.1 hc
    rcases hsymbols c hm with hb' | hl | hc'
    · simp [hb'] at hb
    · rw [Symbol.ofChar?_of_isLetter hl]
      rfl
    · simp only [List.mem_cons, List.not_mem_nil, or_false] at hc'
      rcases hc' with rfl | rfl | rfl | rfl <;> rfl
  obtain ⟨ls, hls⟩ := Lexeme.exists_scan hsome 0
  have hw := Lexeme.spells_scan hls
  have hne : ls ≠ [] := by
    rintro rfl
    obtain ⟨c, hm, hb⟩ := hvisible
    have hc : c ∈ dropBlanks s.toList := List.mem_filter.2 ⟨hm, by rw [hb]; rfl⟩
    rw [Spells.nil_iff.1 hw] at hc
    cases hc
  exact exists_shows_of_parse_error hbalanced hls hne h

/-- A dot stands where the first term of a group is due. -/
theorem Chain.parse_error_shows_dot :
    Chain.parse "(\\x.x (. y))" = .error ⟨.unexpectedSymbol '.', 7⟩ ∧
      ∃ before c after, "(\\x.x (. y))".toList = before ++ c :: after ∧ before.length = 7 ∧
        Shows (.unexpectedSymbol '.') before c := by
  have h : Chain.parse "(\\x.x (. y))" = .error ⟨.unexpectedSymbol '.', 7⟩ := by decide +kernel
  have hall : "(\\x.x (. y))".toList.all fun c =>
      isBlank c || decide (IsLetter c) || decide (c ∈ ['(', ')', '\\', '.']) := by decide
  have hsymbols : ∀ c ∈ "(\\x.x (. y))".toList,
      isBlank c = true ∨ IsLetter c ∨ c ∈ ['(', ')', '\\', '.'] := by
    intro c hc
    have hc' := List.all_eq_true.1 hall c hc
    rw [Bool.or_eq_true, Bool.or_eq_true, decide_eq_true_eq, decide_eq_true_eq, or_assoc] at hc'
    exact hc'
  have hvisible : ∃ c ∈ "(\\x.x (. y))".toList, isBlank c = false := ⟨'(', by decide, by decide⟩
  exact ⟨h, Chain.parse_error_shows _ _ (by decide) hsymbols hvisible h⟩

end LambdaDiagram
