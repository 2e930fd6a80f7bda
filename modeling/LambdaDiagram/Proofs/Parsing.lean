import LambdaDiagram.Proofs.Balance
import Mathlib.Data.List.Basic

/-!
Reading accepts exactly what the grammar derives. The reader works on lexemes in three passes; a
text without blanks and the lexemes read off it are tied together by `Spells`, which is split and
joined along with either side. What is derived passes each of the three passes, and what passes
them all is derived.
-/

namespace LambdaDiagram

/-- Lexemes read off the characters of a text, one for each. -/
def Spells (w : List Char) (ls : List Lexeme) : Prop :=
  w.map Symbol.ofChar? = ls.map fun l => some l.symbol

namespace Spells

variable {w : List Char} {l : Lexeme} {ls : List Lexeme}

theorem nil_iff : Spells w [] ↔ w = [] := by simp [Spells]

theorem cons_iff : Spells w (l :: ls) ↔
    ∃ c v, w = c :: v ∧ Symbol.ofChar? c = some l.symbol ∧ Spells v ls := by
  simp [Spells, List.map_eq_cons_iff]

theorem append_iff {ls₁ ls₂ : List Lexeme} : Spells w (ls₁ ++ ls₂) ↔
    ∃ w₁ w₂, w = w₁ ++ w₂ ∧ Spells w₁ ls₁ ∧ Spells w₂ ls₂ := by
  simp [Spells, List.map_eq_append_iff]

theorem of_cons {c : Char} (h : Spells (c :: w) ls) :
    ∃ l ls', ls = l :: ls' ∧ Symbol.ofChar? c = some l.symbol ∧ Spells w ls' := by
  obtain ⟨l, ls', rfl, hl, h⟩ := List.map_eq_cons_iff.1 (Eq.symm h)
  exact ⟨l, ls', rfl, hl.symm, h.symm⟩

theorem of_append {v : List Char} (h : Spells (w ++ v) ls) :
    ∃ ls₁ ls₂, ls = ls₁ ++ ls₂ ∧ Spells w ls₁ ∧ Spells v ls₂ := by
  rw [Spells, List.map_append] at h
  obtain ⟨ls₁, ls₂, rfl, h₁, h₂⟩ := List.map_eq_append_iff.1 h.symm
  exact ⟨ls₁, ls₂, rfl, h₁.symm, h₂.symm⟩

/-- The lexemes of a text in parentheses. -/
theorem of_parentheses (h : Spells ('(' :: (w ++ [')'])) ls) :
    ∃ l₁ l₂ ls', ls = l₁ :: (ls' ++ [l₂]) ∧ l₁.symbol = .openParen ∧ l₂.symbol = .closeParen ∧
      Spells w ls' := by
  obtain ⟨l₁, ls, rfl, h₁, h⟩ := of_cons h
  obtain ⟨ls', ls, rfl, hw, h⟩ := of_append h
  obtain ⟨l₂, ls, rfl, h₂, h⟩ := of_cons h
  obtain rfl : ls = [] := by simpa [Spells] using h
  exact ⟨l₁, l₂, ls', rfl, (Option.some.inj h₁).symm, (Option.some.inj h₂).symm, hw⟩

end Spells

theorem ok_of_map {ε α β : Type} {x : Except ε α} {f : α → β} {b : β} (h : x.map f = .ok b) :
    ∃ a, x = .ok a ∧ f a = b := by
  cases x with
  | error e => cases h
  | ok a => exact ⟨a, rfl, Except.ok.inj h⟩

theorem ok_of_bind {ε α β : Type} {x : Except ε α} {f : α → Except ε β} {b : β}
    (h : x >>= f = .ok b) : ∃ a, x = .ok a ∧ f a = .ok b := by
  cases x with
  | error e => cases h
  | ok a => exact ⟨a, rfl, h⟩

/-! ## From characters to lexemes -/

/-- The lexemes of a text are read off its characters that are not blank. -/
theorem Lexeme.spells_scan {cs : List Char} {p : Nat} {ls : List Lexeme}
    (h : scan p cs = .ok ls) : Spells (Text.dropBlanks cs) ls := by
  induction cs generalizing p ls with
  | nil =>
    obtain rfl : [] = ls := by simpa [scan] using h
    exact Spells.nil_iff.2 rfl
  | cons c cs ih =>
    rw [scan] at h
    split at h
    · rename_i hb
      simpa [Text.dropBlanks, hb] using ih h
    · rename_i hb
      split at h
      · cases h
      · rename_i s hs
        obtain ⟨ls', hls, rfl⟩ := ok_of_map h
        have hc : Text.dropBlanks (c :: cs) = c :: Text.dropBlanks cs := by
          simp [Text.dropBlanks, hb]
        rw [hc]
        exact Spells.cons_iff.2 ⟨c, _, rfl, hs, ih hls⟩

/-- A text has lexemes when each of its characters is blank or stands for a symbol. -/
theorem Lexeme.exists_scan {cs : List Char}
    (h : ∀ c ∈ Text.dropBlanks cs, (Symbol.ofChar? c).isSome) (p : Nat) :
    ∃ ls, scan p cs = .ok ls := by
  induction cs generalizing p with
  | nil => exact ⟨[], rfl⟩
  | cons c cs ih =>
    by_cases hb : Text.isBlank c = true
    · have hc : Text.dropBlanks (c :: cs) = Text.dropBlanks cs := by simp [Text.dropBlanks, hb]
      rw [hc] at h
      obtain ⟨ls, hls⟩ := ih h (p + 1)
      exact ⟨ls, by rw [scan, if_pos hb, hls]⟩
    · have hc : Text.dropBlanks (c :: cs) = c :: Text.dropBlanks cs := by
        simp [Text.dropBlanks, hb]
      rw [hc] at h
      obtain ⟨ls, hls⟩ := ih (fun d hd => h d (List.mem_cons_of_mem c hd)) (p + 1)
      obtain ⟨s, hs⟩ := Option.isSome_iff_exists.1 (h c List.mem_cons_self)
      exact ⟨⟨s, p⟩ :: ls, by rw [scan, if_neg hb, hs]; simp [hls, Except.map]⟩

/-- Characters that all stand for symbols are spelled by lexemes. -/
theorem Lexeme.exists_spells {w : List Char} (h : ∀ c ∈ w, (Symbol.ofChar? c).isSome) :
    ∃ ls, Spells w ls := by
  induction w with
  | nil => exact ⟨[], Spells.nil_iff.2 rfl⟩
  | cons c w ih =>
    obtain ⟨ls, hls⟩ := ih fun d hd => h d (List.mem_cons_of_mem c hd)
    obtain ⟨s, hs⟩ := Option.isSome_iff_exists.1 (h c List.mem_cons_self)
    exact ⟨⟨s, 0⟩ :: ls, Spells.cons_iff.2 ⟨c, w, rfl, hs, hls⟩⟩

/-! ## What is read is derived -/

namespace Lexeme

theorem close_of_splitClose {depth : Nat} {ls inside rest : List Lexeme} {close : Lexeme}
    (h : splitClose depth ls = some (inside, close, rest)) : close.symbol = .closeParen := by
  fun_induction splitClose depth ls generalizing inside close rest with
  | case1 => simp at h
  | case2 l ls hl =>
    simp only [Option.some.injEq, Prod.mk.injEq] at h
    rw [← h.2.1, hl]
  | case3 | case4 | case5 =>
    obtain ⟨⟨i, c, r⟩, hs, he⟩ := Option.map_eq_some_iff.1 h
    simp only [Prod.mk.injEq] at he
    obtain ⟨-, rfl, -⟩ := he
    rename_i ih
    exact ih hs

theorem spells_spanLetters {w : List Char} {ls : List Lexeme} (h : Spells w ls) :
    ∃ v, w = (spanLetters ls).1 ++ v ∧ (∀ c ∈ (spanLetters ls).1, IsLetter c) ∧
      Spells v (spanLetters ls).2 := by
  fun_induction spanLetters ls generalizing w with
  | case1 c p ls ih =>
    obtain ⟨d, u, rfl, hd, hu⟩ := Spells.cons_iff.1 h
    obtain ⟨v, rfl, hl, hv⟩ := ih hu
    obtain rfl : c = d := Symbol.toChar_of_ofChar? hd
    refine ⟨v, by simp, ?_, hv⟩
    simp only [List.mem_cons, forall_eq_or_imp]
    exact ⟨Symbol.isLetter_of_ofChar? hd, hl⟩
  | case2 ls => exact ⟨w, by simp, by simp, h⟩

/-- What stands between the parentheses of a group: its body, after its binders if it has any. -/
theorem spells_splitBinders {w : List Char} {close : Nat} {ls body : List Lexeme}
    {bs : List Char} (hw : Spells w ls) (h : splitBinders close ls = .ok (bs, body)) :
    ∃ v, Spells v body ∧ (bs = [] ∧ w = v ∨
      bs ≠ [] ∧ (∀ c ∈ bs, IsLetter c) ∧ w = '\\' :: (bs ++ '.' :: v)) := by
  unfold splitBinders at h
  split at h
  · rename_i p ls
    obtain ⟨d, u, rfl, hd, hu⟩ := Spells.cons_iff.1 hw
    obtain rfl : '\\' = d := Symbol.toChar_of_ofChar? hd
    obtain ⟨v, rfl, hl, hv⟩ := spells_spanLetters hu
    split at h
    · cases h
    · rename_i bs' q body' hne hs
      simp only [Except.ok.injEq, Prod.mk.injEq] at h
      obtain ⟨rfl, rfl⟩ := h
      rw [hs] at hl hv ⊢
      obtain ⟨d, v, rfl, hd, hv'⟩ := Spells.cons_iff.1 hv
      obtain rfl : '.' = d := Symbol.toChar_of_ofChar? hd
      exact ⟨v, hv', .inr ⟨hne, hl, rfl⟩⟩
    · cases h
  · simp only [Except.ok.injEq, Prod.mk.injEq] at h
    obtain ⟨rfl, rfl⟩ := h
    exact ⟨w, hw, .inl ⟨rfl, rfl⟩⟩

end Lexeme

theorem Term.written_group {bs : List Char} {body : Chain} {v w : List Char}
    (hv : body.Written v) (h : bs = [] ∧ w = v ∨
      bs ≠ [] ∧ (∀ c ∈ bs, IsLetter c) ∧ w = '\\' :: (bs ++ '.' :: v)) :
    (Term.group bs body).Written ('(' :: (w ++ [')'])) := by
  rcases h with ⟨rfl, rfl⟩ | ⟨hne, hbs, rfl⟩
  · exact .enclosed hv
  · obtain ⟨b, bs, rfl⟩ := List.exists_cons_of_ne_nil hne
    have hw := Term.Written.abstraction (hbs b (by simp))
      (fun c hc => hbs c (List.mem_cons_of_mem b hc)) hv
    simpa using hw

open Lexeme in
/-- What the last pass reads off some lexemes is derived from the text that they were read off. -/
theorem writtenTerms_of_parseTerms {w : List Char} {ls : List Lexeme} {ts : List Term}
    (hw : Spells w ls) (h : parseTerms ls = .ok ts) : WrittenTerms ts w := by
  fun_induction parseTerms ls generalizing w ts with
  | case1 =>
    obtain rfl : [] = ts := Except.ok.inj h
    exact Spells.nil_iff.1 hw
  | case2 c p ls ih =>
    obtain ⟨d, v, rfl, hd, hv⟩ := Spells.cons_iff.1 hw
    obtain rfl : c = d := Symbol.toChar_of_ofChar? hd
    obtain ⟨us, hus, rfl⟩ := ok_of_map h
    exact ⟨[c], v, rfl, .letter (Symbol.isLetter_of_ofChar? hd), ih hv hus⟩
  | case3 p ls hs => cases h
  | case4 p ls inside close rest hs e hb => cases h
  | case5 p ls inside close rest hs binders body hb ihBody ihRest =>
    obtain rfl := append_of_splitClose hs
    obtain ⟨d, u, rfl, hd, hu⟩ := Spells.cons_iff.1 hw
    obtain ⟨x, y, rfl, hx, hy⟩ := Spells.append_iff.1 hu
    obtain ⟨d', v, rfl, hd', hv⟩ := Spells.cons_iff.1 hy
    obtain rfl : '(' = d := Symbol.toChar_of_ofChar? hd
    rw [close_of_splitClose hs] at hd'
    obtain rfl : ')' = d' := Symbol.toChar_of_ofChar? hd'
    obtain ⟨z, hz, hbs⟩ := Lexeme.spells_splitBinders hx hb
    obtain ⟨us, hus, h⟩ := ok_of_bind h
    cases hc : Chain.ofList? us with
    | none => rw [hc] at h; cases h
    | some chain =>
      rw [hc] at h
      obtain ⟨rs, hrs, rfl⟩ := ok_of_map h
      have hbody : chain.Written z := by
        rw [Chain.written_iff_writtenTerms, Chain.toList_of_ofList? hc]
        exact ihBody hz hus
      exact ⟨_, v, by simp, Term.written_group hbody hbs, ihRest hv hrs⟩
  | case6 => cases h
  | case7 => cases h
  | case8 => cases h

/-! ## What is derived is read -/

namespace Lexeme

/-- A group is not closed within a text that closes only what it opens. -/
theorem splitClose_append {w : List Char} {ls : List Lexeme} {depth depth' : Nat}
    (hw : Spells w ls) (h : depthAfter depth w = some depth') (more : List Lexeme) :
    splitClose depth (ls ++ more) =
      (splitClose depth' more).map fun (inside, close, rest) => (ls ++ inside, close, rest) := by
  induction ls generalizing w depth with
  | nil =>
    obtain rfl := Spells.nil_iff.1 hw
    obtain rfl : depth = depth' := Option.some.inj h
    simp
  | cons l ls ih =>
    obtain ⟨c, v, rfl, hc, hv⟩ := Spells.cons_iff.1 hw
    obtain rfl := Symbol.toChar_of_ofChar? hc
    obtain ⟨s, p⟩ := l
    cases s with
    | openParen =>
      rw [Symbol.toChar, depthAfter_open] at h
      simp [splitClose, ih hv h, Function.comp_def]
    | closeParen =>
      cases depth with
      | zero => simp [Symbol.toChar, depthAfter] at h
      | succ depth =>
        rw [Symbol.toChar, depthAfter_close] at h
        simp [splitClose, ih hv h, Function.comp_def]
    | letter c =>
      have hl := Symbol.isLetter_of_ofChar? hc
      rw [Symbol.toChar, depthAfter_cons hl.ne_openParen hl.ne_closeParen] at h
      simp [splitClose, ih hv h, Function.comp_def]
    | lambda | dot =>
      rw [Symbol.toChar, depthAfter_cons (by decide) (by decide)] at h
      simp [splitClose, ih hv h, Function.comp_def]

theorem splitClose_closeParen {l : Lexeme} (hl : l.symbol = .closeParen) (ls : List Lexeme) :
    splitClose 0 (l :: ls) = some ([], l, ls) := by
  simp [splitClose, hl]

theorem spanLetters_append {bs : List Char} {ls : List Lexeme} (h : Spells bs ls)
    (hbs : ∀ c ∈ bs, IsLetter c) (p : Nat) (more : List Lexeme) :
    spanLetters (ls ++ ⟨.dot, p⟩ :: more) = (bs, ⟨.dot, p⟩ :: more) := by
  induction bs generalizing ls with
  | nil =>
    obtain rfl : ls = [] := by simpa [Spells] using h
    rfl
  | cons b bs ih =>
    obtain ⟨⟨s, q⟩, ls, rfl, hb, h'⟩ := Spells.of_cons h
    rw [Symbol.ofChar?_of_isLetter (hbs b List.mem_cons_self)] at hb
    obtain rfl : Symbol.letter b = s := Option.some.inj hb
    simp [spanLetters, ih h' fun c hc => hbs c (List.mem_cons_of_mem b hc)]

end Lexeme

namespace Lexeme

theorem splitBinders_enclosed {body : Chain} {w : List Char} {ls : List Lexeme}
    (hw : body.Written w) (h : Spells w ls) (close : Nat) :
    splitBinders close ls = .ok ([], ls) := by
  obtain ⟨c, v, rfl, hc⟩ := hw.head_ne
  obtain ⟨⟨s, p⟩, ls, rfl, hs, -⟩ := Spells.of_cons h
  cases s with
  | lambda => exact absurd (Symbol.toChar_of_ofChar? hs).symm hc
  | _ => rfl

theorem splitBinders_abstraction {b : Char} {bs : List Char} {ls body : List Lexeme}
    (h : Spells (b :: bs) ls) (hbs : ∀ c ∈ b :: bs, IsLetter c) (p q close : Nat) :
    splitBinders close (⟨.lambda, p⟩ :: (ls ++ ⟨.dot, q⟩ :: body)) = .ok (b :: bs, body) := by
  simp [splitBinders, spanLetters_append h hbs]

end Lexeme

/-- A group is read off what stands between parentheses of its own. -/
theorem parseTerms_group {l₁ l₂ : Lexeme} {u : List Char} {ls body : List Lexeme} {bs : List Char}
    {ts : Chain} (h₁ : l₁.symbol = .openParen) (h₂ : l₂.symbol = .closeParen) (hu : Spells u ls)
    (hd : depthAfter 0 u = some 0) (hb : Lexeme.splitBinders l₂.position ls = .ok (bs, body))
    (hbody : parseTerms (body ++ []) = (parseTerms []).map (ts.toList ++ ·)) (rest : List Lexeme) :
    parseTerms (l₁ :: (ls ++ [l₂]) ++ rest) = (parseTerms rest).map (.group bs ts :: ·) := by
  obtain ⟨s, p⟩ := l₁
  obtain rfl : s = .openParen := h₁
  have hs : Lexeme.splitClose 0 (ls ++ [l₂] ++ rest) = some (ls, l₂, rest) := by
    rw [List.append_assoc, Lexeme.splitClose_append hu hd, List.singleton_append,
      Lexeme.splitClose_closeParen h₂]
    simp
  have hts : parseTerms body = .ok ts.toList := by
    rw [List.append_nil] at hbody
    rw [hbody, parseTerms]
    simp [Except.map]
  rw [List.cons_append, parseTerms]
  split
  · rename_i h
    rw [hs] at h
    cases h
  · rename_i ls' close' rest' h
    rw [hs] at h
    cases h
    rw [hb]
    simp only [hts, bind, Except.bind]
    rw [Chain.ofList?_toList]

mutual

/-- The last pass reads a term off the lexemes of what it is derived from, and goes on. -/
theorem Term.Written.parseTerms_eq {t : Term} {w : List Char} :
    t.Written w → ∀ {ls}, Spells w ls → ∀ rest,
      parseTerms (ls ++ rest) = (parseTerms rest).map (t :: ·)
  | .letter hc, ls, h, rest => by
    obtain ⟨⟨s, p⟩, ls, rfl, hs, h⟩ := Spells.of_cons h
    obtain rfl : ls = [] := by simpa [Spells] using h
    rw [Symbol.ofChar?_of_isLetter hc] at hs
    obtain rfl := Option.some.inj hs
    rw [List.cons_append, List.nil_append, parseTerms]
  | .enclosed hw, ls, h, rest => by
    obtain ⟨l₁, l₂, ls, rfl, h₁, h₂, h⟩ := Spells.of_parentheses h
    exact parseTerms_group h₁ h₂ h (hw.depthAfter_eq 0) (Lexeme.splitBinders_enclosed hw h _)
      (hw.parseTerms_eq h []) rest
  | @Term.Written.abstraction b bs _ w hb hbs hw, ls, h, rest => by
    have hl := List.forall_mem_cons.2 ⟨hb, hbs⟩
    have hd : depthAfter 0 ('\\' :: (b :: bs ++ '.' :: w)) = some 0 := by
      rw [depthAfter_cons (by decide) (by decide), depthAfter_letters hl,
        depthAfter_cons (by decide) (by decide), hw.depthAfter_eq]
    obtain ⟨l₁, l₂, ls, rfl, h₁, h₂, h⟩ :=
      Spells.of_parentheses (w := '\\' :: (b :: bs ++ '.' :: w)) (by simpa using h)
    obtain ⟨⟨s, p⟩, ls', rfl, hs, h'⟩ := h.of_cons
    obtain rfl : Symbol.lambda = s := Option.some.inj hs
    obtain ⟨ls₁, ls', rfl, hls, h'⟩ := h'.of_append
    obtain ⟨⟨s, q⟩, ls₂, rfl, hs, hbody⟩ := h'.of_cons
    obtain rfl : Symbol.dot = s := Option.some.inj hs
    exact parseTerms_group h₁ h₂ h hd (Lexeme.splitBinders_abstraction hls hl p q _)
      (hw.parseTerms_eq hbody []) rest

theorem Chain.Written.parseTerms_eq {ts : Chain} {w : List Char} :
    ts.Written w → ∀ {ls}, Spells w ls → ∀ rest,
      parseTerms (ls ++ rest) = (parseTerms rest).map (ts.toList ++ ·)
  | .last hw, ls, h, rest => hw.parseTerms_eq h rest
  | .cons hv hw, ls, h, rest => by
    obtain ⟨ls₁, ls₂, rfl, h₁, h₂⟩ := h.of_append
    rw [List.append_assoc, hv.parseTerms_eq h₁, hw.parseTerms_eq h₂]
    cases parseTerms rest <;> rfl

end

/-! ## The reader and the grammar -/

theorem Chain.Written.parseTerms_toList {ts : Chain} {w : List Char} {ls : List Lexeme}
    (hw : ts.Written w) (h : Spells w ls) : parseTerms ls = .ok ts.toList := by
  have hts := hw.parseTerms_eq h []
  rw [List.append_nil] at hts
  rw [hts, parseTerms]
  simp [Except.map]

theorem Chain.written_of_parse {s : String} {ts : Chain} (h : Chain.parse s = .ok ts) :
    ts.Written (Text.dropBlanks s.toList) := by
  unfold Chain.parse at h
  split at h
  · cases h
  · split at h
    · cases h
    · rename_i ls hls
      obtain ⟨us, hus, h⟩ := ok_of_bind h
      split at h
      · cases h
      · rename_i ts' hts
        obtain rfl : ts' = ts := Except.ok.inj h
        rw [Chain.written_iff_writtenTerms, Chain.toList_of_ofList? hts]
        exact writtenTerms_of_parseTerms (Lexeme.spells_scan hls) hus

theorem Chain.Written.parse_eq {s : String} {ts : Chain}
    (hw : ts.Written (Text.dropBlanks s.toList)) : Chain.parse s = .ok ts := by
  have hd : depthAfter ([] : List Nat).length s.toList = some 0 := by
    rw [← depthAfter_dropBlanks]
    exact hw.depthAfter_eq 0
  obtain ⟨ps, hps⟩ := exists_pairParentheses 0 hd
  obtain ⟨ls, hls⟩ := Lexeme.exists_scan hw.isSome_ofChar? 0
  unfold Chain.parse
  rw [hps]
  dsimp only
  rw [Lexeme.ofText, hls]
  dsimp only
  rw [hw.parseTerms_toList (Lexeme.spells_scan hls)]
  simp only [bind, Except.bind]
  rw [Chain.ofList?_toList]

/-- The grammar is unambiguous. -/
theorem Chain.Written.unique {ts us : Chain} {w : List Char} (ht : ts.Written w)
    (hu : us.Written w) : ts = us := by
  obtain ⟨ls, hls⟩ := Lexeme.exists_spells ht.isSome_ofChar?
  have h := ht.parseTerms_toList hls
  rw [hu.parseTerms_toList hls] at h
  have h' := congrArg Chain.ofList? (Except.ok.inj h)
  simpa using h'.symm

/-- Reading accepts exactly the texts that the grammar derives once their blanks are dropped, with
the chain that they are derived as, and each text is derived as one chain at most. -/
theorem Chain.parse_eq_ok_iff_written (s : String) :
    (∀ ts, Chain.parse s = .ok ts ↔ ts.Written (Text.dropBlanks s.toList)) ∧
      ∀ w ts us, Chain.Written ts w → Chain.Written us w → ts = us :=
  ⟨fun _ => ⟨Chain.written_of_parse, Chain.Written.parse_eq⟩,
    fun _ _ _ ht hu => ht.unique hu⟩

example : Chain.parse "( \\ x . x ) y" =
    .ok (.cons (.group ['x'] (.last (.var 'x'))) (.last (.var 'y'))) := by decide +kernel

end LambdaDiagram
