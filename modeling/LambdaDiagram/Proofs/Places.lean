import LambdaDiagram.Proofs.Parsing

/-!
Reading from left to right. What a written term can go on with depends on two things only: how many
groups are open, and what is due in the innermost one. Going from place to place, lexeme by lexeme,
comes to the same end as cutting groups out at their closing parentheses: the places that the
lexemes of balanced terms lead through end where these terms do, and they end early just at the
lexeme that the reader reports.
-/

namespace LambdaDiagram

/-- What a written term can go on with. -/
inductive Due where
  /-- The first term of a chain. -/
  | first
  /-- The first term of a group, or the backslash before its binders. -/
  | inside
  /-- The first binder of a group. -/
  | binder
  /-- One more binder of a group, or the dot after them. -/
  | dot
  /-- One more term, or the end of the chain. -/
  | more
deriving DecidableEq, Repr

/-- A place in a written term: how many groups are open there, and what is due. -/
structure Place where
  depth : Nat
  due : Due
deriving DecidableEq, Repr

namespace Place

/-- The place after a symbol, or what is wrong with the symbol. -/
def next : Place → Symbol → Except SyntaxFault Place
  | ⟨depth, .binder⟩, .letter _ => .ok ⟨depth, .dot⟩
  | ⟨_, .binder⟩, _ => .error .missingBinder
  | ⟨depth, .dot⟩, .letter _ => .ok ⟨depth, .dot⟩
  | ⟨depth, .dot⟩, .dot => .ok ⟨depth, .first⟩
  | ⟨_, .dot⟩, _ => .error .missingDot
  | ⟨depth, _⟩, .letter _ => .ok ⟨depth, .more⟩
  | ⟨depth, _⟩, .openParen => .ok ⟨depth + 1, .inside⟩
  | ⟨0, _⟩, .closeParen => .error .mismatchedParentheses
  | ⟨depth + 1, .more⟩, .closeParen => .ok ⟨depth, .more⟩
  | ⟨_ + 1, _⟩, .closeParen => .error .emptyGroup
  | ⟨depth, .inside⟩, .lambda => .ok ⟨depth, .binder⟩
  | _, .lambda => .error (.unexpectedSymbol '\\')
  | _, .dot => .error (.unexpectedSymbol '.')

/-- The place after some lexemes, or the first fault on the way there. -/
def walk (place : Place) : List Lexeme → Except SyntaxError Place
  | [] => .ok place
  | l :: ls =>
    match place.next l.symbol with
    | .error fault => .error ⟨fault, l.position⟩
    | .ok place => place.walk ls

variable {place place' : Place} {ls : List Lexeme} {w : List Char}

theorem walk_cons_ok {l : Lexeme} (h : place.next l.symbol = .ok place') :
    place.walk (l :: ls) = place'.walk ls := by
  rw [walk, h]

theorem walk_cons_error {l : Lexeme} {fault : SyntaxFault}
    (h : place.next l.symbol = .error fault) :
    place.walk (l :: ls) = .error ⟨fault, l.position⟩ := by
  rw [walk, h]

theorem walk_append (place : Place) (ls more : List Lexeme) :
    place.walk (ls ++ more) = (place.walk ls).bind fun place => place.walk more := by
  fun_induction walk place ls with
  | case1 => rfl
  | case2 place l ls fault h =>
    rw [List.cons_append, walk_cons_error h]
    rfl
  | case3 place l ls place' h ih => rw [List.cons_append, walk_cons_ok h, ih]

/-- A fault on the way shows at the first lexeme that no place goes on with. -/
theorem walk_eq_error {e : SyntaxError} (h : place.walk ls = .error e) :
    ∃ ls₁ l ls₂ place', ls = ls₁ ++ l :: ls₂ ∧ place.walk ls₁ = .ok place' ∧
      place'.next l.symbol = .error e.fault ∧ l.position = e.position := by
  fun_induction walk place ls with
  | case1 => cases h
  | case2 place l ls fault hn =>
    obtain rfl := Except.error.inj h
    exact ⟨[], l, ls, place, rfl, rfl, hn, rfl⟩
  | case3 place l ls place' hn ih =>
    obtain ⟨ls₁, l', ls₂, p, rfl, hw, hf, hp⟩ := ih h
    exact ⟨l :: ls₁, l', ls₂, p, rfl, (walk_cons_ok hn).trans hw, hf, hp⟩

/-- The depth of a place is the number of groups that are open. -/
theorem depthAfter_of_next {c : Char} {s : Symbol} (hc : Symbol.ofChar? c = some s)
    (h : place.next s = .ok place') (w : List Char) :
    depthAfter place.depth (c :: w) = depthAfter place'.depth w := by
  obtain rfl := Symbol.toChar_of_ofChar? hc
  obtain ⟨depth, due⟩ := place
  cases s with
  | letter c =>
    have hl := Symbol.isLetter_of_ofChar? hc
    have hd : place'.depth = depth := by
      cases due <;> cases h <;> rfl
    rw [hd, Symbol.toChar, depthAfter_cons hl.ne_openParen hl.ne_closeParen]
  | openParen =>
    have hd : place'.depth = depth + 1 := by
      cases due <;> cases h <;> rfl
    rw [hd, Symbol.toChar, depthAfter_open]
  | closeParen =>
    have hd : depth = place'.depth + 1 := by
      cases depth <;> cases due <;> cases h
      rfl
    rw [hd, Symbol.toChar, depthAfter_close]
  | lambda | dot =>
    have hd : place'.depth = depth := by
      cases due <;> cases h
      rfl
    rw [hd, Symbol.toChar, depthAfter_cons (by decide) (by decide)]

theorem depthAfter_of_walk (hw : Spells w ls) (h : place.walk ls = .ok place') :
    depthAfter place.depth w = some place'.depth := by
  fun_induction walk place ls generalizing w with
  | case1 place =>
    obtain rfl := Spells.nil_iff.1 hw
    obtain rfl := Except.ok.inj h
    rfl
  | case2 => cases h
  | case3 place l ls p hn ih =>
    obtain ⟨c, v, rfl, hc, hv⟩ := Spells.cons_iff.1 hw
    rw [depthAfter_of_next hc hn]
    exact ih hv h

end Place

/-! ## Groups that are cut out -/

namespace Lexeme

/-- `Closed depth ls`: the group that we are in is closed, and what stands before and after that
closes only what it opens. -/
def Closed (depth : Nat) (ls : List Lexeme) : Prop :=
  ∃ inside close rest u v, splitClose depth ls = some (inside, close, rest) ∧
    Spells u inside ∧ Spells v rest ∧ depthAfter depth u = some 0 ∧ depthAfter 0 v = some 0

/-- Unless a lexeme closes the group itself, it stands before what does. -/
theorem Closed.cons {depth depth' : Nat} {l : Lexeme} {ls : List Lexeme} {c : Char}
    (h : Closed depth' ls) (hc : Symbol.ofChar? c = some l.symbol)
    (hdepth : ∀ w, depthAfter depth (c :: w) = depthAfter depth' w)
    (hsplit : splitClose depth (l :: ls) = (splitClose depth' ls).map
      fun (inside, close, rest) => (l :: inside, close, rest)) : Closed depth (l :: ls) := by
  obtain ⟨inside, close, rest, u, v, hs, hu, hv, hdu, hdv⟩ := h
  refine ⟨l :: inside, close, rest, c :: u, v, ?_, ?_, hv, (hdepth u).trans hdu, hdv⟩
  · rw [hsplit, hs]
    rfl
  · exact Spells.cons_iff.2 ⟨c, u, rfl, hc, hu⟩

/-- Where a text closes one group more than it opens, the group that we are in is closed. -/
theorem closed_of_depthAfter {depth : Nat} {w : List Char} {ls : List Lexeme}
    (hw : Spells w ls) (h : depthAfter (depth + 1) w = some 0) : Closed depth ls := by
  induction ls generalizing w depth with
  | nil =>
    obtain rfl := Spells.nil_iff.1 hw
    cases h
  | cons l ls ih =>
    obtain ⟨c, v, rfl, hc, hv⟩ := Spells.cons_iff.1 hw
    obtain rfl := Symbol.toChar_of_ofChar? hc
    obtain ⟨s, p⟩ := l
    cases s with
    | openParen =>
      rw [Symbol.toChar, depthAfter_open] at h
      exact (ih hv h).cons hc (depthAfter_open depth) (by simp [splitClose])
    | closeParen =>
      rw [Symbol.toChar, depthAfter_close] at h
      cases depth with
      | zero =>
        exact ⟨[], ⟨.closeParen, p⟩, ls, [], v, splitClose_closeParen rfl ls,
          Spells.nil_iff.2 rfl, hv, rfl, h⟩
      | succ depth =>
        exact (ih hv h).cons hc (depthAfter_close depth) (by simp [splitClose])
    | letter c =>
      have hl := Symbol.isLetter_of_ofChar? hc
      rw [Symbol.toChar, depthAfter_cons hl.ne_openParen hl.ne_closeParen] at h
      exact (ih hv h).cons hc (depthAfter_cons hl.ne_openParen hl.ne_closeParen depth)
        (by simp [splitClose])
    | lambda | dot =>
      rw [Symbol.toChar, depthAfter_cons (by decide) (by decide)] at h
      refine (ih hv h).cons hc (fun w => ?_) (by simp [splitClose])
      rw [Symbol.toChar, depthAfter_cons (by decide) (by decide)]

end Lexeme

/-! ## The places that terms lead through -/

/-- At these dues some terms can be read, unless a backslash starts the binders of a group. -/
def Due.Admits (due : Due) (ls : List Lexeme) : Prop :=
  due = .first ∨ due = .more ∨ due = .inside ∧ ∀ p ls', ls ≠ ⟨.lambda, p⟩ :: ls'

/-- What is due after some terms. -/
def Due.after (due : Due) (ts : List Term) : Due := if ts.isEmpty then due else .more

theorem Due.after_cons (due : Due) (t : Term) (ts : List Term) : due.after (t :: ts) = .more := rfl

theorem Due.after_more (ts : List Term) : Due.more.after ts = .more := by
  unfold Due.after
  split <;> rfl

namespace Place

variable {depth : Nat} {due : Due} {ls body rest more : List Lexeme} {l : Lexeme}
variable {bs : List Char} {fault : SyntaxFault}

/-! The binders of a group. -/

/-- More letters are more binders. -/
theorem walk_spanLetters (depth : Nat) (ls more : List Lexeme) :
    walk ⟨depth, .dot⟩ (ls ++ more) = walk ⟨depth, .dot⟩ ((Lexeme.spanLetters ls).2 ++ more) := by
  fun_induction Lexeme.spanLetters ls with
  | case1 c p ls ih => rw [List.cons_append, walk_cons_ok rfl, ih]
  | case2 => rfl

theorem spanLetters_ne_letter {c : Char} {p : Nat} :
    (Lexeme.spanLetters ls).2 ≠ ⟨.letter c, p⟩ :: rest := by
  fun_induction Lexeme.spanLetters ls with
  | case1 d q ls ih => exact ih
  | case2 ls h =>
    intro he
    exact h c p rest he

/-- Where neither the next lexeme nor the end of the group is due, the way ends there. -/
theorem walk_stop (hl : next ⟨depth, due⟩ l.symbol = .error fault)
    (hls : ∀ l' ls', ls = l' :: ls' → next ⟨depth, due⟩ l'.symbol = .error fault) :
    walk ⟨depth, due⟩ (ls ++ l :: more) = .error ⟨fault, Lexeme.positionOr l.position ls⟩ := by
  cases ls with
  | nil => exact walk_cons_error hl
  | cons l' ls' => exact walk_cons_error (hls l' ls' rfl)

theorem walk_no_binder (hl : l.symbol = .closeParen) (hs : Lexeme.spanLetters ls = ([], rest)) :
    walk ⟨depth, .binder⟩ (ls ++ l :: more) =
      .error ⟨.missingBinder, Lexeme.positionOr l.position rest⟩ := by
  have hls : ls = rest := by
    fun_cases Lexeme.spanLetters ls with
    | case1 c p ls => simp [Lexeme.spanLetters] at hs
    | case2 h => simpa [Lexeme.spanLetters] using hs
  subst hls
  apply walk_stop
  · rw [hl]
    rfl
  · rintro ⟨s, p⟩ ls' rfl
    have hn := @spanLetters_ne_letter (⟨s, p⟩ :: ls') ls'
    rw [hs] at hn
    cases s with
    | letter c => exact absurd rfl hn
    | _ => rfl

theorem walk_binders (hs : Lexeme.spanLetters ls = (bs, rest)) (hbs : bs ≠ []) :
    walk ⟨depth, .binder⟩ (ls ++ more) = walk ⟨depth, .dot⟩ (rest ++ more) := by
  fun_cases Lexeme.spanLetters ls with
  | case1 c p ls =>
    have hrest : (Lexeme.spanLetters ls).2 = rest := congrArg Prod.snd hs
    rw [List.cons_append, walk_cons_ok rfl, walk_spanLetters, hrest]
  | case2 h =>
    have hnil : [] = bs := by simpa [Lexeme.spanLetters] using congrArg Prod.fst hs
    exact absurd hnil.symm hbs

theorem walk_no_dot (hl : l.symbol = .closeParen)
    (hs : Lexeme.spanLetters ls = (bs, rest)) (hdot : ∀ p body, rest ≠ ⟨.dot, p⟩ :: body) :
    walk ⟨depth, .dot⟩ (rest ++ l :: more) =
      .error ⟨.missingDot, Lexeme.positionOr l.position rest⟩ := by
  apply walk_stop
  · rw [hl]
    rfl
  · rintro ⟨s, p⟩ ls' rfl
    cases s with
    | letter c =>
      have hn := @spanLetters_ne_letter ls ls' c p
      rw [hs] at hn
      exact absurd rfl hn
    | dot => exact absurd rfl (hdot p ls')
    | _ => rfl

theorem walk_lambda (p : Nat) :
    walk ⟨depth, .inside⟩ (⟨.lambda, p⟩ :: ls) = walk ⟨depth, .binder⟩ ls := by
  apply walk_cons_ok
  cases depth <;> rfl

/-- A fault in the binders of a group shows at the lexeme that is none of them. -/
theorem walk_of_splitBinders_error {e : SyntaxError} (hl : l.symbol = .closeParen)
    (h : Lexeme.splitBinders l.position ls = .error e) :
    walk ⟨depth, .inside⟩ (ls ++ l :: more) = .error e := by
  fun_cases Lexeme.splitBinders l.position ls with
  | case1 p ls rest hs =>
    rw [List.cons_append, walk_lambda, walk_no_binder hl hs]
    simpa [Lexeme.splitBinders, hs] using h
  | case2 p ls bs q body hne hs => simp [Lexeme.splitBinders, hs] at h
  | case3 p ls bs rest hne hdot hs =>
    rw [List.cons_append, walk_lambda, walk_binders hs hne, walk_no_dot hl hs hdot]
    simpa [Lexeme.splitBinders, hs] using h
  | case4 ls hne => simp [Lexeme.splitBinders] at h

/-- The binders of a group lead to its body. -/
theorem exists_walk_of_splitBinders {close : Nat} (depth : Nat)
    (h : Lexeme.splitBinders close ls = .ok (bs, body)) :
    ∃ due : Due, due ≠ .more ∧ due.Admits body ∧
      walk ⟨depth, .inside⟩ (ls ++ more) = walk ⟨depth, due⟩ (body ++ more) := by
  fun_cases Lexeme.splitBinders close ls with
  | case1 p ls rest hs => simp [Lexeme.splitBinders, hs] at h
  | case2 p ls bs' q body' hne hs =>
    have hbody : body' = body := by
      have hb := congrArg (Except.map Prod.snd) h
      simpa [Lexeme.splitBinders, hs, Except.map] using hb
    subst hbody
    refine ⟨.first, by simp, .inl rfl, ?_⟩
    rw [List.cons_append, walk_lambda, walk_binders hs hne, List.cons_append, walk_cons_ok rfl]
  | case3 p ls bs' rest hne hdot hs => simp [Lexeme.splitBinders, hs] at h
  | case4 ls hne =>
    simp only [Lexeme.splitBinders, Except.ok.injEq, Prod.mk.injEq] at h
    obtain ⟨rfl, rfl⟩ := h
    exact ⟨.inside, by simp, .inr (.inr ⟨rfl, hne⟩), rfl⟩

/-- Where a term is due, a closing parenthesis leaves its group empty. -/
theorem next_closeParen (hne : due ≠ .more) (hdue : due.Admits body) :
    next ⟨depth + 1, due⟩ .closeParen = .error .emptyGroup := by
  rcases hdue with rfl | rfl | ⟨rfl, -⟩
  · rfl
  · exact absurd rfl hne
  · rfl

theorem next_of_admits {ls : List Lexeme} (hdue : due.Admits ls) :
    (∀ c, next ⟨depth, due⟩ (.letter c) = .ok ⟨depth, .more⟩) ∧
      next ⟨depth, due⟩ .openParen = .ok ⟨depth + 1, .inside⟩ ∧
      next ⟨depth, due⟩ .dot = .error (.unexpectedSymbol '.') := by
  rcases hdue with rfl | rfl | ⟨rfl, -⟩
  · exact ⟨fun _ => rfl, rfl, rfl⟩
  · exact ⟨fun _ => rfl, rfl, rfl⟩
  · exact ⟨fun _ => rfl, rfl, rfl⟩

theorem next_lambda {p : Nat} (hdue : due.Admits (⟨.lambda, p⟩ :: ls)) :
    next ⟨depth, due⟩ .lambda = .error (.unexpectedSymbol '\\') := by
  rcases hdue with rfl | rfl | ⟨-, hne⟩
  · cases depth <;> rfl
  · cases depth <;> rfl
  · exact absurd rfl (hne p ls)

/-- The body of a group in balanced parentheses is balanced. -/
theorem exists_spells_body {close : Nat} {u : List Char} (hu : Spells u ls)
    (hd : depthAfter 0 u = some 0) (h : Lexeme.splitBinders close ls = .ok (bs, body)) :
    ∃ v, Spells v body ∧ depthAfter 0 v = some 0 := by
  obtain ⟨v, hv, ⟨-, rfl⟩ | ⟨-, hbs, rfl⟩⟩ := Lexeme.spells_splitBinders hu h
  · exact ⟨u, hv, hd⟩
  · refine ⟨v, hv, ?_⟩
    rw [depthAfter_cons (by decide) (by decide), depthAfter_letters hbs,
      depthAfter_cons (by decide) (by decide)] at hd
    exact hd

/-- What the reader makes of the lexemes of balanced terms, walking along them does. -/
theorem walk_parseTerms {w : List Char} (hw : Spells w ls) (hd : depthAfter 0 w = some 0)
    (hdue : due.Admits ls) (depth : Nat) :
    walk ⟨depth, due⟩ ls = (parseTerms ls).map fun ts => ⟨depth, due.after ts⟩ := by
  fun_induction parseTerms ls generalizing w due depth with
  | case1 => rfl
  | case2 c p ls ih =>
    obtain ⟨d, v, rfl, hc, hv⟩ := Spells.cons_iff.1 hw
    obtain rfl : c = d := Symbol.toChar_of_ofChar? hc
    have hl := Symbol.isLetter_of_ofChar? hc
    rw [depthAfter_cons hl.ne_openParen hl.ne_closeParen] at hd
    rw [walk_cons_ok ((next_of_admits hdue).1 c), ih hv hd (.inr (.inl rfl))]
    cases parseTerms ls with
    | error e => rfl
    | ok ts => simp [Except.map, Due.after_cons, Due.after_more]
  | case3 p ls hs =>
    obtain ⟨d, v, rfl, hc, hv⟩ := Spells.cons_iff.1 hw
    obtain rfl : '(' = d := Symbol.toChar_of_ofChar? hc
    rw [depthAfter_open] at hd
    obtain ⟨inside, close, rest, -, -, hs', -⟩ := Lexeme.closed_of_depthAfter hv hd
    rw [hs] at hs'
    cases hs'
  | case4 p ls inside close rest hs e hb =>
    obtain rfl := Lexeme.append_of_splitClose hs
    rw [walk_cons_ok (next_of_admits hdue).2.1]
    exact walk_of_splitBinders_error (Lexeme.close_of_splitClose hs) hb
  | case5 p ls inside close rest hs binders body hb ihBody ihRest =>
    obtain ⟨d, v, rfl, hc, hv⟩ := Spells.cons_iff.1 hw
    obtain rfl : '(' = d := Symbol.toChar_of_ofChar? hc
    rw [depthAfter_open] at hd
    obtain ⟨inside', close', rest', u, x, hs', hu, hx, hdu, hdx⟩ :=
      Lexeme.closed_of_depthAfter hv hd
    rw [hs] at hs'
    cases hs'
    obtain rfl := Lexeme.append_of_splitClose hs
    obtain ⟨y, hy, hdy⟩ := exists_spells_body hu hdu hb
    obtain ⟨within, hne, hwithin, hwalk⟩ := exists_walk_of_splitBinders (depth + 1) hb
    have hclose : close.symbol = .closeParen := Lexeme.close_of_splitClose hs
    rw [walk_cons_ok (next_of_admits hdue).2.1, hwalk, walk_append, ihBody hy hdy hwithin]
    cases parseTerms body with
    | error e => rfl
    | ok ts =>
      cases ts with
      | nil =>
        have hn : next ⟨depth + 1, within⟩ close.symbol = .error .emptyGroup := by
          rw [hclose]
          exact next_closeParen hne hwithin
        exact walk_cons_error hn
      | cons t ts =>
        have hn : next ⟨depth + 1, .more⟩ close.symbol = .ok ⟨depth, .more⟩ := by
          rw [hclose]
          rfl
        have hrest : walk ⟨depth + 1, .more⟩ (close :: rest) =
            (parseTerms rest).map fun ts => ⟨depth, .more⟩ := by
          rw [walk_cons_ok hn, ihRest hx hdx (.inr (.inl rfl))]
          simp only [Due.after_more]
        refine hrest.trans ?_
        cases parseTerms rest <;> rfl
  | case6 p ls =>
    obtain ⟨d, v, rfl, hc, -⟩ := Spells.cons_iff.1 hw
    obtain rfl : ')' = d := Symbol.toChar_of_ofChar? hc
    simp [depthAfter] at hd
  | case7 p ls => exact walk_cons_error (next_lambda hdue)
  | case8 p ls => exact walk_cons_error (next_of_admits hdue).2.2

end Place

end LambdaDiagram
