import LambdaDiagram.Proofs.Grammar

/-!
Balanced parentheses. Reading a text from left to right, a depth says how many groups are open; a
text that closes only what it opens leaves the depth as it was, and blanks never change it. Texts
that are derived do so, and parentheses pair up in every text that comes back to depth zero.
-/

namespace LambdaDiagram

/-- How many groups are open after a text if so many were open before it, unless the text closes
one that is not open. -/
def depthAfter : Nat → List Char → Option Nat
  | depth, [] => some depth
  | depth, c :: cs =>
    if c = '(' then depthAfter (depth + 1) cs
    else if c = ')' then
      match depth with
      | 0 => none
      | depth + 1 => depthAfter depth cs
    else depthAfter depth cs

@[simp] theorem depthAfter_open (depth : Nat) (w : List Char) :
    depthAfter depth ('(' :: w) = depthAfter (depth + 1) w := by simp [depthAfter]

@[simp] theorem depthAfter_close (depth : Nat) (w : List Char) :
    depthAfter (depth + 1) (')' :: w) = depthAfter depth w := by simp [depthAfter]

theorem depthAfter_cons {c : Char} (ho : c ≠ '(') (hc : c ≠ ')') (depth : Nat) (w : List Char) :
    depthAfter depth (c :: w) = depthAfter depth w := by
  simp [depthAfter, ho, hc]

theorem depthAfter_append (depth : Nat) (v w : List Char) :
    depthAfter depth (v ++ w) = (depthAfter depth v).bind (depthAfter · w) := by
  fun_induction depthAfter depth v with
  | case1 => rfl
  | case2 | case3 | case4 | case5 => simp_all [depthAfter]

/-- Blanks open and close nothing. -/
theorem depthAfter_dropBlanks (depth : Nat) (cs : List Char) :
    depthAfter depth (Text.dropBlanks cs) = depthAfter depth cs := by
  induction cs generalizing depth with
  | nil => rfl
  | cons c cs ih =>
    by_cases hb : Text.isBlank c = true
    · have ho : c ≠ '(' := by rintro rfl; exact absurd hb (by decide)
      have hc : c ≠ ')' := by rintro rfl; exact absurd hb (by decide)
      have hd : Text.dropBlanks (c :: cs) = Text.dropBlanks cs := by simp [Text.dropBlanks, hb]
      rw [hd, ih, depthAfter_cons ho hc]
    · have hd : Text.dropBlanks (c :: cs) = c :: Text.dropBlanks cs := by
        simp [Text.dropBlanks, hb]
      rw [hd]
      simp only [depthAfter, ih]

theorem pairParentheses_open (position : Nat) (waiting : List Nat) (cs : List Char) :
    pairParentheses position waiting ('(' :: cs) =
      pairParentheses (position + 1) (position :: waiting) cs := by
  simp [pairParentheses]

theorem pairParentheses_close (position p : Nat) (waiting : List Nat) (cs : List Char) :
    pairParentheses position (p :: waiting) (')' :: cs) =
      (pairParentheses (position + 1) waiting cs).map ((p, position) :: ·) := by
  simp [pairParentheses]

theorem pairParentheses_cons {c : Char} (ho : c ≠ '(') (hc : c ≠ ')') (position : Nat)
    (waiting : List Nat) (cs : List Char) :
    pairParentheses position waiting (c :: cs) = pairParentheses (position + 1) waiting cs := by
  simp [pairParentheses, ho, hc]

/-- Where a text closes the groups that are open, and no others, pairing goes on after it with what
was open before those. -/
theorem exists_pairParentheses_append {cs : List Char} {waiting : List Nat} (position : Nat)
    (h : depthAfter waiting.length cs = some 0) :
    ∃ ps, ∀ outer more, pairParentheses position (waiting ++ outer) (cs ++ more) =
      (pairParentheses (position + cs.length) outer more).map (ps ++ ·) := by
  induction cs generalizing position waiting with
  | nil =>
    obtain rfl : waiting = [] := List.length_eq_zero_iff.1 (Option.some.inj h)
    refine ⟨[], fun outer more => ?_⟩
    change pairParentheses position outer more = _
    cases pairParentheses position outer more <;> rfl
  | cons c cs ih =>
    have hlength : position + (c :: cs).length = position + 1 + cs.length := by
      rw [List.length_cons]
      omega
    rw [hlength]
    by_cases ho : c = '('
    · subst ho
      have hopen : depthAfter (position :: waiting).length cs = some 0 := by
        rw [← h, depthAfter_open, List.length_cons]
      obtain ⟨ps, hps⟩ := ih (position + 1) hopen
      refine ⟨ps, fun outer more => ?_⟩
      rw [List.cons_append, pairParentheses_open, ← List.cons_append, hps]
    · by_cases hc : c = ')'
      · subst hc
        cases waiting with
        | nil => simp [depthAfter] at h
        | cons p waiting =>
          rw [List.length_cons, depthAfter_close] at h
          obtain ⟨ps, hps⟩ := ih (position + 1) h
          refine ⟨(p, position) :: ps, fun outer more => ?_⟩
          rw [List.cons_append, List.cons_append, pairParentheses_close, hps]
          cases pairParentheses (position + 1 + cs.length) outer more <;> rfl
      · rw [depthAfter_cons ho hc] at h
        obtain ⟨ps, hps⟩ := ih (position + 1) h
        refine ⟨ps, fun outer more => ?_⟩
        rw [List.cons_append, pairParentheses_cons ho hc, hps]

/-- Parentheses pair up when as many close as are open. -/
theorem exists_pairParentheses {cs : List Char} {waiting : List Nat} (position : Nat)
    (h : depthAfter waiting.length cs = some 0) :
    ∃ ps, pairParentheses position waiting cs = .ok ps := by
  obtain ⟨ps, hps⟩ := exists_pairParentheses_append position h
  have hall := hps [] []
  rw [List.append_nil, List.append_nil] at hall
  exact ⟨ps ++ [], hall⟩

theorem depthAfter_letters {bs : List Char} (h : ∀ c ∈ bs, IsLetter c) (depth : Nat)
    (w : List Char) : depthAfter depth (bs ++ w) = depthAfter depth w := by
  induction bs with
  | nil => rfl
  | cons b bs ih =>
    have hb := h b List.mem_cons_self
    rw [List.cons_append, depthAfter_cons hb.ne_openParen hb.ne_closeParen]
    exact ih fun c hc => h c (List.mem_cons_of_mem b hc)

mutual

/-- What is derived is balanced. -/
theorem Term.Written.depthAfter_eq {t : Term} {w : List Char} :
    t.Written w → ∀ depth, depthAfter depth w = some depth
  | .letter hc, depth => by
    rw [depthAfter_cons hc.ne_openParen hc.ne_closeParen]
    rfl
  | .enclosed hw, depth => by
    rw [depthAfter_open, depthAfter_append, hw.depthAfter_eq]
    rfl
  | .abstraction hb hbs hw, depth => by
    have hl := List.forall_mem_cons.2 ⟨hb, hbs⟩
    rw [depthAfter_open, depthAfter_cons (by decide) (by decide), depthAfter_letters hl,
      depthAfter_cons (by decide) (by decide), depthAfter_append, hw.depthAfter_eq]
    rfl

theorem Chain.Written.depthAfter_eq {ts : Chain} {w : List Char} :
    ts.Written w → ∀ depth, depthAfter depth w = some depth
  | .last hw, depth => hw.depthAfter_eq depth
  | .cons hv hw, depth => by
    rw [depthAfter_append, hv.depthAfter_eq, Option.bind_some, hw.depthAfter_eq]

end

end LambdaDiagram
