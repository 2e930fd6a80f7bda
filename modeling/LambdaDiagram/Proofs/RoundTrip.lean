import LambdaDiagram.Proofs.Parsing
import LambdaDiagram.Term.Printer

/-!
Writing and reading. What the grammar derives a chain from is its written form without the blanks,
and there is such a text just when every name in the chain is a letter. So these are the chains that
are read back from what is written for them, and a text that is read differs from what is written
for its chain by blanks only.
-/

namespace LambdaDiagram

mutual

/-- The names in a term: its variables and its binders. -/
def Term.names : Term → List Char
  | .var c => [c]
  | .group bs body => bs ++ body.names

/-- The names in a chain. -/
def Chain.names : Chain → List Char
  | .last t => t.names
  | .cons t rest => t.names ++ rest.names

end

/-! ## Dropping blanks from what is written -/

open Text

theorem dropBlanks_letters {w : List Char} (h : ∀ c ∈ w, IsLetter c) : dropBlanks w = w := by
  apply List.filter_eq_self.2
  intro c hc
  rw [(h c hc).isBlank_eq_false]
  rfl

theorem dropBlanks_openGroup {bs : List Char} (h : ∀ c ∈ bs, IsLetter c) :
    dropBlanks (openGroup bs) = openGroup bs := by
  cases bs with
  | nil => decide
  | cons b bs =>
    have hdot : dropBlanks ['.'] = ['.'] := by decide
    rw [openGroup, List.isEmpty_cons, if_neg Bool.false_ne_true, dropBlanks_cons (by decide),
      dropBlanks_cons (by decide), dropBlanks_append, dropBlanks_letters h, hdot]

theorem dropBlanks_toChars_group {bs : List Char} (h : ∀ c ∈ bs, IsLetter c) (body : Chain) :
    dropBlanks (Term.group bs body).toChars =
      openGroup bs ++ (dropBlanks body.toChars ++ [')']) := by
  have hclose : dropBlanks [')'] = [')'] := by decide
  rw [Term.toChars, dropBlanks_append, dropBlanks_append, dropBlanks_openGroup h, hclose,
    List.append_assoc]

theorem dropBlanks_toChars_cons (t : Term) (rest : Chain) :
    dropBlanks (Chain.cons t rest).toChars = dropBlanks t.toChars ++ dropBlanks rest.toChars := by
  have hspace : dropBlanks (' ' :: rest.toChars) = dropBlanks rest.toChars := by
    have hb : isBlank ' ' = true := by decide
    simp [dropBlanks, hb]
  rw [Chain.toChars, dropBlanks_append, hspace]

/-! ## Derivations and written forms -/

mutual

/-- A term is derived from its written form without the blanks, and its names are letters. -/
theorem Term.Written.names_and_text {t : Term} {w : List Char} :
    t.Written w → (∀ c ∈ t.names, IsLetter c) ∧ w = dropBlanks t.toChars
  | .letter hc => by
    refine ⟨?_, ?_⟩
    · intro c hm
      obtain rfl := List.mem_singleton.1 hm
      exact hc
    · exact (dropBlanks_cons hc.isBlank_eq_false []).symm
  | .enclosed hw => by
    obtain ⟨hn, rfl⟩ := hw.names_and_text
    refine ⟨hn, ?_⟩
    rw [dropBlanks_toChars_group (by simp)]
    rfl
  | .abstraction hb hbs hw => by
    obtain ⟨hn, rfl⟩ := hw.names_and_text
    have hl := List.forall_mem_cons.2 ⟨hb, hbs⟩
    refine ⟨List.forall_mem_append.2 ⟨hl, hn⟩, ?_⟩
    rw [dropBlanks_toChars_group hl]
    simp [openGroup]

theorem Chain.Written.names_and_text {ts : Chain} {w : List Char} :
    ts.Written w → (∀ c ∈ ts.names, IsLetter c) ∧ w = dropBlanks ts.toChars
  | .last hw => hw.names_and_text
  | .cons hv hw => by
    obtain ⟨hn, rfl⟩ := hv.names_and_text
    obtain ⟨hm, rfl⟩ := hw.names_and_text
    exact ⟨List.forall_mem_append.2 ⟨hn, hm⟩, (dropBlanks_toChars_cons _ _).symm⟩

end

mutual

/-- A term whose names are letters is derived from its written form without the blanks. -/
theorem Term.written_dropBlanks : (t : Term) → (∀ c ∈ t.names, IsLetter c) →
    t.Written (dropBlanks t.toChars)
  | .var c, h => by
    have hc := h c (by simp [Term.names])
    rw [Term.toChars, dropBlanks_cons hc.isBlank_eq_false]
    exact .letter hc
  | .group bs body, h => by
    obtain ⟨hbs, hbody⟩ := List.forall_mem_append.1 h
    have hw := body.written_dropBlanks hbody
    rw [dropBlanks_toChars_group hbs]
    cases bs with
    | nil => exact .enclosed hw
    | cons b bs =>
      obtain ⟨hb, hbs⟩ := List.forall_mem_cons.1 hbs
      have hg := Term.Written.abstraction hb hbs hw
      simpa [openGroup] using hg

theorem Chain.written_dropBlanks : (ts : Chain) → (∀ c ∈ ts.names, IsLetter c) →
    ts.Written (dropBlanks ts.toChars)
  | .last t, h => .last (t.written_dropBlanks h)
  | .cons t rest, h => by
    obtain ⟨ht, hrest⟩ := List.forall_mem_append.1 h
    rw [dropBlanks_toChars_cons]
    exact .cons (t.written_dropBlanks ht) (rest.written_dropBlanks hrest)

end

/-- The grammar derives a chain from one text at most, its written form without the blanks. -/
theorem Chain.written_iff (ts : Chain) (w : List Char) :
    ts.Written w ↔ (∀ c ∈ ts.names, IsLetter c) ∧ w = dropBlanks ts.toChars := by
  refine ⟨Chain.Written.names_and_text, ?_⟩
  rintro ⟨hn, rfl⟩
  exact ts.written_dropBlanks hn

/-- The round trip, both ways: a chain is read back from what is written for it just when all its
names are letters, and what is written for the chain that a text is read as is, but for blanks, the
text. -/
theorem Chain.round_trip (ts : Chain) :
    (Chain.parse (toString ts) = .ok ts ↔ ∀ c ∈ ts.names, IsLetter c) ∧
      ∀ s, Chain.parse s = .ok ts → dropBlanks (toString ts).toList = dropBlanks s.toList := by
  have hread : ∀ s, Chain.parse s = .ok ts →
      (∀ c ∈ ts.names, IsLetter c) ∧ dropBlanks s.toList = dropBlanks ts.toChars :=
    fun s h => (ts.written_iff _).1 (Chain.written_of_parse h)
  have htext : (toString ts).toList = ts.toChars := String.toList_ofList
  refine ⟨⟨?_, ?_⟩, ?_⟩
  · intro h
    exact (hread _ h).1
  · intro h
    apply Chain.Written.parse_eq
    rw [htext, ts.written_iff]
    exact ⟨h, rfl⟩
  · intro s h
    rw [htext, (hread s h).2]

/-- The identity applied to a variable is read with blanks around every symbol, and written with the
one blank between the two terms. -/
theorem Chain.round_trip_identity :
    Chain.parse "( \\ x . x ) y" =
        .ok (.cons (.group ['x'] (.last (.var 'x'))) (.last (.var 'y'))) ∧
      dropBlanks (toString (Chain.cons (.group ['x'] (.last (.var 'x')))
        (.last (.var 'y')))).toList = dropBlanks "( \\ x . x ) y".toList := by
  have h : Chain.parse "( \\ x . x ) y" =
      .ok (.cons (.group ['x'] (.last (.var 'x'))) (.last (.var 'y'))) := by decide +kernel
  exact ⟨h, (Chain.round_trip _).2 _ h⟩

end LambdaDiagram
