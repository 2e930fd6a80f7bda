import LambdaDiagram.Term.Parser

/-!
The grammar of written terms, over texts without blanks. A term is a letter, a chain in
parentheses, or a chain in parentheses after a backslash, one or more letters and a dot; a chain is
one or more terms side by side. What is derived here has balanced parentheses and is made of
symbols only, which is what the passes of the reader ask for one after the other.
-/

namespace LambdaDiagram

/-- The letters of ASCII. -/
def IsLetter (c : Char) : Prop := ('a' ≤ c ∧ c ≤ 'z') ∨ ('A' ≤ c ∧ c ≤ 'Z')

mutual

/-- `t.Written w`: the grammar derives the text `w` as the term `t`. -/
inductive Term.Written : Term → List Char → Prop
  | letter {c : Char} (hc : IsLetter c) : Term.Written (.var c) [c]
  | enclosed {body : Chain} {w : List Char} (hw : Chain.Written body w) :
      Term.Written (.group [] body) ('(' :: (w ++ [')']))
  | abstraction {b : Char} {bs : List Char} {body : Chain} {w : List Char}
      (hb : IsLetter b) (hbs : ∀ c ∈ bs, IsLetter c) (hw : Chain.Written body w) :
      Term.Written (.group (b :: bs) body) ('(' :: '\\' :: (b :: bs ++ '.' :: (w ++ [')'])))

/-- `ts.Written w`: the grammar derives the text `w` as the chain `ts`. -/
inductive Chain.Written : Chain → List Char → Prop
  | last {t : Term} {w : List Char} (hw : Term.Written t w) : Chain.Written (.last t) w
  | cons {t : Term} {rest : Chain} {v w : List Char} (hv : Term.Written t v)
      (hw : Chain.Written rest w) : Chain.Written (.cons t rest) (v ++ w)

end

/-- Terms side by side, possibly none, written one after the other. -/
def WrittenTerms : List Term → List Char → Prop
  | [], w => w = []
  | t :: ts, w => ∃ u v, w = u ++ v ∧ t.Written u ∧ WrittenTerms ts v

theorem Chain.written_iff_writtenTerms (ts : Chain) (w : List Char) :
    ts.Written w ↔ WrittenTerms ts.toList w := by
  induction ts using Chain.toList.induct generalizing w with
  | case1 t =>
    constructor
    · rintro ⟨hw⟩
      exact ⟨w, [], by simp, hw, rfl⟩
    · rintro ⟨u, v, rfl, hu, rfl⟩
      rw [List.append_nil]
      exact .last hu
  | case2 t rest ih =>
    constructor
    · rintro (_ | ⟨hv, hw⟩)
      exact ⟨_, _, rfl, hv, (ih _).1 hw⟩
    · rintro ⟨u, v, rfl, hu, hv⟩
      exact .cons hu ((ih v).2 hv)

@[simp] theorem Chain.ofList?_toList (ts : Chain) : Chain.ofList? ts.toList = some ts := by
  induction ts using Chain.toList.induct with
  | case1 t => rfl
  | case2 t rest ih =>
    rw [Chain.toList_eq_head_tail] at ih
    rw [Chain.toList, Chain.toList_eq_head_tail]
    simpa [Chain.ofList?, Chain.ofTerms] using ih

theorem Chain.toList_of_ofList? {ts : List Term} {c : Chain} (h : Chain.ofList? ts = some c) :
    c.toList = ts := by
  cases ts with
  | nil => simp [Chain.ofList?] at h
  | cons t ts =>
    obtain rfl : Chain.ofTerms t ts = c := by simpa [Chain.ofList?] using h
    exact Chain.toList_ofTerms t ts

/-! ## Letters and symbols -/

theorem isAlpha_iff_isLetter (c : Char) : c.isAlpha = true ↔ IsLetter c := by
  have h : c.isAlpha = (decide ('A' ≤ c ∧ c ≤ 'Z') || (decide ('a' ≤ c) && decide (c ≤ 'z'))) := rfl
  rw [h, IsLetter, Bool.or_eq_true, Bool.and_eq_true]
  simp only [decide_eq_true_eq]
  exact Or.comm

instance (c : Char) : Decidable (IsLetter c) :=
  decidable_of_iff _ (isAlpha_iff_isLetter c)

/-- A letter stands for itself. -/
theorem Symbol.ofChar?_of_isLetter {c : Char} (h : IsLetter c) :
    Symbol.ofChar? c = some (.letter c) := by
  have hc := (isAlpha_iff_isLetter c).2 h
  fun_cases Symbol.ofChar? c with
  | case1 | case2 | case3 | case4 => exact absurd hc (by decide)
  | case5 => rfl
  | case6 => contradiction

/-- The character that stands for a symbol. -/
def Symbol.toChar : Symbol → Char
  | letter c => c
  | openParen => '('
  | closeParen => ')'
  | lambda => '\\'
  | dot => '.'

theorem Symbol.toChar_of_ofChar? {c : Char} {s : Symbol} (h : Symbol.ofChar? c = some s) :
    s.toChar = c := by
  unfold Symbol.ofChar? at h
  split at h <;> simp only [Option.ite_none_right_eq_some, Option.some.injEq] at h
  case h_5 => rw [← h.2, Symbol.toChar]
  all_goals subst h; rfl

/-- Only a letter stands for a letter. -/
theorem Symbol.isLetter_of_ofChar? {c d : Char} (h : Symbol.ofChar? c = some (.letter d)) :
    IsLetter d := by
  unfold Symbol.ofChar? at h
  split at h <;> try simp at h
  obtain ⟨hc, rfl⟩ := h
  exact (isAlpha_iff_isLetter c).1 hc

/-- No other character stands for the symbol that a character stands for. -/
theorem Symbol.eq_iff {c : Char} {s t : Symbol} (hs : Symbol.ofChar? c = some s)
    (ht : Symbol.ofChar? t.toChar = some t) : s = t ↔ c = t.toChar := by
  constructor
  · rintro rfl
    exact (Symbol.toChar_of_ofChar? hs).symm
  · rintro rfl
    rw [ht] at hs
    exact (Option.some.inj hs).symm

theorem Symbol.exists_letter_iff {c : Char} {s : Symbol} (hs : Symbol.ofChar? c = some s) :
    (∃ d, s = .letter d) ↔ IsLetter c := by
  constructor
  · rintro ⟨d, rfl⟩
    obtain rfl : d = c := Symbol.toChar_of_ofChar? hs
    exact Symbol.isLetter_of_ofChar? hs
  · intro hc
    rw [Symbol.ofChar?_of_isLetter hc] at hs
    exact ⟨c, (Option.some.inj hs).symm⟩

theorem IsLetter.ne_openParen {c : Char} (h : IsLetter c) : c ≠ '(' := by
  rintro rfl
  exact absurd h (by decide)

theorem IsLetter.ne_closeParen {c : Char} (h : IsLetter c) : c ≠ ')' := by
  rintro rfl
  exact absurd h (by decide)

theorem IsLetter.isBlank_eq_false {c : Char} (h : IsLetter c) : Text.isBlank c = false := by
  have hn : 65 ≤ c.toNat ∧ c.toNat ≤ 122 := by
    rcases h with ⟨hl, hu⟩ | ⟨hl, hu⟩
    · exact ⟨Nat.le_trans (by decide) hl, hu⟩
    · exact ⟨hl, Nat.le_trans hu (by decide)⟩
  apply Text.isBlank_eq_false
  · omega
  · omega

/-! ## What derived texts are made of -/

mutual

/-- What is derived is made of symbols. -/
theorem Term.Written.isSome_ofChar? {t : Term} {w : List Char} :
    t.Written w → ∀ c ∈ w, (Symbol.ofChar? c).isSome
  | .letter hc => by simp [Symbol.ofChar?_of_isLetter hc]
  | .enclosed hw => by
    simp only [List.forall_mem_cons, List.forall_mem_append]
    exact ⟨rfl, hw.isSome_ofChar?, rfl, nofun⟩
  | .abstraction hb hbs hw => by
    have hl : ∀ {c}, IsLetter c → (Symbol.ofChar? c).isSome := fun hc =>
      Option.isSome_of_eq_some (Symbol.ofChar?_of_isLetter hc)
    simp only [List.forall_mem_cons, List.forall_mem_append]
    exact ⟨rfl, rfl, ⟨hl hb, fun c hc => hl (hbs c hc)⟩, rfl, hw.isSome_ofChar?, rfl, nofun⟩

theorem Chain.Written.isSome_ofChar? {ts : Chain} {w : List Char} :
    ts.Written w → ∀ c ∈ w, (Symbol.ofChar? c).isSome
  | .last hw => hw.isSome_ofChar?
  | .cons hv hw => List.forall_mem_append.2 ⟨hv.isSome_ofChar?, hw.isSome_ofChar?⟩

end

/-- What a term is derived from does not start with a backslash. -/
theorem Term.Written.head_ne {t : Term} {w : List Char} (h : t.Written w) :
    ∃ c v, w = c :: v ∧ c ≠ '\\' := by
  cases h with
  | letter hc => exact ⟨_, [], rfl, by rintro rfl; exact absurd hc (by decide)⟩
  | enclosed hw => exact ⟨_, _, rfl, by decide⟩
  | abstraction hb hbs hw => exact ⟨_, _, rfl, by decide⟩

theorem Chain.Written.head_ne {ts : Chain} {w : List Char} (h : ts.Written w) :
    ∃ c v, w = c :: v ∧ c ≠ '\\' := by
  cases h with
  | last hw => exact hw.head_ne
  | cons hv hw =>
    obtain ⟨c, v, rfl, hc⟩ := hv.head_ne
    exact ⟨c, _, rfl, hc⟩

end LambdaDiagram
