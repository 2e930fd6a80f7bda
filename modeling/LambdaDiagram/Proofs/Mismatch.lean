import LambdaDiagram.Proofs.Balance
import Mathlib.Data.List.Induction
import Mathlib.Order.Bounds.Basic

/-!
Where parentheses do not pair up. Balance is said by counting: no beginning of the text closes more
groups than it opens, and the whole text closes all of them. A text that is not balanced has a
parenthesis without a partner, and pairing the parentheses finds the first closing one that is
stray or, if none is, the first opening one that is never closed.
-/

namespace LambdaDiagram

/-- A text closes more groups than it opens. -/
def Overclosed (cs : List Char) : Prop := cs.count '(' < cs.count ')'

/-- The parentheses of a text balance. -/
structure Balanced (cs : List Char) : Prop where
  /-- On the way no group is closed that is not open. -/
  along : ∀ v, v <+: cs → ¬ Overclosed v
  /-- At the end no group is open. -/
  settled : cs.count '(' = cs.count ')'

/-- At a position a parenthesis closes a group that is not open. -/
def StrayAt (cs : List Char) (p : Nat) : Prop :=
  ∃ before after, cs = before ++ ')' :: after ∧ before.length = p ∧ Overclosed (before ++ [')'])

/-- At a position a parenthesis opens a group that is never closed: no closing parenthesis after it
has balanced text between the two. -/
def UnclosedAt (cs : List Char) (p : Nat) : Prop :=
  ∃ before after, cs = before ++ '(' :: after ∧ before.length = p ∧
    ∀ inside rest, after = inside ++ ')' :: rest → ¬ Balanced inside

/-- The parenthesis at a position is the one to blame when a text is not balanced: the first stray
one, or without any the first that is never closed. -/
def MismatchedAt (cs : List Char) (p : Nat) : Prop :=
  IsLeast {q | StrayAt cs q} p ∨ (∀ q, ¬ StrayAt cs q) ∧ IsLeast {q | UnclosedAt cs q} p

/-! ## Depth and counts -/

/-- The depth after a text, by counting. -/
theorem depthAfter_eq_some_iff (depth depth' : Nat) (cs : List Char) :
    depthAfter depth cs = some depth' ↔
      (∀ v, v <+: cs → v.count ')' ≤ depth + v.count '(') ∧
        depth + cs.count '(' = depth' + cs.count ')' := by
  induction cs generalizing depth with
  | nil => simp [depthAfter]
  | cons c cs ih =>
    have hstep : (∀ v, v <+: c :: cs → v.count ')' ≤ depth + v.count '(') ↔
        ∀ v, v <+: cs → (c :: v).count ')' ≤ depth + (c :: v).count '(' := by
      constructor
      · intro h v hv
        exact h (c :: v) ((List.prefix_cons_inj c).2 hv)
      · intro h v hv
        rcases List.prefix_cons_iff.1 hv with rfl | ⟨t, rfl, ht⟩
        · simp
        · exact h t ht
    rw [hstep]
    by_cases ho : c = '('
    · subst ho
      rw [depthAfter_open, ih]
      simp [Nat.add_assoc, Nat.add_comm 1]
    · by_cases hc : c = ')'
      · subst hc
        cases depth with
        | zero =>
          have hnone : depthAfter 0 (')' :: cs) = none := by simp [depthAfter]
          rw [hnone]
          constructor
          · intro h
            cases h
          · intro h
            have hempty := h.1 [] List.nil_prefix
            simp at hempty
        | succ depth =>
          rw [depthAfter_close, ih]
          simp only [List.count_cons_self, List.count_cons_of_ne (show ')' ≠ '(' by decide)]
          constructor
          · rintro ⟨h, he⟩
            exact ⟨fun v hv => by have := h v hv; omega, by omega⟩
          · rintro ⟨h, he⟩
            exact ⟨fun v hv => by have := h v hv; omega, by omega⟩
      · rw [depthAfter_cons ho hc, ih]
        simp [List.count_cons_of_ne ho, List.count_cons_of_ne hc]

/-- Groups that are open all the while change nothing. -/
theorem depthAfter_add {depth depth' : Nat} {cs : List Char}
    (h : depthAfter depth cs = some depth') (more : Nat) :
    depthAfter (depth + more) cs = some (depth' + more) := by
  obtain ⟨hv, he⟩ := (depthAfter_eq_some_iff _ _ _).1 h
  refine (depthAfter_eq_some_iff _ _ _).2 ⟨fun v hp => ?_, by omega⟩
  have hle := hv v hp
  omega

theorem balanced_iff {cs : List Char} : Balanced cs ↔ depthAfter 0 cs = some 0 := by
  rw [depthAfter_eq_some_iff]
  constructor
  · intro h
    refine ⟨fun v hv => ?_, by rw [h.settled]⟩
    have hv' := h.along v hv
    unfold Overclosed at hv'
    omega
  · rintro ⟨h, he⟩
    refine ⟨fun v hv ho => ?_, by omega⟩
    have hv' := h v hv
    unfold Overclosed at ho
    omega

/-- No parenthesis is stray in a text that closes only what it opens. -/
theorem not_strayAt_of_depthAfter {cs : List Char} {depth : Nat}
    (h : depthAfter 0 cs = some depth) (p : Nat) : ¬ StrayAt cs p := by
  rintro ⟨before, after, rfl, -, ho⟩
  have hb := ((depthAfter_eq_some_iff _ _ _).1 h).1 (before ++ [')'])
    (by simp [List.prefix_append_right_inj])
  unfold Overclosed at ho
  omega

/-! ## The three ways in which a text ends -/

/-- A text is balanced, or has a first parenthesis that is stray, or has a first one that is never
closed; what stands before that one is balanced. -/
theorem balanced_or_mismatched (cs : List Char) :
    depthAfter 0 cs = some 0 ∨
      (∃ before after, cs = before ++ ')' :: after ∧ depthAfter 0 before = some 0) ∨
      ∃ before after depth, cs = before ++ '(' :: after ∧ depthAfter 0 before = some 0 ∧
        depthAfter 0 after = some depth := by
  induction cs using List.reverseRecOn with
  | nil => exact .inl rfl
  | append_singleton cs c ih =>
    rcases ih with h | ⟨before, after, rfl, h⟩ | ⟨before, after, depth, rfl, h, hafter⟩
    · by_cases ho : c = '('
      · subst ho
        exact .inr (.inr ⟨cs, [], 0, rfl, h, rfl⟩)
      · by_cases hc : c = ')'
        · subst hc
          exact .inr (.inl ⟨cs, [], rfl, h⟩)
        · left
          rw [depthAfter_append, h, Option.bind_some, depthAfter_cons ho hc]
          rfl
    · exact .inr (.inl ⟨before, after ++ [c], by simp, h⟩)
    · have hlast : depthAfter 0 (after ++ [c]) = depthAfter depth [c] := by
        rw [depthAfter_append, hafter, Option.bind_some]
      have hstill : ∀ depth', depthAfter depth [c] = some depth' →
          ∃ v w d, before ++ '(' :: after ++ [c] = v ++ '(' :: w ∧ depthAfter 0 v = some 0 ∧
            depthAfter 0 w = some d :=
        fun depth' hd => ⟨before, after ++ [c], depth', by simp, h, hlast.trans hd⟩
      by_cases ho : c = '('
      · subst ho
        exact .inr (.inr (hstill (depth + 1) (depthAfter_open depth [])))
      · by_cases hc : c = ')'
        · subst hc
          cases depth with
          | zero =>
            -- the last parenthesis closes what was open
            left
            rw [List.append_assoc, depthAfter_append, h, Option.bind_some, List.cons_append,
              depthAfter_open, depthAfter_append, depthAfter_add hafter 1]
            rfl
          | succ depth => exact .inr (.inr (hstill depth (depthAfter_close depth [])))
        · exact .inr (.inr (hstill depth (depthAfter_cons ho hc depth [])))

/-! ## The parenthesis to blame -/

section

variable {cs before after : List Char} {p q : Nat}

/-- Where the groups that were open before all get closed, so does the one opened last. -/
theorem exists_close_of_depthAfter {depth more more' : Nat}
    (h : depthAfter (depth + 1 + more) after = some more') (hle : more' ≤ more) :
    ∃ inside rest, after = inside ++ ')' :: rest ∧ depthAfter depth inside = some 0 := by
  induction after generalizing depth with
  | nil =>
    have he : depth + 1 + more = more' := Option.some.inj h
    omega
  | cons c after ih =>
    by_cases ho : c = '('
    · subst ho
      rw [depthAfter_open] at h
      have hdepth : depth + 1 + more + 1 = depth + 1 + 1 + more := by omega
      rw [hdepth] at h
      obtain ⟨inside, rest, rfl, hi⟩ := ih h
      exact ⟨'(' :: inside, rest, rfl, (depthAfter_open depth inside).trans hi⟩
    · by_cases hc : c = ')'
      · subst hc
        cases depth with
        | zero => exact ⟨[], after, rfl, rfl⟩
        | succ depth =>
          have hdepth : depth + 1 + 1 + more = depth + 1 + more + 1 := by omega
          rw [hdepth, depthAfter_close] at h
          obtain ⟨inside, rest, rfl, hi⟩ := ih h
          exact ⟨')' :: inside, rest, rfl, (depthAfter_close depth inside).trans hi⟩
      · rw [depthAfter_cons ho hc] at h
        obtain ⟨inside, rest, rfl, hi⟩ := ih h
        exact ⟨c :: inside, rest, rfl, (depthAfter_cons ho hc depth inside).trans hi⟩

/-- In a balanced text every group is closed. -/
theorem Balanced.exists_close (h : Balanced (before ++ '(' :: after)) :
    ∃ inside rest, after = inside ++ ')' :: rest ∧ Balanced inside := by
  rw [balanced_iff, depthAfter_append] at h
  obtain ⟨depth, -, hafter⟩ := Option.bind_eq_some_iff.1 h
  rw [depthAfter_open, show depth + 1 = 0 + 1 + depth by omega] at hafter
  obtain ⟨inside, rest, he, hi⟩ := exists_close_of_depthAfter hafter (Nat.zero_le depth)
  exact ⟨inside, rest, he, balanced_iff.2 hi⟩

theorem Balanced.not_unclosedAt (h : Balanced cs) (p : Nat) : ¬ UnclosedAt cs p := by
  rintro ⟨before, after, rfl, -, hnever⟩
  obtain ⟨inside, rest, he, hi⟩ := h.exists_close
  exact hnever inside rest he hi

theorem Balanced.not_mismatchedAt (h : Balanced cs) (p : Nat) : ¬ MismatchedAt cs p := by
  rintro (hp | ⟨-, hp⟩)
  · exact not_strayAt_of_depthAfter (balanced_iff.1 h) p hp.1
  · exact h.not_unclosedAt p hp.1

/-- Only one parenthesis is to blame. -/
theorem MismatchedAt.unique (hp : MismatchedAt cs p) (hq : MismatchedAt cs q) : p = q := by
  rcases hp with hp | ⟨hnp, hp⟩ <;> rcases hq with hq | ⟨hnq, hq⟩
  · exact hp.unique hq
  · exact absurd hp.1 (hnq p)
  · exact absurd hq.1 (hnp q)
  · exact hp.unique hq

/-- What stands at an earlier place of a text stands in the beginning up to a later place. -/
theorem concat_prefix_of_length_lt {c d : Char} {before' after' : List Char}
    (h : before ++ c :: after = before' ++ d :: after') (hlt : before'.length < before.length) :
    before' ++ [d] <+: before := by
  refine List.prefix_of_prefix_length_le ?_ (List.prefix_append before (c :: after)) ?_
  · rw [h]
    simp [List.prefix_append_right_inj]
  · rw [List.length_append, List.length_singleton]
    omega

/-- After a balanced beginning a closing parenthesis is the first that is stray. -/
theorem mismatchedAt_stray (h : depthAfter 0 before = some 0) (after : List Char) :
    MismatchedAt (before ++ ')' :: after) before.length := by
  left
  constructor
  · refine ⟨before, after, rfl, rfl, ?_⟩
    have hcount := (balanced_iff.2 h).settled
    simp [Overclosed, hcount]
  · rintro q ⟨before', after', he, rfl, ho⟩
    by_contra hlt
    -- an earlier one would stand in the balanced beginning
    have hprefix := concat_prefix_of_length_lt he (Nat.lt_of_not_le hlt)
    exact (balanced_iff.2 h).along _ hprefix ho

/-- After a balanced beginning an opening parenthesis after which no group is closed that is not
open is the first that is never closed. -/
theorem mismatchedAt_unclosed {depth : Nat} (h : depthAfter 0 before = some 0)
    (hafter : depthAfter 0 after = some depth) :
    MismatchedAt (before ++ '(' :: after) before.length := by
  right
  have hall : depthAfter 0 (before ++ '(' :: after) = some (depth + 1) := by
    rw [depthAfter_append, h, Option.bind_some, depthAfter_open]
    exact depthAfter_add hafter 1
  refine ⟨not_strayAt_of_depthAfter hall, ⟨before, after, rfl, rfl, ?_⟩, ?_⟩
  · rintro inside rest rfl hi
    rw [depthAfter_append, balanced_iff.1 hi] at hafter
    cases hafter
  · rintro q ⟨before', after', he, rfl, hnever⟩
    by_contra hlt
    -- an earlier one is closed within the balanced beginning
    obtain ⟨between, hb⟩ := concat_prefix_of_length_lt he (Nat.lt_of_not_le hlt)
    rw [List.append_assoc, List.singleton_append] at hb
    subst hb
    obtain ⟨inside, rest, rfl, hi⟩ := (balanced_iff.2 h).exists_close
    refine hnever inside (rest ++ '(' :: after) ?_ hi
    have he' : before' ++ '(' :: (inside ++ ')' :: (rest ++ '(' :: after)) =
        before' ++ '(' :: after' := by simpa using he
    exact (List.cons.inj (List.append_cancel_left he')).2.symm

end

/-! ## Pairing -/

/-- A group that stays open is the one that is left without a partner. -/
theorem pairParentheses_unclosed {waiting : List Nat} {depth : Nat} {cs : List Char}
    (h : depthAfter waiting.length cs = some depth) (p position : Nat) :
    pairParentheses position (waiting ++ [p]) cs = .error p := by
  induction cs generalizing waiting position with
  | nil => simp [pairParentheses]
  | cons c cs ih =>
    by_cases ho : c = '('
    · subst ho
      have hopen : depthAfter (position :: waiting).length cs = some depth := by
        rw [← h, depthAfter_open, List.length_cons]
      rw [pairParentheses_open]
      exact ih hopen (position + 1)
    · by_cases hc : c = ')'
      · subst hc
        cases waiting with
        | nil => simp [depthAfter] at h
        | cons q waiting =>
          rw [List.length_cons, depthAfter_close] at h
          rw [List.cons_append, pairParentheses_close, ih h (position + 1)]
          rfl
      · rw [depthAfter_cons ho hc] at h
        rw [pairParentheses_cons ho hc]
        exact ih h (position + 1)

/-- Pairing fails just where a parenthesis is to blame. -/
theorem pairParentheses_eq_error_iff (cs : List Char) (p : Nat) :
    pairParentheses 0 [] cs = .error p ↔ MismatchedAt cs p := by
  have hfound : ∀ {q}, MismatchedAt cs q → pairParentheses 0 [] cs = .error q →
      (pairParentheses 0 [] cs = .error p ↔ MismatchedAt cs p) := by
    intro q hq he
    rw [he]
    constructor
    · intro h
      rwa [← Except.error.inj h]
    · intro hp
      rw [hp.unique hq]
  -- up to the parenthesis to blame nothing is left open
  have hbegin : ∀ {before}, depthAfter 0 before = some 0 →
      ∃ ps, ∀ more, pairParentheses 0 [] (before ++ more) =
        (pairParentheses before.length [] more).map (ps ++ ·) := by
    intro before h
    have hlevel : depthAfter ([] : List Nat).length before = some 0 := h
    obtain ⟨ps, hps⟩ := exists_pairParentheses_append 0 hlevel
    refine ⟨ps, fun more => ?_⟩
    rw [← Nat.zero_add before.length]
    exact hps [] more
  rcases balanced_or_mismatched cs with h | ⟨before, after, rfl, h⟩ | ⟨before, after, d, rfl, h, ha⟩
  · obtain ⟨ps, hps⟩ := hbegin h
    have hall := hps []
    rw [List.append_nil] at hall
    rw [hall]
    exact ⟨nofun, fun hp => absurd hp ((balanced_iff.2 h).not_mismatchedAt p)⟩
  · obtain ⟨ps, hps⟩ := hbegin h
    exact hfound (mismatchedAt_stray h after) (hps (')' :: after))
  · obtain ⟨ps, hps⟩ := hbegin h
    refine hfound (mismatchedAt_unclosed h ha) ?_
    have hlevel : depthAfter ([] : List Nat).length after = some d := ha
    have hopen := pairParentheses_unclosed hlevel before.length (before.length + 1)
    rw [hps, pairParentheses_open]
    exact congrArg (Except.map (ps ++ ·)) hopen

/-- A text that is not balanced has a parenthesis to blame. -/
theorem exists_mismatchedAt_iff (cs : List Char) : (∃ p, MismatchedAt cs p) ↔ ¬ Balanced cs := by
  constructor
  · rintro ⟨p, hp⟩ h
    exact h.not_mismatchedAt p hp
  · intro h
    rcases balanced_or_mismatched cs with hb | ⟨before, after, rfl, hb⟩ |
      ⟨before, after, d, rfl, hb, ha⟩
    · exact absurd (balanced_iff.2 hb) h
    · exact ⟨_, mismatchedAt_stray hb after⟩
    · exact ⟨_, mismatchedAt_unclosed hb ha⟩

end LambdaDiagram
