import LambdaDiagram.Term.Parser
import Mathlib.Data.List.Basic

/-!
Reading by index. The lexemes of a text lie in a buffer, and what is read is always a range of it,
from a start up to but not including a stop. Each rule gets the lexemes that it needs by their
indices and leaves a record of what it does: the ranges and the terms that it sets out to read, the
indices that it looks at, and its count of open groups while it looks for the end of one. An index
that the buffer does not have ends the reading at once.
-/

namespace LambdaDiagram

/-- A scanned text: its lexemes, and how many characters it has. -/
structure Buffer where
  lexemes : List Lexeme
  length : Nat
deriving DecidableEq, Repr

/-- What an indexed reader does. -/
inductive Entry where
  /-- It sets out to read the terms of a range. -/
  | range (start stop : Nat)
  /-- Within a range, it sets out to read the term that starts at an index. -/
  | term (start stop index : Nat)
  /-- It looks at the lexeme with an index. -/
  | look (index : Nat)
  /-- It has changed its count of open groups. -/
  | depth (count : Int)
deriving DecidableEq, Repr

/-- Why an indexed reader does not come to its end. -/
inductive Halt where
  /-- The text is at fault. -/
  | fault (e : SyntaxError)
  /-- The buffer has no lexeme with this index. -/
  | outside (index : Nat)
deriving DecidableEq, Repr

/-- What an indexed reader does, in order, and what it comes to. -/
structure Transcript (α : Type) where
  entries : List Entry
  outcome : Except Halt α

namespace Transcript

instance : Monad Transcript where
  pure a := ⟨[], .ok a⟩
  bind x f :=
    match x.outcome with
    | .error halt => ⟨x.entries, .error halt⟩
    | .ok a => ⟨x.entries ++ (f a).entries, (f a).outcome⟩

/-- Put an entry on the record. -/
def note (e : Entry) : Transcript Unit := ⟨[e], .ok ()⟩

/-- Report a fault at a position. -/
def fail {α : Type} (fault : SyntaxFault) (position : Nat) : Transcript α :=
  ⟨[], .error (.fault ⟨fault, position⟩)⟩

end Transcript

namespace Buffer

open Transcript (note fail)

/-- The buffer of a text. -/
def ofText (s : String) : Except UnexpectedCharacter Buffer :=
  (Lexeme.ofText s).map fun ls => ⟨ls, s.length⟩

/-- The lexemes of a range. -/
def part (buf : Buffer) (start stop : Nat) : List Lexeme := (buf.lexemes.take stop).drop start

variable (buf : Buffer)

/-- The lexeme with an index. -/
def look (index : Nat) : Transcript Lexeme where
  entries := [.look index]
  outcome := (buf.lexemes[index]?).elim (.error (.outside index)) .ok

/-- Report a fault where the lexeme with an index stands, or at the end of the text. -/
def failAt {α : Type} (fault : SyntaxFault) (index : Nat) : Transcript α where
  entries := [.look index]
  outcome := .error (.fault ⟨fault, (buf.lexemes[index]?).elim buf.length Lexeme.position⟩)

/-- The index of the parenthesis that closes the group opened at `opening`, looked for from an index
on; `count` groups are open there, that one included. -/
def findClose (opening stop : Nat) (count : Int) (index : Nat) (hopening : opening ≤ index) :
    Transcript {close : Nat // opening ≤ close ∧ close < stop} :=
  if hstop : index < stop then do
    match (← buf.look index).symbol with
    | .openParen => do
      note (.depth (count + 1))
      findClose opening stop (count + 1) (index + 1) (Nat.le_succ_of_le hopening)
    | .closeParen => do
      note (.depth (count - 1))
      if count - 1 = 0 then pure ⟨index, hopening, hstop⟩
      else findClose opening stop (count - 1) (index + 1) (Nat.le_succ_of_le hopening)
    | _ => findClose opening stop count (index + 1) (Nat.le_succ_of_le hopening)
  else buf.failAt .mismatchedParentheses opening
termination_by stop - index

/-- The letters from an index on, and the index after them. -/
def letters (first stop index : Nat) (hfirst : first ≤ index) :
    Transcript (List Char × {next : Nat // first ≤ next}) :=
  if index < stop then do
    match (← buf.look index).symbol with
    | .letter c => do
      let (cs, next) ← letters first stop (index + 1) (Nat.le_succ_of_le hfirst)
      pure (c :: cs, next)
    | _ => pure ([], ⟨index, hfirst⟩)
  else pure ([], ⟨index, hfirst⟩)
termination_by stop - index

/-- The binders of a group and the index after their dot, which is looked for at an index. -/
def afterBinders (opening : Nat) (binders : List Char) (close index : Nat)
    (hopening : opening < index) : Transcript (List Char × {first : Nat // opening < first}) :=
  if binders = [] then buf.failAt .missingBinder index
  else if index = close then buf.failAt .missingDot index
  else do
    if (← buf.look index).symbol = .dot then
      pure (binders, ⟨index + 1, Nat.lt_succ_of_lt hopening⟩)
    else buf.failAt .missingDot index

/-- The binders of the group between two parentheses, and the index where its body starts. -/
def heading (opening close : Nat) : Transcript (List Char × {first : Nat // opening < first}) :=
  if opening + 1 = close then pure ([], ⟨opening + 1, Nat.lt_succ_self opening⟩)
  else do
    if (← buf.look (opening + 1)).symbol = .lambda then
      let (binders, ⟨index, hindex⟩) ←
        buf.letters (opening + 1) close (opening + 2) (Nat.le_succ (opening + 1))
      buf.afterBinders opening binders close index hindex
    else pure ([], ⟨opening + 1, Nat.lt_succ_self opening⟩)

/-- The chain of the terms of a range. -/
def sequence (start stop : Nat) (terms : Transcript (List Term)) : Transcript Chain := do
  note (.range start stop)
  match Chain.ofList? (← terms) with
  | none => buf.failAt .emptyGroup start
  | some ts => pure ts

/-- The group between two parentheses, given how the terms of its body are read. -/
def group (opening close : Nat)
    (terms : (first : Nat) → opening < first → Transcript (List Term)) : Transcript Term := do
  let (binders, ⟨first, hfirst⟩) ← buf.heading opening close
  if first = close then buf.failAt .emptyGroup close
  else do
    let body ← buf.sequence first close (terms first hfirst)
    pure (.group binders body)

/-- The lexeme that a term starts with. -/
def startTerm (start stop index : Nat) : Transcript Lexeme := do
  note (.term start stop index)
  buf.look index

/-- The terms of a range from an index on. -/
def terms (start stop index : Nat) : Transcript (List Term) :=
  if index < stop then do
    let l ← buf.startTerm start stop index
    match l.symbol with
    | .letter c => do
      let ts ← terms start stop (index + 1)
      pure (.var c :: ts)
    | .openParen => do
      let ⟨close, _⟩ ← buf.findClose index stop 0 index (Nat.le_refl index)
      let t ← buf.group index close fun first _ => terms first close first
      let ts ← terms start stop (close + 1)
      pure (t :: ts)
    | .closeParen => fail .mismatchedParentheses l.position
    | .lambda => fail (.unexpectedSymbol '\\') l.position
    | .dot => fail (.unexpectedSymbol '.') l.position
  else pure []
termination_by stop - index

/-- Read a whole buffer as a chain of terms. -/
def read : Transcript Chain :=
  if buf.lexemes = [] then fail .emptyInput 0
  else buf.sequence 0 buf.lexemes.length (buf.terms 0 buf.lexemes.length 0)

end Buffer

/-! ## Records -/

namespace Transcript

variable {α β : Type} {P : Entry → Prop} {x : Transcript α} {f : α → Transcript β} {a : α}
variable {h : Halt} {e : Entry}

theorem bind_of_ok (hx : x.outcome = .ok a) (f : α → Transcript β) :
    x >>= f = ⟨x.entries ++ (f a).entries, (f a).outcome⟩ := by
  simp only [bind, hx]

theorem bind_of_error (hx : x.outcome = .error h) (f : α → Transcript β) :
    x >>= f = ⟨x.entries, .error h⟩ := by
  simp only [bind, hx]

/-- What is done first is on the record, whatever it comes to. -/
theorem mem_bind_left (he : e ∈ x.entries) (f : α → Transcript β) : e ∈ (x >>= f).entries := by
  cases hx : x.outcome with
  | error h => rwa [bind_of_error hx]
  | ok a =>
    rw [bind_of_ok hx]
    exact List.mem_append_left _ he

/-- Every entry on a record has a property, and in the end it comes to a result. -/
structure Yields (P : Entry → Prop) (x : Transcript α) (r : Except Halt α) : Prop where
  entries : ∀ e ∈ x.entries, P e
  outcome : x.outcome = r

theorem yields_pure (a : α) : (pure a : Transcript α).Yields P (.ok a) :=
  ⟨List.forall_mem_nil _, rfl⟩

theorem yields_note (he : P e) : (note e).Yields P (.ok ()) :=
  ⟨List.forall_mem_singleton.2 he, rfl⟩

theorem yields_fail (fault : SyntaxFault) (position : Nat) :
    (fail fault position : Transcript α).Yields P (.error (.fault ⟨fault, position⟩)) :=
  ⟨List.forall_mem_nil _, rfl⟩

/-- After entries that have a property, the one goes on as the other. -/
def Leads (P : Entry → Prop) (x y : Transcript α) : Prop :=
  ∃ before, (∀ e ∈ before, P e) ∧ x = ⟨before ++ y.entries, y.outcome⟩

theorem Yields.leads (hx : x.Yields P (.ok a)) (f : α → Transcript β) :
    (x >>= f).Leads P (f a) :=
  ⟨x.entries, hx.entries, bind_of_ok hx.outcome f⟩

theorem Leads.trans {y z : Transcript α} (h : x.Leads P y) (hlater : y.Leads P z) :
    x.Leads P z := by
  obtain ⟨before, hbefore, rfl⟩ := h
  obtain ⟨between, hbetween, rfl⟩ := hlater
  refine ⟨before ++ between, List.forall_mem_append.2 ⟨hbefore, hbetween⟩, ?_⟩
  rw [List.append_assoc]

theorem Leads.yields {y : Transcript α} {r : Except Halt α} (h : x.Leads P y)
    (hy : y.Yields P r) : x.Yields P r := by
  obtain ⟨before, hbefore, rfl⟩ := h
  exact ⟨List.forall_mem_append.2 ⟨hbefore, hy.entries⟩, hy.outcome⟩

theorem Leads.mem {y : Transcript α} (h : x.Leads P y) (he : e ∈ y.entries) : e ∈ x.entries := by
  obtain ⟨before, -, rfl⟩ := h
  exact List.mem_append_right _ he

theorem Yields.bind {r : Except Halt β} (hx : x.Yields P (.ok a)) (hf : (f a).Yields P r) :
    (x >>= f).Yields P r :=
  (hx.leads f).yields hf

theorem Yields.bind_error (hx : x.Yields P (.error h)) : (x >>= f).Yields P (.error h) := by
  rw [bind_of_error hx.outcome]
  exact ⟨hx.entries, rfl⟩

end Transcript

/-! ## Ranges -/

namespace Buffer

variable {buf : Buffer} {start stop index : Nat} {l : Lexeme} {ls : List Lexeme}

theorem part_all (buf : Buffer) : buf.part 0 buf.lexemes.length = buf.lexemes := by
  rw [part, List.take_length, List.drop_zero]

theorem part_eq_nil_iff (hstop : stop ≤ buf.lexemes.length) :
    buf.part start stop = [] ↔ stop ≤ start := by
  rw [part, List.drop_eq_nil_iff, List.length_take, Nat.min_eq_left hstop]

theorem part_eq_cons_iff : buf.part index stop = l :: ls ↔
    index < stop ∧ buf.lexemes[index]? = some l ∧ buf.part (index + 1) stop = ls := by
  constructor
  · intro h
    have hhead := congrArg List.head? h
    rw [part, List.head?_drop, List.getElem?_take] at hhead
    split at hhead
    · rename_i hlt
      refine ⟨hlt, hhead, ?_⟩
      rw [part, ← List.tail_drop]
      exact congrArg List.tail h
    · cases hhead
  · rintro ⟨hlt, hl, rfl⟩
    obtain ⟨hlength, rfl⟩ := List.getElem?_eq_some_iff.1 hl
    have htake : index < (buf.lexemes.take stop).length := by
      rw [List.length_take]
      omega
    rw [part, part, List.drop_eq_getElem_cons htake, List.getElem_take]

theorem part_of_append {xs ys : List Lexeme} (h : buf.part start stop = xs ++ ys) :
    buf.part (start + xs.length) stop = ys := by
  rw [part, ← List.drop_drop]
  exact (congrArg (List.drop xs.length) h).trans List.drop_left

theorem take_part {middle : Nat} (h : middle ≤ stop) :
    (buf.part start stop).take (middle - start) = buf.part start middle := by
  rw [part, part, List.drop_take, List.drop_take, List.take_take,
    Nat.min_eq_left (Nat.sub_le_sub_right h start)]

/-- Between an index and a later one, where the lexeme `l` is, are the lexemes `inside`. -/
structure Delimits (buf : Buffer) (opening close : Nat) (l : Lexeme) (inside : List Lexeme) :
    Prop where
  lt : opening < close
  closes : buf.lexemes[close]? = some l
  part : buf.part (opening + 1) close = inside

theorem Delimits.le_length {opening close : Nat} (h : buf.Delimits opening close l ls) :
    close ≤ buf.lexemes.length :=
  Nat.le_of_lt (List.getElem?_eq_some_iff.1 h.closes).1

theorem Delimits.le_succ {opening close : Nat} (h : buf.Delimits opening close l ls)
    (hstart : start ≤ opening) : start ≤ close + 1 :=
  Nat.le_succ_of_le (Nat.le_trans hstart (Nat.le_of_lt h.lt))

/-- What is cut out of a range as a group, and what stands after it, are ranges too. -/
theorem delimits_of_splitClose {p : Nat} {inside rest : List Lexeme}
    (hpart : buf.part index stop = ⟨.openParen, p⟩ :: ls)
    (hs : Lexeme.splitClose 0 ls = some (inside, l, rest)) :
    buf.Delimits index (index + 1 + inside.length) l inside ∧
      buf.part (index + 1 + inside.length + 1) stop = rest := by
  obtain ⟨-, -, hls⟩ := part_eq_cons_iff.1 hpart
  rw [Lexeme.append_of_splitClose hs] at hls
  obtain ⟨hlt, hclose, hrest⟩ := part_eq_cons_iff.1 (part_of_append hls)
  refine ⟨⟨by omega, hclose, ?_⟩, hrest⟩
  rw [← take_part (Nat.le_of_lt hlt), hls, Nat.add_sub_cancel_left]
  exact List.take_left

end Buffer

end LambdaDiagram
