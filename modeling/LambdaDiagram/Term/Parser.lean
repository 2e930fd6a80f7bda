import LambdaDiagram.Term.Basic
import LambdaDiagram.Term.Lexeme
import LambdaDiagram.Term.Parentheses
import LambdaDiagram.Term.SyntaxError

/-!
Reading terms. A text is read in three passes, and the first pass that finds a fault reports it:
parentheses are paired, characters become lexemes, and lexemes become terms. The last pass cuts a
group out at the parenthesis that closes it and reads what is inside on its own.
-/

namespace LambdaDiagram

namespace Lexeme

/-- What stands before the parenthesis that closes the group we are in, that parenthesis, and what
stands after it; `depth` counts the groups opened since. -/
def splitClose (depth : Nat) : List Lexeme → Option (List Lexeme × Lexeme × List Lexeme)
  | [] => none
  | l :: ls =>
    match l.symbol, depth with
    | .closeParen, 0 => some ([], l, ls)
    | .closeParen, depth + 1 =>
      (splitClose depth ls).map fun (inside, close, rest) => (l :: inside, close, rest)
    | .openParen, depth =>
      (splitClose (depth + 1) ls).map fun (inside, close, rest) => (l :: inside, close, rest)
    | _, depth => (splitClose depth ls).map fun (inside, close, rest) => (l :: inside, close, rest)

theorem append_of_splitClose {depth : Nat} {ls inside rest : List Lexeme} {close : Lexeme}
    (h : splitClose depth ls = some (inside, close, rest)) : ls = inside ++ close :: rest := by
  fun_induction splitClose depth ls generalizing inside close rest with
  | case1 => simp at h
  | case2 l ls => simp_all
  | case3 | case4 | case5 =>
    obtain ⟨⟨i, c, r⟩, hs, he⟩ := Option.map_eq_some_iff.1 h
    simp only [Prod.mk.injEq] at he
    obtain ⟨rfl, rfl, rfl⟩ := he
    rename_i ih
    rw [ih hs, List.cons_append]

/-- The letters that some lexemes start with, and the lexemes after them. -/
def spanLetters : List Lexeme → List Char × List Lexeme
  | ⟨.letter c, _⟩ :: ls => ((spanLetters ls).1.cons c, (spanLetters ls).2)
  | ls => ([], ls)

theorem length_spanLetters_le (ls : List Lexeme) : (spanLetters ls).2.length ≤ ls.length := by
  fun_induction spanLetters ls with
  | case1 c p ls ih => simp; omega
  | case2 => simp

/-- The position of the first of some lexemes, or of what follows them. -/
def positionOr (next : Nat) : List Lexeme → Nat
  | [] => next
  | l :: _ => l.position

/-- The binders of a group and the lexemes of its body, given those between its parentheses and the
position of the closing one. -/
def splitBinders (close : Nat) : List Lexeme → Except SyntaxError (List Char × List Lexeme)
  | ⟨.lambda, _⟩ :: ls =>
    match spanLetters ls with
    | ([], rest) => .error ⟨.missingBinder, positionOr close rest⟩
    | (bs, ⟨.dot, _⟩ :: body) => .ok (bs, body)
    | (_, rest) => .error ⟨.missingDot, positionOr close rest⟩
  | ls => .ok ([], ls)

theorem length_le_of_splitBinders {close : Nat} {ls body : List Lexeme} {bs : List Char}
    (h : splitBinders close ls = .ok (bs, body)) : body.length ≤ ls.length := by
  fun_cases splitBinders close ls with
  | case1 p ls rest hs => simp_all [splitBinders]
  | case2 p ls bs' q body' hs hne =>
    have hl := length_spanLetters_le ls
    simp_all [splitBinders]
    grind
  | case3 => simp_all [splitBinders]
  | case4 => simp_all [splitBinders]

end Lexeme

/-- The terms that some lexemes write, side by side. -/
def parseTerms (ls : List Lexeme) : Except SyntaxError (List Term) :=
  match ls with
  | [] => .ok []
  | ⟨.letter c, _⟩ :: ls => (parseTerms ls).map (.var c :: ·)
  | ⟨.openParen, position⟩ :: ls =>
    match _hs : Lexeme.splitClose 0 ls with
    | none => .error ⟨.mismatchedParentheses, position⟩
    | some (inside, close, rest) =>
      match _hb : Lexeme.splitBinders close.position inside with
      | .error e => .error e
      | .ok (binders, body) => do
        match Chain.ofList? (← parseTerms body) with
        | none => .error ⟨.emptyGroup, close.position⟩
        | some body => (parseTerms rest).map (.group binders body :: ·)
  | ⟨.closeParen, position⟩ :: _ => .error ⟨.mismatchedParentheses, position⟩
  | ⟨.lambda, position⟩ :: _ => .error ⟨.unexpectedSymbol '\\', position⟩
  | ⟨.dot, position⟩ :: _ => .error ⟨.unexpectedSymbol '.', position⟩
termination_by ls.length
decreasing_by
  · simp
  · have := Lexeme.length_le_of_splitBinders _hb
    have := congrArg List.length (Lexeme.append_of_splitClose _hs)
    simp at this ⊢
    omega
  · have := congrArg List.length (Lexeme.append_of_splitClose _hs)
    simp at this ⊢
    omega

/-- Read a text as a chain of terms. -/
def Chain.parse (s : String) : Except SyntaxError Chain :=
  match pairParentheses 0 [] s.toList with
  | .error p => .error ⟨.mismatchedParentheses, p⟩
  | .ok _ =>
    match Lexeme.ofText s with
    | .error e => .error ⟨.unexpectedSymbol e.char, e.position⟩
    | .ok ls => do
      match Chain.ofList? (← parseTerms ls) with
      | none => .error ⟨.emptyInput, 0⟩
      | some ts => .ok ts

end LambdaDiagram
