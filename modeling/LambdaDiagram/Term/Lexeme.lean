import LambdaDiagram.Text.Blank
import LambdaDiagram.Text.Quoted

/-!
Lexemes: the symbols of a written term with their positions. Positions count characters from the
start of the text, blanks included, though blanks are skipped. Only the letters of ASCII name
variables.
-/

namespace LambdaDiagram

/-- A symbol that a written term is made of. -/
inductive Symbol where
  | letter (name : Char)
  | openParen
  | closeParen
  | lambda
  | dot
deriving DecidableEq, Repr

/-- The symbol that a character stands for. -/
def Symbol.ofChar? : Char → Option Symbol
  | '(' => some openParen
  | ')' => some closeParen
  | '\\' => some lambda
  | '.' => some dot
  | c => if c.isAlpha then some (letter c) else none

/-- A character that stands for no symbol, and where it stands. -/
structure UnexpectedCharacter where
  char : Char
  position : Nat
deriving DecidableEq, Repr

/-- The report of a character that stands for no symbol. -/
def UnexpectedCharacter.message (e : UnexpectedCharacter) : String :=
  s!"Unexpected character {Text.quoteChar e.char} at position {e.position}"

/-- A symbol and where it stands. -/
structure Lexeme where
  symbol : Symbol
  position : Nat
deriving DecidableEq, Repr

namespace Lexeme

/-- The lexemes of the characters that stand from a position on, or the first that is none. -/
def scan (position : Nat) : List Char → Except UnexpectedCharacter (List Lexeme)
  | [] => .ok []
  | c :: cs =>
    if Text.isBlank c then scan (position + 1) cs
    else match Symbol.ofChar? c with
      | none => .error ⟨c, position⟩
      | some s => (scan (position + 1) cs).map (⟨s, position⟩ :: ·)

/-- The lexemes of a text. -/
def ofText (s : String) : Except UnexpectedCharacter (List Lexeme) := scan 0 s.toList

end Lexeme

end LambdaDiagram
