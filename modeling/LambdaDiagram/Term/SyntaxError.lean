import LambdaDiagram.Text.Quoted

/-!
What can be wrong with a written term, and how it is reported.
-/

namespace LambdaDiagram

/-- Why a text is no term. -/
inductive SyntaxFault where
  /-- There is nothing but blanks. -/
  | emptyInput
  /-- A group closes where its first term is due. -/
  | emptyGroup
  /-- No letter follows the backslash of a group. -/
  | missingBinder
  /-- The binders of a group are not followed by a dot. -/
  | missingDot
  /-- A parenthesis has no partner. -/
  | mismatchedParentheses
  /-- A character stands where no text can go on with it. -/
  | unexpectedSymbol (char : Char)
deriving DecidableEq, Repr

/-- The report of a fault, without its position. -/
def SyntaxFault.message : SyntaxFault → String
  | emptyInput => "Empty input, expected a term"
  | emptyGroup => "Empty group, expected a term before the closing parenthesis"
  | missingBinder => "Abstraction has no bound variable, expected a letter before '.'"
  | missingDot => "Abstraction is missing '.', expected '.' after the bound variables"
  | mismatchedParentheses => "Mismatched parentheses, expected a matching pair"
  | unexpectedSymbol c => s!"Unexpected symbol {Text.quoteChar c}, expected a letter or '('"

/-- A fault and the position of the character that shows it. -/
structure SyntaxError where
  fault : SyntaxFault
  position : Nat
deriving DecidableEq, Repr

/-- The report of a syntax error. -/
def SyntaxError.message (e : SyntaxError) : String :=
  s!"{e.fault.message} (at position {e.position})"

end LambdaDiagram
