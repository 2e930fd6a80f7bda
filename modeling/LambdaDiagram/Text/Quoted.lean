import LambdaDiagram.Text.Extending
import LambdaDiagram.Text.Unprintable

/-!
Quoted characters, as messages show them: between single quotes, with a backslash before what
would end or hide the quotation, and the code point in place of what cannot be seen.
-/

namespace LambdaDiagram.Text

/-- A code point in lower-case hexadecimal digits without padding. -/
def hexDigits (c : Char) : List Char := Nat.toDigits 16 c.toNat

/-- What stands for a character inside single quotes. -/
def escapeChar (c : Char) : List Char :=
  match c with
  | '\x00' => ['\\', '0']
  | '\t' => ['\\', 't']
  | '\r' => ['\\', 'r']
  | '\n' => ['\\', 'n']
  | '\'' => ['\\', '\'']
  | '\\' => ['\\', '\\']
  | c =>
    if extending.contains c || unprintable.contains c then
      ['\\', 'u', '\x7b'] ++ hexDigits c ++ ['\x7d']
    else [c]

/-- A character between single quotes. -/
def quoteChar (c : Char) : String :=
  String.ofList ('\'' :: escapeChar c ++ ['\''])

/-- A filler is shown by its code point. -/
example : quoteChar '\u3164' = "'\\u\x7b3164\x7d'" := by decide +kernel

end LambdaDiagram.Text
