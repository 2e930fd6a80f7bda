/-!
Which parentheses of a text belong together, whatever else the text holds.
-/

namespace LambdaDiagram

/-- The pairs of positions of the parentheses that belong together, in the order in which they
close. `waiting` holds the positions of those still open, the innermost first. Without a partner
for each there is instead the position of the first stray closing parenthesis or, if none is
stray, of the outermost one that stays open. -/
def pairParentheses (position : Nat) (waiting : List Nat) :
    List Char → Except Nat (List (Nat × Nat))
  | [] =>
    match waiting.getLast? with
    | none => .ok []
    | some p => .error p
  | c :: cs =>
    if c = '(' then pairParentheses (position + 1) (position :: waiting) cs
    else if c = ')' then
      match waiting with
      | [] => .error position
      | p :: waiting => (pairParentheses (position + 1) waiting cs).map ((p, position) :: ·)
    else pairParentheses (position + 1) waiting cs

end LambdaDiagram
