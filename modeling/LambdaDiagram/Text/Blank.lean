import LambdaDiagram.Text.CharSet

/-!
Blank characters: the Unicode property White_Space, which holds of 25 characters. Blanks separate
nothing in a term, so dropping all of them, or those at either end, is all a reader does to them.
-/

namespace LambdaDiagram.Text

/-- The white space characters. -/
def blanks : CharSet := .ofChanges
  [0x9, 0xe, 0x20, 0x21, 0x85, 0x86, 0xa0, 0xa1, 0x1680, 0x1681, 0x2000, 0x200b, 0x2028, 0x202a,
    0x202f, 0x2030, 0x205f, 0x2060, 0x3000, 0x3001]

/-- A character is blank when it is white space. -/
def isBlank (c : Char) : Bool := blanks.contains c

example : blanks.changes.Pairwise (· < ·) := by decide

/-- What counts as white space in ASCII is blank. -/
theorem isBlank_of_isWhitespace {c : Char} (h : c.isWhitespace = true) : isBlank c = true := by
  simp only [Char.isWhitespace, Bool.or_eq_true, decide_eq_true_eq] at h
  rcases h with ((rfl | rfl) | rfl) | rfl <;> decide

/-- The characters of ASCII after the space are not blank. -/
theorem isBlank_eq_false {c : Char} (hlow : 33 ≤ c.toNat) (hhigh : c.toNat < 133) :
    isBlank c = false := by
  have h₁ : 9 ≤ c.toNat := by omega
  have h₂ : 14 ≤ c.toNat := by omega
  have h₃ : 32 ≤ c.toNat := by omega
  have h₄ : ¬ 133 ≤ c.toNat := by omega
  simp [isBlank, CharSet.contains, blanks, h₁, h₂, h₃, hlow, h₄]

/-- A text without its blanks. -/
def dropBlanks (cs : List Char) : List Char := cs.filter fun c => !isBlank c

theorem dropBlanks_append (v w : List Char) :
    dropBlanks (v ++ w) = dropBlanks v ++ dropBlanks w := List.filter_append v w

theorem dropBlanks_cons {c : Char} (h : isBlank c = false) (w : List Char) :
    dropBlanks (c :: w) = c :: dropBlanks w := by
  simp [dropBlanks, h]

/-- A text without the blanks at its two ends. -/
def trimBlanks (s : String) : String :=
  String.ofList (((s.toList.dropWhile isBlank).reverse.dropWhile isBlank).reverse)

end LambdaDiagram.Text
