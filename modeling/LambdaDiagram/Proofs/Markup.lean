import Mathlib.Data.List.TakeWhile
import LambdaDiagram.Picture.Svg

/-!
The markup of SVG documents. Whatever a label says, it is written without the characters that tags
and attributes are told by, and it can be read back. So a reader who knows nothing but where tags
start finds in a document the tags of its frame and style sheet and those of the elements of the
picture, in the order of painting.
-/

namespace LambdaDiagram

namespace Svg

/-! ## Labels -/

/-- What looks like an entity already is escaped as well. -/
example : escape "a<b &amp;" = "a&lt;b &amp;amp;" := by decide

/-! ## Texts without tags -/

/-- No tag starts in a text. -/
def Plain (text : String) : Prop := '<' ∉ text.toList

instance (text : String) : Decidable (Plain text) := inferInstanceAs (Decidable (_ ∉ _))

@[simp] theorem plain_append {s t : String} : Plain (s ++ t) ↔ Plain s ∧ Plain t := by
  simp only [Plain, String.toList_append, List.mem_append, not_or]

theorem plain_spaced {texts : List String} (h : ∀ text ∈ texts, Plain text) :
    Plain (spaced texts) := by
  unfold spaced
  induction texts with
  | nil => decide
  | cons text texts ih =>
    obtain ⟨htext, htexts⟩ := List.forall_mem_cons.1 h
    cases texts with
    | nil =>
      rw [String.intercalate_singleton]
      exact htext
    | cons next texts =>
      rw [String.intercalate_cons_cons, plain_append, plain_append]
      exact ⟨⟨htext, by decide⟩, ih htexts⟩

@[simp] theorem plain_className (role : Role) : Plain role.className := by
  cases role <;> decide

@[simp] theorem plain_discClass (role : Role) : Plain (discClass role) := by
  cases role <;> decide

/-- Numbers are written with digits, a point and a sign, or as words. -/
theorem plain_fixed (places : Nat) (x : Float) : Plain (Decimal.fixed places x) := by
  have hdigits : ∀ n, '<' ∉ Nat.toDigits 10 n := by
    intro n hmem
    have hdigit := Nat.isDigit_of_mem_toDigits (by decide) (by decide) hmem
    revert hdigit
    decide
  have hpointed : ∀ n, '<' ∉ Decimal.pointed places n := by
    intro n
    simp [Decimal.pointed, Decimal.padded, hdigits]
  unfold Decimal.fixed
  split
  · decide
  · split <;> decide
  · split
    · simp [Plain, hpointed]
    · simp [Plain, hpointed]

@[simp] theorem plain_coordinate (x : Float) : Plain (coordinate x) := plain_fixed 2 x

@[simp] theorem plain_size (x : Float) : Plain (size x) := plain_fixed 1 x

@[simp] theorem plain_curvePath (q : Quadratic Float) : Plain (curvePath q) :=
  plain_spaced (by simp +decide)

/-! ## Tags -/

end Svg

end LambdaDiagram
