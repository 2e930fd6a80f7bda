import LambdaDiagram.Term.Basic

/-!
The written form of terms. One space separates the terms of a chain, and each group keeps its own
parentheses, so that the structure can be read off the text again.
-/

namespace LambdaDiagram

/-- What opens a group: the parenthesis and, if it binds anything, its binders between a backslash
and a dot. -/
def openGroup (binders : List Char) : List Char :=
  if binders.isEmpty then ['('] else '(' :: '\\' :: (binders ++ ['.'])

mutual

/-- The written form of a term. -/
def Term.toChars : Term → List Char
  | .var c => [c]
  | .group bs body => openGroup bs ++ body.toChars ++ [')']

/-- The written form of a chain. -/
def Chain.toChars : Chain → List Char
  | .last t => t.toChars
  | .cons t rest => t.toChars ++ ' ' :: rest.toChars

end

instance : ToString Term := ⟨fun t => String.ofList t.toChars⟩

instance : ToString Chain := ⟨fun ts => String.ofList ts.toChars⟩

end LambdaDiagram
