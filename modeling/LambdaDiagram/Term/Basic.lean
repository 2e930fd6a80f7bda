/-!
Lambda terms as they are drawn. A term is a variable or a group in parentheses; a chain is one or
more terms side by side, the first applied to the others from left to right. The chain of a group
is never empty, so neither is a term.
-/

namespace LambdaDiagram

mutual

/-- A term: a variable, or a group that binds its binders in its body. -/
inductive Term where
  | var (name : Char)
  | group (binders : List Char) (body : Chain)

/-- One or more terms side by side. -/
inductive Chain where
  | last (term : Term)
  | cons (term : Term) (rest : Chain)

end

deriving instance DecidableEq for Term, Chain
deriving instance Repr for Term, Chain

instance : Inhabited Term := ⟨.var 'x'⟩

instance : Inhabited Chain := ⟨.last default⟩

namespace Chain

/-- The terms of a chain in order. -/
def toList : Chain → List Term
  | last t => [t]
  | cons t rest => t :: rest.toList

/-- The chain of a first term and those after it. -/
def ofTerms (t : Term) : List Term → Chain
  | [] => last t
  | u :: us => cons t (ofTerms u us)

/-- The chain of some terms, unless there are none. -/
def ofList? : List Term → Option Chain
  | [] => none
  | t :: ts => some (ofTerms t ts)

/-- The first term of a chain. -/
def head : Chain → Term
  | last t => t
  | cons t _ => t

/-- The terms after the first. -/
def tail : Chain → List Term
  | last _ => []
  | cons _ rest => rest.toList

/-- How many terms stand side by side. -/
def length : Chain → Nat
  | last _ => 1
  | cons _ rest => rest.length + 1

@[simp] theorem toList_ofTerms (t : Term) (ts : List Term) : (ofTerms t ts).toList = t :: ts := by
  induction ts generalizing t with
  | nil => rfl
  | cons u us ih => simp [ofTerms, toList, ih]

theorem toList_eq_head_tail (ts : Chain) : ts.toList = ts.head :: ts.tail := by
  cases ts <;> rfl

@[simp] theorem length_toList (ts : Chain) : ts.toList.length = ts.length := by
  induction ts using toList.induct with
  | case1 t => rfl
  | case2 t rest ih => simp [toList, length, ih]

end Chain

namespace Term

/-- The binders of a group; a variable binds nothing. -/
def binders : Term → List Char
  | var _ => []
  | group bs _ => bs

/-- The body of a group. -/
def body? : Term → Option Chain
  | var _ => none
  | group _ body => some body

/-- The name by which a term can be called: a variable's own, or a group's first binder. -/
def identifier? : Term → Option Char
  | var c => some c
  | group bs _ => bs.head?

/-- A group that binds something is an abstraction. -/
def isAbstraction (t : Term) : Bool := !t.binders.isEmpty

end Term

mutual

/-- How many terms a term consists of, itself included. -/
def Term.size : Term → Nat
  | .var _ => 1
  | .group _ body => 1 + body.size

/-- How many terms a chain consists of, those in nested bodies included. -/
def Chain.size : Chain → Nat
  | .last t => t.size
  | .cons t rest => t.size + rest.size

end

end LambdaDiagram
