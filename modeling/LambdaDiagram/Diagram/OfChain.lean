import LambdaDiagram.Diagram.Growth
import LambdaDiagram.Diagram.Scope
import LambdaDiagram.Term.Basic

/-!
The graph of a term. The first term of a chain must be a group; it becomes the root. The terms
after it are its arguments: each binder of the root takes one, which its input hosts, and the
arguments left over are applied to what the body of the root comes to.
-/

namespace LambdaDiagram

/-- Why a chain cannot be drawn. -/
inductive InvalidTree where
  /-- The first term is a variable. -/
  | childlessRoot (name : Char)
deriving DecidableEq, Repr

/-- The report of a chain that cannot be drawn. -/
def InvalidTree.message : InvalidTree → String
  | childlessRoot c =>
    s!"Root term `{c}` has no body to draw, expected a parenthesised group"

namespace Graph

variable {S : Type} [Scalar S]

/-- Give a group one input for each binder. -/
def addBinders (g : Graph S) (home : GroupId) : List Char → Graph S
  | [] => g
  | c :: cs => (g.addInput home c).1.addBinders home cs

mutual

/-- The value of a term inside a group: the input that a variable refers to, or the output of a
new sub-group. -/
def operand (g : Graph S) (home : GroupId) : Term → Graph S × Option Source
  | .var c => (g, (g.lookup home c).map .input)
  | .group binders body =>
    let (g, sub) := g.addSubgroup home
    let (g, result) := (g.addBinders sub binders).chainValue sub body
    (g.feed sub result, some (.output sub))

/-- The value of a chain inside a group: its first term applied to the others. -/
def chainValue (g : Graph S) (home : GroupId) : Chain → Graph S × Option Source
  | .last t => g.operand home t
  | .cons t rest =>
    let (g, value) := g.operand home t
    g.applyChain home value rest

/-- A value applied to the terms of a chain, one after the other. -/
def applyChain (g : Graph S) (home : GroupId) (function : Option Source) :
    Chain → Graph S × Option Source
  | .last t =>
    let (g, argument) := g.operand home t
    let (g, merge) := g.addMerge home function argument
    (g, some (.merge merge))
  | .cons t rest =>
    let (g, argument) := g.operand home t
    let (g, merge) := g.addMerge home function argument
    g.applyChain home (some (.merge merge)) rest

end

/-- A value applied to some terms, one after the other. -/
def applyTerms (g : Graph S) (home : GroupId) (function : Option Source) :
    List Term → Graph S × Option Source
  | [] => (g, function)
  | t :: ts =>
    let (g, argument) := g.operand home t
    let (g, merge) := g.addMerge home function argument
    g.applyTerms home (some (.merge merge)) ts

/-- Fill a group with a term: the inputs and the body of a group, or the value of a variable. -/
def fillGroup (g : Graph S) (home : GroupId) : Term → Graph S
  | .var c =>
    let (g, value) := g.operand home (.var c)
    g.feed home value
  | .group binders body =>
    let (g, result) := (g.addBinders home binders).chainValue home body
    g.feed home result

/-- Give a group one input for each binder, the first ones hosting the arguments in order. The
arguments that no binder takes are left over. -/
def bindArguments (g : Graph S) (home : GroupId) : List Char → List Term → Graph S × List Term
  | [], arguments => (g, arguments)
  | c :: cs, [] => (g.addInput home c).1.bindArguments home cs []
  | c :: cs, t :: ts =>
    let (g, input) := g.addInput home c
    let (g, hosted) := g.addGroup (g.group home).parent
    ((g.fillGroup hosted t).host input hosted).bindArguments home cs ts

/-- The graph of a chain. -/
def ofChain? (ts : Chain) : Except InvalidTree (Graph S) :=
  match ts.head with
  | .var c => .error (.childlessRoot c)
  | .group binders body =>
    let (g, surplus) := empty.bindArguments root binders ts.tail
    let (g, value) := g.chainValue root body
    let (g, result) := g.applyTerms root value surplus
    .ok (g.feed root result)

end Graph

end LambdaDiagram
