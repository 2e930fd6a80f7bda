import LambdaDiagram.Proofs.Planting
import Mathlib.Algebra.GroupWithZero.Nat

/-!
How many nodes a graph has. A sum over the groups of a written term is a sum over the applications
and abstractions of that term without names, and so is how much a reading has of each kind of node.
The nodes of a forest are thereby counted off the chain that it was built from.
-/

namespace LambdaDiagram

mutual

/-- The sum of a weight over the groups of a term, those in nested bodies included. -/
def Term.sumGroups (weight : List Char → Chain → Nat) : Term → Nat
  | .var _ => 0
  | .group names body => weight names body + body.sumGroups weight

/-- The sum of a weight over the groups of a chain. -/
def Chain.sumGroups (weight : List Char → Chain → Nat) : Chain → Nat
  | .last t => t.sumGroups weight
  | .cons t rest => t.sumGroups weight + rest.sumGroups weight

end

theorem Chain.sumGroups_eq_sum (weight : List Char → Chain → Nat) (ts : Chain) :
    ts.sumGroups weight = (ts.toList.map (Term.sumGroups weight)).sum := by
  induction ts using Chain.toList.induct with
  | case1 t => simp [sumGroups, toList]
  | case2 t rest ih => simp [sumGroups, toList, ih]

/-- A price for each application, and one for each abstraction by its binders. -/
structure Prices where
  application : Nat
  abstraction : List Char → Nat

namespace Prices

/-- What a group costs: its abstraction, and the applications of its body to one another. -/
def group (p : Prices) (names : List Char) (body : Chain) : Nat :=
  p.abstraction names + (body.length - 1) * p.application

/-- The prices that count groups. -/
def groups : Prices := ⟨0, fun _ => 1⟩

/-- The prices that count inputs. -/
def inputs : Prices := ⟨0, List.length⟩

/-- The prices that count merges. -/
def merges : Prices := ⟨1, fun _ => 0⟩

theorem group_groups : groups.group = fun _ _ => 1 := by
  funext names body
  exact congrArg (1 + ·) (Nat.mul_zero _)

theorem group_inputs : inputs.group = fun names _ => names.length := by
  funext names body
  exact congrArg (names.length + ·) (Nat.mul_zero _)

theorem group_merges : merges.group = fun _ body => body.length - 1 := by
  funext names body
  rw [group, merges, Nat.mul_one, Nat.zero_add]

end Prices

/-- What a term without names costs. -/
def Nameless.cost (p : Prices) : Nameless → Nat
  | hole => 0
  | bound _ _ => 0
  | app f a => f.cost p + a.cost p + p.application
  | abs names b => p.abstraction names + b.cost p

variable {p : Prices}

theorem Nameless.cost_foldl (f : Nameless) (l : List Nameless) :
    (l.foldl app f).cost p = f.cost p + (l.map (cost p)).sum + l.length * p.application := by
  induction l generalizing f with
  | nil => simp
  | cons a l ih =>
    rw [List.foldl_cons, ih, cost, List.map_cons, List.sum_cons, List.length_cons, Nat.succ_mul]
    omega

mutual

/-- A term costs what its groups cost. -/
theorem Term.cost_nameless : (t : Term) → (scopes : List (List Char)) →
    (t.nameless scopes).cost p = t.sumGroups p.group
  | .var c, scopes => by
    rw [Term.nameless, Nameless.ofName, Term.sumGroups]
    split <;> rfl
  | .group names body, scopes => by
    have hb := body.cost_nameless (names :: scopes)
    rw [Term.nameless, Nameless.cost, hb, Term.sumGroups, Prices.group]
    omega

/-- A chain costs what its groups cost, and one application less than it has terms. -/
theorem Chain.cost_nameless : (ts : Chain) → (scopes : List (List Char)) →
    (ts.nameless scopes).cost p = ts.sumGroups p.group + (ts.length - 1) * p.application
  | .last t, scopes => by
    rw [Chain.nameless, t.cost_nameless, Chain.sumGroups, Chain.length]
    omega
  | .cons t rest, scopes => by
    have hr := rest.cost_applied scopes (t.nameless scopes)
    rw [Chain.nameless, hr, t.cost_nameless, Chain.sumGroups, Chain.length]
    rfl

/-- The terms of a chain cost what their groups cost, and one application each. -/
theorem Chain.cost_applied : (ts : Chain) → (scopes : List (List Char)) → (f : Nameless) →
    (ts.applied scopes f).cost p = f.cost p + ts.sumGroups p.group + ts.length * p.application
  | .last t, scopes, f => by
    rw [Chain.applied, Nameless.cost, t.cost_nameless, Chain.sumGroups, Chain.length, Nat.one_mul]
  | .cons t rest, scopes, f => by
    rw [Chain.applied, rest.cost_applied, Nameless.cost, t.cost_nameless, Chain.sumGroups,
      Chain.length, Nat.succ_mul]
    omega

end

/-- A variable in a group of its own costs that group. -/
theorem Term.cost_grouped (t : Term) (scopes : List (List Char)) :
    (t.grouped.nameless scopes).cost p =
      t.sumGroups p.group + if t.body?.isNone then p.abstraction [] else 0 := by
  rw [Term.cost_nameless]
  cases t with
  | var c => simp [grouped, sumGroups, Chain.sumGroups, body?, Prices.group, Chain.length]
  | group names body => simp [grouped, body?]

/-! ## The nodes of a reading -/

/-- A list of nodes of a reading is counted by some prices: it has as many nodes as the reading
without names costs. -/
def CountedBy {α : Type} (nodes : Reading → List α) (p : Prices) : Prop :=
  ∀ (r : Reading) (scopes : List (List InputId)) (n : Nameless),
    r.nameless? scopes = some n → (nodes r).length = n.cost p

/-- A variable is a hole or bound, and costs nothing. -/
theorem Reading.cost_of_nameless?_var {id : InputId} {n : Nameless} {scopes : List (List InputId)}
    (h : (var id).nameless? scopes = some n) : n.cost p = 0 := by
  rw [nameless?, Option.map_eq_some_iff] at h
  obtain ⟨⟨d, k⟩, -, rfl⟩ := h
  rfl

/-- Nodes are counted by prices when each kind of reading adds as many as it costs. -/
theorem countedBy_of {α : Type} {nodes : Reading → List α} (hhole : nodes .hole = [])
    (hvar : ∀ id, nodes (.var id) = [])
    (happ : ∀ id f a, (nodes (.app id f a)).length =
      (nodes f).length + (nodes a).length + p.application)
    (habs : ∀ id bs b, (nodes (.abs id bs b)).length =
      p.abstraction (bs.map Prod.snd) + (nodes b).length) : CountedBy nodes p := by
  intro r
  induction r with
  | hole =>
    rintro scopes n ⟨⟩
    rw [hhole]
    rfl
  | var id =>
    intro scopes n h
    rw [hvar, Reading.cost_of_nameless?_var h]
    rfl
  | app id f a ihf iha =>
    intro scopes n h
    obtain ⟨m, k, hf, ha, rfl⟩ := Reading.nameless?_app_eq_some.1 h
    rw [happ, ihf scopes m hf, iha scopes k ha, Nameless.cost]
  | abs id bs b ih =>
    intro scopes n h
    obtain ⟨-, m, hb, rfl⟩ := Reading.nameless?_abs_eq_some.1 h
    rw [habs, ih _ m hb, Nameless.cost]

theorem countedBy_groups : CountedBy Reading.groups .groups := by
  refine countedBy_of rfl (fun _ => rfl) ?_ ?_
  · intro id f a
    exact List.length_append
  · intro id bs b
    exact Nat.add_comm ..

theorem countedBy_inputs : CountedBy Reading.inputs .inputs := by
  refine countedBy_of rfl (fun _ => rfl) ?_ ?_
  · intro id f a
    exact List.length_append
  · intro id bs b
    rw [Reading.inputs, List.length_append, List.length_map]
    exact congrArg (· + _) (List.length_map Prod.snd).symm

theorem countedBy_merges : CountedBy Reading.merges .merges := by
  refine countedBy_of rfl (fun _ => rfl) ?_ ?_
  · intro id f a
    rw [Reading.merges, List.length_append, List.length_append]
    rfl
  · intro id bs b
    exact (Nat.zero_add _).symm

/-! ## The nodes of a forest -/

/-- An inventory names as many nodes as there are. -/
theorem Inventory.length_eq {α : Type} {index : α → Nat} {l : List α} {size : Nat}
    (h : Inventory index l size) (hinj : ∀ a b, index a = index b → a = b)
    (hsurj : ∀ n, ∃ a, index a = n) : l.length = size := by
  have hn : (l.map index).Nodup :=
    List.Pairwise.map index (fun a b hne he => hne (hinj a b he)) h.1
  have hp : (l.map index).Perm (List.range size) := by
    refine (List.perm_ext_iff_of_nodup hn List.nodup_range).2 fun n => ?_
    rw [List.mem_map, List.mem_range]
    constructor
    · rintro ⟨a, ha, rfl⟩
      exact (h.2 a).1 ha
    · intro hlt
      obtain ⟨a, rfl⟩ := hsurj n
      exact ⟨a, (h.2 a).2 hlt, rfl⟩
  simpa using hp.length_eq

/-- Trees that read back as some terms, each in a group, have the nodes that these cost. -/
theorem CountedBy.sum_trees {α : Type} {nodes : Reading → List α} (h : CountedBy nodes p)
    {others : List Tree} {ts : List Term}
    (hreads : others.map (fun t => t.reading.nameless? []) =
      ts.map (fun t => some (t.grouped.nameless []))) :
    (others.flatMap fun t => nodes t.reading).length =
      (ts.map (Term.sumGroups p.group)).sum +
        ts.countP (fun t => t.body?.isNone) * p.abstraction [] := by
  induction others generalizing ts with
  | nil =>
    obtain rfl : ts = [] := by simpa using hreads.symm
    simp
  | cons tree others ih =>
    cases ts with
    | nil => simp at hreads
    | cons t ts =>
      simp only [List.map_cons, List.cons.injEq] at hreads
      have hlen := h _ _ _ hreads.1
      rw [Term.cost_grouped] at hlen
      rw [List.flatMap_cons, List.length_append, hlen, ih hreads.2, List.map_cons, List.sum_cons,
        List.countP_cons, Nat.add_mul]
      split <;> omega

/-- A forest has the nodes that the groups of its chain cost, a group more for each variable that
stands for a tree, and an application more for each term that is left over. -/
theorem CountedBy.length_forest {α : Type} {nodes : Reading → List α} (h : CountedBy nodes p)
    {names : List Char} {body : Chain} {rest : List Term} {first : Tree} {others : List Tree}
    (hfirst : first.reading.nameless? [] =
      some (.abs names (((rest.drop names.length).map (Term.nameless [names])).foldl .app
        (body.nameless [names]))))
    (hothers : others.map (fun t => t.reading.nameless? []) =
      (rest.take names.length).map (fun t => some (t.grouped.nameless []))) :
    ((first :: others).flatMap fun t => nodes t.reading).length =
      (Chain.ofTerms (.group names body) rest).sumGroups p.group +
        (rest.take names.length).countP (fun t => t.body?.isNone) * p.abstraction [] +
        (rest.drop names.length).length * p.application := by
  have hsurplus : ((rest.drop names.length).map (Term.nameless [names])).map (Nameless.cost p) =
      (rest.drop names.length).map (Term.sumGroups p.group) := by
    rw [List.map_map]
    exact List.map_congr_left fun t _ => t.cost_nameless [names]
  have hrest : (rest.map (Term.sumGroups p.group)).sum =
      ((rest.take names.length).map (Term.sumGroups p.group)).sum +
        ((rest.drop names.length).map (Term.sumGroups p.group)).sum := by
    rw [← List.sum_append, ← List.map_append, List.take_append_drop]
  have hchain : (Chain.ofTerms (.group names body) rest).sumGroups p.group =
      p.abstraction names + (body.length - 1) * p.application + body.sumGroups p.group +
        (rest.map (Term.sumGroups p.group)).sum := by
    rw [Chain.sumGroups_eq_sum, Chain.toList_ofTerms, List.map_cons, List.sum_cons,
      Term.sumGroups, Prices.group]
  rw [List.flatMap_cons, List.length_append, h _ _ _ hfirst, h.sum_trees hothers, Nameless.cost,
    Nameless.cost_foldl, Chain.cost_nameless, List.length_map, hsurplus, hchain, hrest]
  omega

end LambdaDiagram
