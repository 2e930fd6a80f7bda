import LambdaDiagram.Proofs.Construction

/-!
Where a name is looked up. When parents are older than their children, the parents of a group come
to an end, and a name refers to the right-most input of that name in the first of them that has one.
A group without inputs may be left out of the parents without a name's coming to refer to anything
else.
-/

namespace LambdaDiagram

variable {S : Type} [Scalar S]

namespace Graph

/-- The groups in whose inputs a name is looked up, from the nearest: a group, its parent and so on,
up to a group that has no parent. -/
inductive ScopeChain (g : Graph S) : GroupId → List GroupId → Prop where
  | outermost {x : GroupId} (h : (g.group x).parent = none) : ScopeChain g x [x]
  | inner {x p : GroupId} {xs : List GroupId} (h : (g.group x).parent = some p)
      (hp : ScopeChain g p xs) : ScopeChain g x (x :: xs)

/-- A group has no input of a name. -/
def Lacks (g : Graph S) (c : Char) (x : GroupId) : Prop :=
  ∀ i ∈ (g.group x).inputs, (g.input i).identifier ≠ c

/-- An input is the right-most one of a name in a group. -/
def IsLast (g : Graph S) (c : Char) (x : GroupId) (i : InputId) : Prop :=
  ∃ before after, (g.group x).inputs = before ++ i :: after ∧ (g.input i).identifier = c ∧
    ∀ j ∈ after, (g.input j).identifier ≠ c

/-- The right-most input of a name in a group, if there is one. -/
def binder (g : Graph S) (x : GroupId) (c : Char) : Option InputId :=
  g.lastNamed c (g.group x).inputs

variable {g g' : Graph S} {x p : GroupId} {c : Char} {i : InputId} {xs : List GroupId}

/-! ## One group -/

theorem binder_eq_none_iff : g.binder x c = none ↔ g.Lacks c x := by
  unfold binder lastNamed Lacks
  simp only [List.find?_eq_none, List.mem_reverse, decide_eq_true_eq, ne_eq]

theorem binder_eq_some_iff : g.binder x c = some i ↔ g.IsLast c x i := by
  unfold binder lastNamed IsLast
  rw [List.find?_eq_some_iff_append]
  constructor
  · rintro ⟨hi, after, before, hids, hafter⟩
    refine ⟨before.reverse, after.reverse, ?_, by simpa using hi, ?_⟩
    · rw [← List.reverse_reverse (g.group x).inputs, hids]
      simp
    · intro j hj
      simpa using hafter j (List.mem_reverse.1 hj)
  · rintro ⟨before, after, hids, hi, hafter⟩
    refine ⟨by simpa using hi, after.reverse, before.reverse, by simp [hids], ?_⟩
    intro j hj
    simpa using hafter j (List.mem_reverse.1 hj)

theorem binder_eq_none_of_inputs (hx : (g.group x).inputs = []) : g.binder x c = none := by
  unfold binder
  rw [hx]
  rfl

/-- Groups with the same inputs of the same names bind alike. -/
theorem binder_congr (hinputs : (g'.group x).inputs = (g.group x).inputs)
    (hlabel : g'.label = g.label) : g'.binder x c = g.binder x c := by
  have hname : ∀ j, (g'.input j).identifier = (g.input j).identifier := fun j =>
    congrArg Label.identifier (congrFun hlabel j)
  unfold binder lastNamed
  simp only [hinputs, hname]

/-! ## The parents of a group -/

theorem lookup_of_outermost (hx : (g.group x).parent = none) (c : Char) :
    g.lookup x c = g.binder x c := by
  rw [lookup, binder, hx]
  cases g.lastNamed c (g.group x).inputs <;> rfl

namespace ParentsOlder

variable (h : g.ParentsOlder)

include h

theorem lookup_of_parent (hx : (g.group x).parent = some p) (c : Char) :
    g.lookup x c = (g.binder x c).or (g.lookup p c) := by
  rw [lookup, binder, hx]
  cases g.lastNamed c (g.group x).inputs with
  | some found => rfl
  | none =>
    dsimp only
    rw [if_pos (h x p hx)]
    rfl

/-- Going from a group to its parent again and again comes to an end. -/
theorem exists_scopeChain (x : GroupId) : ∃ xs, g.ScopeChain x xs := by
  obtain ⟨n⟩ := x
  induction n using Nat.strongRecOn with
  | _ n ih =>
    cases hx : (g.group ⟨n⟩).parent with
    | none => exact ⟨[⟨n⟩], .outermost hx⟩
    | some p =>
      obtain ⟨xs, hp⟩ := ih p.index (h ⟨n⟩ p hx)
      exact ⟨⟨n⟩ :: xs, .inner hx hp⟩

/-- A name is looked up in each group in turn. -/
theorem lookup_eq (hx : g.ScopeChain x xs) (c : Char) :
    g.lookup x c = xs.findSome? fun y => g.binder y c := by
  induction hx with
  | outermost hx =>
    rw [lookup_of_outermost hx, List.findSome?_cons, List.findSome?_nil]
    split <;> simp_all
  | inner hx _ ih =>
    rw [h.lookup_of_parent hx, ih, List.findSome?_cons]
    cases g.binder _ c <;> rfl

/-- A name refers to the right-most input of that name in the nearest group that has one. -/
theorem lookup_eq_some_iff (hx : g.ScopeChain x xs) : g.lookup x c = some i ↔
    ∃ nearer y farther, xs = nearer ++ y :: farther ∧ (∀ z ∈ nearer, g.Lacks c z) ∧
      g.IsLast c y i := by
  rw [h.lookup_eq hx, List.findSome?_eq_some_iff]
  constructor
  · rintro ⟨nearer, y, farther, hxs, hy, hnearer⟩
    exact ⟨nearer, y, farther, hxs, fun z hz => binder_eq_none_iff.1 (hnearer z hz),
      binder_eq_some_iff.1 hy⟩
  · rintro ⟨nearer, y, farther, hxs, hnearer, hy⟩
    exact ⟨nearer, y, farther, hxs, binder_eq_some_iff.2 hy,
      fun z hz => binder_eq_none_iff.2 (hnearer z hz)⟩

/-- A name refers to nothing just when no group has an input of that name. -/
theorem lookup_eq_none_iff (hx : g.ScopeChain x xs) :
    g.lookup x c = none ↔ ∀ y ∈ xs, g.Lacks c y := by
  rw [h.lookup_eq hx, List.findSome?_eq_none_iff]
  simp only [binder_eq_none_iff]

/-- A name goes on to refer to the same when some groups get the parent of their parent instead of
one that has no inputs. -/
theorem lookup_eq_of_skip (h' : g'.ParentsOlder) (hbinder : ∀ x c, g'.binder x c = g.binder x c)
    (hparent : ∀ x, (g'.group x).parent = (g.group x).parent ∨
      ∃ s p, (g.group x).parent = some s ∧ (g.group s).inputs = [] ∧
        (g.group s).parent = some p ∧ (g'.group x).parent = some p)
    (x : GroupId) (c : Char) : g'.lookup x c = g.lookup x c := by
  obtain ⟨n⟩ := x
  induction n using Nat.strongRecOn with
  | _ n ih =>
    rcases hparent ⟨n⟩ with hsame | ⟨s, p, hs, hempty, hp, hnew⟩
    · cases hx : (g.group ⟨n⟩).parent with
      | none => rw [lookup_of_outermost hx, lookup_of_outermost (hsame.trans hx), hbinder]
      | some p =>
        rw [h.lookup_of_parent hx, h'.lookup_of_parent (hsame.trans hx), hbinder,
          ih p.index (h ⟨n⟩ p hx)]
    · have hlt : p.index < n := Nat.lt_trans (h s p hp) (h ⟨n⟩ s hs)
      have hthrough : g.lookup s c = g.lookup p c := by
        rw [h.lookup_of_parent hp, binder_eq_none_of_inputs hempty, Option.none_or]
      rw [h'.lookup_of_parent hnew, h.lookup_of_parent hs, hthrough, hbinder, ih p.index hlt]

end ParentsOlder

end Graph

end LambdaDiagram
