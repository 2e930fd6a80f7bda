import LambdaDiagram.Diagram.Scope
import LambdaDiagram.Proofs.Reading
import LambdaDiagram.Term.Basic

/-!
Terms without names. A variable says which binder it refers to: the right-most one of its name in
the nearest abstraction around that has one. A written term and a reading become nameless terms
independently of each other, the one by the characters of its binders and the other by its inputs,
so that a term and what is drawn for it can be compared.
-/

namespace LambdaDiagram

/-- A term whose variables are bound by how many abstractions lie between them and their binder,
and by the number of that binder among those of its abstraction. -/
inductive Nameless where
  | hole
  | bound (depth position : Nat)
  | app (function argument : Nameless)
  | abs (binders : List Char) (body : Nameless)
deriving DecidableEq, Repr

/-- Where something is found in the nearest of some scopes that has it. -/
def nearest {α : Type} (find : α → Option Nat) : List α → Option (Nat × Nat)
  | [] => none
  | scope :: scopes =>
    match find scope with
    | some position => some (0, position)
    | none => (nearest find scopes).map fun (depth, position) => (depth + 1, position)

/-- Where a name stands last. -/
def lastPosition (name : Char) : List Char → Option Nat
  | [] => none
  | b :: bs =>
    match lastPosition name bs with
    | some position => some (position + 1)
    | none => if b = name then some 0 else none

/-- The variable of a name; a free one is a hole. -/
def Nameless.ofName (scopes : List (List Char)) (name : Char) : Nameless :=
  match nearest (lastPosition name) scopes with
  | none => hole
  | some (depth, position) => bound depth position

mutual

/-- A term without names, given the binders of the groups around it from the inside out. -/
def Term.nameless (scopes : List (List Char)) : Term → Nameless
  | .var c => .ofName scopes c
  | .group bs body => .abs bs (body.nameless (bs :: scopes))

/-- A chain without names: its first term applied to the others. -/
def Chain.nameless (scopes : List (List Char)) : Chain → Nameless
  | .last t => t.nameless scopes
  | .cons t rest => rest.applied scopes (t.nameless scopes)

/-- A nameless term applied to the terms of a chain, one after the other. -/
def Chain.applied (scopes : List (List Char)) (function : Nameless) : Chain → Nameless
  | .last t => .app function (t.nameless scopes)
  | .cons t rest => rest.applied scopes (.app function (t.nameless scopes))

end

theorem Chain.applied_eq_foldl (scopes : List (List Char)) (function : Nameless) (ts : Chain) :
    ts.applied scopes function =
      (ts.toList.map (Term.nameless scopes)).foldl .app function := by
  induction ts using Chain.toList.induct generalizing function with
  | case1 t => simp [Chain.applied, Chain.toList]
  | case2 t rest ih => simp [Chain.applied, Chain.toList, ih]

/-- A chain is its first term applied to the others from left to right. -/
theorem Chain.nameless_eq_foldl (scopes : List (List Char)) (ts : Chain) :
    ts.nameless scopes =
      (ts.tail.map (Term.nameless scopes)).foldl .app (ts.head.nameless scopes) := by
  cases ts with
  | last t => simp [Chain.nameless, Chain.head, Chain.tail]
  | cons t rest => simp [Chain.nameless, Chain.head, Chain.tail, Chain.applied_eq_foldl]

/-! ## Free variables -/

mutual

/-- A name occurs free in a term. -/
def Term.hasFree (name : Char) : Term → Bool
  | .var c => c = name
  | .group bs body => !bs.contains name && body.hasFree name

/-- A name occurs free in a chain. -/
def Chain.hasFree (name : Char) : Chain → Bool
  | .last t => t.hasFree name
  | .cons t rest => t.hasFree name || rest.hasFree name

end

theorem lastPosition_eq_none_iff {name : Char} {bs : List Char} :
    lastPosition name bs = none ↔ name ∉ bs := by
  induction bs with
  | nil => simp [lastPosition]
  | cons b bs ih =>
    cases hl : lastPosition name bs with
    | none =>
      rw [hl] at ih
      have hn : name ∉ bs := ih.1 rfl
      by_cases hb : b = name
      · simp [lastPosition, hl, hb]
      · simp [lastPosition, hl, hb, hn, Ne.symm hb]
    | some position =>
      rw [hl] at ih
      have hm : name ∈ bs := by simpa using ih
      simp [lastPosition, hl, hm]

theorem nearest_append_eq {α : Type} {find : α → Option Nat} {outer : α} {scopes : List α}
    (h : (find outer).isSome → ∃ scope ∈ scopes, (find scope).isSome) :
    nearest find (scopes ++ [outer]) = nearest find scopes := by
  induction scopes with
  | nil =>
    have hn : find outer = none := by simpa using h
    simp [nearest, hn]
  | cons scope scopes ih =>
    rw [List.cons_append, nearest, nearest]
    split
    · rfl
    · rename_i hs
      rw [ih fun ho => by simpa [hs] using h ho]

theorem nearest_isSome {α : Type} {find : α → Option Nat} {scopes : List α} {at_ : Nat × Nat}
    (h : nearest find scopes = some at_) : ∃ scope ∈ scopes, (find scope).isSome := by
  induction scopes generalizing at_ with
  | nil => cases h
  | cons scope scopes ih =>
    rw [nearest] at h
    cases hs : find scope with
    | some position => exact ⟨scope, List.mem_cons_self, by simp [hs]⟩
    | none =>
      rw [hs] at h
      obtain ⟨at', ha, -⟩ := Option.map_eq_some_iff.1 h
      obtain ⟨scope', hm, hs'⟩ := ih ha
      exact ⟨scope', List.mem_cons_of_mem scope hm, hs'⟩

/-- Something is found in the outermost scope when that has it and no other does. -/
theorem nearest_outermost_iff {α : Type} (find : α → Option Nat) (inner : List α) (outer : α) :
    (∃ position, nearest find (inner ++ [outer]) = some (inner.length, position)) ↔
      (∀ scope ∈ inner, find scope = none) ∧ (find outer).isSome := by
  induction inner with
  | nil => cases h : find outer <;> simp [nearest, h]
  | cons scope inner ih =>
    cases hs : find scope with
    | some position => simp [nearest, hs]
    | none =>
      rw [List.cons_append, nearest, hs, List.forall_mem_cons, ← and_assoc.symm, ← ih]
      cases nearest find (inner ++ [outer]) with
      | none => simp
      | some at_ => simp [Prod.ext_iff, hs]

mutual

/-- An outermost scope does not matter to a term in which none of its binders occurs free. -/
theorem Term.nameless_append {outer : List Char} : (t : Term) → {scopes : List (List Char)} →
    (∀ c ∈ outer, t.hasFree c → ∃ scope ∈ scopes, c ∈ scope) →
    t.nameless (scopes ++ [outer]) = t.nameless scopes
  | .var c, scopes, h => by
    rw [Term.nameless, Term.nameless, Nameless.ofName, Nameless.ofName, nearest_append_eq]
    simp only [Option.isSome_iff_ne_none, ne_eq, lastPosition_eq_none_iff, Decidable.not_not]
    exact fun hc => h c hc (by simp [Term.hasFree])
  | .group bs body, scopes, h => by
    rw [Term.nameless, Term.nameless, ← List.cons_append, body.nameless_append]
    intro c hc hf
    by_cases hb : c ∈ bs
    · exact ⟨bs, List.mem_cons_self, hb⟩
    · obtain ⟨scope, hs, hm⟩ := h c hc (by simp [Term.hasFree, hb, hf])
      exact ⟨scope, List.mem_cons_of_mem bs hs, hm⟩

theorem Chain.nameless_append {outer : List Char} : (ts : Chain) → {scopes : List (List Char)} →
    (∀ c ∈ outer, ts.hasFree c → ∃ scope ∈ scopes, c ∈ scope) →
    ts.nameless (scopes ++ [outer]) = ts.nameless scopes
  | .last t, scopes, h => t.nameless_append h
  | .cons t rest, scopes, h => by
    rw [Chain.nameless, Chain.nameless,
      t.nameless_append fun c hc hf => h c hc (by simp [Chain.hasFree, hf]),
      rest.applied_append fun c hc hf => h c hc (by simp [Chain.hasFree, hf])]

theorem Chain.applied_append {outer : List Char} : (ts : Chain) → {scopes : List (List Char)} →
    (∀ c ∈ outer, ts.hasFree c → ∃ scope ∈ scopes, c ∈ scope) → {function : Nameless} →
    ts.applied (scopes ++ [outer]) function = ts.applied scopes function
  | .last t, scopes, h, function => by
    rw [Chain.applied, Chain.applied, t.nameless_append h]
  | .cons t rest, scopes, h, function => by
    rw [Chain.applied, Chain.applied,
      t.nameless_append fun c hc hf => h c hc (by simp [Chain.hasFree, hf]),
      rest.applied_append fun c hc hf => h c hc (by simp [Chain.hasFree, hf])]

end

/-! ## Readings without names -/

/-- A reading without names, given the inputs of the groups around it from the inside out. There is
none when a variable lies outside the groups that bind it, or is bound twice. -/
def Reading.nameless? : List (List InputId) → Reading → Option Nameless
  | _, .hole => some .hole
  | scopes, .var id =>
    (nearest (List.idxOf? id) scopes).map fun (depth, position) => .bound depth position
  | scopes, .app _ f a =>
    match f.nameless? scopes, a.nameless? scopes with
    | some f, some a => some (.app f a)
    | _, _ => none
  | scopes, .abs _ bs b =>
    if (bs.map Prod.fst :: scopes).flatten.Nodup then
      (b.nameless? (bs.map Prod.fst :: scopes)).map (.abs (bs.map Prod.snd))
    else none

theorem Reading.nameless?_app_eq_some {id : MergeId} {f a : Reading} {n : Nameless}
    {scopes : List (List InputId)} :
    (app id f a).nameless? scopes = some n ↔
      ∃ m k, f.nameless? scopes = some m ∧ a.nameless? scopes = some k ∧ n = .app m k := by
  rw [nameless?]
  cases f.nameless? scopes <;> cases a.nameless? scopes <;> simp [eq_comm]

theorem Reading.nameless?_abs_eq_some {id : GroupId} {bs : List (InputId × Char)} {b : Reading}
    {n : Nameless} {scopes : List (List InputId)} :
    (abs id bs b).nameless? scopes = some n ↔
      (bs.map Prod.fst :: scopes).flatten.Nodup ∧
        ∃ m, b.nameless? (bs.map Prod.fst :: scopes) = some m ∧
          n = .abs (bs.map Prod.snd) m := by
  rw [nameless?]
  split
  · rename_i hn
    rw [Option.map_eq_some_iff]
    constructor
    · rintro ⟨m, hm, rfl⟩
      exact ⟨hn, m, hm, rfl⟩
    · rintro ⟨-, m, hm, rfl⟩
      exact ⟨m, hm, rfl⟩
  · rename_i hn
    exact ⟨nofun, fun h => absurd h.1 hn⟩

variable {S : Type} [Scalar S]

namespace Graph

/-- `g.Scopes home scopes`: the inputs, with their names, of a group and of the groups around it,
from the inside out. -/
inductive Scopes (g : Graph S) : GroupId → List (List (InputId × Char)) → Prop
  | outermost {id : GroupId} (hp : (g.group id).parent = none) : Scopes g id [g.binders id]
  | inside {id p : GroupId} {scopes : List (List (InputId × Char))}
      (hp : (g.group id).parent = some p) (hlt : p.index < id.index) (h : Scopes g p scopes) :
      Scopes g id (g.binders id :: scopes)

variable {g g' : Graph S} {home : GroupId} {scopes : List (List (InputId × Char))}

/-- Scopes stay when no group around changes its inputs, its parent or the names of its inputs. -/
theorem Scopes.congr (h : g.Scopes home scopes)
    (hparent : ∀ x, x.index ≤ home.index → (g'.group x).parent = (g.group x).parent)
    (hbinders : ∀ x, x.index ≤ home.index → g'.binders x = g.binders x) :
    g'.Scopes home scopes := by
  induction h with
  | @outermost id hp =>
    rw [← hbinders id (Nat.le_refl _)]
    exact .outermost ((hparent id (Nat.le_refl _)).trans hp)
  | @inside id p scopes hp hlt h ih =>
    rw [← hbinders id (Nat.le_refl _)]
    refine .inside ((hparent id (Nat.le_refl _)).trans hp) hlt (ih ?_ ?_)
    · exact fun x hx => hparent x (Nat.le_trans hx (Nat.le_of_lt hlt))
    · exact fun x hx => hbinders x (Nat.le_trans hx (Nat.le_of_lt hlt))

/-- The last of some inputs with a name stands where the name stands last. -/
theorem lastNamed_eq (g : Graph S) (name : Char) (ids : List InputId) :
    match g.lastNamed name ids with
    | none => lastPosition name (ids.map fun i => (g.input i).identifier) = none
    | some i => ∃ k, lastPosition name (ids.map fun i => (g.input i).identifier) = some k ∧
        ids[k]? = some i := by
  induction ids with
  | nil => rfl
  | cons i ids ih =>
    have hcons : g.lastNamed name (i :: ids) =
        (g.lastNamed name ids).or (if (g.input i).identifier = name then some i else none) := by
      simp [lastNamed, List.find?_append, List.find?_singleton]
    rw [hcons]
    cases hl : g.lastNamed name ids with
    | none =>
      rw [hl] at ih
      by_cases h : (g.input i).identifier = name
      · simp [h, lastPosition, ih]
      · simp [h, lastPosition, ih]
    | some j =>
      rw [hl] at ih
      obtain ⟨k, hk, hj⟩ := ih
      exact ⟨k + 1, by simp [lastPosition, hk], by simpa using hj⟩

@[simp] theorem map_fst_binders (g : Graph S) (id : GroupId) :
    (g.binders id).map Prod.fst = (g.group id).inputs := by
  simp [binders, Function.comp_def]

@[simp] theorem map_snd_binders (g : Graph S) (id : GroupId) :
    (g.binders id).map Prod.snd = (g.group id).inputs.map fun i => (g.input i).identifier := by
  simp [binders, Function.comp_def]

theorem idxOf?_of_nodup {α : Type} [DecidableEq α] {l : List α} (hl : l.Nodup) {a : α} {k : Nat}
    (h : l[k]? = some a) : l.idxOf? a = some k := by
  obtain ⟨hk, rfl⟩ := List.getElem?_eq_some_iff.1 h
  rw [List.idxOf?_eq_some_iff]
  refine ⟨hk, rfl, fun j hj he => ?_⟩
  exact Nat.ne_of_lt hj ((List.getElem_inj hl).1 he)

/-- A name refers to the input of the binder that the nameless variable is bound by. -/
theorem Scopes.lookup_eq (h : g.Scopes home scopes)
    (hn : (scopes.map (List.map Prod.fst)).flatten.Nodup) (name : Char) :
    match g.lookup home name with
    | none => nearest (lastPosition name) (scopes.map (List.map Prod.snd)) = none
    | some i => i ∈ (scopes.map (List.map Prod.fst)).flatten ∧
        ∃ at_, nearest (lastPosition name) (scopes.map (List.map Prod.snd)) = some at_ ∧
          nearest (List.idxOf? i) (scopes.map (List.map Prod.fst)) = some at_ := by
  induction h with
  | @outermost id hp =>
    have hl := g.lastNamed_eq name (g.group id).inputs
    rw [lookup]
    cases hf : g.lastNamed name (g.group id).inputs with
    | none =>
      rw [hf] at hl
      simp only [hp, List.map_cons, map_snd_binders, nearest, hl]
      rfl
    | some i =>
      rw [hf] at hl
      obtain ⟨k, hk, hi⟩ := hl
      simp only [List.map_cons, List.map_nil, map_fst_binders, List.flatten_cons,
        List.flatten_nil, List.append_nil] at hn ⊢
      exact ⟨List.mem_of_getElem? hi, (0, k), by simp [nearest, hk],
        by simp [nearest, idxOf?_of_nodup hn hi]⟩
  | @inside id p scopes hp hlt h ih =>
    have hl := g.lastNamed_eq name (g.group id).inputs
    simp only [List.map_cons, map_fst_binders, List.flatten_cons] at hn ⊢
    obtain ⟨hn₁, hn₂, hd⟩ := List.nodup_append.1 hn
    rw [lookup]
    cases hf : g.lastNamed name (g.group id).inputs with
    | none =>
      rw [hf] at hl
      simp only [hp, hlt, if_true, map_snd_binders, nearest, hl]
      have ih := ih hn₂
      cases hp : g.lookup p name with
      | none =>
        rw [hp] at ih
        simp [ih]
      | some i =>
        rw [hp] at ih
        obtain ⟨hm, ⟨d, k⟩, hd', hk⟩ := ih
        have hno : List.idxOf? i (g.group id).inputs = none := by
          rw [List.idxOf?_eq_none_iff]
          exact fun hi => hd i hi i hm rfl
        exact ⟨List.mem_append_right _ hm, (d + 1, k), by simp [hd'], by simp [hno, hk]⟩
    | some i =>
      rw [hf] at hl
      obtain ⟨k, hk, hi⟩ := hl
      exact ⟨List.mem_append_left _ (List.mem_of_getElem? hi), (0, k), by simp [nearest, hk],
        by simp [nearest, idxOf?_of_nodup hn₁ hi]⟩

/-- What a name refers to in a group, as a reading. -/
def referent (g : Graph S) (home : GroupId) (name : Char) : Reading :=
  match g.lookup home name with
  | none => .hole
  | some i => .var i

/-- A name becomes the same nameless variable in the written term and in the reading. -/
theorem Scopes.nameless?_referent (h : g.Scopes home scopes)
    (hn : (scopes.map (List.map Prod.fst)).flatten.Nodup) (name : Char) :
    (g.referent home name).nameless? (scopes.map (List.map Prod.fst)) =
      some (.ofName (scopes.map (List.map Prod.snd)) name) := by
  have hl := h.lookup_eq hn name
  rw [referent, Nameless.ofName]
  cases hf : g.lookup home name with
  | none =>
    rw [hf] at hl
    simp [Reading.nameless?, hl]
  | some i =>
    rw [hf] at hl
    obtain ⟨-, ⟨d, k⟩, hd, hk⟩ := hl
    simp [Reading.nameless?, hd, hk]

end Graph

end LambdaDiagram
