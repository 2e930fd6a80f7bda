import LambdaDiagram.Proofs.Flattening
import Mathlib.Data.List.Forall2

/-!
What the arguments of the root see of its binders. An argument that an input of the root hosts is
read back in no scope at all. An argument that is left over becomes part of the root's own body, so
that a binder of the root captures each free occurrence of its name there: the argument is out of
the root's scope just when there is no such occurrence.
-/

namespace LambdaDiagram

/-! ## References to the outermost scope -/

/-- A term without names refers to a binder of the abstraction that lies this far out. -/
def Nameless.Reaches (depth : Nat) : Nameless → Prop
  | hole => False
  | bound d _ => d = depth
  | app f a => f.Reaches depth ∨ a.Reaches depth
  | abs _ b => b.Reaches (depth + 1)

mutual

/-- A term refers to the outermost scope by the names of that scope that occur free in the term and
are not bound between. -/
theorem Term.reaches_nameless {outer : List Char} : (t : Term) → (inner : List (List Char)) →
    ((t.nameless (inner ++ [outer])).Reaches inner.length ↔
      ∃ c ∈ outer, t.hasFree c ∧ ∀ scope ∈ inner, c ∉ scope)
  | .var c, inner => by
    have hiff := nearest_outermost_iff (lastPosition c) inner outer
    simp only [lastPosition_eq_none_iff, Option.isSome_iff_ne_none, ne_eq, not_not] at hiff
    have hfree : (∃ d ∈ outer, (Term.var c).hasFree d ∧ ∀ scope ∈ inner, d ∉ scope) ↔
        (∀ scope ∈ inner, c ∉ scope) ∧ c ∈ outer := by
      simp only [Term.hasFree, decide_eq_true_eq]
      constructor
      · rintro ⟨d, hd, rfl, hs⟩
        exact ⟨hs, hd⟩
      · rintro ⟨hs, hc⟩
        exact ⟨c, hc, rfl, hs⟩
    rw [hfree, ← hiff, Term.nameless, Nameless.ofName]
    cases nearest (lastPosition c) (inner ++ [outer]) with
    | none => simp [Nameless.Reaches]
    | some at_ => simp [Nameless.Reaches, Prod.ext_iff]
  | .group bs body, inner => by
    have hb : (body.nameless (bs :: (inner ++ [outer]))).Reaches (inner.length + 1) ↔ _ :=
      body.reaches_nameless (bs :: inner)
    rw [Term.nameless, Nameless.Reaches, hb]
    simp only [Term.hasFree, List.forall_mem_cons, Bool.and_eq_true, Bool.not_eq_true',
      List.contains_eq_mem, decide_eq_false_iff_not]
    apply exists_congr
    intro c
    constructor
    · rintro ⟨hc, hf, hbs, hs⟩
      exact ⟨hc, ⟨hbs, hf⟩, hs⟩
    · rintro ⟨hc, ⟨hbs, hf⟩, hs⟩
      exact ⟨hc, hf, hbs, hs⟩

theorem Chain.reaches_nameless {outer : List Char} : (ts : Chain) → (inner : List (List Char)) →
    ((ts.nameless (inner ++ [outer])).Reaches inner.length ↔
      ∃ c ∈ outer, ts.hasFree c ∧ ∀ scope ∈ inner, c ∉ scope)
  | .last t, inner => by
    rw [Chain.nameless, t.reaches_nameless]
    simp only [Chain.hasFree]
  | .cons t rest, inner => by
    rw [Chain.nameless, rest.reaches_applied, t.reaches_nameless]
    simp only [Chain.hasFree, Bool.or_eq_true, or_and_right, and_or_left, exists_or]

theorem Chain.reaches_applied {outer : List Char} : (ts : Chain) → (inner : List (List Char)) →
    (f : Nameless) → ((ts.applied (inner ++ [outer]) f).Reaches inner.length ↔
      f.Reaches inner.length ∨ ∃ c ∈ outer, ts.hasFree c ∧ ∀ scope ∈ inner, c ∉ scope)
  | .last t, inner, f => by
    rw [Chain.applied, Nameless.Reaches, t.reaches_nameless]
    simp only [Chain.hasFree]
  | .cons t rest, inner, f => by
    rw [Chain.applied, rest.reaches_applied, Nameless.Reaches, t.reaches_nameless, or_assoc]
    simp only [Chain.hasFree, Bool.or_eq_true, or_and_right, and_or_left, exists_or]

end

/-! ## Variables of a reading -/

namespace Reading

/-- The inputs that the variables of a reading refer to, in order. -/
def uses : Reading → List InputId
  | hole => []
  | var id => [id]
  | app _ f a => f.uses ++ a.uses
  | abs _ _ b => b.uses

/-- Each variable of a reading is bound in a scope around it or by the reading itself. -/
theorem uses_subset {r : Reading} {scopes : List (List InputId)} {n : Nameless}
    (h : r.nameless? scopes = some n) : ∀ i ∈ r.uses, i ∈ scopes.flatten ∨ i ∈ r.inputs := by
  intro i hi
  induction r generalizing scopes n with
  | hole => cases hi
  | var id =>
    obtain rfl := List.mem_singleton.1 hi
    rw [nameless?, Option.map_eq_some_iff] at h
    obtain ⟨at_, ha, -⟩ := h
    obtain ⟨scope, hs, hm⟩ := nearest_isSome ha
    exact .inl (List.mem_flatten.2 ⟨scope, hs, List.isSome_idxOf?.1 hm⟩)
  | app id f a ihf iha =>
    obtain ⟨m, k, hf, ha, -⟩ := nameless?_app_eq_some.1 h
    rcases List.mem_append.1 hi with hi | hi
    · exact (ihf hf hi).imp_right (List.mem_append_left _)
    · exact (iha ha hi).imp_right (List.mem_append_right _)
  | abs id bs b ih =>
    obtain ⟨-, m, hb, -⟩ := nameless?_abs_eq_some.1 h
    rcases ih hb hi with hi | hi
    · rw [List.flatten_cons] at hi
      rcases List.mem_append.1 hi with hi | hi
      · exact .inr (List.mem_append_left _ hi)
      · exact .inl hi
    · exact .inr (List.mem_append_right _ hi)

/-- A reading refers to the outermost scope when a variable of it is an input of that scope. -/
theorem reaches_nameless? {r : Reading} {inner : List (List InputId)} {outer : List InputId}
    {n : Nameless} (h : r.nameless? (inner ++ [outer]) = some n)
    (hn : (inner ++ [outer]).flatten.Nodup) :
    n.Reaches inner.length ↔ ∃ i ∈ r.uses, i ∈ outer := by
  induction r generalizing inner n with
  | hole =>
    cases h
    simp [Nameless.Reaches, uses]
  | var id =>
    -- an input of the outermost scope is not one of a scope between
    have hiff := nearest_outermost_iff (List.idxOf? id) inner outer
    have hd : id ∈ outer → ∀ scope ∈ inner, id ∉ scope := by
      intro ho scope hs hi
      rw [List.flatten_append, List.flatten_singleton] at hn
      exact (List.nodup_append.1 hn).2.2 id (List.mem_flatten.2 ⟨scope, hs, hi⟩) id ho rfl
    simp only [List.idxOf?_eq_none_iff, List.isSome_idxOf?] at hiff
    rw [nameless?, Option.map_eq_some_iff] at h
    obtain ⟨⟨d, k⟩, ha, rfl⟩ := h
    rw [ha] at hiff
    simp only [Option.some.injEq, Prod.mk.injEq, exists_and_left, exists_eq', and_true] at hiff
    simp only [uses, List.mem_singleton, exists_eq_left, Nameless.Reaches, hiff]
    constructor
    · exact fun hs => hs.2
    · exact fun ho => ⟨hd ho, ho⟩
  | app id f a ihf iha =>
    obtain ⟨m, k, hf, ha, rfl⟩ := nameless?_app_eq_some.1 h
    simp only [Nameless.Reaches, ihf hf hn, iha ha hn, uses, List.mem_append, or_and_right,
      exists_or]
  | abs id bs b ih =>
    obtain ⟨hn', m, hb, rfl⟩ := nameless?_abs_eq_some.1 h
    exact @ih (bs.map Prod.fst :: inner) m hb hn'

/-- An outermost scope does not matter to a reading that has no variable in it. -/
theorem nameless?_of_append {r : Reading} {inner : List (List InputId)} {outer : List InputId}
    {n : Nameless} (h : r.nameless? (inner ++ [outer]) = some n)
    (hout : ∀ i ∈ r.uses, i ∉ outer) : r.nameless? inner = some n := by
  induction r generalizing inner n with
  | hole => exact h
  | var id =>
    have ho : id ∉ outer := hout id List.mem_cons_self
    rw [nameless?, nearest_append_eq fun hs => absurd (List.isSome_idxOf?.1 hs) ho] at h
    exact h
  | app id f a ihf iha =>
    obtain ⟨m, k, hf, ha, rfl⟩ := nameless?_app_eq_some.1 h
    have hf' := ihf hf fun i hi => hout i (List.mem_append_left _ hi)
    have ha' := iha ha fun i hi => hout i (List.mem_append_right _ hi)
    exact nameless?_app_eq_some.2 ⟨m, k, hf', ha', rfl⟩
  | abs id bs b ih =>
    obtain ⟨hn, m, hb, rfl⟩ := nameless?_abs_eq_some.1 h
    have hb' := @ih (bs.map Prod.fst :: inner) m hb hout
    rw [← List.cons_append, List.flatten_append] at hn
    exact nameless?_abs_eq_some.2 ⟨(List.nodup_append.1 hn).1, m, hb', rfl⟩

/-- A reading applied to others, each by a merge of its own. -/
def applied (r : Reading) (arguments : List (MergeId × Reading)) : Reading :=
  arguments.foldl (fun f a => app a.1 f a.2) r

/-- What reads back as an application to some terms is a reading applied to readings of these. -/
theorem exists_applied_of_nameless? {r : Reading} {scopes : List (List InputId)} {f : Nameless}
    {l : List Nameless} (h : r.nameless? scopes = some (l.foldl .app f)) :
    ∃ value arguments, r = applied value arguments ∧ value.nameless? scopes = some f ∧
      arguments.map (fun a => a.2.nameless? scopes) = l.map some := by
  induction l generalizing f with
  | nil => exact ⟨r, [], rfl, h, rfl⟩
  | cons n l ih =>
    obtain ⟨value, arguments, rfl, hv, ha⟩ := ih h
    cases value with
    | app id value a =>
      obtain ⟨m, k, hm, hk, he⟩ := nameless?_app_eq_some.1 hv
      cases he
      refine ⟨value, (id, a) :: arguments, rfl, hm, ?_⟩
      rw [List.map_cons, List.map_cons, hk, ha]
    | hole => cases hv
    | var id =>
      obtain ⟨at_, -, he⟩ := Option.map_eq_some_iff.1 hv
      cases he
    | abs id bs b =>
      obtain ⟨-, m, -, he⟩ := nameless?_abs_eq_some.1 hv
      cases he

end Reading

/-- Lists that some functions map to the same are related one by one. -/
theorem forall₂_of_map_eq {α β γ : Type} {l : List α} {l' : List β} {f : α → γ} {f' : β → γ}
    {related : α → β → Prop} (h : l.map f = l'.map f')
    (hr : ∀ a ∈ l, ∀ b ∈ l', f a = f' b → related a b) : List.Forall₂ related l l' := by
  induction l generalizing l' with
  | nil =>
    obtain rfl : l' = [] := by simpa using h.symm
    exact .nil
  | cons a l ih =>
    cases l' with
    | nil => cases h
    | cons b l' =>
      obtain ⟨hhead, htail⟩ := List.cons.inj h
      refine .cons (hr a List.mem_cons_self b List.mem_cons_self hhead) (ih htail ?_)
      exact fun a ha b hb => hr a (List.mem_cons_of_mem _ ha) b (List.mem_cons_of_mem _ hb)

variable {S : Type} [Scalar S]

namespace Graph

/-- `g.OutOfScope t r`: the term `t`, read back as `r`, lies out of the scope of the root. No
variable of it is an input of the root, and where a variable is bound by nothing in the term itself
there is a hole. -/
def OutOfScope (g : Graph S) (t : Term) (r : Reading) : Prop :=
  (∀ i ∈ r.uses, i ∉ (g.group root).inputs) ∧ r.nameless? [] = some (t.nameless [])

variable {g : Graph S} {first : Tree} {others : List Tree}

/-- A tree that is hosted lies out of the scope of the root. -/
theorem Forest.outOfScope (h : g.Forest first others) {tree : Tree} (ht : tree ∈ others) {t : Term}
    (hn : tree.reading.nameless? [] = some (t.nameless [])) : g.OutOfScope t tree.reading := by
  refine ⟨fun i hi hroot => ?_, hn⟩
  have hown : i ∈ tree.inputs := (Reading.uses_subset hn i hi).resolve_left (by simp)
  have hfirst : i ∈ first.inputs := by
    rw [← h.root] at hroot
    exact (h.planted first List.mem_cons_self).reads.inputs_subset List.mem_cons_self i hroot
  have hd := (List.nodup_append.1 h.inputs.1).2.2
  exact hd i hfirst i (List.mem_flatMap.2 ⟨tree, ht, hown⟩) rfl

/-- A term that is read back in the scope of the root is out of that scope just when no binder of
the root occurs free in it. -/
theorem outOfScope_iff {names : List Char} {t : Term} {r : Reading}
    (hnodup : (g.group root).inputs.Nodup)
    (hn : r.nameless? [(g.group root).inputs] = some (t.nameless [names])) :
    g.OutOfScope t r ↔ ∀ c ∈ names, t.hasFree c = false := by
  have hreading : (t.nameless [names]).Reaches 0 ↔ ∃ i ∈ r.uses, i ∈ (g.group root).inputs :=
    @Reading.reaches_nameless? r [] _ _ hn (by simpa using hnodup)
  have hterm : (t.nameless [names]).Reaches 0 ↔
      ∃ c ∈ names, t.hasFree c ∧ ∀ scope ∈ [], c ∉ scope := t.reaches_nameless []
  have hvars : (∀ i ∈ r.uses, i ∉ (g.group root).inputs) ↔
      ∀ c ∈ names, t.hasFree c = false := by
    have hiff := not_congr (hreading.symm.trans hterm)
    simpa using hiff
  refine ⟨fun h => hvars.1 h.1, fun h => ⟨hvars.2 h, ?_⟩⟩
  have hclosed : t.nameless ([] ++ [names]) = t.nameless [] := by
    apply t.nameless_append
    intro c hc hf
    rw [h c hc] at hf
    cases hf
  rw [← hclosed]
  exact @Reading.nameless?_of_append r [] _ _ hn (hvars.2 h)

/-- The scope of the arguments. The groups that inputs of the root host are, in order, those of the
first arguments, and they all lie out of the scope of the root. What the root lets out is what its
body comes to, applied to the arguments that are left over; these are read back in the scope of the
root, and one of them is out of that scope just when no binder of the root occurs free in it. -/
theorem arguments_scope (names : List Char) (body : Chain) (rest : List Term) :
    ∃ (g : Graph S) (value : Reading) (arguments : List (MergeId × Reading)),
      ofChain? (.ofTerms (.group names body) rest) = .ok g ∧
      List.Forall₂
        (fun t x => ∃ r, g.Reads (some (.output x)) r ∧ g.OutOfScope (Term.grouped t) r)
        (rest.take names.length) ((g.group root).inputs.filterMap fun i => (g.input i).hosted) ∧
      g.Reads (g.group root).output.producer (value.applied arguments) ∧
      value.nameless? [(g.group root).inputs] = some (body.nameless [names]) ∧
      List.Forall₂
        (fun t a => a.2.nameless? [(g.group root).inputs] = some (Term.nameless [names] t) ∧
          (g.OutOfScope t a.2 ↔ ∀ c ∈ names, t.hasFree c = false))
        (rest.drop names.length) arguments := by
  obtain ⟨g, first, others, hg, hforest, hnames, hfirst, hothers⟩ :=
    exists_forest (S := S) names body rest
  have hroot := (hforest.planted first List.mem_cons_self).reads
  have hids : first.binders.map Prod.fst = (g.group root).inputs := by
    rw [← hroot.2.2.1, map_fst_binders, hforest.root]
  obtain ⟨hnodup, m, hbody, he⟩ := Reading.nameless?_abs_eq_some.1 hfirst
  cases he
  rw [hids] at hnodup hbody
  obtain ⟨value, arguments, happ, hvalue, harguments⟩ := Reading.exists_applied_of_nameless? hbody
  refine ⟨g, value, arguments, hg, ?_, ?_, hvalue, ?_⟩
  · rw [hforest.filterMap_hosted, List.forall₂_map_right_iff]
    refine forall₂_of_map_eq hothers.symm fun t _ tree ht hn => ?_
    exact ⟨tree.reading, (hforest.planted tree (List.mem_cons_of_mem first ht)).reads,
      hforest.outOfScope ht hn.symm⟩
  · rw [← happ, ← hforest.root]
    exact hroot.2.2.2
  · rw [List.map_map] at harguments
    refine forall₂_of_map_eq harguments.symm fun t _ a _ hn => ?_
    exact ⟨hn.symm, outOfScope_iff (by simpa using hnodup) hn.symm⟩

/-- In `(\x.x) y x` the binder of the root captures the argument that is left over: the merge that
applies what the body comes to takes the root's own input as its argument. -/
theorem left_over_argument_captured :
    ∃ g : Graph Float,
      ofChain? (.ofTerms (.group ['x'] (.last (.var 'x'))) [.var 'y', .var 'x']) = .ok g ∧
      (g.group root).inputs = [⟨0⟩] ∧ (g.group root).output.producer = some (.merge ⟨0⟩) ∧
      (g.merge ⟨0⟩).argument = some (.input ⟨0⟩) := by
  have hview : (ofChain? (S := Float)
      (.ofTerms (.group ['x'] (.last (.var 'x'))) [.var 'y', .var 'x'])).toOption.map
        (fun g => ((g.group root).inputs, (g.group root).output.producer,
          (g.merge ⟨0⟩).argument)) =
      some ([⟨0⟩], some (.merge ⟨0⟩), some (.input ⟨0⟩)) := by
    decide +kernel
  obtain ⟨g, hg, hv⟩ := Option.map_eq_some_iff.1 hview
  simp only [Prod.mk.injEq] at hv
  refine ⟨g, ?_, hv⟩
  cases hc : ofChain? (S := Float)
      (.ofTerms (.group ['x'] (.last (.var 'x'))) [.var 'y', .var 'x']) with
  | ok g' =>
    rw [hc] at hg
    exact congrArg Except.ok (Option.some.inj hg)
  | error e =>
    rw [hc] at hg
    cases hg

end Graph

end LambdaDiagram
