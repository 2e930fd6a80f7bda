import LambdaDiagram.Diagram.OfChain
import LambdaDiagram.Proofs.Steps

/-!
What building keeps. A graph is built by a few kinds of steps, each of which adds or links nodes in
a group that is there already. A property that each kind of step keeps is kept by whatever is built
from a term, and so the graph of a chain has it when the empty graph has.
-/

namespace LambdaDiagram

variable {S : Type} [Scalar S]

namespace Graph

/-- A property of graphs that each step of building keeps. -/
structure Hereditary (P : Graph S → Prop) : Prop where
  addGroup : ∀ {g : Graph S} {parent : Option GroupId}, P g →
    (∀ p, parent = some p → p.index < g.groups.size) → P (g.addGroup parent).1
  addSubgroup : ∀ {g : Graph S} {home : GroupId}, P g → home.index < g.groups.size →
    P (g.addSubgroup home).1
  addInput : ∀ {g : Graph S} {home : GroupId} (identifier : Char), P g →
    home.index < g.groups.size → P (g.addInput home identifier).1
  addMerge : ∀ {g : Graph S} {home : GroupId} (function argument : Option Source), P g →
    home.index < g.groups.size → P (g.addMerge home function argument).1
  feed : ∀ {g : Graph S} {home : GroupId} (value : Option Source), P g → P (g.feed home value)
  host : ∀ {g : Graph S} (input : InputId) (group : GroupId), P g → P (g.host input group)

/-- `Kept P g g'`: from `g` to `g'` neither the property nor a group is lost. -/
def Kept (P : Graph S → Prop) (g g' : Graph S) : Prop := P g' ∧ g.groups.size ≤ g'.groups.size

section

variable {P Q : Graph S → Prop} {g g' g'' : Graph S} {home : GroupId}

omit [Scalar S] in
theorem Kept.trans (h : Kept P g g') (h' : Kept P g' g'') : Kept P g g'' :=
  ⟨h'.1, Nat.le_trans h.2 h'.2⟩

omit [Scalar S] in
theorem Kept.lt (h : Kept P g g') (hlt : home.index < g.groups.size) :
    home.index < g'.groups.size :=
  Nat.lt_of_lt_of_le hlt h.2

namespace Hereditary

theorem and (h : Hereditary P) (h' : Hereditary Q) :
    Hereditary fun g : Graph S => P g ∧ Q g where
  addGroup hg hp := ⟨h.addGroup hg.1 hp, h'.addGroup hg.2 hp⟩
  addSubgroup hg hlt := ⟨h.addSubgroup hg.1 hlt, h'.addSubgroup hg.2 hlt⟩
  addInput c hg hlt := ⟨h.addInput c hg.1 hlt, h'.addInput c hg.2 hlt⟩
  addMerge f a hg hlt := ⟨h.addMerge f a hg.1 hlt, h'.addMerge f a hg.2 hlt⟩
  feed value hg := ⟨h.feed value hg.1, h'.feed value hg.2⟩
  host i x hg := ⟨h.host i x hg.1, h'.host i x hg.2⟩

variable (h : Hereditary P)

include h

/-! ## One step -/

theorem keep_addInput (c : Char) (hg : P g) (hlt : home.index < g.groups.size) :
    Kept P g (g.addInput home c).1 :=
  ⟨h.addInput c hg hlt, Nat.le_of_eq (groups_size_addInput c).symm⟩

theorem keep_addMerge (function argument : Option Source) (hg : P g)
    (hlt : home.index < g.groups.size) : Kept P g (g.addMerge home function argument).1 :=
  ⟨h.addMerge function argument hg hlt, Nat.le_of_eq (groups_size_addMerge function argument).symm⟩

theorem keep_feed (value : Option Source) (hg : P g) : Kept P g (g.feed home value) :=
  ⟨h.feed value hg, Nat.le_of_eq (groups_size_feed value).symm⟩

theorem keep_host (input : InputId) (group : GroupId) (hg : P g) :
    Kept P g (g.host input group) :=
  ⟨h.host input group hg, Nat.le_refl _⟩

/-- A new group is in the store. -/
theorem keep_addGroup {parent : Option GroupId} (hg : P g)
    (hparent : ∀ p, parent = some p → p.index < g.groups.size) :
    Kept P g (g.addGroup parent).1 ∧ g.groups.size < (g.addGroup parent).1.groups.size := by
  have hsize : (g.addGroup parent).1.groups.size = g.groups.size + 1 := groups_size_addGroup parent
  exact ⟨⟨h.addGroup hg hparent, by omega⟩, by omega⟩

/-- A new sub-group is in the store. -/
theorem keep_addSubgroup (hg : P g) (hlt : home.index < g.groups.size) :
    Kept P g (g.addSubgroup home).1 ∧ g.groups.size < (g.addSubgroup home).1.groups.size := by
  have hsize : (g.addSubgroup home).1.groups.size = g.groups.size + 1 := groups_size_addSubgroup
  exact ⟨⟨h.addSubgroup hg hlt, by omega⟩, by omega⟩

/-! ## Terms and chains -/

theorem addBinders (names : List Char) (hg : P g) (hlt : home.index < g.groups.size) :
    Kept P g (g.addBinders home names) := by
  induction names generalizing g with
  | nil => exact ⟨hg, Nat.le_refl _⟩
  | cons c names ih =>
    have hinput := h.keep_addInput c hg hlt
    exact hinput.trans (ih hinput.1 (hinput.lt hlt))

end Hereditary

end

namespace Hereditary

variable {P : Graph S → Prop}

mutual

theorem operand (h : Hereditary P) : (t : Term) → {g : Graph S} → {home : GroupId} → P g →
    home.index < g.groups.size → Kept P g (g.operand home t).1
  | .var _, g, _, hg, _ => ⟨hg, Nat.le_refl g.groups.size⟩
  | .group names body, g, home, hg, hlt => by
    obtain ⟨hsub, hnew⟩ := h.keep_addSubgroup hg hlt
    have hbound : Kept P _ ((g.addSubgroup home).1.addBinders ⟨g.groups.size⟩ names) :=
      h.addBinders names hsub.1 hnew
    have hvalue := chainValue h body hbound.1 (hbound.lt hnew)
    rw [Graph.operand]
    exact hsub.trans (hbound.trans (hvalue.trans (h.keep_feed _ hvalue.1)))

theorem chainValue (h : Hereditary P) : (ts : Chain) → {g : Graph S} → {home : GroupId} → P g →
    home.index < g.groups.size → Kept P g (g.chainValue home ts).1
  | .last t, _, _, hg, hlt => operand h t hg hlt
  | .cons t rest, _, _, hg, hlt => by
    have ht := operand h t hg hlt
    exact ht.trans (applyChain h rest _ ht.1 (ht.lt hlt))

theorem applyChain (h : Hereditary P) : (ts : Chain) → {g : Graph S} → {home : GroupId} →
    (function : Option Source) → P g → home.index < g.groups.size →
    Kept P g (g.applyChain home function ts).1
  | .last t, _, _, function, hg, hlt => by
    have ht := operand h t hg hlt
    exact ht.trans (h.keep_addMerge function _ ht.1 (ht.lt hlt))
  | .cons t rest, g, home, function, hg, hlt => by
    have ht := operand h t hg hlt
    have hmerge := ht.trans (h.keep_addMerge function (g.operand home t).2 ht.1 (ht.lt hlt))
    exact hmerge.trans (applyChain h rest _ hmerge.1 (hmerge.lt hlt))

end

variable (h : Hereditary P) {g : Graph S} {home : GroupId}

include h

theorem applyTerms (ts : List Term) (function : Option Source) (hg : P g)
    (hlt : home.index < g.groups.size) : Kept P g (g.applyTerms home function ts).1 := by
  induction ts generalizing g function with
  | nil => exact ⟨hg, Nat.le_refl _⟩
  | cons t ts ih =>
    have ht := h.operand t hg hlt
    have hmerge := ht.trans (h.keep_addMerge function (g.operand home t).2 ht.1 (ht.lt hlt))
    exact hmerge.trans (ih _ hmerge.1 (hmerge.lt hlt))

theorem fillGroup (t : Term) (hg : P g) (hlt : home.index < g.groups.size) :
    Kept P g (g.fillGroup home t) := by
  cases t with
  | var c => exact h.keep_feed _ hg
  | group names body =>
    have hbound := h.addBinders names hg hlt
    have hvalue := h.chainValue body hbound.1 (hbound.lt hlt)
    exact hbound.trans (hvalue.trans (h.keep_feed _ hvalue.1))

/-! ## The graph of a chain -/

theorem bindArguments (names : List Char) (arguments : List Term)
    (hparent : ∀ {g : Graph S} {p : GroupId}, P g → (g.group home).parent = some p →
      p.index < g.groups.size) (hg : P g) (hlt : home.index < g.groups.size) :
    Kept P g (g.bindArguments home names arguments).1 := by
  induction names generalizing g arguments with
  | nil => exact ⟨hg, Nat.le_refl _⟩
  | cons c names ih =>
    have hinput := h.keep_addInput c hg hlt
    cases arguments with
    | nil => exact hinput.trans (ih [] hinput.1 (hinput.lt hlt))
    | cons t ts =>
      let hosted : GroupId := ⟨(g.addInput home c).1.groups.size⟩
      obtain ⟨hgroup, hnew⟩ := h.keep_addGroup hinput.1 fun p hp => hparent hinput.1 hp
      have hfill : Kept P _ (((g.addInput home c).1.addGroup _).1.fillGroup hosted t) :=
        h.fillGroup t hgroup.1 hnew
      have hhost := h.keep_host ⟨g.inputs.size⟩ hosted hfill.1
      have hbound := hinput.trans (hgroup.trans (hfill.trans hhost))
      exact hbound.trans (ih ts hbound.1 (hbound.lt hlt))

end Hereditary

/-- The parent of a group is older than the group. -/
def ParentsOlder (g : Graph S) : Prop := ∀ x p, (g.group x).parent = some p → p.index < x.index

section

variable {g : Graph S} {x p : GroupId}

/-- Nothing is in the empty graph but a group with nothing in it. -/
theorem content_empty (x : GroupId) : (empty : Graph S).content x = ⟨none, [], [], []⟩ := by
  obtain ⟨n⟩ := x
  cases n <;> rfl

/-- A group that has a parent is in the store. -/
theorem lt_of_parent (hp : (g.group x).parent = some p) : x.index < g.groups.size := by
  apply Nat.lt_of_not_le
  intro hx
  rw [group_of_size_le hx] at hp
  cases hp

theorem ParentsOlder.parent_lt (h : g.ParentsOlder) (hp : (g.group x).parent = some p) :
    p.index < g.groups.size :=
  Nat.lt_trans (h x p hp) (lt_of_parent hp)

theorem parentsOlder_empty : (empty : Graph S).ParentsOlder := by
  intro x p hp
  have hx : ((empty : Graph S).content x).parent = some p := hp
  rw [content_empty] at hx
  cases hx

/-- Parents stay older when all groups keep their parents. -/
theorem ParentsOlder.of_content {g' : Graph S} (h : g.ParentsOlder)
    (hparent : ∀ x, (g'.content x).parent = (g.content x).parent) : g'.ParentsOlder := by
  intro x p hp
  have hx : (g.group x).parent = some p := (hparent x).symm.trans hp
  exact h x p hx

end

theorem hereditary_parentsOlder : Hereditary (ParentsOlder (S := S)) where
  addGroup := by
    intro g parent h hparent x p hp
    have hx : ((g.addGroup parent).1.content x).parent = some p := hp
    rw [content_addGroup] at hx
    split at hx
    · rename_i he
      subst he
      exact hparent p hx
    · exact h x p hx
  addSubgroup := by
    intro g home h hlt x p hp
    have hx : ((g.addSubgroup home).1.content x).parent = some p := hp
    rw [content_addSubgroup hlt] at hx
    split at hx
    · rename_i he
      subst he
      cases hx
      exact hlt
    · split at hx
      · rename_i he
        subst he
        exact h x p hx
      · exact h x p hx
  addInput c h hlt :=
    h.of_content fun x => content_addInput_keeps c Content.parent (fun _ _ => rfl) hlt x
  addMerge f a h hlt :=
    h.of_content fun x => content_addMerge_keeps f a Content.parent (fun _ _ => rfl) hlt x
  feed value h := h.of_content fun x => by rw [content_feed]
  host i y h := h.of_content fun x => rfl

/-- The inputs of a group are in the store. -/
def InputsIn (g : Graph S) : Prop := ∀ x, ∀ i ∈ (g.group x).inputs, i.index < g.inputs.size

theorem hereditary_inputsIn : Hereditary (InputsIn (S := S)) where
  addGroup := by
    intro g parent h _ x i hi
    have hx : i ∈ ((g.addGroup parent).1.content x).inputs := hi
    rw [content_addGroup] at hx
    split at hx
    · cases hx
    · exact h x i hx
  addSubgroup := by
    intro g home h hlt x i hi
    have hx : i ∈ ((g.addSubgroup home).1.content x).inputs := hi
    rw [content_addSubgroup hlt] at hx
    split at hx
    · cases hx
    · split at hx
      · exact h home i hx
      · exact h x i hx
  addInput := by
    intro g home c h hlt x i hi
    have hx : i ∈ ((g.addInput home c).1.content x).inputs := hi
    rw [content_addInput c hlt] at hx
    rw [inputs_size_addInput]
    split at hx
    · rcases List.mem_append.1 hx with hx | hx
      · exact Nat.lt_succ_of_lt (h home i hx)
      · rw [List.mem_singleton.1 hx]
        exact Nat.lt_succ_self _
    · exact Nat.lt_succ_of_lt (h x i hx)
  addMerge := by
    intro g home f a h hlt x i hi
    have hx : i ∈ ((g.addMerge home f a).1.content x).inputs := hi
    rw [content_addMerge_keeps f a Content.inputs (fun _ _ => rfl) hlt] at hx
    rw [inputs_size_addMerge]
    exact h x i hx
  feed := by
    intro g home value h x i hi
    have hx : i ∈ ((g.feed home value).content x).inputs := hi
    rw [content_feed] at hx
    rw [inputs_size_feed]
    exact h x i hx
  host := by
    intro g j y h x i hi
    rw [inputs_size_host]
    exact h x i hi

theorem inputsIn_empty : (empty : Graph S).InputsIn := by
  intro x i hi
  have hx : i ∈ ((empty : Graph S).content x).inputs := hi
  rw [content_empty] at hx
  cases hx

/-- Whatever the empty graph has and building keeps, the graph of a chain has. -/
theorem Hereditary.ofChain? {P : Graph S → Prop} (h : Hereditary P) (hempty : P empty)
    {ts : Chain} {g : Graph S} (hg : ofChain? ts = .ok g) : P g := by
  have hboth := h.and hereditary_parentsOlder
  unfold Graph.ofChain? at hg
  cases hhead : ts.head with
  | var c =>
    rw [hhead] at hg
    cases hg
  | group names body =>
    rw [hhead] at hg
    have hroot : root.index < (empty : Graph S).groups.size := Nat.lt_succ_self _
    have hbind : Kept _ _ ((empty : Graph S).bindArguments root names ts.tail).1 :=
      hboth.bindArguments names ts.tail (fun hg hp => hg.2.parent_lt hp)
        ⟨hempty, parentsOlder_empty⟩ hroot
    have hvalue := hbind.trans (hboth.chainValue body hbind.1 (hbind.lt hroot))
    have hterms := hboth.applyTerms ((empty : Graph S).bindArguments root names ts.tail).2
      (((empty : Graph S).bindArguments root names ts.tail).1.chainValue root body).2
      hvalue.1 (hvalue.lt hroot)
    cases hg
    exact (hboth.keep_feed _ hterms.1).1.1

end Graph

end LambdaDiagram
