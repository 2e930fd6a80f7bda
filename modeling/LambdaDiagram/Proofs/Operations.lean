import LambdaDiagram.Proofs.Changes
import LambdaDiagram.Proofs.FlattenedScope

/-!
What a graph goes through. Nodes are added and linked, groups and inputs are moved, and the graph is
flattened, laid out, built anew from a chain or cleaned, in any order. Whatever is done, scopes stay
in order, so that a name can be looked up in any group, live or not, and flattening is invisible to
whoever looks one up.
-/

namespace LambdaDiagram

open Relation (TransGen)

variable {S : Type} [Scalar S]

/-- Something that is done to a graph. -/
inductive Operation (S : Type) where
  | addGroup (parent : Option GroupId)
  | addSubgroup (home : GroupId)
  | addInput (home : GroupId) (identifier : Char)
  | host (input : InputId) (group : GroupId)
  | addMerge (home : GroupId) (function argument : Option Source)
  | feed (home : GroupId) (value : Option Source)
  | connect (source : Source) (sink : Sink)
  | move (group : GroupId) (d : Vec S)
  | moveInput (input : InputId) (position : Vec S)
  | flatten
  | update (e : Engine S)
  | build (ts : Chain)
  | clean

namespace Graph

/-- A graph after one operation. Building from a chain that cannot be drawn leaves it alone. -/
def perform (g : Graph S) : Operation S → Graph S
  | .addGroup parent => (g.addGroup parent).1
  | .addSubgroup home => (g.addSubgroup home).1
  | .addInput home c => (g.addInput home c).1
  | .host i x => g.host i x
  | .addMerge home f a => (g.addMerge home f a).1
  | .feed home value => g.feed home value
  | .connect source sink => g.connect source sink
  | .move x d => g.move x d
  | .moveInput i position => g.moveInput i position
  | .flatten => g.flatten
  | .update e => (e.update g).1
  | .build ts => match ofChain? ts with
    | .ok built => built
    | .error _ => g
  | .clean => empty

/-- The nodes that are added to, or that a new one refers to for its scope, are there; and no group
is put into an input that lies in it. -/
def Permits (g : Graph S) : Operation S → Prop
  | .addGroup parent => ∀ p, parent = some p → p.index < g.groups.size
  | .addSubgroup home | .addInput home _ | .addMerge home _ _ => home.index < g.groups.size
  | .host i x => i.index < g.inputs.size ∧ x.index < g.groups.size ∧ (g.host i x).Acyclic
  | _ => True

/-- A graph is constructed when operations lead to it from a new one. -/
inductive Constructed : Graph S → Prop where
  | new : Constructed empty
  | perform {g : Graph S} {op : Operation S} (hg : Constructed g) (hop : g.Permits op) :
      Constructed (g.perform op)

variable {g g' : Graph S} {home x y : GroupId}

/-! ## What lies in what -/

/-- What lies in a group is known from contents and labels. -/
theorem contains_iff : g.Contains x y ↔
    y ∈ (g.content x).subgroups ∨ ∃ i ∈ (g.content x).inputs, (g.label i).hosted = some y :=
  Iff.rfl

theorem Contains.of_content (h : g'.Contains x y)
    (hsubgroups : y ∈ (g'.content x).subgroups → y ∈ (g.content x).subgroups)
    (hinputs : ∀ i ∈ (g'.content x).inputs, (g'.label i).hosted = some y →
      i ∈ (g.content x).inputs ∧ (g.label i).hosted = some y) : g.Contains x y := by
  rcases contains_iff.1 h with hy | ⟨i, hi, hiy⟩
  · exact .inl (hsubgroups hy)
  · exact .inr ⟨i, hinputs i hi hiy⟩

/-- A new group in which nothing lies yet makes no group lie in itself. -/
theorem Acyclic.grow {n : GroupId} (hg : g.Acyclic) (hn : ∀ y, ¬ g'.Contains n y)
    (hold : ∀ x y, g'.Contains x y → y ≠ n → g.Contains x y) : g'.Acyclic := by
  intro x hx
  have hpath : ∀ y, TransGen g'.Contains x y → y ≠ n → TransGen g.Contains x y := by
    intro y hy
    induction hy with
    | single hxy => exact fun hne => .single (hold _ _ hxy hne)
    | tail _ hbc ih =>
      intro hne
      apply (ih ?_).tail (hold _ _ hbc hne)
      rintro rfl
      exact hn _ hbc
  obtain ⟨y, hy, -⟩ := TransGen.head'_iff.1 hx
  apply hg x (hpath x hx _)
  rintro rfl
  exact hn y hy

/-! ## Scopes -/

theorem ParentsAgree.of_content (h : g.ParentsAgree)
    (hparent : ∀ x, (g'.content x).parent = (g.content x).parent)
    (hsubgroups : ∀ x, (g'.content x).subgroups = (g.content x).subgroups) :
    g'.ParentsAgree := by
  intro x y hy
  have hold : y ∈ (g'.content x).subgroups := hy
  rw [hsubgroups] at hold
  exact (hparent y).trans (h x y hold)

/-- A group that has a parent is not the next one. -/
theorem ne_next_of_parent (hx : (g.group x).parent = some y) : x ≠ ⟨g.groups.size⟩ := by
  rintro rfl
  exact Nat.lt_irrefl _ (lt_of_parent hx)

theorem hereditary_parentsAgree : Hereditary (ParentsAgree (S := S)) where
  addGroup := by
    intro g parent h _ x y hy
    have hold : y ∈ ((g.addGroup parent).1.content x).subgroups := hy
    rw [content_addGroup] at hold
    split at hold
    · cases hold
    · have hp := h x y hold
      show ((g.addGroup parent).1.content y).parent = some x
      rw [content_addGroup, if_neg (ne_next_of_parent hp)]
      exact hp
  addSubgroup := by
    intro g home h hlt x y hy
    have hold : y ∈ ((g.addSubgroup home).1.content x).subgroups := hy
    have hkept : ∀ {z}, (g.group y).parent = some z →
        ((g.addSubgroup home).1.content y).parent = some z := by
      intro z hz
      rw [content_addSubgroup hlt, if_neg (ne_next_of_parent hz)]
      split
      · rename_i he
        subst he
        exact hz
      · exact hz
    show ((g.addSubgroup home).1.content y).parent = some x
    rw [content_addSubgroup hlt] at hold
    split at hold
    · cases hold
    · split at hold
      · rename_i he
        rcases List.mem_append.1 hold with hold | hold
        · rw [he]
          exact hkept (h home y hold)
        · rw [List.mem_singleton.1 hold, content_addSubgroup hlt, if_pos rfl, he]
      · exact hkept (h x y hold)
  addInput c h hlt := h.of_content
    (fun x => content_addInput_keeps c Content.parent (fun _ _ => rfl) hlt x)
    fun x => content_addInput_keeps c Content.subgroups (fun _ _ => rfl) hlt x
  addMerge f a h hlt := h.of_content
    (fun x => content_addMerge_keeps f a Content.parent (fun _ _ => rfl) hlt x)
    fun x => content_addMerge_keeps f a Content.subgroups (fun _ _ => rfl) hlt x
  feed value h := h.of_content (fun x => by rw [content_feed]) fun x => by rw [content_feed]
  host i y h := h.of_content (fun x => rfl) fun x => rfl

namespace WellScoped

theorem new : (empty : Graph S).WellScoped := by
  have hnone : ∀ x y, ¬ (empty : Graph S).Contains x y := by
    intro x y hxy
    rw [contains_iff, content_empty] at hxy
    rcases hxy with hy | ⟨i, hi, -⟩
    · cases hy
    · cases hi
  refine ⟨parentsOlder_empty, fun x y hy => absurd (.inl hy) (hnone x y), fun x hx => ?_⟩
  obtain ⟨y, hy, -⟩ := TransGen.head'_iff.1 hx
  exact hnone x y hy

section

variable (h : g.WellScoped)

include h

/-- Scopes stay in order when at most the merges of groups are others. -/
theorem of_content (hparent : ∀ x, (g'.content x).parent = (g.content x).parent)
    (hinputs : ∀ x, (g'.content x).inputs = (g.content x).inputs)
    (hsubgroups : ∀ x, (g'.content x).subgroups = (g.content x).subgroups)
    (hlabel : g'.label = g.label) : g'.WellScoped where
  older := h.older.of_content hparent
  agree := h.agree.of_content hparent hsubgroups
  acyclic := by
    refine h.acyclic.mono fun x y hxy => .single (hxy.of_content ?_ ?_)
    · rw [hsubgroups]
      exact id
    · rw [hinputs, hlabel]
      exact fun i hi hy => ⟨hi, hy⟩

theorem of_alike (ha : g.Alike g') : g'.WellScoped :=
  h.of_content (fun x => by rw [ha.content]) (fun x => by rw [ha.content])
    (fun x => by rw [ha.content]) ha.label

theorem addGroup {parent : Option GroupId}
    (hparent : ∀ p, parent = some p → p.index < g.groups.size) :
    (g.addGroup parent).1.WellScoped where
  older := hereditary_parentsOlder.addGroup h.older hparent
  agree := hereditary_parentsAgree.addGroup h.agree hparent
  acyclic := by
    refine h.acyclic.mono fun x y hxy => .single (hxy.of_content ?_ ?_)
    · rw [content_addGroup]
      split
      · exact nofun
      · exact id
    · rw [content_addGroup, label_addGroup]
      split
      · exact nofun
      · exact fun i hi hy => ⟨hi, hy⟩

theorem addSubgroup (hlt : home.index < g.groups.size) : (g.addSubgroup home).1.WellScoped where
  older := hereditary_parentsOlder.addSubgroup h.older hlt
  agree := hereditary_parentsAgree.addSubgroup h.agree hlt
  acyclic := by
    apply h.acyclic.grow (n := ⟨g.groups.size⟩)
    · intro y hy
      rw [contains_iff, content_addSubgroup hlt, if_pos rfl] at hy
      rcases hy with hy | ⟨i, hi, -⟩
      · cases hy
      · cases hi
    · intro x y hxy hne
      apply hxy.of_content
      · rw [content_addSubgroup hlt]
        split
        · exact nofun
        · split
          · rename_i he
            rw [he]
            intro hy
            exact (List.mem_append.1 hy).resolve_right fun hm => hne (List.mem_singleton.1 hm)
          · exact id
      · rw [content_addSubgroup hlt, label_addSubgroup]
        split
        · exact nofun
        · split
          · rename_i he
            rw [he]
            exact fun i hi hy => ⟨hi, hy⟩
          · exact fun i hi hy => ⟨hi, hy⟩

theorem addInput (hlt : home.index < g.groups.size) (c : Char) :
    (g.addInput home c).1.WellScoped where
  older := hereditary_parentsOlder.addInput c h.older hlt
  agree := hereditary_parentsAgree.addInput c h.agree hlt
  acyclic := by
    refine h.acyclic.mono fun x y hxy => .single (hxy.of_content ?_ ?_)
    · have hsubgroups := content_addInput_keeps c Content.subgroups (fun _ _ => rfl) hlt x
      rw [hsubgroups]
      exact id
    · -- the new input hosts nothing
      intro i hi hy
      rw [label_addInput] at hy
      split at hy
      · cases hy
      · rename_i hne
        rw [content_addInput c hlt] at hi
        split at hi
        · rename_i he
          rw [he]
          exact ⟨(List.mem_append.1 hi).resolve_right fun hm => hne (List.mem_singleton.1 hm), hy⟩
        · exact ⟨hi, hy⟩

theorem addMerge (hlt : home.index < g.groups.size) (f a : Option Source) :
    (g.addMerge home f a).1.WellScoped :=
  h.of_content (content_addMerge_keeps f a Content.parent (fun _ _ => rfl) hlt)
    (content_addMerge_keeps f a Content.inputs (fun _ _ => rfl) hlt)
    (content_addMerge_keeps f a Content.subgroups (fun _ _ => rfl) hlt) (label_addMerge f a)

theorem connect (source : Source) (sink : Sink) : (g.connect source sink).WellScoped := by
  have hcontent : (g.connect? (some source) sink).content = g.content := content_connect? sink
  have hlabel : (g.connect? (some source) sink).label = g.label := label_connect? sink
  apply h.of_content _ _ _ hlabel
  all_goals
    intro x
    exact congrArg _ (congrFun hcontent x)

theorem feed (home : GroupId) (value : Option Source) : (g.feed home value).WellScoped := by
  apply h.of_content _ _ _ (label_feed value)
  all_goals
    intro x
    rw [content_feed]

theorem host {i : InputId} (hacyclic : (g.host i x).Acyclic) : (g.host i x).WellScoped :=
  ⟨h.older, h.agree, hacyclic⟩

end

/-- As a graph is built its scopes are in order. -/
theorem ofChain? {ts : Chain} (hg : Graph.ofChain? ts = .ok g) : g.WellScoped where
  older := hereditary_parentsOlder.ofChain? parentsOlder_empty hg
  agree := hereditary_parentsAgree.ofChain? new.agree hg
  acyclic := by
    cases hhead : ts.head with
    | var c =>
      unfold Graph.ofChain? at hg
      rw [hhead] at hg
      cases hg
    | group names body =>
      obtain ⟨g', first, others, hg', hforest, -⟩ := exists_forest (S := S) names body ts.tail
      have hsame : Graph.ofChain? (S := S) (.ofTerms (.group names body) ts.tail) =
          Graph.ofChain? ts := by
        unfold Graph.ofChain?
        rw [Chain.head_ofTerms, Chain.tail_ofTerms, hhead]
      rw [hsame, hg] at hg'
      cases hg'
      exact hforest.acyclic

/-- Whatever is done to a graph, its scopes stay in order. -/
theorem perform (h : g.WellScoped) {op : Operation S} (hop : g.Permits op) :
    (g.perform op).WellScoped := by
  cases op with
  | addGroup parent => exact h.addGroup hop
  | addSubgroup home => exact h.addSubgroup hop
  | addInput home c => exact h.addInput hop c
  | host i x => exact h.host hop.2.2
  | addMerge home f a => exact h.addMerge hop f a
  | feed home value => exact h.feed home value
  | connect source sink => exact h.connect source sink
  | move x d => exact h.of_alike ((g.nest x).move_alike g d)
  | moveInput i position => exact h.of_alike (g.moveInput_alike i position)
  | flatten => exact h.flatten
  | update e => exact h.of_alike ((Rearranged.refl g).tick e).alike
  | build ts =>
    show WellScoped (match Graph.ofChain? ts with
      | .ok built => built
      | .error _ => g)
    split
    · exact ofChain? ‹_›
    · exact h
  | clean => exact new

end WellScoped

theorem Constructed.wellScoped (hg : Constructed g) : g.WellScoped := by
  induction hg with
  | new => exact .new
  | perform _ hop ih => exact ih.perform hop

/-- However a graph has been constructed, parents are older than their children, so the parents of a
group come to an end; a name refers to the right-most input of that name in the nearest of them that
has one, and to nothing if none has; and whatever group it is looked up in, live or not, it refers
to the same after flattening. -/
theorem scopes_in_order (hg : Constructed g) :
    (∀ x p, (g.group x).parent = some p → p.index < x.index) ∧
      (∀ x, ∃ xs, g.ScopeChain x xs ∧ ∀ c,
        (∀ i, g.lookup x c = some i ↔ ∃ nearer y farther, xs = nearer ++ y :: farther ∧
          (∀ z ∈ nearer, g.Lacks c z) ∧ g.IsLast c y i) ∧
        (g.lookup x c = none ↔ ∀ y ∈ xs, g.Lacks c y)) ∧
      ∀ x c, g.flatten.lookup x c = g.lookup x c := by
  have h := hg.wellScoped
  refine ⟨h.older, ?_, h.lookup_flatten⟩
  intro x
  obtain ⟨xs, hxs⟩ := h.older.exists_scopeChain x
  exact ⟨xs, hxs, fun c => ⟨fun i => h.older.lookup_eq_some_iff hxs, h.older.lookup_eq_none_iff hxs⟩⟩

/-- Of two groups inside each other the outer one has no inputs and is dissolved, so that the inner
one gets another parent; a name refers to the same in it. -/
theorem scopes_in_order_dissolved : ∃ g : Graph Float, Constructed g ∧
    (g.group ⟨2⟩).parent = some ⟨1⟩ ∧ (g.flatten.group ⟨2⟩).parent = some ⟨0⟩ ∧
      g.flatten.lookup ⟨2⟩ 'x' = g.lookup ⟨2⟩ 'x' := by
  have hg : Constructed ((((empty (S := Float).perform (.addInput root 'x')).perform
      (.addSubgroup root)).perform (.addSubgroup ⟨1⟩)).perform (.addInput ⟨2⟩ 'y')) := by
    refine .perform (.perform (.perform (.perform .new ?_) ?_) ?_) ?_
    all_goals
      unfold Permits
      decide +kernel
  refine ⟨_, hg, ?_, ?_, (scopes_in_order hg).2.2 ⟨2⟩ 'x'⟩
  · decide +kernel
  · decide +kernel

end Graph

end LambdaDiagram
