import LambdaDiagram.Number.Hypot
import LambdaDiagram.Proofs.Building
import LambdaDiagram.Proofs.Forest

/-!
The graph of a chain. The root first gets its inputs, each with the group that it hosts; the loop
over binders and arguments keeps a forest whose first tree has no body yet. Then the body and the
arguments that are left over grow in the root, and the forest is whole.
-/

namespace LambdaDiagram

@[simp] theorem Chain.head_ofTerms (t : Term) (ts : List Term) : (ofTerms t ts).head = t := by
  cases ts <;> rfl

@[simp] theorem Chain.tail_ofTerms (t : Term) (ts : List Term) : (ofTerms t ts).tail = ts := by
  cases ts with
  | nil => rfl
  | cons u us => exact toList_ofTerms u us

/-- A term as a group: a variable is put in one that binds nothing. -/
def Term.grouped : Term → Term
  | var c => group [] (.last (.var c))
  | group names body => group names body

variable {S : Type} [Scalar S]

namespace Graph

/-- `g.Hosting bs others n`: the root has the inputs `bs` and nothing else; all of them host the
trees in order, but for the last `n`, which host nothing. -/
structure Hosting (g : Graph S) (bs : List (InputId × Char)) (others : List Tree) (n : Nat) :
    Prop where
  sound : g.Sound
  content : g.content root = ⟨none, bs.map Prod.fst, [], []⟩
  producer : g.held (.producer root) = none
  binders : g.binders root = bs
  planted : ∀ t ∈ others, g.Planted t
  groups : Inventory GroupId.index (root :: others.flatMap Tree.groups) g.groups.size
  inputs : Inventory InputId.index (bs.map Prod.fst ++ others.flatMap Tree.inputs) g.inputs.size
  merges : Inventory MergeId.index (others.flatMap Tree.merges) g.merges.size
  hosts : bs.map (fun b => (g.label b.1).hosted) =
    others.map (fun t => some t.top) ++ List.replicate n none
  hostless : ∀ i, i ∉ bs.map Prod.fst → (g.label i).hosted = none

variable {g g' : Graph S} {home : GroupId} {bs : List (InputId × Char)} {others : List Tree}
variable {n : Nat}

/-! ## Steps outside every group -/

theorem Outside.addGroup (home : GroupId) (g : Graph S) (parent : Option GroupId) :
    Outside home g (g.addGroup parent).1 where
  groups_le := by simp
  inputs_le := Nat.le_refl _
  merges_le := Nat.le_refl _
  content x hx _ := by
    have hne : x ≠ ⟨g.groups.size⟩ := by
      rintro rfl
      exact Nat.lt_irrefl _ hx
    rw [content_addGroup, if_neg hne]
  identifier i _ := by rw [label_addGroup]
  held s _ _ := by rw [held_addGroup]

theorem Outside.host (home : GroupId) (g : Graph S) {i : InputId} (hi : i.index < g.inputs.size)
    (x : GroupId) : Outside home g (g.host i x) where
  groups_le := Nat.le_refl _
  inputs_le := by simp
  merges_le := Nat.le_refl _
  content _ _ _ := rfl
  identifier j _ := by
    rw [label_host _ _ hi]
    split
    · rename_i he
      rw [he]
    · rfl
  held s _ _ := by rw [held_host]

/-- A new group outside the root that has been filled is a tree. -/
theorem Filled.planted {r : Reading} (h : Filled ⟨g.groups.size⟩ (g.addGroup none).1 bs r g') :
    g'.Planted ⟨⟨g.groups.size⟩, bs, r⟩ := by
  refine ⟨?_, encloses_of_content h.homeContent (.refl _) rfl, h.reads, h.nested⟩
  rw [h.homeContent, content_addGroup, if_pos rfl]

/-! ## The loop over binders and arguments -/

/-- Nothing hangs together in the empty graph, and nothing needs to. -/
theorem empty_hosting : (empty : Graph S).Hosting [] [] 0 := by
  have hgroup : ∀ x, ((empty : Graph S).group x) = .blank none .zero := by
    rintro ⟨_ | n⟩ <;> rfl
  have hcontent : ∀ x, (empty : Graph S).content x = ⟨none, [], [], []⟩ := by
    intro x
    rw [Graph.content, hgroup]
    rfl
  have hheld : ∀ s, (empty : Graph S).held s = none := by
    rintro (m | m | x)
    · rfl
    · rfl
    · rw [held, hgroup]
      rfl
  have hnoted : ∀ x, (empty : Graph S).noted x = [] := by
    rintro (i | m | x)
    · rfl
    · rfl
    · rw [noted, hgroup]
      rfl
  refine ⟨⟨?_, ?_⟩, hcontent root, hheld _, ?_, by simp, ?_, ?_, ?_, rfl, fun _ _ => rfl⟩
  · intro source sink
    rw [hnoted, Sink.holding]
    simp [hheld]
  · intro x i hi
    rw [hcontent] at hi
    cases hi
  · rw [Graph.binders, hgroup]
    rfl
  · refine ⟨by simp, ?_⟩
    rintro ⟨_ | n⟩ <;> simp [root, empty]
  · exact ⟨List.nodup_nil, by simp [empty]⟩
  · exact ⟨List.nodup_nil, by simp [empty]⟩

namespace Hosting

/-- The root gets one more input, which hosts nothing. -/
theorem addInput (h : g.Hosting bs others n) (name : Char) :
    (g.addInput root name).1.Hosting (bs ++ [(⟨g.inputs.size⟩, name)]) others (n + 1) := by
  have hlt : root.index < g.groups.size := (h.groups.2 root).1 List.mem_cons_self
  have hb := addInput_binds hlt name
  refine ⟨hb.sound h.sound, ?_, ?_, ?_, ?_, ?_, ?_, ?_, ?_, ?_⟩
  · rw [hb.content, if_pos rfl, h.content]
    simp
  · rw [hb.held, h.producer]
  · rw [hb.binders h.sound, h.binders]
  · intro t ht
    refine (h.planted t ht).later h.sound hb.outside fun hm => ?_
    exact (List.nodup_cons.1 h.groups.1).1 (List.mem_flatMap.2 ⟨t, ht, hm⟩)
  · rw [hb.groups_size]
    exact h.groups
  · refine (h.inputs.append InputId.index_inj hb.inputs).perm ?_
    rw [List.map_append, List.append_assoc, List.append_assoc]
    exact List.perm_append_comm.append_left _
  · rw [hb.merges_size]
    exact h.merges
  · rw [List.map_append, List.replicate_succ', ← List.append_assoc, ← h.hosts]
    congr 1
    · exact List.map_congr_left fun b _ => hb.hosted b.1
    · exact congrArg (fun l : Label => [l.hosted]) (hb.new _ (List.mem_singleton.2 rfl))
  · intro i hi
    rw [hb.hosted]
    exact h.hostless i fun hm => hi (by simp [hm])

/-- The last input is not one of those before it. -/
theorem ne_last {i : InputId} {name : Char} (h : g.Hosting (bs ++ [(i, name)]) others n)
    {b : InputId × Char} (hb : b ∈ bs) : b.1 ≠ i := by
  have hn := (List.nodup_append.1 h.inputs.1).1
  rw [List.map_append] at hn
  exact (List.nodup_append.1 hn).2.2 b.1 (List.mem_map_of_mem hb) i (by simp)

/-- A new group outside the root that has been filled is put in the place of the last input. -/
theorem host {i : InputId} {name : Char} {bs' : List (InputId × Char)} {r : Reading}
    (h : g.Hosting (bs ++ [(i, name)]) others 1)
    (hf : Filled ⟨g.groups.size⟩ (g.addGroup none).1 bs' r g') :
    (g'.host i ⟨g.groups.size⟩).Hosting (bs ++ [(i, name)])
      (others ++ [⟨⟨g.groups.size⟩, bs', r⟩]) 0 := by
  have hlt : root.index < g.groups.size := (h.groups.2 root).1 List.mem_cons_self
  have hne : root ≠ ⟨g.groups.size⟩ := by
    intro he
    rw [he] at hlt
    exact Nat.lt_irrefl _ hlt
  have hi : i.index < g'.inputs.size := by
    refine Nat.lt_of_lt_of_le ((h.inputs.2 i).1 ?_) hf.outside.inputs_le
    simp
  have hout : Outside ⟨g.groups.size⟩ g (g'.host i ⟨g.groups.size⟩) :=
    ((Outside.addGroup _ g none).trans hf.outside).trans (.host _ g' hi _)
  have hroot := hout.content root hlt hne
  have hgroups := hf.groups
  rw [groups_size_addGroup] at hgroups
  have htree : Numbered GroupId.index (Tree.groups ⟨⟨g.groups.size⟩, bs', r⟩) g.groups.size
      g'.groups.size := (Numbered.singleton GroupId.index ⟨g.groups.size⟩).append hgroups
  have hlabel : ∀ j, j ≠ i →
      ((g'.host i ⟨g.groups.size⟩).label j).hosted = (g.label j).hosted := by
    intro j hj
    rw [label_host _ _ hi, if_neg hj, hf.hosted, label_addGroup]
  refine ⟨⟨?_, ?_⟩, hroot.trans h.content, ?_, ?_, ?_, ?_, ?_, ?_, ?_, ?_⟩
  · exact hf.sound.linked.of_eq (held_host _ _) (noted_host _ _)
  · intro x j hj
    rw [inputs_size_host]
    exact hf.sound.inputs_lt x j hj
  · rw [hout.held (.producer root) hlt (by simpa using hne), h.producer]
  · rw [hout.binders h.sound (congrArg Content.inputs hroot), h.binders]
  · intro t ht
    rcases List.mem_append.1 ht with ht | ht
    · refine (h.planted t ht).later h.sound hout fun hm => ?_
      exact Nat.lt_irrefl _ ((h.planted t ht).reads.group_lt hm)
    · obtain rfl := List.mem_singleton.1 ht
      refine hf.planted.later hf.sound (.host root g' hi _) fun hm => ?_
      exact Nat.not_lt_of_le (htree.bounds hm).1 hlt
  · rw [List.flatMap_append, List.flatMap_singleton]
    exact h.groups.append GroupId.index_inj htree
  · rw [List.flatMap_append, List.flatMap_singleton, ← List.append_assoc, inputs_size_host]
    exact h.inputs.append InputId.index_inj hf.inputs
  · rw [List.flatMap_append, List.flatMap_singleton]
    exact h.merges.append MergeId.index_inj hf.merges
  · have hb : bs.map (fun b => (g.label b.1).hosted) = others.map fun t => some t.top := by
      have hh := h.hosts
      rw [List.map_append] at hh
      exact (List.append_inj' hh rfl).1
    rw [List.map_append, List.map_append, ← hb, List.replicate_zero, List.append_nil]
    congr 1
    · exact List.map_congr_left fun b hb => hlabel b.1 (h.ne_last hb)
    · rw [List.map_singleton, label_host _ _ hi, if_pos rfl]
      rfl
  · intro j hj
    have hji : j ≠ i := by
      rintro rfl
      exact hj (by simp)
    rw [hlabel j hji]
    exact h.hostless j hj

/-- A new group outside the root is filled with a term and put in the place of the last input. -/
theorem adopt {i : InputId} {name : Char} (h : g.Hosting (bs ++ [(i, name)]) others 1) (t : Term) :
    ∃ tree : Tree, tree.reading.nameless? [] = some (t.grouped.nameless []) ∧
      (((g.addGroup none).1.fillGroup ⟨g.groups.size⟩ t).host i ⟨g.groups.size⟩).Hosting
        (bs ++ [(i, name)]) (others ++ [tree]) 0 := by
  obtain ⟨names, body, ht⟩ : ∃ names body, t.grouped = .group names body := by
    cases t with
    | var c => exact ⟨[], .last (.var c), rfl⟩
    | group names body => exact ⟨names, body, rfl⟩
  have hfill : ∀ g' : Graph S, g'.fillGroup ⟨g.groups.size⟩ t =
      g'.fillGroup ⟨g.groups.size⟩ (.group names body) := by
    intro g'
    rw [← ht]
    cases t <;> rfl
  have hg₁ := h.sound.addGroup none
  have hc₁ : (g.addGroup none).1.content ⟨g.groups.size⟩ = ⟨none, [], [], []⟩ := by
    rw [content_addGroup, if_pos rfl]
  have hempty : (g.addGroup none).1.held (.producer ⟨g.groups.size⟩) = none := by
    rw [held_addGroup, held, group_next]
    rfl
  have hlt₁ : (⟨g.groups.size⟩ : GroupId).index < (g.addGroup none).1.groups.size := by simp
  have hb₁ : (g.addGroup none).1.binders ⟨g.groups.size⟩ = [] :=
    binders_eq_nil (congrArg Content.inputs hc₁)
  -- no group is around the new one
  have hplace : ∀ bs' g', Binds ⟨g.groups.size⟩ bs' (g.addGroup none).1 g' →
      g'.Workplace ⟨g.groups.size⟩ (bs' :: []) := by
    intro bs' g' hb
    have hown : g'.binders ⟨g.groups.size⟩ = bs' := by
      rw [hb.binders hg₁, hb₁, List.nil_append]
    have hp : (g'.content ⟨g.groups.size⟩).parent = none := by
      rw [hb.content, if_pos rfl, hc₁]
    refine ⟨hb.sound hg₁, by rw [hb.groups_size]; exact hlt₁, ?_, ?_⟩
    · rw [← hown]
      exact .outermost hp
    · simpa [binderInputs] using hb.inputs.nodup
  obtain ⟨bs', r, hfilled, hn⟩ := exists_fillGroup_filled names body hg₁ hlt₁ hc₁ hempty hplace
    fun g' scopes' => chainValue_makes body g' _ scopes'
  rw [← hfill] at hfilled
  rw [← ht] at hn
  exact ⟨⟨⟨g.groups.size⟩, bs', r⟩, hn, h.host hfilled⟩

/-- Binders without arguments become inputs that host nothing. -/
theorem bindArguments_nil (h : g.Hosting bs others n) (names : List Char) :
    ∃ bs' n', bs'.map Prod.snd = names ∧ (g.bindArguments root names []).2 = [] ∧
      (g.bindArguments root names []).1.Hosting (bs ++ bs') others n' := by
  induction names generalizing g bs n with
  | nil =>
    refine ⟨[], n, rfl, rfl, ?_⟩
    rw [List.append_nil]
    exact h
  | cons name names ih =>
    obtain ⟨bs', n', hbs, hrest, hh⟩ := ih (h.addInput name)
    rw [List.append_assoc] at hh
    exact ⟨(⟨g.inputs.size⟩, name) :: bs', n', by simp [hbs], hrest, hh⟩

/-- The first binders host the arguments; those that no binder takes are left over. -/
theorem bindArguments (h : g.Hosting bs others 0) (names : List Char) (arguments : List Term) :
    ∃ bs' trees n, bs'.map Prod.snd = names ∧
      trees.map (fun t => t.reading.nameless? []) =
        (arguments.take names.length).map (fun t => some (t.grouped.nameless [])) ∧
      (g.bindArguments root names arguments).2 = arguments.drop names.length ∧
      (g.bindArguments root names arguments).1.Hosting (bs ++ bs') (others ++ trees) n := by
  induction names generalizing g bs others arguments with
  | nil =>
    refine ⟨[], [], 0, rfl, rfl, rfl, ?_⟩
    rw [List.append_nil, List.append_nil]
    exact h
  | cons name names ih =>
    cases arguments with
    | nil =>
      obtain ⟨bs', n', hbs, hrest, hh⟩ := h.bindArguments_nil (name :: names)
      exact ⟨bs', [], n', hbs, rfl, hrest, by rwa [List.append_nil]⟩
    | cons t ts =>
      have hi := h.addInput name
      have hp : ((g.addInput root name).1.group root).parent = none :=
        congrArg Content.parent hi.content
      obtain ⟨tree, htree, hh⟩ := hi.adopt t
      obtain ⟨bs', trees, n, hbs, htrees, hrest, hh⟩ := ih hh ts
      rw [← hp] at hrest hh
      rw [List.append_assoc, List.append_assoc] at hh
      refine ⟨_ :: bs', tree :: trees, n, by rw [List.map_cons, hbs], ?_, hrest, hh⟩
      rw [List.map_cons, htree, htrees]
      rfl

/-- Every group is in a tree once the root has made and let out what it makes. -/
theorem fed_groups {r : Reading} (h : g.Hosting bs others n) (hf : Fed root g r g') :
    Inventory GroupId.index ((⟨root, bs, r⟩ :: others).flatMap Tree.groups) g'.groups.size := by
  refine (h.groups.append GroupId.index_inj hf.groups).perm ?_
  exact List.perm_append_comm.cons root

/-- What the root makes and lets out completes the forest. -/
theorem fed {r : Reading} (h : g.Hosting bs others n) (hf : Fed root g r g') :
    g'.Forest ⟨root, bs, r⟩ others := by
  have hlt : root.index < g.groups.size := (h.groups.2 root).1 List.mem_cons_self
  have hbinders := hf.reads
  rw [h.binders] at hbinders
  have hroot := hf.homeContent
  rw [h.content] at hroot
  have hgroups := h.fed_groups hf
  refine ⟨hf.sound, rfl, ?_, hgroups.1, ?_, ?_, ?_, ⟨n, ?_⟩, ?_⟩
  · intro t ht
    rcases List.mem_cons.1 ht with rfl | ht
    · exact ⟨congrArg Content.parent hroot, encloses_of_content hroot (.refl _) rfl, hbinders,
        hf.nested⟩
    · refine (h.planted t ht).later h.sound hf.outside fun hm => ?_
      exact (List.nodup_cons.1 h.groups.1).1 (List.mem_flatMap.2 ⟨t, ht, hm⟩)
  · refine (h.inputs.append InputId.index_inj hf.inputs).perm ?_
    rw [List.append_assoc, List.flatMap_cons]
    refine (List.perm_append_comm.append_left _).trans (List.Perm.of_eq ?_)
    exact (List.append_assoc ..).symm
  · refine (h.merges.append MergeId.index_inj hf.merges).perm ?_
    exact List.perm_append_comm
  · intro x hx
    have hd : g'.group x = default := by
      refine group_of_size_le (Nat.le_of_not_lt fun hlt => ?_)
      exact hx ((hgroups.2 x).2 hlt)
    rw [Graph.content, held, hd]
    exact ⟨rfl, rfl⟩
  · rw [hroot, ← h.hosts, List.map_map]
    exact List.map_congr_left fun b _ => hf.hosted b.1
  · intro i hi
    rw [hroot] at hi
    rw [hf.hosted]
    exact h.hostless i hi

end Hosting

/-! ## The graph of a chain -/

/-- The graph of a chain that starts with a group is a forest, and no group lies outside it. Its
first tree reads back as the group with the terms that are left over applied to its body, the others
as the terms before these. -/
theorem exists_whole_forest (names : List Char) (body : Chain) (rest : List Term) :
    ∃ (g : Graph S) (first : Tree) (others : List Tree),
      ofChain? (.ofTerms (.group names body) rest) = .ok g ∧ g.Forest first others ∧
      Inventory GroupId.index ((first :: others).flatMap Tree.groups) g.groups.size ∧
      first.binders.map Prod.snd = names ∧
      first.reading.nameless? [] =
        some (.abs names (((rest.drop names.length).map (Term.nameless [names])).foldl .app
          (body.nameless [names]))) ∧
      others.map (fun t => t.reading.nameless? []) =
        (rest.take names.length).map (fun t => some (t.grouped.nameless [])) := by
  obtain ⟨bs, trees, n, hbs, htrees, hrest, hh⟩ :=
    (empty_hosting (S := S)).bindArguments names rest
  have hchain : ofChain? (.ofTerms (.group names body) rest) = .ok
      (let start := (empty : Graph S).bindArguments root names rest
      let value := start.1.chainValue root body
      let result := value.1.applyTerms root value.2 start.2
      result.1.feed root result.2) := by
    rw [ofChain?, Chain.head_ofTerms, Chain.tail_ofTerms]
  simp only [List.nil_append] at hh
  generalize (empty : Graph S).bindArguments root names rest = start at hrest hh hchain
  have hlt : root.index < start.1.groups.size := (hh.groups.2 root).1 List.mem_cons_self
  have hw : start.1.Workplace root [bs] := by
    refine ⟨hh.sound, hlt, ?_, ?_⟩
    · rw [← hh.binders]
      exact .outermost (congrArg Content.parent hh.content)
    · have hn := (List.nodup_append.1 hh.inputs.1).1
      simpa [binderInputs] using hn
  obtain ⟨r, hr, hnameless⟩ := applyTerms_makes start.2 hw (chainValue_makes body _ _ _ hw)
  have hfed := hr.feed hh.sound hlt hh.producer
  refine ⟨_, _, trees, hchain, hh.fed hfed, hh.fed_groups hfed, hbs, ?_, htrees⟩
  have hd : [bs.map Prod.fst].flatten.Nodup := hw.nodup
  have hscopes : binderNames [bs] = [names] := by
    rw [binderNames, List.map_singleton, hbs]
  rw [hscopes, hrest] at hnameless
  rw [Tree.reading, Reading.nameless?, if_pos hd]
  refine (congrArg (Option.map (Nameless.abs (bs.map Prod.snd))) hnameless).trans ?_
  rw [hbs]
  rfl

/-- The graph of a chain that starts with a group is a forest of the terms of the chain. -/
theorem exists_forest (names : List Char) (body : Chain) (rest : List Term) :
    ∃ (g : Graph S) (first : Tree) (others : List Tree),
      ofChain? (.ofTerms (.group names body) rest) = .ok g ∧ g.Forest first others ∧
      first.binders.map Prod.snd = names ∧
      first.reading.nameless? [] =
        some (.abs names (((rest.drop names.length).map (Term.nameless [names])).foldl .app
          (body.nameless [names]))) ∧
      others.map (fun t => t.reading.nameless? []) =
        (rest.take names.length).map (fun t => some (t.grouped.nameless [])) := by
  obtain ⟨g, first, others, hg, hforest, -, hreads⟩ :=
    exists_whole_forest (S := S) names body rest
  exact ⟨g, first, others, hg, hforest, hreads⟩

/-- Building keeps the meaning. When no term that is left over has a free occurrence of a binder of
the root, the root reads back as its body applied to the terms left over, from left to right, under
its binders; and an input of the root hosts a group just when there is a term for it, which is what
the group reads back as. -/
theorem built_reads_back (names : List Char) (body : Chain) (rest : List Term)
    (hfree : ∀ t ∈ rest.drop names.length, ∀ c ∈ names, t.hasFree c = false) :
    ∃ g : Graph S, ofChain? (.ofTerms (.group names body) rest) = .ok g ∧
      (∃ r, g.Reads (some (.output root)) r ∧ r.nameless? [] =
        some (.abs names (((rest.drop names.length).map (Term.nameless [])).foldl .app
          (body.nameless [names])))) ∧
      (g.group root).inputs.length = names.length ∧
      ∀ (k : Nat) (hk : k < (g.group root).inputs.length),
        match rest[k]? with
        | none => (g.input (g.group root).inputs[k]).hosted = none
        | some t => ∃ x r, (g.input (g.group root).inputs[k]).hosted = some x ∧
            g.Reads (some (.output x)) r ∧ r.nameless? [] = some (t.grouped.nameless []) := by
  obtain ⟨g, first, others, hg, hforest, hnames, hfirst, hothers⟩ :=
    exists_forest (S := S) names body rest
  have hroot := (hforest.planted first List.mem_cons_self).reads
  have hinputs : (g.group root).inputs.length = names.length := by
    rw [← hnames, ← hroot.2.2.1, ← hforest.root]
    simp [binders]
  refine ⟨g, hg, ⟨first.reading, ?_, ?_⟩, hinputs, ?_⟩
  · rw [← hforest.root]
    exact hroot
  · -- where no binder of the root occurs free, its scope does not matter
    rw [hfirst, List.map_congr_left]
    intro t ht
    have happend : t.nameless ([] ++ [names]) = t.nameless [] := by
      apply t.nameless_append
      intro c hc hf
      rw [hfree t ht c hc] at hf
      cases hf
    exact happend
  · intro k hk
    obtain ⟨n, hosts⟩ := hforest.hosts
    have hhost : (others.map (fun t => some t.top) ++ List.replicate n none)[k]? =
        some (g.input (g.group root).inputs[k]).hosted := by
      rw [← hosts, List.getElem?_map]
      exact congrArg _ (List.getElem?_eq_getElem hk)
    have hterm : (others[k]?).map (fun t => t.reading.nameless? []) =
        (rest[k]?).map (fun t => some (t.grouped.nameless [])) := by
      rw [← List.getElem?_map, hothers, List.getElem?_map,
        List.getElem?_take_of_lt (hinputs ▸ hk)]
    cases hrest : rest[k]? with
    | none =>
      rw [hrest, Option.map_none, Option.map_eq_none_iff, List.getElem?_eq_none_iff] at hterm
      rw [List.getElem?_append_right (by simpa using hterm)] at hhost
      exact (List.eq_of_mem_replicate (List.mem_of_getElem? hhost))
    | some t =>
      rw [hrest, Option.map_some, Option.map_eq_some_iff] at hterm
      obtain ⟨tree, htree, hn⟩ := hterm
      have hlt : k < others.length := (List.getElem?_eq_some_iff.1 htree).1
      rw [List.getElem?_append_left (by simpa using hlt), List.getElem?_map, htree] at hhost
      refine ⟨tree.top, tree.reading, (Option.some.inj hhost).symm, ?_, hn⟩
      exact (hforest.planted tree (List.mem_cons_of_mem _ (List.mem_of_getElem? htree))).reads

/-- The identity takes the identity, and what is left over, a free variable, is applied to in the
root. -/
theorem built_reads_back_identity :
    (∀ t ∈ [Term.group ['x'] (.last (.var 'x')), .var 'y'].drop 1, ∀ c ∈ ['x'],
      t.hasFree c = false) ∧
    ∃ g : Graph Float, ofChain? (.ofTerms (.group ['x'] (.last (.var 'x')))
        [.group ['x'] (.last (.var 'x')), .var 'y']) = .ok g ∧
      ∃ r, g.Reads (some (.output root)) r ∧
        r.nameless? [] = some (.abs ['x'] (.app (.bound 0 0) .hole)) := by
  have hfree : ∀ t ∈ [Term.group ['x'] (.last (.var 'x')), .var 'y'].drop 1, ∀ c ∈ ['x'],
      t.hasFree c = false := by
    intro t ht c hc
    obtain rfl := List.mem_singleton.1 ht
    obtain rfl := List.mem_singleton.1 hc
    decide
  obtain ⟨g, hg, ⟨r, hr, hn⟩, -⟩ := built_reads_back (S := Float) ['x'] (.last (.var 'x'))
    [.group ['x'] (.last (.var 'x')), .var 'y'] hfree
  exact ⟨hfree, g, hg, r, hr, hn⟩

end Graph

end LambdaDiagram
