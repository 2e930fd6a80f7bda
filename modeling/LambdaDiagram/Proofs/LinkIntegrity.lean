import LambdaDiagram.Proofs.Flattening

/-!
The links of live nodes. In a forest the two ends of each link agree: a live input lists the slots
that hold it, any other live value is held by one slot and leads there, and the tops of the trees
are held by none. A graph is a forest both as it is built and after it has been flattened.
-/

namespace LambdaDiagram

variable {S : Type} [Scalar S]

namespace Graph

/-- The slots of live nodes: both slots of each live merge, and the output of each live group. -/
def liveSlots (g : Graph S) : List Slot :=
  g.liveMerges.flatMap (fun m => [.function m, .argument m]) ++ g.liveGroups.map .producer

/-- A value comes from a live node. -/
def LiveSource (g : Graph S) : Source → Prop
  | .input i => i ∈ g.liveInputs
  | .merge m => m ∈ g.liveMerges
  | .output x => x ∈ g.liveGroups

/-- A value goes to a live node. -/
def LiveSink (g : Graph S) : Sink → Prop
  | .merge m => m ∈ g.liveMerges
  | .output x => x ∈ g.liveGroups

/-- The live slots that hold a value. -/
def holders (g : Graph S) (source : Source) : List Slot :=
  g.liveSlots.filter fun s => g.held s = some source

/-- The two ends of each link between live nodes agree. -/
structure LinksAgree (g : Graph S) : Prop where
  /-- Each live slot is listed once. -/
  slots : g.liveSlots.Nodup
  /-- What a live slot holds comes from a live node. -/
  sources : ∀ s ∈ g.liveSlots, ∀ source, g.held s = some source → g.LiveSource source
  /-- Where a live value is noted to go, there is a live node. -/
  sinks : ∀ source, g.LiveSource source → ∀ sink ∈ g.noted source, g.LiveSink sink
  /-- A live input is used once for each live slot that holds it. -/
  usages : ∀ i ∈ g.liveInputs, (g.input i).usages.Perm ((g.holders (.input i)).map Slot.sink)
  /-- A live merge is held by one slot and leads there. -/
  merges : ∀ m ∈ g.liveMerges, ∃ s, g.holders (.merge m) = [s] ∧
    (g.merge m).consumer = some s.sink
  /-- A live group that is a sub-group is held by one slot and leads there. -/
  subgroups : ∀ x ∈ g.liveGroups, (∃ y, x ∈ (g.group y).subgroups) →
    ∃ s, g.holders (.output x) = [s] ∧ (g.group x).output.downstream = some s.sink
  /-- The root and the groups that inputs host lead nowhere and are held by no slot. -/
  tops : ∀ x, (x = root ∨ ∃ i, (g.input i).hosted = some x) →
    (g.group x).output.downstream = none ∧ ∀ s, g.held s ≠ some (.output x)

variable {g : Graph S} {home : GroupId} {r b : Reading} {value : Option Source} {source : Source}
variable {first : Tree} {others : List Tree}

/-! ## What lies in the groups of a reading -/

/-- The groups of a reading have the inputs that it binds. -/
theorem Reads.flatMap_inputs (h : g.Reads value r) :
    r.groups.flatMap (fun x => (g.group x).inputs) = r.inputs := by
  induction r generalizing value with
  | hole | var => rfl
  | app m f a ihf iha =>
    obtain ⟨-, -, hf, ha⟩ := h
    rw [Reading.groups, List.flatMap_append, ihf hf, iha ha]
    rfl
  | abs x bs b ih =>
    obtain ⟨-, -, hbs, hb⟩ := h
    rw [Reading.groups, List.flatMap_cons, ih hb, ← map_fst_binders, hbs]
    rfl

/-- The groups of a reading and the one around them have its merges. -/
theorem Nested.flatMap_merges (h : g.Nested home b) :
    (b.ownMerges ++ b.groups.flatMap fun x => (g.group x).merges).Perm b.merges := by
  induction b generalizing home with
  | hole | var => exact List.Perm.refl _
  | app m f a ihf iha =>
    refine List.Perm.trans ?_ (((ihf h.1).append (iha h.2)).append_right [m])
    rw [List.perm_iff_count]
    intro n
    simp only [Reading.ownMerges, Reading.groups, List.flatMap_append, List.count_append]
    omega
  | abs x bs b ih =>
    obtain ⟨-, ⟨hm, -⟩, hb⟩ := h
    rw [Reading.ownMerges, Reading.groups, List.flatMap_cons, List.nil_append]
    exact (hm.append_right _).trans (ih hb)

/-! ## Live slots -/

/-- The sink of a live slot is live. -/
theorem liveSink_of_liveSlot {s : Slot} (hs : s ∈ g.liveSlots) : g.LiveSink s.sink := by
  rcases List.mem_append.1 hs with hs | hs
  · obtain ⟨m, hm, hs⟩ := List.mem_flatMap.1 hs
    simp only [List.mem_cons, List.not_mem_nil, or_false] at hs
    rcases hs with rfl | rfl
    · exact hm
    · exact hm
  · obtain ⟨x, hx, rfl⟩ := List.mem_map.1 hs
    exact hx

theorem nodup_slots_of_merges {l : List MergeId} (h : l.Nodup) :
    (l.flatMap fun m => [Slot.function m, .argument m]).Nodup := by
  induction l with
  | nil => exact List.nodup_nil
  | cons m l ih =>
    obtain ⟨hm, hl⟩ := List.nodup_cons.1 h
    rw [List.flatMap_cons]
    refine List.nodup_append.2 ⟨by simp, ih hl, ?_⟩
    intro s hs s' hs' he
    obtain ⟨n, hn, hs'⟩ := List.mem_flatMap.1 hs'
    simp only [List.mem_cons, List.not_mem_nil, or_false] at hs hs'
    have hmn : m = n := by
      subst he
      rcases hs with rfl | rfl <;> rcases hs' with hs' | hs' <;> cases hs' <;> rfl
    exact hm (hmn ▸ hn)

namespace Forest

variable (h : g.Forest first others)

include h

/-! ## Live nodes -/

/-- Every merge is live. -/
theorem liveMerges_inventory : Inventory MergeId.index g.liveMerges g.merges.size := by
  have hlive : g.liveMerges.Perm
      (((first :: others).flatMap Tree.groups).flatMap fun x => (g.group x).merges) :=
    h.liveGroups_perm.flatMap_right _
  rw [List.flatMap_assoc] at hlive
  refine h.merges.perm (hlive.trans (List.Perm.flatMap_left _ fun t ht => ?_)).symm
  have hp := h.planted t ht
  have hm : (t.groups.flatMap fun x => (g.group x).merges) =
      (g.group t.top).merges ++ t.body.groups.flatMap fun x => (g.group x).merges :=
    List.flatMap_cons
  rw [hm]
  exact (hp.encloses.1.append_right _).trans hp.nested.flatMap_merges

/-- Every input is live. -/
theorem liveInputs_inventory : Inventory InputId.index g.liveInputs g.inputs.size := by
  have hlive : g.liveInputs.Perm
      (((first :: others).flatMap Tree.groups).flatMap fun x => (g.group x).inputs) :=
    h.liveGroups_perm.flatMap_right _
  rw [List.flatMap_assoc] at hlive
  refine h.inputs.perm (hlive.trans (List.Perm.flatMap_left _ fun t ht => ?_)).symm
  exact List.Perm.of_eq (h.planted t ht).reads.flatMap_inputs

theorem mem_liveGroups_of_tree {t : Tree} (ht : t ∈ first :: others) {x : GroupId}
    (hx : x ∈ t.groups) : x ∈ g.liveGroups :=
  h.mem_liveGroups.2 (List.mem_flatMap.2 ⟨t, ht, hx⟩)

theorem mem_liveSlots_of_tree {t : Tree} (ht : t ∈ first :: others) {s : Slot}
    (hs : s ∈ t.slots) : s ∈ g.liveSlots := by
  have hmerge : ∀ m ∈ t.merges, m ∈ g.liveMerges := by
    intro m hm
    rw [h.liveMerges_inventory.2, ← h.merges.2]
    exact List.mem_flatMap.2 ⟨t, ht, hm⟩
  cases s with
  | function m =>
    have hm := hmerge m (Reading.function_mem_slots.1 hs)
    exact List.mem_append_left _ (List.mem_flatMap.2 ⟨m, hm, by simp⟩)
  | argument m =>
    have hm := hmerge m (Reading.argument_mem_slots.1 hs)
    exact List.mem_append_left _ (List.mem_flatMap.2 ⟨m, hm, by simp⟩)
  | producer x =>
    have hx := h.mem_liveGroups_of_tree ht (Reading.producer_mem_slots.1 hs)
    exact List.mem_append_right _ (List.mem_map_of_mem hx)

/-- Whatever holds a value is live. -/
theorem mem_liveSlots {s : Slot} (hs : g.held s = some source) : s ∈ g.liveSlots := by
  obtain ⟨t, ht, hm⟩ := h.slot_mem hs
  exact h.mem_liveSlots_of_tree ht hm

theorem nodup_liveSlots : g.liveSlots.Nodup := by
  have hgroups : g.liveGroups.Nodup := h.liveGroups_perm.nodup_iff.2 h.groups
  refine List.nodup_append.2 ⟨nodup_slots_of_merges h.liveMerges_inventory.1, ?_, ?_⟩
  · refine List.Pairwise.map Slot.producer ?_ hgroups
    rintro x y hne ⟨⟩
    exact hne rfl
  · -- merges and groups have no slot in common
    intro s hs s' hs' he
    obtain ⟨m, -, hm⟩ := List.mem_flatMap.1 hs
    obtain ⟨x, -, rfl⟩ := List.mem_map.1 hs'
    subst he
    simp at hm

/-! ## Holders -/

/-- The live slots that hold a value are the slots that hold it. -/
theorem mem_holders {s : Slot} : s ∈ g.holders source ↔ g.held s = some source := by
  rw [holders, List.mem_filter, decide_eq_true_eq]
  exact ⟨fun hs => hs.2, fun hs => ⟨h.mem_liveSlots hs, hs⟩⟩

theorem nodup_holders : (g.holders source).Nodup := h.nodup_liveSlots.filter _

/-- A value that is noted to go to one sink at most, and that some slot holds, is held by that slot
alone. -/
theorem holders_eq_singleton {s : Slot} (hs : g.held s = some source)
    (hlen : (g.noted source).length ≤ 1) :
    g.holders source = [s] ∧ g.noted source = [s.sink] := by
  refine ⟨?_, h.sound.linked.noted_eq_singleton hlen hs⟩
  rw [← List.perm_singleton]
  refine (List.perm_ext_iff_of_nodup h.nodup_holders (List.pairwise_singleton _ s)).2 fun s' => ?_
  rw [h.mem_holders, List.mem_singleton]
  refine ⟨fun hs' => h.sound.linked.slot_unique hlen hs' hs, ?_⟩
  rintro rfl
  exact hs

/-- How many slots of a sink hold a value is how many holders of the value belong to the sink. -/
theorem count_holders (sink : Sink) :
    ((g.holders source).map Slot.sink).count sink = sink.holding g.held source := by
  rw [List.count_eq_countP, List.countP_map, List.countP_eq_length_filter, Sink.holding,
    List.countP_eq_length_filter]
  refine ((List.perm_ext_iff_of_nodup (h.nodup_holders.filter _)
    (sink.nodup_slots.filter _)).2 fun s => ?_).length_eq
  rw [List.mem_filter, List.mem_filter, h.mem_holders, Sink.mem_slots]
  simp only [Function.comp_apply, beq_iff_eq, decide_eq_true_eq]
  exact and_comm

/-! ## Both ends of the links -/

theorem liveSource {s : Slot} (hs : g.held s = some source) : g.LiveSource source := by
  obtain ⟨t, ht, hm⟩ := h.slot_mem hs
  have hw := h.within ht hm hs
  cases source with
  | input i => exact (h.liveInputs_inventory.2 i).2 hw
  | merge m =>
    refine (h.liveMerges_inventory.2 m).2 ((h.merges.2 m).1 ?_)
    exact List.mem_flatMap.2 ⟨t, ht, hw⟩
  | output x => exact h.mem_liveGroups_of_tree ht (List.mem_cons_of_mem _ hw)

/-- A live merge is held. -/
theorem exists_held_merge {m : MergeId} (hm : m ∈ g.liveMerges) :
    ∃ s, g.held s = some (.merge m) := by
  rw [h.liveMerges_inventory.2, ← h.merges.2] at hm
  obtain ⟨t, ht, hm⟩ := List.mem_flatMap.1 hm
  have hr : g.Reads (g.held (.producer t.top)) t.body := (h.planted t ht).reads.2.2.2
  obtain ⟨s, -, hs⟩ := hr.exists_held_merge hm
  exact ⟨s, hs⟩

/-- A sub-group is held. -/
theorem exists_held_subgroup {x y : GroupId} (hx : x ∈ (g.group y).subgroups) :
    ∃ s, g.held s = some (.output x) := by
  obtain ⟨t, ht, hbody⟩ := h.mem_body_of_subgroup hx
  have hr : g.Reads (g.held (.producer t.top)) t.body := (h.planted t ht).reads.2.2.2
  obtain ⟨s, -, hs⟩ := hr.exists_held_output hbody
  exact ⟨s, hs⟩

/-- In a forest the two ends of each link agree. -/
theorem linksAgree : g.LinksAgree := by
  have hlinked := h.sound.linked
  refine ⟨h.nodup_liveSlots, fun s _ source hs => h.liveSource hs, ?_, ?_, ?_, ?_, ?_⟩
  · intro source _ sink hsink
    obtain ⟨s, rfl, hs⟩ := hlinked.exists_held hsink
    exact liveSink_of_liveSlot (h.mem_liveSlots hs)
  · intro i _
    rw [List.perm_iff_count]
    intro sink
    rw [h.count_holders]
    exact hlinked (.input i) sink
  · intro m hm
    obtain ⟨s, hs⟩ := h.exists_held_merge hm
    have hlen : (g.noted (.merge m)).length ≤ 1 := by
      cases hc : (g.merge m).consumer <;> simp [noted, hc]
    obtain ⟨hone, hnoted⟩ := h.holders_eq_singleton hs hlen
    refine ⟨s, hone, ?_⟩
    cases hc : (g.merge m).consumer <;> simp_all [noted]
  · rintro x - ⟨y, hx⟩
    obtain ⟨s, hs⟩ := h.exists_held_subgroup hx
    have hlen : (g.noted (.output x)).length ≤ 1 := by
      cases hd : (g.group x).output.downstream <;> simp [noted, hd]
    exact ⟨s, (h.holders_eq_singleton hs hlen).1, hlinked.downstream_eq hs⟩
  · intro x hx
    obtain ⟨t, ht, rfl⟩ := h.exists_tree hx
    refine ⟨?_, h.held_ne_top ht⟩
    by_contra hn
    obtain ⟨sink, hsink⟩ := Option.ne_none_iff_exists'.1 hn
    have hm : sink ∈ g.noted (.output t.top) := by simp [noted, hsink]
    obtain ⟨s, -, hs⟩ := hlinked.exists_held hm
    exact h.held_ne_top ht s hs

end Forest

/-- Link integrity: both in the graph of a chain that starts with a group and in that graph after
flattening, the two ends of each link between live nodes agree. -/
theorem links_agree (names : List Char) (body : Chain) (rest : List Term) :
    ∃ g : Graph S, ofChain? (.ofTerms (.group names body) rest) = .ok g ∧ g.LinksAgree ∧
      g.flatten.LinksAgree := by
  obtain ⟨g, first, others, hg, hforest, -⟩ := exists_forest (S := S) names body rest
  exact ⟨g, hg, hforest.linksAgree, hforest.flatten.1.linksAgree⟩

end Graph

end LambdaDiagram
