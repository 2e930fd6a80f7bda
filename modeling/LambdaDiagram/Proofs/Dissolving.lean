import LambdaDiagram.Proofs.Growth

/-!
What taking one group out of a graph does, apart from where things are drawn. The two links that
meet in the group's output become one, and the group around it takes over what it contained. Both
ends of the new link agree when both ends of the old ones did.
-/

namespace LambdaDiagram

variable {S : Type} [Scalar S]

namespace Graph

/-- Two graphs with the same nodes, whose inputs have the same labels. -/
structure SameNodes (g g' : Graph S) : Prop where
  groups_size : g'.groups.size = g.groups.size
  inputs_size : g'.inputs.size = g.inputs.size
  merges_size : g'.merges.size = g.merges.size
  label : g'.label = g.label

variable {g g' g'' : Graph S} {id home : GroupId} {slot : Slot}

theorem SameNodes.refl (g : Graph S) : g.SameNodes g := ⟨rfl, rfl, rfl, rfl⟩

theorem SameNodes.trans (h : g.SameNodes g') (h' : g'.SameNodes g'') : g.SameNodes g'' :=
  ⟨h'.groups_size.trans h.groups_size, h'.inputs_size.trans h.inputs_size,
    h'.merges_size.trans h.merges_size, h'.label.trans h.label⟩

theorem modifyGroup_sameNodes (g : Graph S) (x : GroupId) (f : Group S → Group S) :
    g.SameNodes (g.modifyGroup x f) :=
  ⟨groups_size_modifyGroup, rfl, rfl, rfl⟩

/-! ## Moving the ends of a link -/

section

variable (source : Source) (old new : Sink)

theorem redirect_sameNodes (g : Graph S) (sink : Option Sink) :
    g.SameNodes (g.redirect source old sink) := by
  cases source with
  | input i =>
    refine ⟨rfl, ?_, rfl, ?_⟩
    · simp [redirect, modifyInput]
    · funext j
      simp only [label, redirect, input_modifyInput]
      split
      · cases sink <;> rfl
      · rfl
  | merge m =>
    refine ⟨rfl, rfl, ?_, rfl⟩
    simp [redirect, modifyMerge]
  | output x => exact modifyGroup_sameNodes ..

@[simp] theorem content_redirect (sink : Option Sink) :
    (g.redirect source old sink).content = g.content := by
  cases source with
  | input i => rfl
  | merge m => rfl
  | output x =>
    apply content_modifyGroup_eq
    intro group
    rfl

@[simp] theorem held_redirect (sink : Option Sink) :
    (g.redirect source old sink).held = g.held := by
  cases source with
  | input i =>
    funext s
    cases s <;> rfl
  | merge m =>
    funext s
    cases s with
    | function n | argument n =>
      simp only [held, redirect, merge_modifyMerge]
      split
      · split <;> rfl
      · rfl
    | producer x => rfl
  | output x =>
    apply held_modifyGroup_eq
    intro group
    dsimp only
    split <;> rfl

/-- A value that goes to one place at most goes to another instead. -/
theorem toList_redirect (sink : Option Sink) :
    (if sink = some old then some new else sink).toList =
      sink.toList.map fun sink => if sink = old then new else sink := by
  cases sink with
  | none => rfl
  | some sink =>
    by_cases h : sink = old
    · simp [h]
    · simp [h]

/-- The value goes to the new sink wherever it went to the old one. -/
theorem noted_redirect (x : Source) : (g.redirect source old (some new)).noted x =
    if x = source then (g.noted x).map fun sink => if sink = old then new else sink
    else g.noted x := by
  cases source with
  | input i =>
    cases x with
    | input j =>
      simp only [noted, redirect, input_modifyInput, Source.input.injEq]
      by_cases he : j = i
      · subst he
        by_cases hlt : j.index < g.inputs.size
        · rw [if_pos ⟨rfl, hlt⟩, if_pos rfl]
        · rw [if_neg fun h => hlt h.2, if_pos rfl, input_of_size_le (Nat.le_of_not_lt hlt)]
          rfl
      · rw [if_neg fun h => he h.1.symm, if_neg he]
    | merge n => rfl
    | output y => rfl
  | merge m =>
    cases x with
    | input j => rfl
    | merge n =>
      simp only [noted, redirect, merge_modifyMerge, Source.merge.injEq]
      by_cases he : n = m
      · subst he
        rw [if_pos rfl, ← toList_redirect]
        by_cases hlt : n.index < g.merges.size
        · rw [if_pos ⟨rfl, hlt⟩]
          split <;> rfl
        · rw [if_neg fun h => hlt h.2, merge_of_size_le (Nat.le_of_not_lt hlt)]
          rfl
      · rw [if_neg fun h => he h.1.symm, if_neg he]
    | output y => rfl
  | output z =>
    cases x with
    | input j => rfl
    | merge n => rfl
    | output y =>
      simp only [noted, redirect, modifyOutput, group_modifyGroup, Source.output.injEq]
      by_cases he : y = z
      · subst he
        rw [if_pos rfl, ← toList_redirect]
        by_cases hlt : y.index < g.groups.size
        · rw [if_pos ⟨rfl, hlt⟩]
          split <;> rfl
        · rw [if_neg fun h => hlt h.2, group_of_size_le (Nat.le_of_not_lt hlt)]
          rfl
      · rw [if_neg fun h => he h.1.symm, if_neg he]

end

section

variable (sink : Sink) (old : Source) (new : Option Source)

theorem reroute_sameNodes (g : Graph S) : g.SameNodes (g.reroute sink old new) := by
  cases sink with
  | merge m =>
    refine ⟨rfl, rfl, ?_, rfl⟩
    simp [reroute, modifyMerge]
  | output x => exact modifyGroup_sameNodes ..

@[simp] theorem content_reroute : (g.reroute sink old new).content = g.content := by
  cases sink with
  | merge m => rfl
  | output x =>
    apply content_modifyGroup_eq
    intro group
    rfl

@[simp] theorem noted_reroute : (g.reroute sink old new).noted = g.noted := by
  cases sink with
  | merge m =>
    funext x
    cases x with
    | input i => rfl
    | merge n =>
      simp only [noted, reroute, merge_modifyMerge]
      split <;> rfl
    | output y => rfl
  | output x =>
    apply noted_modifyGroup_eq
    intro group
    dsimp only
    split <;> rfl

/-- The slots of the sink that held the old value hold the new one. -/
theorem held_reroute (s : Slot) : (g.reroute sink old new).held s =
    if s.sink = sink ∧ g.held s = some old then new else g.held s := by
  by_cases hs : g.HasSlot s
  · cases sink with
    | merge m =>
      cases s with
      | function n =>
        have hlt : n.index < g.merges.size := hs
        simp only [held, reroute, merge_modifyMerge, Slot.sink_function, Sink.merge.injEq]
        by_cases he : m = n
        · simp [he, hlt]
        · simp [he, Ne.symm he]
      | argument n =>
        have hlt : n.index < g.merges.size := hs
        simp only [held, reroute, merge_modifyMerge, Slot.sink_argument, Sink.merge.injEq]
        by_cases he : m = n
        · simp [he, hlt]
        · simp [he, Ne.symm he]
      | producer y => simp [held, reroute]
    | output x =>
      cases s with
      | function n => simp [held, reroute, modifyOutput]
      | argument n => simp [held, reroute, modifyOutput]
      | producer y =>
        have hlt : y.index < g.groups.size := hs
        simp only [held, reroute, modifyOutput, group_modifyGroup, Slot.sink_producer,
          Sink.output.injEq]
        by_cases he : x = y
        · subst he
          simp only [hlt, and_self, if_true, true_and]
          split <;> rfl
        · simp [he, Ne.symm he]
  · -- a slot that is not there holds nothing before or after
    have hs' : ¬ (g.reroute sink old new).HasSlot s := by
      have hn := reroute_sameNodes sink old new g
      cases s <;> simpa [HasSlot, hn.groups_size, hn.merges_size] using hs
    rw [held_eq_none hs', held_eq_none hs]
    simp

end

/-! ## Joining two links -/

theorem bypass_eq {sink : Sink} (h : (g.group id).output.downstream = some sink) :
    g.bypass id = (match (g.group id).output.producer with
      | none => g
      | some source => g.redirect source (.output id) (some sink)).reroute sink (.output id)
        (g.group id).output.producer := by
  cases hp : (g.group id).output.producer with
  | none => simp only [bypass, hp, h]
  | some source => simp only [bypass, hp, h]

/-- A group that a slot holds leads to that slot. -/
theorem Linked.downstream_eq (hg : g.Linked) (hslot : g.held slot = some (.output id)) :
    (g.group id).output.downstream = some slot.sink := by
  have hn := hg.noted_eq_singleton (by cases h : (g.group id).output.downstream <;> simp [noted, h])
    hslot
  rw [noted] at hn
  cases h : (g.group id).output.downstream with
  | none =>
    rw [h] at hn
    cases hn
  | some sink =>
    rw [h] at hn
    exact congrArg some (List.singleton_inj.1 hn)

theorem bypass_sameNodes (g : Graph S) (id : GroupId) : g.SameNodes (g.bypass id) := by
  unfold bypass
  dsimp only
  cases (g.group id).output.producer <;> cases (g.group id).output.downstream
  · exact .refl g
  · exact reroute_sameNodes ..
  · exact redirect_sameNodes ..
  · exact (redirect_sameNodes ..).trans (reroute_sameNodes ..)

@[simp] theorem content_bypass (g : Graph S) (id : GroupId) :
    (g.bypass id).content = g.content := by
  unfold bypass
  dsimp only
  cases (g.group id).output.producer <;> cases (g.group id).output.downstream <;>
    simp only [content_redirect, content_reroute]

section

variable (hg : g.Linked) (hslot : g.held slot = some (.output id))

include hg hslot

/-- The slot that held the group's output holds what the output held. -/
theorem held_bypass (s : Slot) :
    (g.bypass id).held s = if s = slot then g.held (.producer id) else g.held s := by
  have hsame : (match (g.group id).output.producer with
      | none => g
      | some source => g.redirect source (.output id) (some slot.sink)).held = g.held := by
    cases (g.group id).output.producer with
    | none => rfl
    | some source => exact held_redirect ..
  rw [bypass_eq (hg.downstream_eq hslot), held_reroute, hsame]
  have hone : (g.noted (.output id)).length ≤ 1 := by
    rw [noted, hg.downstream_eq hslot]
    exact Nat.le_refl _
  by_cases hs : s = slot
  · subst hs
    rw [if_pos ⟨rfl, hslot⟩, if_pos rfl]
    rfl
  · rw [if_neg fun h => hs (hg.slot_unique hone h.2 hslot), if_neg hs]

/-- What the group's output held goes to where the output led. -/
theorem noted_bypass (x : Source) : (g.bypass id).noted x =
    if g.held (.producer id) = some x then
      (g.noted x).map fun sink => if sink = .output id then slot.sink else sink
    else g.noted x := by
  have hp : g.held (.producer id) = (g.group id).output.producer := rfl
  rw [bypass_eq (hg.downstream_eq hslot), noted_reroute, hp]
  cases (g.group id).output.producer with
  | none => rfl
  | some source =>
    rw [noted_redirect]
    simp only [Option.some.injEq, eq_comm]

end

/-! ## Dissolving a group -/

/-- Groups get another parent and nothing else changes. -/
theorem foldl_reparent (home : GroupId) (orphans : List GroupId) (g : Graph S) :
    let g' := orphans.foldl (fun g orphan =>
      g.modifyGroup orphan fun group => { group with parent := some home }) g
    g.SameNodes g' ∧ g'.held = g.held ∧ g'.noted = g.noted ∧
      ∀ x, x.index < g.groups.size → g'.content x =
        if x ∈ orphans then { g.content x with parent := some home } else g.content x := by
  induction orphans generalizing g with
  | nil => exact ⟨.refl g, rfl, rfl, fun x _ => by simp⟩
  | cons orphan orphans ih =>
    let between := g.modifyGroup orphan fun group => { group with parent := some home }
    have hb : g.SameNodes between := modifyGroup_sameNodes ..
    have hheld : between.held = g.held := held_modifyGroup_eq fun _ => rfl
    have hnoted : between.noted = g.noted := noted_modifyGroup_eq fun _ => rfl
    obtain ⟨hn, hh, hno, hc⟩ := ih between
    refine ⟨hb.trans hn, hh.trans hheld, hno.trans hnoted, ?_⟩
    intro x hx
    rw [List.foldl_cons, hc x (by rw [hb.groups_size]; exact hx)]
    by_cases ho : orphan.index < g.groups.size
    · have hx' : between.content x =
          if x = orphan then { g.content orphan with parent := some home } else g.content x :=
        content_modifyGroup (fun c => { c with parent := some home }) ho (fun _ => rfl) x
      rw [hx']
      by_cases he : x = orphan
      · subst he
        simp
      · simp [he]
    · have he : x ≠ orphan := by
        rintro rfl
        exact ho hx
      have hx' : between.content x = g.content x := by
        simp only [between, content, group_modifyGroup]
        rw [if_neg fun h => he h.1.symm]
      rw [hx']
      simp [he]

/-- A group with nothing in it but its inputs, from which nothing leaves. -/
def cleared (group : Group S) : Group S :=
  { group with
    merges := []
    subgroups := []
    output := { group.output with producer := none, downstream := none } }

section

variable (hid : id.index < g.groups.size)

include hid

theorem content_cleared (x : GroupId) : (g.modifyGroup id cleared).content x =
    if x = id then { g.content id with merges := [], subgroups := [] } else g.content x :=
  content_modifyGroup (fun c => { c with merges := [], subgroups := [] }) hid (fun _ => rfl) x

theorem held_cleared (s : Slot) : (g.modifyGroup id cleared).held s =
    if s = .producer id then none else g.held s := by
  cases s with
  | function m => simp [held]
  | argument m => simp [held]
  | producer x =>
    simp only [held, group_modifyGroup, Slot.producer.injEq]
    by_cases hx : x = id
    · subst hx
      rw [if_pos ⟨rfl, hid⟩, if_pos rfl]
      rfl
    · rw [if_neg fun h => hx h.1.symm, if_neg hx]

theorem noted_cleared (x : Source) : (g.modifyGroup id cleared).noted x =
    if x = .output id then [] else g.noted x := by
  cases x with
  | input i => simp [noted]
  | merge m => simp [noted]
  | output x =>
    simp only [noted, group_modifyGroup, Source.output.injEq]
    by_cases hx : x = id
    · subst hx
      rw [if_pos ⟨rfl, hid⟩, if_pos rfl]
      rfl
    · rw [if_neg fun h => hx h.1.symm, if_neg hx]

end

/-- The graph with a group taken out of its links and cleared, and with its sub-groups in the group
around it. -/
def detach (g : Graph S) (id home : GroupId) : Graph S :=
  (g.content id).subgroups.foldl
    (fun g orphan => g.modifyGroup orphan fun group => { group with parent := some home })
    ((g.bypass id).modifyGroup id cleared)

/-- A group is dissolved by detaching it and adding its merges to the group around it. -/
theorem dissolve_eq (g : Graph S) (id home : GroupId) :
    g.dissolve id home = ((g.detach id home).modifyGroup home fun group =>
      { group with merges := group.merges ++ (g.content id).merges },
      (g.content id).subgroups) := by
  have hcontent : g.content id = (g.bypass id).content id := by
    rw [content_bypass]
  rw [detach, hcontent]
  rfl

theorem detach_sameNodes (g : Graph S) (id home : GroupId) : g.SameNodes (g.detach id home) :=
  (bypass_sameNodes g id).trans
    ((modifyGroup_sameNodes (g.bypass id) id cleared).trans (foldl_reparent ..).1)

theorem content_detach (hid : id.index < g.groups.size) (home : GroupId)
    (hnotin : id ∉ (g.content id).subgroups) {x : GroupId}
    (hx : x.index < g.groups.size) : (g.detach id home).content x =
      if x = id then { g.content id with merges := [], subgroups := [] }
      else if x ∈ (g.content id).subgroups then { g.content x with parent := some home }
      else g.content x := by
  have hsize := (g.bypass_sameNodes id).groups_size
  have hid' : id.index < (g.bypass id).groups.size := by
    rw [hsize]
    exact hid
  have hx' : x.index < ((g.bypass id).modifyGroup id cleared).groups.size := by
    rw [groups_size_modifyGroup, hsize]
    exact hx
  rw [detach, (foldl_reparent ..).2.2.2 x hx', content_cleared hid', content_bypass]
  by_cases hxi : x = id
  · subst hxi
    rw [if_neg hnotin, if_pos rfl, if_pos rfl]
  · rw [if_neg hxi, if_neg hxi]

section

variable (hg : g.Linked) (hslot : g.held slot = some (.output id)) (hid : id.index < g.groups.size)

include hg hslot hid

theorem held_detach (home : GroupId) (hne : slot ≠ .producer id) (s : Slot) :
    (g.detach id home).held s = if s = slot then g.held (.producer id)
      else if s = .producer id then none else g.held s := by
  have hid' : id.index < (g.bypass id).groups.size := by
    rw [(g.bypass_sameNodes id).groups_size]
    exact hid
  rw [detach, (foldl_reparent ..).2.1, held_cleared hid', held_bypass hg hslot]
  by_cases hs : s = slot
  · rw [if_pos hs, if_pos hs, if_neg (hs ▸ hne)]
  · rw [if_neg hs, if_neg hs]

theorem noted_detach (home : GroupId) (x : Source) : (g.detach id home).noted x =
    if x = .output id then []
    else if g.held (.producer id) = some x then
      (g.noted x).map fun sink => if sink = .output id then slot.sink else sink
    else g.noted x := by
  have hid' : id.index < (g.bypass id).groups.size := by
    rw [(g.bypass_sameNodes id).groups_size]
    exact hid
  rw [detach, (foldl_reparent ..).2.2.1, noted_cleared hid', noted_bypass hg hslot]

theorem Linked.detach (home : GroupId) (hne : slot ≠ .producer id) : (g.detach id home).Linked := by
  refine hg.join hslot hne (held_detach hg hslot hid home hne) (noted_detach hg hslot hid home) ?_
  rw [noted, hg.downstream_eq hslot]
  exact Nat.le_refl _

end

/-- Dissolving a group clears it, gives its sub-groups to the group around it and adds its merges to
the ones there. -/
structure Dissolved (slot : Slot) (id home : GroupId) (g g' : Graph S) : Prop where
  nodes : g.SameNodes g'
  linked : g'.Linked
  held : ∀ s, g'.held s = if s = slot then g.held (.producer id)
    else if s = .producer id then none else g.held s
  cleared : g'.content id = { g.content id with merges := [], subgroups := [] }
  homeContent : g'.content home =
    { g.content home with merges := (g.content home).merges ++ (g.content id).merges }
  content : ∀ x, x.index < g.groups.size → x ≠ id → x ≠ home → g'.content x =
    if x ∈ (g.content id).subgroups then { g.content x with parent := some home }
    else g.content x

/-- The value of a slot that held a group's output goes straight through once it is dissolved. -/
theorem dissolve_dissolved (hg : g.Linked) (hslot : g.held slot = some (.output id))
    (hne : slot ≠ .producer id) (hid : id.index < g.groups.size)
    (hhome : home.index < g.groups.size) (hih : home ≠ id)
    (hnotin : ∀ x ∈ (g.content id).subgroups, x ≠ id ∧ x ≠ home) :
    Dissolved slot id home g (g.dissolve id home).1 ∧
      (g.dissolve id home).2 = (g.content id).subgroups := by
  have hnodes := g.detach_sameNodes id home
  have hcontent : ∀ x, x.index < g.groups.size → (g.detach id home).content x =
      if x = id then { g.content id with merges := [], subgroups := [] }
      else if x ∈ (g.content id).subgroups then { g.content x with parent := some home }
      else g.content x := fun x hx =>
    content_detach hid home (fun h => (hnotin id h).1 rfl) hx
  have hhome' : home.index < (g.detach id home).groups.size := by
    rw [hnodes.groups_size]
    exact hhome
  have hlast : ∀ x, ((g.detach id home).modifyGroup home fun group =>
      { group with merges := group.merges ++ (g.content id).merges }).content x =
        if x = home then
          { (g.detach id home).content home with
            merges := ((g.detach id home).content home).merges ++ (g.content id).merges }
        else (g.detach id home).content x :=
    content_modifyGroup (fun c => { c with merges := c.merges ++ (g.content id).merges }) hhome'
      fun _ => rfl
  rw [dissolve_eq]
  refine ⟨⟨hnodes.trans (modifyGroup_sameNodes ..), ?_, ?_, ?_, ?_, ?_⟩, rfl⟩
  · refine (hg.detach hslot hid home hne).of_eq (held_modifyGroup_eq ?_) (noted_modifyGroup_eq ?_)
    · exact fun _ => rfl
    · exact fun _ => rfl
  · intro s
    rw [← held_detach hg hslot hid home hne, held_modifyGroup_eq]
    exact fun _ => rfl
  · rw [hlast, if_neg (Ne.symm hih), hcontent id hid, if_pos rfl]
  · rw [hlast, if_pos rfl, hcontent home hhome, if_neg hih, if_neg fun h => (hnotin home h).2 rfl]
  · intro x hx hxi hxh
    rw [hlast, if_neg hxh, hcontent x hx, if_neg hxi]

end Graph

end LambdaDiagram
