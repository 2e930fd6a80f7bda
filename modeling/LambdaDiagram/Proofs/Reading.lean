import LambdaDiagram.Diagram.Flatten
import LambdaDiagram.Proofs.Steps

/-!
Reading a graph back. A value reads back as a term whose variables are inputs, whose applications
are merges and whose abstractions are groups, each under its own name; where a variable is free
there is a hole. A reading also says what a graph needs to contain for it: the merges and the groups
that lie in a group directly, and all those anywhere below it, in the order of their creation.
-/

namespace LambdaDiagram

/-- A term read off a graph. -/
inductive Reading where
  | hole
  | var (id : InputId)
  | app (id : MergeId) (function argument : Reading)
  | abs (id : GroupId) (binders : List (InputId × Char)) (body : Reading)
deriving DecidableEq, Repr

namespace Reading

/-- The merges of the group that a reading lies in. -/
def ownMerges : Reading → List MergeId
  | hole => []
  | var _ => []
  | app id f a => f.ownMerges ++ a.ownMerges ++ [id]
  | abs _ _ _ => []

/-- The sub-groups of the group that a reading lies in. -/
def ownGroups : Reading → List GroupId
  | hole => []
  | var _ => []
  | app _ f a => f.ownGroups ++ a.ownGroups
  | abs id _ _ => [id]

/-- All merges of a reading. -/
def merges : Reading → List MergeId
  | hole => []
  | var _ => []
  | app id f a => f.merges ++ a.merges ++ [id]
  | abs _ _ b => b.merges

/-- All groups of a reading. -/
def groups : Reading → List GroupId
  | hole => []
  | var _ => []
  | app _ f a => f.groups ++ a.groups
  | abs id _ b => id :: b.groups

/-- All inputs that a reading binds. -/
def inputs : Reading → List InputId
  | hole => []
  | var _ => []
  | app _ f a => f.inputs ++ a.inputs
  | abs _ bs b => bs.map Prod.fst ++ b.inputs

/-- All slots within a reading. -/
def slots : Reading → List Slot
  | hole => []
  | var _ => []
  | app id f a => .function id :: .argument id :: (f.slots ++ a.slots)
  | abs id _ b => .producer id :: b.slots

/-- A reading without the abstractions that bind nothing. -/
def collapse : Reading → Reading
  | hole => hole
  | var id => var id
  | app id f a => app id f.collapse a.collapse
  | abs id bs b => if bs.isEmpty then b.collapse else abs id bs b.collapse

/-- A reading without the abstractions that bind nothing, but for the outermost. -/
def collapseBody : Reading → Reading
  | abs id bs b => abs id bs b.collapse
  | r => r.collapse

theorem function_mem_slots {m : MergeId} {r : Reading} :
    .function m ∈ r.slots ↔ m ∈ r.merges := by
  induction r with
  | hole | var => simp [slots, merges]
  | app id f a ihf iha => grind [slots, merges]
  | abs id bs b ih => simp [slots, merges, ih]

theorem argument_mem_slots {m : MergeId} {r : Reading} :
    .argument m ∈ r.slots ↔ m ∈ r.merges := by
  induction r with
  | hole | var => simp [slots, merges]
  | app id f a ihf iha => grind [slots, merges]
  | abs id bs b ih => simp [slots, merges, ih]

theorem producer_mem_slots {x : GroupId} {r : Reading} :
    .producer x ∈ r.slots ↔ x ∈ r.groups := by
  induction r with
  | hole | var => simp [slots, groups]
  | app id f a ihf iha => simp [slots, groups, ihf, iha]
  | abs id bs b ih => simp [slots, groups, ih]

theorem nodup_slots {r : Reading} (hg : r.groups.Nodup) (hm : r.merges.Nodup) :
    r.slots.Nodup := by
  induction r with
  | hole | var => exact List.nodup_nil
  | app id f a ihf iha =>
    obtain ⟨hgf, hga, hgd⟩ := List.nodup_append.1 hg
    obtain ⟨hm, -, hmid⟩ := List.nodup_append.1 hm
    obtain ⟨hmf, hma, hmd⟩ := List.nodup_append.1 hm
    have hfun : Slot.function id ∉ f.slots ++ a.slots := by
      rw [List.mem_append, function_mem_slots, function_mem_slots, ← List.mem_append]
      exact fun h => hmid id h id List.mem_cons_self rfl
    have harg : Slot.argument id ∉ f.slots ++ a.slots := by
      rw [List.mem_append, argument_mem_slots, argument_mem_slots, ← List.mem_append]
      exact fun h => hmid id h id List.mem_cons_self rfl
    have hd : ∀ s ∈ f.slots, ∀ t ∈ a.slots, s ≠ t := by
      rintro s hs _ ht rfl
      cases s with
      | function m => exact hmd m (function_mem_slots.1 hs) m (function_mem_slots.1 ht) rfl
      | argument m => exact hmd m (argument_mem_slots.1 hs) m (argument_mem_slots.1 ht) rfl
      | producer x => exact hgd x (producer_mem_slots.1 hs) x (producer_mem_slots.1 ht) rfl
    have hfa := List.nodup_append.2 ⟨ihf hgf hmf, iha hga hma, hd⟩
    simp only [slots, List.nodup_cons, List.mem_cons, not_or]
    exact ⟨⟨by simp, hfun⟩, harg, hfa⟩
  | abs id bs b ih =>
    obtain ⟨hid, hg⟩ := List.nodup_cons.1 hg
    exact List.nodup_cons.2 ⟨fun h => hid (producer_mem_slots.1 h), ih hg hm⟩

theorem ownGroups_subset_groups (r : Reading) : ∀ x ∈ r.ownGroups, x ∈ r.groups := by
  induction r with
  | hole | var => simp [ownGroups]
  | app id f a ihf iha => grind [ownGroups, groups]
  | abs id bs b => simp [ownGroups, groups]

/-! What dropping abstractions keeps. -/

theorem collapse_abs_nil (id : GroupId) (b : Reading) : (abs id [] b).collapse = b.collapse := by
  rw [collapse]
  rfl

theorem collapse_abs_of_binders {bs : List (InputId × Char)} (h : bs.isEmpty = false)
    (id : GroupId) (b : Reading) : (abs id bs b).collapse = abs id bs b.collapse := by
  rw [collapse, h]
  rfl

@[simp] theorem merges_collapse (r : Reading) : r.collapse.merges = r.merges := by
  induction r with
  | hole | var => rfl
  | app id f a ihf iha => simp [collapse, merges, ihf, iha]
  | abs id bs b ih =>
    rw [collapse]
    split <;> simp [merges, ih]

@[simp] theorem inputs_collapse (r : Reading) : r.collapse.inputs = r.inputs := by
  induction r with
  | hole | var => rfl
  | app id f a ihf iha => simp [collapse, inputs, ihf, iha]
  | abs id bs b ih =>
    rw [collapse]
    split
    · rename_i h
      rw [ih, inputs, List.isEmpty_iff.1 h, List.map_nil, List.nil_append]
    · simp [inputs, ih]

theorem groups_collapse_sublist (r : Reading) : r.collapse.groups.Sublist r.groups := by
  induction r with
  | hole | var => exact List.nil_sublist _
  | app id f a ihf iha => exact ihf.append iha
  | abs id bs b ih =>
    rw [collapse]
    split
    · exact ih.cons id
    · exact ih.cons_cons id

theorem slots_collapse_subset (r : Reading) : ∀ s ∈ r.collapse.slots, s ∈ r.slots := by
  intro s hs
  cases s with
  | function m =>
    rw [function_mem_slots, merges_collapse] at hs
    exact function_mem_slots.2 hs
  | argument m =>
    rw [argument_mem_slots, merges_collapse] at hs
    exact argument_mem_slots.2 hs
  | producer x =>
    rw [producer_mem_slots] at hs
    exact producer_mem_slots.2 (r.groups_collapse_sublist.subset hs)

end Reading

variable {S : Type} [Scalar S]

namespace Graph

/-- The inputs of a group with their names. -/
def binders (g : Graph S) (id : GroupId) : List (InputId × Char) :=
  (g.group id).inputs.map fun i => (i, (g.input i).identifier)

/-- `g.Reads value r`: in `g` the value, or the lack of one, reads back as `r`. -/
def Reads (g : Graph S) : Option Source → Reading → Prop
  | value, .hole => value = none
  | value, .var id => value = some (.input id) ∧ id.index < g.inputs.size
  | value, .app id f a => value = some (.merge id) ∧ id.index < g.merges.size ∧
      g.Reads (g.merge id).function f ∧ g.Reads (g.merge id).argument a
  | value, .abs id bs b => value = some (.output id) ∧ id.index < g.groups.size ∧
      g.binders id = bs ∧ g.Reads (g.group id).output.producer b

/-- A group contains what its body asks for: these merges and these sub-groups. -/
def Encloses (g : Graph S) (id : GroupId) (body : Reading) : Prop :=
  (g.group id).merges.Perm body.ownMerges ∧ (g.group id).subgroups = body.ownGroups

/-- `g.Nested home r`: the groups of a reading that lies in the group `home` are nested as the
reading says. -/
def Nested (g : Graph S) : GroupId → Reading → Prop
  | _, .hole => True
  | _, .var _ => True
  | home, .app _ f a => g.Nested home f ∧ g.Nested home a
  | home, .abs id _ b =>
    (g.group id).parent = some home ∧ g.Encloses id b ∧ g.Nested id b

variable {g g' : Graph S} {value : Option Source} {r : Reading} {home : GroupId}

/-- The inputs of a group stay when they are the same with the same names. -/
theorem binders_congr {x : GroupId} (hinputs : (g'.content x).inputs = (g.content x).inputs)
    (hnames : ∀ i ∈ (g.content x).inputs, (g'.label i).identifier = (g.label i).identifier) :
    g'.binders x = g.binders x := by
  have hi : (g'.group x).inputs = (g.group x).inputs := hinputs
  rw [Graph.binders, Graph.binders, hi]
  refine List.map_congr_left fun i hi => ?_
  exact congrArg (Prod.mk i) (hnames i hi)

theorem binders_eq_nil {x : GroupId} (h : (g.content x).inputs = []) : g.binders x = [] := by
  have hi : (g.group x).inputs = [] := h
  rw [binders, hi, List.map_nil]

/-- A value has one reading. -/
theorem Reads.unique {r' : Reading} (h : g.Reads value r) (h' : g.Reads value r') : r = r' := by
  induction r generalizing value r' with
  | hole =>
    cases r' <;> simp_all [Reads]
  | var id =>
    cases r' <;> simp_all [Reads]
  | app id f a ihf iha =>
    obtain ⟨rfl, -, hf, ha⟩ := h
    cases r' with
    | app id' f' a' =>
      obtain ⟨he, -, hf', ha'⟩ := h'
      obtain rfl : id = id' := by simpa using he
      rw [ihf hf hf', iha ha ha']
    | _ => simp [Reads] at h'
  | abs id bs b ih =>
    obtain ⟨rfl, -, rfl, hb⟩ := h
    cases r' with
    | abs id' bs' b' =>
      obtain ⟨he, -, rfl, hb'⟩ := h'
      obtain rfl : id = id' := by simpa using he
      rw [ih hb hb']
    | _ => simp [Reads] at h'

/-- A reading stays when nothing that it goes through changes. -/
theorem Reads.congr (h : g.Reads value r) (hslots : ∀ s ∈ r.slots, g'.held s = g.held s)
    (hbinders : ∀ x ∈ r.groups, g'.binders x = g.binders x)
    (hgroups : g.groups.size ≤ g'.groups.size) (hinputs : g.inputs.size ≤ g'.inputs.size)
    (hmerges : g.merges.size ≤ g'.merges.size) : g'.Reads value r := by
  induction r generalizing value with
  | hole => exact h
  | var id => exact ⟨h.1, Nat.lt_of_lt_of_le h.2 hinputs⟩
  | app id f a ihf iha =>
    obtain ⟨hv, hlt, hf, ha⟩ := h
    have hfun : (g'.merge id).function = (g.merge id).function :=
      hslots (.function id) (by simp [Reading.slots])
    have harg : (g'.merge id).argument = (g.merge id).argument :=
      hslots (.argument id) (by simp [Reading.slots])
    refine ⟨hv, Nat.lt_of_lt_of_le hlt hmerges, ?_, ?_⟩
    · rw [hfun]
      exact ihf hf (fun s hs => hslots s (by simp [Reading.slots, hs]))
        (fun x hx => hbinders x (by simp [Reading.groups, hx]))
    · rw [harg]
      exact iha ha (fun s hs => hslots s (by simp [Reading.slots, hs]))
        (fun x hx => hbinders x (by simp [Reading.groups, hx]))
  | abs id bs b ih =>
    obtain ⟨hv, hlt, hbs, hb⟩ := h
    have hprod : (g'.group id).output.producer = (g.group id).output.producer :=
      hslots (.producer id) (by simp [Reading.slots])
    refine ⟨hv, Nat.lt_of_lt_of_le hlt hgroups, ?_, ?_⟩
    · rw [hbinders id (by simp [Reading.groups]), hbs]
    · rw [hprod]
      exact ih hb (fun s hs => hslots s (by simp [Reading.slots, hs]))
        (fun x hx => hbinders x (by simp [Reading.groups, hx]))

theorem Encloses.congr {id : GroupId} (h : g.Encloses id r)
    (hcontent : g'.content id = g.content id) : g'.Encloses id r := by
  have hmerges : (g'.group id).merges = (g.group id).merges := congrArg Content.merges hcontent
  have hsubgroups : (g'.group id).subgroups = (g.group id).subgroups :=
    congrArg Content.subgroups hcontent
  rw [Encloses, hmerges, hsubgroups]
  exact h

theorem encloses_of_content {id : GroupId} {c : Content} (h : g.content id = c)
    (hmerges : c.merges.Perm r.ownMerges) (hsubgroups : c.subgroups = r.ownGroups) :
    g.Encloses id r := by
  subst h
  exact ⟨hmerges, hsubgroups⟩

/-- Groups stay nested when neither what is around them nor what is in them changes. -/
theorem Nested.congr (h : g.Nested home r)
    (hcontent : ∀ x ∈ r.groups, g'.content x = g.content x) : g'.Nested home r := by
  induction r generalizing home with
  | hole | var => trivial
  | app id f a ihf iha =>
    exact ⟨ihf h.1 fun x hx => hcontent x (by simp [Reading.groups, hx]),
      iha h.2 fun x hx => hcontent x (by simp [Reading.groups, hx])⟩
  | abs id bs b ih =>
    obtain ⟨hp, henc, hb⟩ := h
    have hid := hcontent id (by simp [Reading.groups])
    have hparent : (g'.group id).parent = (g.group id).parent := congrArg Content.parent hid
    exact ⟨hparent.trans hp, henc.congr hid, ih hb fun x hx =>
      hcontent x (by simp [Reading.groups, hx])⟩

/-! What a reading goes through. -/

/-- Each merge and each group of a reading is held by the slot that it is read from or by one of
its own slots. -/
theorem Reads.exists_held_merge {slot : Slot} {m : MergeId} (h : g.Reads (g.held slot) r)
    (hm : m ∈ r.merges) : ∃ s ∈ slot :: r.slots, g.held s = some (.merge m) := by
  induction r generalizing slot with
  | hole | var => simp [Reading.merges] at hm
  | app id f a ihf iha =>
    obtain ⟨hv, -, hf, ha⟩ := h
    simp only [Reading.merges, List.mem_append, List.mem_singleton] at hm
    rcases hm with (hm | hm) | rfl
    · obtain ⟨s, hs, he⟩ := @ihf (.function id) hf hm
      exact ⟨s, by grind [Reading.slots], he⟩
    · obtain ⟨s, hs, he⟩ := @iha (.argument id) ha hm
      exact ⟨s, by grind [Reading.slots], he⟩
    · exact ⟨slot, List.mem_cons_self, hv⟩
  | abs id bs b ih =>
    obtain ⟨-, -, -, hb⟩ := h
    obtain ⟨s, hs, he⟩ := @ih (.producer id) hb hm
    exact ⟨s, List.mem_cons_of_mem slot hs, he⟩

theorem Reads.exists_held_output {slot : Slot} {x : GroupId} (h : g.Reads (g.held slot) r)
    (hx : x ∈ r.groups) : ∃ s ∈ slot :: r.slots, g.held s = some (.output x) := by
  induction r generalizing slot with
  | hole | var => simp [Reading.groups] at hx
  | app id f a ihf iha =>
    obtain ⟨hv, -, hf, ha⟩ := h
    simp only [Reading.groups, List.mem_append] at hx
    rcases hx with hx | hx
    · obtain ⟨s, hs, he⟩ := @ihf (.function id) hf hx
      exact ⟨s, by grind [Reading.slots], he⟩
    · obtain ⟨s, hs, he⟩ := @iha (.argument id) ha hx
      exact ⟨s, by grind [Reading.slots], he⟩
  | abs id bs b ih =>
    obtain ⟨hv, -, -, hb⟩ := h
    simp only [Reading.groups, List.mem_cons] at hx
    rcases hx with rfl | hx
    · exact ⟨slot, List.mem_cons_self, hv⟩
    · obtain ⟨s, hs, he⟩ := @ih (.producer id) hb hx
      exact ⟨s, List.mem_cons_of_mem slot hs, he⟩

/-- A source is an input of a graph, a merge of a reading or a group of a reading. -/
def Within (g : Graph S) (r : Reading) : Source → Prop
  | .input id => id.index < g.inputs.size
  | .merge id => id ∈ r.merges
  | .output id => id ∈ r.groups

/-- The slots of a reading, and the one that it is read from, hold nothing from elsewhere. -/
theorem Reads.within {slot s : Slot} {source : Source} (h : g.Reads (g.held slot) r)
    (hs : s ∈ slot :: r.slots) (he : g.held s = some source) : g.Within r source := by
  induction r generalizing slot with
  | hole =>
    simp only [Reading.slots, List.mem_singleton] at hs
    rw [hs, show g.held slot = none from h] at he
    cases he
  | var id =>
    simp only [Reading.slots, List.mem_singleton] at hs
    rw [hs, h.1] at he
    cases he
    exact h.2
  | app id f a ihf iha =>
    obtain ⟨hv, -, hf, ha⟩ := h
    simp only [Reading.slots, List.mem_cons, List.mem_append] at hs
    have hw : g.Within f source ∨ g.Within a source ∨ source = .merge id := by
      rcases hs with rfl | rfl | rfl | hs | hs
      · rw [hv] at he
        exact .inr (.inr (Option.some.inj he).symm)
      · exact .inl (@ihf (.function id) hf List.mem_cons_self)
      · exact .inr (.inl (@iha (.argument id) ha List.mem_cons_self))
      · exact .inl (@ihf (.function id) hf (List.mem_cons_of_mem _ hs))
      · exact .inr (.inl (@iha (.argument id) ha (List.mem_cons_of_mem _ hs)))
    cases source <;> grind [Within, Reading.merges, Reading.groups]
  | abs id bs b ih =>
    obtain ⟨hv, -, -, hb⟩ := h
    simp only [Reading.slots, List.mem_cons] at hs
    have hw : g.Within b source ∨ source = .output id := by
      rcases hs with rfl | hs
      · rw [hv] at he
        exact .inr (Option.some.inj he).symm
      · exact .inl (@ih (.producer id) hb (by simpa using hs))
    cases source <;> grind [Within, Reading.merges, Reading.groups]

theorem Reads.merge_lt {m : MergeId} (h : g.Reads value r) (hm : m ∈ r.merges) :
    m.index < g.merges.size := by
  induction r generalizing value with
  | hole | var => simp [Reading.merges] at hm
  | app id f a ihf iha =>
    obtain ⟨-, hlt, hf, ha⟩ := h
    simp only [Reading.merges, List.mem_append, List.mem_singleton] at hm
    rcases hm with (hm | hm) | rfl
    · exact ihf hf hm
    · exact iha ha hm
    · exact hlt
  | abs id bs b ih => exact ih h.2.2.2 hm

theorem Reads.group_lt {x : GroupId} (h : g.Reads value r) (hx : x ∈ r.groups) :
    x.index < g.groups.size := by
  induction r generalizing value with
  | hole | var => simp [Reading.groups] at hx
  | app id f a ihf iha =>
    obtain ⟨-, -, hf, ha⟩ := h
    simp only [Reading.groups, List.mem_append] at hx
    rcases hx with hx | hx
    · exact ihf hf hx
    · exact iha ha hx
  | abs id bs b ih =>
    obtain ⟨-, hlt, -, hb⟩ := h
    simp only [Reading.groups, List.mem_cons] at hx
    rcases hx with rfl | hx
    · exact hlt
    · exact ih hb hx

end Graph

end LambdaDiagram
