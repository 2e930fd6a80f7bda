import LambdaDiagram.Diagram.OfChain
import LambdaDiagram.Proofs.Nameless

/-!
Growth inside one group. While a value is made in a group, new nodes are numbered from where the
graph ended, the group takes its own share of them, and whatever was there before stays as it was.
The reading of the value lists the new nodes, so that the growth for an application or an
abstraction is put together from the growth for its parts.
-/

namespace LambdaDiagram

/-- The elements of a list are numbered from one number up to another. -/
def Numbered {α : Type} (index : α → Nat) (l : List α) (low high : Nat) : Prop :=
  low ≤ high ∧ l.map index = List.range' low (high - low)

namespace Numbered

variable {α : Type} {index : α → Nat} {l l' : List α} {low mid high : Nat}

theorem nil (index : α → Nat) (n : Nat) : Numbered index [] n n := by
  refine ⟨Nat.le_refl n, ?_⟩
  simp

theorem singleton (index : α → Nat) (a : α) : Numbered index [a] (index a) (index a + 1) := by
  refine ⟨Nat.le_succ _, ?_⟩
  simp

theorem append (h : Numbered index l low mid) (h' : Numbered index l' mid high) :
    Numbered index (l ++ l') low high := by
  obtain ⟨hle, he⟩ := h
  obtain ⟨hle', he'⟩ := h'
  refine ⟨Nat.le_trans hle hle', ?_⟩
  rw [List.map_append, he, he']
  have hmid : mid = low + (mid - low) := by omega
  have hhigh : high - low = mid - low + (high - mid) := by omega
  rw [hhigh, ← List.range'_append_1, ← hmid]

theorem nodup (h : Numbered index l low high) : l.Nodup := by
  have hr : (l.map index).Nodup := by
    rw [h.2]
    exact List.nodup_range'
  exact List.Pairwise.of_map index (fun a b hab he => hab (congrArg index he)) hr

theorem bounds (h : Numbered index l low high) {a : α} (ha : a ∈ l) :
    low ≤ index a ∧ index a < high := by
  have hm : index a ∈ l.map index := List.mem_map_of_mem ha
  rw [h.2, List.mem_range'_1] at hm
  have hle := h.1
  omega

theorem exists_mem (h : Numbered index l low high) {n : Nat} (hlow : low ≤ n) (hhigh : n < high) :
    ∃ a ∈ l, index a = n := by
  have hm : n ∈ l.map index := by
    rw [h.2, List.mem_range'_1]
    omega
  exact List.mem_map.1 hm

end Numbered

variable {S : Type} [Scalar S]

namespace Graph

/-- A graph whose links are in order and whose groups have inputs that are there. -/
structure Sound (g : Graph S) : Prop where
  linked : g.Linked
  inputs_lt : ∀ x, ∀ i ∈ (g.content x).inputs, i.index < g.inputs.size

/-- A slot is there. -/
def HasSlot (g : Graph S) : Slot → Prop
  | .function id => id.index < g.merges.size
  | .argument id => id.index < g.merges.size
  | .producer id => id.index < g.groups.size

/-- `Outside home g g'`: what is in `g` stays in `g'`, but for what the group `home` contains and
what its output holds. -/
structure Outside (home : GroupId) (g g' : Graph S) : Prop where
  groups_le : g.groups.size ≤ g'.groups.size
  inputs_le : g.inputs.size ≤ g'.inputs.size
  merges_le : g.merges.size ≤ g'.merges.size
  content : ∀ x, x.index < g.groups.size → x ≠ home → g'.content x = g.content x
  identifier : ∀ i, i.index < g.inputs.size → (g'.label i).identifier = (g.label i).identifier
  held : ∀ s, g.HasSlot s → s ≠ .producer home → g'.held s = g.held s

/-- `Quiet g g'`: no value of `g` other than a variable goes anywhere else in `g'`. -/
def Quiet (g g' : Graph S) : Prop :=
  ∀ x, g.Has x → (∀ i, x ≠ .input i) → g'.noted x = g.noted x

/-- `Grows home g r g' value`: to make in the group `home` the value that reads back as `r`, the
graph grows from `g` to `g'`. -/
structure Grows (home : GroupId) (g : Graph S) (r : Reading) (g' : Graph S)
    (value : Option Source) : Prop where
  outside : Outside home g g'
  quiet : Quiet g g'
  hosted : ∀ i, (g'.label i).hosted = (g.label i).hosted
  sound : g'.Sound
  homeContent : g'.content home = { g.content home with
    merges := (g.content home).merges ++ r.ownMerges
    subgroups := (g.content home).subgroups ++ r.ownGroups }
  producer : g'.held (.producer home) = g.held (.producer home)
  groups : Numbered GroupId.index r.groups g.groups.size g'.groups.size
  inputs : Numbered InputId.index r.inputs g.inputs.size g'.inputs.size
  merges : Numbered MergeId.index r.merges g.merges.size g'.merges.size
  reads : g'.Reads value r
  nested : g'.Nested home r
  isOpen : g'.Open value

/-- `Binds home bs g g'`: the group `home` gets more inputs of these names. -/
structure Binds (home : GroupId) (bs : List (InputId × Char)) (g g' : Graph S) : Prop where
  groups_size : g'.groups.size = g.groups.size
  merges_size : g'.merges.size = g.merges.size
  inputs : Numbered InputId.index (bs.map Prod.fst) g.inputs.size g'.inputs.size
  content : ∀ x, g'.content x = if x = home then
    { g.content home with inputs := (g.content home).inputs ++ bs.map Prod.fst } else g.content x
  new : ∀ b ∈ bs, g'.label b.1 = ⟨b.2, none⟩
  old : ∀ i, i.index < g.inputs.size → g'.label i = g.label i
  hosted : ∀ i, (g'.label i).hosted = (g.label i).hosted
  held : g'.held = g.held
  noted : g'.noted = g.noted

/-- `Fed home g r g'`: the value that reads back as `r` is made in the group `home` and leaves
it. -/
structure Fed (home : GroupId) (g : Graph S) (r : Reading) (g' : Graph S) : Prop where
  outside : Outside home g g'
  quiet : Quiet g g'
  hosted : ∀ i, (g'.label i).hosted = (g.label i).hosted
  sound : g'.Sound
  homeContent : g'.content home = { g.content home with
    merges := (g.content home).merges ++ r.ownMerges
    subgroups := (g.content home).subgroups ++ r.ownGroups }
  groups : Numbered GroupId.index r.groups g.groups.size g'.groups.size
  inputs : Numbered InputId.index r.inputs g.inputs.size g'.inputs.size
  merges : Numbered MergeId.index r.merges g.merges.size g'.merges.size
  reads : g'.Reads (some (.output home)) (.abs home (g.binders home) r)
  nested : g'.Nested home r

/-- `Filled home g bs r g'`: the empty group `home` gets the inputs `bs` and a body that reads back
as `r`. -/
structure Filled (home : GroupId) (g : Graph S) (bs : List (InputId × Char)) (r : Reading)
    (g' : Graph S) : Prop where
  outside : Outside home g g'
  quiet : Quiet g g'
  hosted : ∀ i, (g'.label i).hosted = (g.label i).hosted
  sound : g'.Sound
  homeContent : g'.content home =
    ⟨(g.content home).parent, bs.map Prod.fst, r.ownMerges, r.ownGroups⟩
  groups : Numbered GroupId.index r.groups g.groups.size g'.groups.size
  inputs : Numbered InputId.index (bs.map Prod.fst ++ r.inputs) g.inputs.size g'.inputs.size
  merges : Numbered MergeId.index r.merges g.merges.size g'.merges.size
  reads : g'.Reads (some (.output home)) (.abs home bs r)
  nested : g'.Nested home r

variable {g g' g'' : Graph S} {home : GroupId} {value : Option Source} {r : Reading}
variable {bs bs' : List (InputId × Char)}

theorem Linked.of_eq (hg : g.Linked) (hheld : g'.held = g.held) (hnoted : g'.noted = g.noted) :
    g'.Linked := by
  intro source sink
  rw [hheld, hnoted]
  exact hg source sink

/-- A slot that is not there holds nothing. -/
theorem held_eq_none {s : Slot} (h : ¬ g.HasSlot s) : g.held s = none := by
  cases s with
  | function m | argument m =>
    rw [held, merge_of_size_le (Nat.le_of_not_lt h)]
    rfl
  | producer x =>
    rw [held, group_of_size_le (Nat.le_of_not_lt h)]
    rfl

/-! ## What stays -/

theorem Outside.refl (home : GroupId) (g : Graph S) : Outside home g g :=
  ⟨Nat.le_refl _, Nat.le_refl _, Nat.le_refl _, fun _ _ _ => rfl, fun _ _ => rfl,
    fun _ _ _ => rfl⟩

theorem Outside.has (h : Outside home g g') {x : Source} (hx : g.Has x) : g'.Has x := by
  cases x with
  | input i => exact Nat.lt_of_lt_of_le hx h.inputs_le
  | merge m => exact Nat.lt_of_lt_of_le hx h.merges_le
  | output y => exact Nat.lt_of_lt_of_le hx h.groups_le

theorem Outside.hasSlot (h : Outside home g g') {s : Slot} (hs : g.HasSlot s) : g'.HasSlot s := by
  cases s with
  | function m | argument m => exact Nat.lt_of_lt_of_le hs h.merges_le
  | producer y => exact Nat.lt_of_lt_of_le hs h.groups_le

theorem Outside.trans (h : Outside home g g') (h' : Outside home g' g'') :
    Outside home g g'' where
  groups_le := Nat.le_trans h.groups_le h'.groups_le
  inputs_le := Nat.le_trans h.inputs_le h'.inputs_le
  merges_le := Nat.le_trans h.merges_le h'.merges_le
  content x hx hne :=
    (h'.content x (Nat.lt_of_lt_of_le hx h.groups_le) hne).trans (h.content x hx hne)
  identifier i hi :=
    (h'.identifier i (Nat.lt_of_lt_of_le hi h.inputs_le)).trans (h.identifier i hi)
  held s hs hne := (h'.held s (h.hasSlot hs) hne).trans (h.held s hs hne)

/-- The inputs of a group keep their names. -/
theorem Outside.binders (h : Outside home g g') (hg : g.Sound) {x : GroupId}
    (hinputs : (g'.content x).inputs = (g.content x).inputs) : g'.binders x = g.binders x :=
  binders_congr hinputs fun i hi => h.identifier i (hg.inputs_lt x i hi)

theorem Quiet.refl (g : Graph S) : Quiet g g := fun _ _ _ => rfl

theorem Quiet.trans (h : Quiet g g') (h' : Quiet g' g'') (hout : Outside home g g') :
    Quiet g g'' :=
  fun x hx hne => (h' x (hout.has hx) hne).trans (h x hx hne)

/-- A value that was open stays open while no value but a variable goes anywhere else. -/
theorem Quiet.isOpen (h : Quiet g g') (hout : Outside home g g') (ho : g.Open value) :
    g'.Open value := by
  intro x hx
  obtain ⟨hh, hn⟩ := ho x hx
  refine ⟨hout.has hh, ?_⟩
  rcases hn with hn | hn
  · by_cases hi : ∃ i, x = .input i
    · exact .inr hi
    · refine .inl ?_
      rw [h x hh fun i hxi => hi ⟨i, hxi⟩, hn]
  · exact .inr hn

/-! ## Values -/

/-- A missing value is made of nothing. -/
theorem Grows.hole (hg : g.Sound) : Grows home g .hole g none where
  outside := .refl home g
  quiet := .refl g
  hosted _ := rfl
  sound := hg
  homeContent := by simp [Reading.ownMerges, Reading.ownGroups]
  producer := rfl
  groups := .nil _ _
  inputs := .nil _ _
  merges := .nil _ _
  reads := rfl
  nested := trivial
  isOpen _ h := by cases h

/-- A variable is made of nothing new. -/
theorem Grows.var (hg : g.Sound) {i : InputId} (hi : i.index < g.inputs.size) :
    Grows home g (.var i) g (some (.input i)) where
  outside := .refl home g
  quiet := .refl g
  hosted _ := rfl
  sound := hg
  homeContent := by simp [Reading.ownMerges, Reading.ownGroups]
  producer := rfl
  groups := .nil _ _
  inputs := .nil _ _
  merges := .nil _ _
  reads := ⟨rfl, hi⟩
  nested := trivial
  isOpen x h := by
    cases h
    exact ⟨hi, .inr ⟨i, rfl⟩⟩

/-- The value that a group grows is a variable or new. -/
theorem Grows.new (h : Grows home g r g' value) {x : Source} (hx : value = some x) (hh : g.Has x) :
    ∃ i, x = .input i := by
  have hr := h.reads
  subst hx
  cases r with
  | hole => cases hr
  | var i => exact ⟨i, Option.some.inj hr.1⟩
  | app m f a =>
    obtain rfl := Option.some.inj hr.1
    have hb := h.merges.bounds (a := m) (by simp [Reading.merges])
    exact absurd hh (Nat.not_lt_of_le hb.1)
  | abs y bs b =>
    obtain rfl := Option.some.inj hr.1
    have hb := h.groups.bounds (a := y) (by simp [Reading.groups])
    exact absurd hh (Nat.not_lt_of_le hb.1)

/-- The slots of what has grown are new. -/
theorem Grows.slots_new (h : Grows home g r g' value) {s : Slot} (hs : s ∈ r.slots) :
    ¬ g.HasSlot s ∧ g'.HasSlot s := by
  cases s with
  | function m =>
    have hb := h.merges.bounds (Reading.function_mem_slots.1 hs)
    exact ⟨Nat.not_lt_of_le hb.1, hb.2⟩
  | argument m =>
    have hb := h.merges.bounds (Reading.argument_mem_slots.1 hs)
    exact ⟨Nat.not_lt_of_le hb.1, hb.2⟩
  | producer x =>
    have hb := h.groups.bounds (Reading.producer_mem_slots.1 hs)
    exact ⟨Nat.not_lt_of_le hb.1, hb.2⟩

/-- What has grown in a group reads back the same after more has grown there. -/
theorem Grows.reads_later (h : Grows home g r g' value) (hlt : home.index < g.groups.size)
    (h' : Outside home g' g'') : g''.Reads value r := by
  refine h.reads.congr ?_ ?_ h'.groups_le h'.inputs_le h'.merges_le
  · intro s hs
    obtain ⟨hnew, hold⟩ := h.slots_new hs
    refine h'.held s hold ?_
    rintro rfl
    exact hnew hlt
  · intro x hx
    have hb := h.groups.bounds hx
    have hne : x ≠ home := by
      rintro rfl
      omega
    exact h'.binders h.sound (congrArg Content.inputs (h'.content x hb.2 hne))

theorem Grows.nested_later (h : Grows home g r g' value) (hlt : home.index < g.groups.size)
    (h' : Outside home g' g'') : g''.Nested home r := by
  refine h.nested.congr ?_
  intro x hx
  have hb := h.groups.bounds hx
  have hne : x ≠ home := by
    rintro rfl
    omega
  exact h'.content x hb.2 hne

/-! ## Applications -/

theorem Outside.addMerge (f a : Option Source) (hlt : home.index < g.groups.size) :
    Outside home g (g.addMerge home f a).1 where
  groups_le := by simp
  inputs_le := by simp
  merges_le := by simp
  content x hx hne := by rw [content_addMerge f a hlt, if_neg hne]
  identifier i hi := by rw [label_addMerge]
  held s hs hne := by
    have hfun : s ≠ .function ⟨g.merges.size⟩ := by
      rintro rfl
      exact Nat.lt_irrefl _ hs
    have harg : s ≠ .argument ⟨g.merges.size⟩ := by
      rintro rfl
      exact Nat.lt_irrefl _ hs
    rw [held_addMerge, if_neg hfun, if_neg harg]

section

variable {f a : Option Source} (hf : g.Open f) (ha : g.Open a)
  (hne : ∀ x, f = some x → a = some x → ∃ i, x = .input i)

include hf ha hne

theorem Sound.addMerge (h : g.Sound) (hlt : home.index < g.groups.size) :
    (g.addMerge home f a).1.Sound := by
  refine ⟨h.linked.addMerge hf ha hne, ?_⟩
  intro x i hi
  rw [inputs_size_addMerge]
  rw [content_addMerge_keeps f a Content.inputs (fun _ _ => rfl) hlt] at hi
  exact h.inputs_lt x i hi

/-- A new merge goes nowhere yet. -/
theorem open_addMerge (home : GroupId) :
    (g.addMerge home f a).1.Open (some (.merge ⟨g.merges.size⟩)) := by
  intro x hx
  cases hx
  refine ⟨by simp [Has], .inl ?_⟩
  -- neither value is the new merge
  have hnew : ∀ {value}, g.Open value → value ≠ some (.merge ⟨g.merges.size⟩) := by
    rintro _ ho rfl
    exact Nat.lt_irrefl _ (ho _ rfl).1
  rw [noted_addMerge hf ha hne, if_neg (hnew hf), if_neg (hnew ha), noted, merge_next]
  rfl

end

/-- After a function and then its argument have grown in a group, a merge makes the application. -/
theorem Grows.app {rf ra : Reading} {f a : Option Source} (hf : Grows home g rf g' f)
    (ha : Grows home g' ra g'' a) (hlt : home.index < g.groups.size) :
    Grows home g (.app ⟨g''.merges.size⟩ rf ra) (g''.addMerge home f a).1
      (some (.merge ⟨g''.merges.size⟩)) := by
  have hlt' : home.index < g'.groups.size := Nat.lt_of_lt_of_le hlt hf.outside.groups_le
  have hlt'' : home.index < g''.groups.size := Nat.lt_of_lt_of_le hlt' ha.outside.groups_le
  have hfo : g''.Open f := ha.quiet.isOpen ha.outside hf.isOpen
  -- the argument is made after the function, so they differ
  have hne : ∀ x, f = some x → a = some x → ∃ i, x = .input i := fun x hfx hax =>
    ha.new hax (hf.isOpen x hfx).1
  have hmerge : Outside home g'' (g''.addMerge home f a).1 := .addMerge f a hlt''
  refine ⟨(hf.outside.trans ha.outside).trans hmerge, ?_, ?_, ha.sound.addMerge hfo ha.isOpen hne
    hlt'', ?_, ?_, ?_, ?_, ?_, ?_, ?_, open_addMerge hfo ha.isOpen hne home⟩
  · intro x hx hi
    have hfx : f ≠ some x := fun he => by
      obtain ⟨i, hxi⟩ := hf.new he hx
      exact hi i hxi
    have hax : a ≠ some x := fun he => by
      obtain ⟨i, hxi⟩ := ha.new he (hf.outside.has hx)
      exact hi i hxi
    rw [noted_addMerge hfo ha.isOpen hne, if_neg hfx, if_neg hax, List.append_nil]
    exact hf.quiet.trans ha.quiet hf.outside x hx hi
  · intro i
    rw [label_addMerge, ha.hosted, hf.hosted]
  · rw [content_addMerge f a hlt'', if_pos rfl, ha.homeContent, hf.homeContent]
    simp [Reading.ownMerges, Reading.ownGroups]
  · rw [held_addMerge, if_neg (by simp), if_neg (by simp), ha.producer, hf.producer]
  · rw [groups_size_addMerge]
    exact hf.groups.append ha.groups
  · rw [inputs_size_addMerge]
    exact hf.inputs.append ha.inputs
  · rw [merges_size_addMerge]
    exact (hf.merges.append ha.merges).append (.singleton _ _)
  · have hfun : ((g''.addMerge home f a).1.merge ⟨g''.merges.size⟩).function = f :=
      (held_addMerge f a (.function ⟨g''.merges.size⟩)).trans (if_pos rfl)
    have harg : ((g''.addMerge home f a).1.merge ⟨g''.merges.size⟩).argument = a :=
      (held_addMerge f a (.argument ⟨g''.merges.size⟩)).trans (by simp)
    refine ⟨rfl, by simp, ?_, ?_⟩
    · rw [hfun]
      exact hf.reads_later hlt (ha.outside.trans hmerge)
    · rw [harg]
      exact ha.reads_later hlt' hmerge
  · exact ⟨hf.nested_later hlt (ha.outside.trans hmerge), ha.nested_later hlt' hmerge⟩

/-! ## Filled groups -/

theorem Outside.feed (value : Option Source) (hlt : home.index < g.groups.size) :
    Outside home g (g.feed home value) where
  groups_le := by simp
  inputs_le := by simp
  merges_le := by simp
  content x hx hne := by rw [content_feed]
  identifier i hi := by rw [label_feed]
  held s hs hne := by rw [held_feed value hlt, if_neg hne]

/-- A value that has grown in a group whose output held nothing leaves it. -/
theorem Grows.feed (h : Grows home g r g' value) (hg : g.Sound) (hlt : home.index < g.groups.size)
    (hempty : g.held (.producer home) = none) : Fed home g r (g'.feed home value) := by
  have hlt' : home.index < g'.groups.size := Nat.lt_of_lt_of_le hlt h.outside.groups_le
  have hfeed : Outside home g' (g'.feed home value) := .feed value hlt'
  have hout : Outside home g (g'.feed home value) := h.outside.trans hfeed
  refine ⟨hout, ?_, ?_, ⟨?_, ?_⟩, ?_, ?_, ?_, ?_, ?_, ?_⟩
  · intro x hx hi
    have hvx : value ≠ some x := fun he => by
      obtain ⟨i, hxi⟩ := h.new he hx
      exact hi i hxi
    rw [noted_feed h.isOpen, if_neg hvx]
    exact h.quiet x hx hi
  · intro i
    rw [label_feed, h.hosted]
  · exact h.sound.linked.feed hlt' (h.producer.trans hempty) h.isOpen
  · intro x i hi
    rw [content_feed] at hi
    rw [inputs_size_feed]
    exact h.sound.inputs_lt x i hi
  · rw [content_feed]
    exact h.homeContent
  · rw [groups_size_feed]
    exact h.groups
  · rw [inputs_size_feed]
    exact h.inputs
  · rw [merges_size_feed]
    exact h.merges
  · have hp : ((g'.feed home value).group home).output.producer = value :=
      (held_feed value hlt' (.producer home)).trans (if_pos rfl)
    refine ⟨rfl, by simpa using hlt', ?_, ?_⟩
    · refine hout.binders hg ?_
      rw [content_feed, h.homeContent]
    · rw [hp]
      exact h.reads_later hlt hfeed
  · exact h.nested_later hlt hfeed

theorem Binds.outside (h : Binds home bs g g') : Outside home g g' where
  groups_le := Nat.le_of_eq h.groups_size.symm
  inputs_le := h.inputs.1
  merges_le := Nat.le_of_eq h.merges_size.symm
  content x _ hne := by rw [h.content, if_neg hne]
  identifier i hi := by rw [h.old i hi]
  held s _ _ := by rw [h.held]

theorem Binds.quiet (h : Binds home bs g g') : Quiet g g' := fun x _ _ => by rw [h.noted]

theorem Binds.sound (h : Binds home bs g g') (hg : g.Sound) : g'.Sound := by
  refine ⟨hg.linked.of_eq h.held h.noted, ?_⟩
  intro x i hi
  rw [h.content] at hi
  have hle := h.inputs.1
  split at hi
  · rcases List.mem_append.1 hi with hi | hi
    · exact Nat.lt_of_lt_of_le (hg.inputs_lt home i hi) hle
    · exact (h.inputs.bounds hi).2
  · exact Nat.lt_of_lt_of_le (hg.inputs_lt x i hi) hle

theorem Binds.binders (h : Binds home bs g g') (hg : g.Sound) :
    g'.binders home = g.binders home ++ bs := by
  have hi : (g'.group home).inputs = (g.group home).inputs ++ bs.map Prod.fst := by
    have hc := h.content home
    rw [if_pos rfl] at hc
    exact congrArg Content.inputs hc
  rw [Graph.binders, Graph.binders, hi, List.map_append, List.map_map]
  congr 1
  · refine List.map_congr_left fun i hi => ?_
    have ho := h.old i (hg.inputs_lt home i hi)
    exact congrArg (fun l : Label => (i, l.identifier)) ho
  · refine (List.map_congr_left fun b hb => ?_).trans (List.map_id bs)
    have hn := h.new b hb
    exact congrArg (fun l : Label => (b.1, l.identifier)) hn

/-- An empty group is filled by giving it inputs and then feeding it. -/
theorem Binds.fed (h : Binds home bs g g') (h' : Fed home g' r g'') (hg : g.Sound)
    {parent : Option GroupId} (hc : g.content home = ⟨parent, [], [], []⟩) :
    Filled home g bs r g'' := by
  have hb : g.binders home = [] := binders_eq_nil (congrArg Content.inputs hc)
  have hreads := h'.reads
  have hgroups := h'.groups
  have hmerges := h'.merges
  rw [h.binders hg, hb, List.nil_append] at hreads
  rw [h.groups_size] at hgroups
  rw [h.merges_size] at hmerges
  refine ⟨h.outside.trans h'.outside, h.quiet.trans h'.quiet h.outside,
    fun i => (h'.hosted i).trans (h.hosted i), h'.sound, ?_, hgroups, h.inputs.append h'.inputs,
    hmerges, hreads, h'.nested⟩
  rw [h'.homeContent, h.content, if_pos rfl, hc]
  simp

/-! ## Inputs -/

theorem Binds.refl (home : GroupId) (g : Graph S) : Binds home [] g g := by
  refine ⟨rfl, rfl, .nil _ _, ?_, ?_, fun _ _ => rfl, fun _ => rfl, rfl, rfl⟩
  · intro x
    by_cases hx : x = home
    · subst hx
      simp
    · rw [if_neg hx]
  · intro b hb
    cases hb

theorem Binds.trans (h : Binds home bs g g') (h' : Binds home bs' g' g'') :
    Binds home (bs ++ bs') g g'' := by
  refine ⟨h'.groups_size.trans h.groups_size, h'.merges_size.trans h.merges_size, ?_, ?_, ?_, ?_,
    fun i => (h'.hosted i).trans (h.hosted i), h'.held.trans h.held, h'.noted.trans h.noted⟩
  · rw [List.map_append]
    exact h.inputs.append h'.inputs
  · intro x
    rw [h'.content, h.content, h.content, if_pos rfl]
    split <;> simp
  · intro b hb
    rcases List.mem_append.1 hb with hb | hb
    · rw [h'.old _ (h.inputs.bounds (List.mem_map_of_mem hb)).2, h.new b hb]
    · exact h'.new b hb
  · intro i hi
    rw [h'.old i (Nat.lt_of_lt_of_le hi h.inputs.1), h.old i hi]

theorem addInput_binds (hlt : home.index < g.groups.size) (name : Char) :
    Binds home [(⟨g.inputs.size⟩, name)] g (g.addInput home name).1 := by
  refine ⟨groups_size_addInput name, merges_size_addInput name, ?_, content_addInput name hlt,
    ?_, ?_, ?_, held_addInput name, noted_addInput name⟩
  · rw [inputs_size_addInput]
    exact .singleton _ _
  · intro b hb
    obtain rfl := List.mem_singleton.1 hb
    rw [label_addInput, if_pos rfl]
  · intro i hi
    have hne : i ≠ ⟨g.inputs.size⟩ := by
      rintro rfl
      exact Nat.lt_irrefl _ hi
    rw [label_addInput, if_neg hne]
  · intro i
    rw [label_addInput]
    split
    · rename_i he
      rw [he, label, input_next]
      rfl
    · rfl

/-- Binders become inputs of these names. -/
theorem exists_addBinders_binds (hlt : home.index < g.groups.size) (names : List Char) :
    ∃ bs : List (InputId × Char), bs.map Prod.snd = names ∧
      Binds home bs g (g.addBinders home names) := by
  induction names generalizing g with
  | nil => exact ⟨[], rfl, .refl home g⟩
  | cons name names ih =>
    have hlt' : home.index < (g.addInput home name).1.groups.size := by simpa using hlt
    obtain ⟨bs, hbs, hb⟩ := ih hlt'
    refine ⟨(⟨g.inputs.size⟩, name) :: bs, by simp [hbs], ?_⟩
    exact (addInput_binds hlt name).trans hb

/-! ## Abstractions -/

/-- A slot that is there before a sub-group is added is there beside the slot of the sub-group. -/
theorem hasSlot_addSubgroup (home : GroupId) {s : Slot} (hs : g.HasSlot s) :
    (g.addSubgroup home).1.HasSlot s ∧ s ≠ .producer ⟨g.groups.size⟩ := by
  cases s with
  | function m | argument m => exact ⟨hs, by simp⟩
  | producer x =>
    have hx : x.index < g.groups.size := hs
    refine ⟨?_, ?_⟩
    · simp only [HasSlot, groups_size_addSubgroup]
      omega
    · rintro ⟨⟩
      exact Nat.lt_irrefl _ hx

section

variable (h : Filled ⟨g.groups.size⟩ (g.addSubgroup home).1 bs r g')

include h

theorem Filled.held_addSubgroup {s : Slot} (hs : g.HasSlot s) : g'.held s = g.held s := by
  obtain ⟨hs', hne⟩ := hasSlot_addSubgroup home hs
  rw [h.outside.held s hs' hne, Graph.held_addSubgroup]

/-- Filling a new sub-group changes the group around it only. -/
theorem Filled.outside_addSubgroup (hlt : home.index < g.groups.size) : Outside home g g' := by
  have hle := h.outside.groups_le
  rw [groups_size_addSubgroup] at hle
  refine ⟨by omega, h.outside.inputs_le, h.outside.merges_le, ?_, ?_,
    fun s hs _ => h.held_addSubgroup hs⟩
  · intro x hx hxh
    have hx' : x.index < (g.addSubgroup home).1.groups.size := by
      rw [groups_size_addSubgroup]
      omega
    have hxs : x ≠ ⟨g.groups.size⟩ := by
      rintro rfl
      exact Nat.lt_irrefl _ hx
    rw [h.outside.content x hx' hxs, content_addSubgroup hlt, if_neg hxs, if_neg hxh]
  · intro i hi
    rw [h.outside.identifier i hi, label_addSubgroup]

theorem Filled.quiet_addSubgroup : Quiet g g' := by
  intro x hx hi
  have hx' : (g.addSubgroup home).1.Has x := by
    cases x with
    | input i => exact hx
    | merge m => exact hx
    | output y => exact (hasSlot_addSubgroup (s := .producer y) home hx).1
  rw [h.quiet x hx' hi, noted_addSubgroup]

/-- A new sub-group that is filled is the value of an abstraction. -/
theorem Filled.grows (hlt : home.index < g.groups.size) :
    Grows home g (.abs ⟨g.groups.size⟩ bs r) g' (some (.output ⟨g.groups.size⟩)) := by
  have hgroups := h.groups
  rw [groups_size_addSubgroup] at hgroups
  have hle := hgroups.1
  have hsub := h.homeContent
  rw [content_addSubgroup hlt, if_pos rfl] at hsub
  refine ⟨h.outside_addSubgroup hlt, h.quiet_addSubgroup, ?_, h.sound, ?_,
    h.held_addSubgroup (s := .producer home) hlt, ?_, h.inputs, h.merges, h.reads,
    ⟨congrArg Content.parent hsub, encloses_of_content hsub (.refl _) rfl, h.nested⟩, ?_⟩
  · intro i
    rw [h.hosted i, label_addSubgroup]
  · have hne : home ≠ ⟨g.groups.size⟩ := by
      rintro rfl
      exact Nat.lt_irrefl _ hlt
    have hlt' : home.index < (g.addSubgroup home).1.groups.size := by
      rw [groups_size_addSubgroup]
      omega
    rw [h.outside.content home hlt' hne, content_addSubgroup hlt, if_neg hne, if_pos rfl]
    simp [Reading.ownMerges, Reading.ownGroups]
  · have hnew := Numbered.singleton GroupId.index ⟨g.groups.size⟩
    exact hnew.append hgroups
  · intro x hx
    cases hx
    refine ⟨by simp only [Has]; omega, .inl ?_⟩
    rw [h.quiet _ (by simp [Has]) (by simp), noted_addSubgroup, noted, group_next]
    rfl

end

end Graph

end LambdaDiagram
