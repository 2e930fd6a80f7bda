import LambdaDiagram.Proofs.Links

/-!
What each step of a graph's growth does, apart from where things are drawn. Such a graph is known by
the contents of its groups, the labels of its inputs, what its slots hold and where its values are
noted to go; each step is described by these four.
-/

namespace LambdaDiagram

/-- What a group contains and what it lies in. -/
structure Content where
  parent : Option GroupId
  inputs : List InputId
  merges : List MergeId
  subgroups : List GroupId
deriving DecidableEq, Repr

/-- The name of an input and the group that it hosts. -/
structure Label where
  identifier : Char
  hosted : Option GroupId
deriving DecidableEq, Repr

variable {S : Type} [Scalar S]

/-- The content of a group. -/
def Group.content (group : Group S) : Content :=
  ⟨group.parent, group.inputs, group.merges, group.subgroups⟩

/-- The label of an input. -/
def Input.label (input : Input S) : Label := ⟨input.identifier, input.hosted⟩

namespace Graph

/-- The content of the group of a name. -/
def content (g : Graph S) (id : GroupId) : Content := (g.group id).content

/-- The label of the input of a name. -/
def label (g : Graph S) (id : InputId) : Label := (g.input id).label

/-- A source is there. -/
def Has (g : Graph S) : Source → Prop
  | .input id => id.index < g.inputs.size
  | .merge id => id.index < g.merges.size
  | .output id => id.index < g.groups.size

/-- A value, if there is one, can be given a place to go to: it is there, and it goes nowhere yet
unless it is a variable. -/
def Open (g : Graph S) (value : Option Source) : Prop :=
  ∀ source, value = some source → g.Has source ∧ (g.noted source = [] ∨ ∃ i, source = .input i)

variable {g : Graph S} {home : GroupId} {value : Option Source}

/-! ## Nodes that are not there, and nodes that are added -/

theorem group_of_size_le {x : GroupId} (h : g.groups.size ≤ x.index) : g.group x = default := by
  simp [group, h]

theorem input_of_size_le {i : InputId} (h : g.inputs.size ≤ i.index) : g.input i = default := by
  simp [input, h]

theorem merge_of_size_le {m : MergeId} (h : g.merges.size ≤ m.index) : g.merge m = default := by
  simp [merge, h]

theorem group_next (g : Graph S) : g.group ⟨g.groups.size⟩ = default :=
  group_of_size_le (Nat.le_refl _)

theorem input_next (g : Graph S) : g.input ⟨g.inputs.size⟩ = default :=
  input_of_size_le (Nat.le_refl _)

theorem merge_next (g : Graph S) : g.merge ⟨g.merges.size⟩ = default :=
  merge_of_size_le (Nat.le_refl _)

theorem getD_push {α : Type} (a : Array α) (new d : α) (n : Nat) :
    (a.push new).getD n d = if n = a.size then new else a.getD n d := by
  simp only [Array.getD_eq_getD_getElem?, Array.getElem?_push]
  split <;> simp

theorem group_push (new : Group S) (x : GroupId) :
    Graph.group { g with groups := g.groups.push new } x =
      if x = ⟨g.groups.size⟩ then new else g.group x := by
  cases x
  simp only [group, getD_push, GroupId.mk.injEq]

theorem input_push (new : Input S) (i : InputId) :
    Graph.input { g with inputs := g.inputs.push new } i =
      if i = ⟨g.inputs.size⟩ then new else g.input i := by
  cases i
  simp only [input, getD_push, InputId.mk.injEq]

theorem merge_push (new : Merge S) (m : MergeId) :
    Graph.merge { g with merges := g.merges.push new } m =
      if m = ⟨g.merges.size⟩ then new else g.merge m := by
  cases m
  simp only [merge, getD_push, MergeId.mk.injEq]

/-! ## Nodes that are changed -/

/-- Two graphs that differ at most in where things are drawn. -/
structure Alike (g g' : Graph S) : Prop where
  groups_size : g'.groups.size = g.groups.size
  inputs_size : g'.inputs.size = g.inputs.size
  merges_size : g'.merges.size = g.merges.size
  content : g'.content = g.content
  label : g'.label = g.label
  held : g'.held = g.held
  noted : g'.noted = g.noted

theorem Alike.refl (g : Graph S) : g.Alike g := ⟨rfl, rfl, rfl, rfl, rfl, rfl, rfl⟩

theorem Alike.trans {g' g'' : Graph S} (h : g.Alike g') (h' : g'.Alike g'') : g.Alike g'' :=
  ⟨h'.groups_size.trans h.groups_size, h'.inputs_size.trans h.inputs_size,
    h'.merges_size.trans h.merges_size, h'.content.trans h.content, h'.label.trans h.label,
    h'.held.trans h.held, h'.noted.trans h.noted⟩

theorem Alike.inputs_eq {g' : Graph S} (h : g.Alike g') (x : GroupId) :
    (g'.group x).inputs = (g.group x).inputs :=
  congrArg Content.inputs (congrFun h.content x)

theorem Alike.merges_eq {g' : Graph S} (h : g.Alike g') (x : GroupId) :
    (g'.group x).merges = (g.group x).merges :=
  congrArg Content.merges (congrFun h.content x)

theorem Alike.subgroups_eq {g' : Graph S} (h : g.Alike g') (x : GroupId) :
    (g'.group x).subgroups = (g.group x).subgroups :=
  congrArg Content.subgroups (congrFun h.content x)

theorem Alike.hosted_eq {g' : Graph S} (h : g.Alike g') (i : InputId) :
    (g'.input i).hosted = (g.input i).hosted :=
  congrArg Label.hosted (congrFun h.label i)

/-- What a change of a group keeps of it, it keeps of each. -/
theorem modifyGroup_keeps {α : Type} (field : Group S → α) {id : GroupId} {f : Group S → Group S}
    (h : ∀ group, field (f group) = field group) (x : GroupId) :
    field ((g.modifyGroup id f).group x) = field (g.group x) := by
  rw [group_modifyGroup]
  split
  · exact h _
  · rfl

/-- What a change of an input keeps of it, it keeps of each. -/
theorem modifyInput_keeps {α : Type} (field : Input S → α) {id : InputId} {f : Input S → Input S}
    (h : ∀ input, field (f input) = field input) (i : InputId) :
    field ((g.modifyInput id f).input i) = field (g.input i) := by
  rw [input_modifyInput]
  split
  · exact h _
  · rfl

/-- What a change of a merge keeps of it, it keeps of each. -/
theorem modifyMerge_keeps {α : Type} (field : Merge S → α) {id : MergeId} {f : Merge S → Merge S}
    (h : ∀ merge, field (f merge) = field merge) (m : MergeId) :
    field ((g.modifyMerge id f).merge m) = field (g.merge m) := by
  rw [merge_modifyMerge]
  split
  · exact h _
  · rfl

theorem modifyInput_alike {id : InputId} {f : Input S → Input S}
    (hl : ∀ input, (f input).label = input.label)
    (hu : ∀ input, (f input).usages = input.usages) : g.Alike (g.modifyInput id f) where
  groups_size := rfl
  inputs_size := by simp [modifyInput]
  merges_size := rfl
  content := rfl
  label := funext (modifyInput_keeps Input.label hl)
  held := by
    funext s
    cases s <;> rfl
  noted := by
    funext s
    cases s
    · simp only [noted, input_modifyInput]
      split
      · rw [hu]
      · rfl
    · rfl
    · rfl

section

variable {id : GroupId} {f : Group S → Group S}

omit [Scalar S] in
@[simp] theorem groups_size_modifyGroup :
    (g.modifyGroup id f).groups.size = g.groups.size := by
  simp [modifyGroup]

omit [Scalar S] in
@[simp] theorem inputs_modifyGroup : (g.modifyGroup id f).inputs = g.inputs := rfl

omit [Scalar S] in
@[simp] theorem merges_modifyGroup : (g.modifyGroup id f).merges = g.merges := rfl

theorem content_modifyGroup (change : Content → Content) (hlt : id.index < g.groups.size)
    (h : ∀ group, (f group).content = change group.content) (x : GroupId) :
    (g.modifyGroup id f).content x = if x = id then change (g.content id) else g.content x := by
  simp only [content, group_modifyGroup]
  by_cases he : x = id
  · subst he
    rw [if_pos ⟨rfl, hlt⟩, if_pos rfl, h]
  · rw [if_neg (fun hx => he hx.1.symm), if_neg he]

theorem content_modifyGroup_eq (h : ∀ group, (f group).content = group.content) :
    (g.modifyGroup id f).content = g.content :=
  funext (modifyGroup_keeps Group.content h)

@[simp] theorem label_modifyGroup : (g.modifyGroup id f).label = g.label := rfl

theorem held_modifyGroup_eq (h : ∀ group, (f group).output.producer = group.output.producer) :
    (g.modifyGroup id f).held = g.held := by
  funext s
  rcases s with m | m | x
  · rfl
  · rfl
  · simp only [held, group_modifyGroup]
    split
    · exact h _
    · rfl

theorem noted_modifyGroup_eq
    (h : ∀ group, (f group).output.downstream = group.output.downstream) :
    (g.modifyGroup id f).noted = g.noted := by
  funext s
  rcases s with i | m | x
  · rfl
  · rfl
  · simp only [noted, group_modifyGroup]
    split
    · rw [h]
    · rfl

end

/-! ## Noting where a value goes -/

section

variable (sink : Sink)

@[simp] theorem content_connect? : (g.connect? value sink).content = g.content := by
  funext x
  rcases value with _ | i | m | y
  · rfl
  · rfl
  · rfl
  · simp only [content, connect?, connect, modifyOutput, group_modifyGroup]
    split <;> rfl

@[simp] theorem label_connect? : (g.connect? value sink).label = g.label := by
  funext j
  rcases value with _ | i | m | y
  · rfl
  · simp only [label, connect?, connect, input_modifyInput]
    split <;> rfl
  · rfl
  · rfl

@[simp] theorem held_connect? : (g.connect? value sink).held = g.held := by
  funext s
  rcases value with _ | i | m | y
  · rfl
  · cases s <;> rfl
  · cases s <;> simp only [held, connect?, connect, merge_modifyMerge, group_modifyMerge]
    all_goals split <;> rfl
  · cases s <;>
      simp only [held, connect?, connect, modifyOutput, group_modifyGroup, merge_modifyGroup]
    split <;> rfl

omit [Scalar S] in
@[simp] theorem groups_size_connect? :
    (g.connect? value sink).groups.size = g.groups.size := by
  rcases value with _ | i | m | y <;> simp [connect?, connect, modifyInput, modifyMerge,
    modifyOutput, modifyGroup]

omit [Scalar S] in
@[simp] theorem inputs_size_connect? :
    (g.connect? value sink).inputs.size = g.inputs.size := by
  rcases value with _ | i | m | y <;> simp [connect?, connect, modifyInput, modifyMerge,
    modifyOutput, modifyGroup]

omit [Scalar S] in
@[simp] theorem merges_size_connect? :
    (g.connect? value sink).merges.size = g.merges.size := by
  rcases value with _ | i | m | y <;> simp [connect?, connect, modifyInput, modifyMerge,
    modifyOutput, modifyGroup]

/-- An open value is then noted to go to one sink more. -/
theorem noted_connect? (h : g.Open value) (x : Source) : (g.connect? value sink).noted x =
    if value = some x then g.noted x ++ [sink] else g.noted x := by
  cases value with
  | none => rfl
  | some source =>
    obtain ⟨hlt, hn⟩ := h source rfl
    rcases source with i | m | y
    · cases x with
      | input j =>
        simp only [noted, connect?, connect, input_modifyInput]
        grind [Has]
      | merge n => simp [noted, connect?, connect]
      | output z => simp [noted, connect?, connect]
    · cases x with
      | input j => simp [noted, connect?, connect]
      | merge n =>
        by_cases he : m = n
        · subst he
          replace hn : (g.merge m).consumer = none := by simpa [noted] using hn
          replace hlt : m.index < g.merges.size := hlt
          simp [noted, connect?, connect, merge_modifyMerge, hlt, hn]
        · simp [noted, connect?, connect, merge_modifyMerge, he]
      | output z => simp [noted, connect?, connect]
    · cases x with
      | input j => simp [noted, connect?, connect, modifyOutput]
      | merge n => simp [noted, connect?, connect, modifyOutput]
      | output z =>
        by_cases he : y = z
        · subst he
          replace hn : (g.group y).output.downstream = none := by simpa [noted] using hn
          replace hlt : y.index < g.groups.size := hlt
          simp [noted, connect?, connect, modifyOutput, group_modifyGroup, hlt, hn]
        · simp [noted, connect?, connect, modifyOutput, group_modifyGroup, he]

/-- Another value stays open. -/
theorem Open.connect? {other : Option Source} (h : g.Open value) (ho : g.Open other)
    (hne : ∀ x, value = some x → other = some x → ∃ i, x = .input i) :
    (g.connect? value sink).Open other := by
  intro x hx
  obtain ⟨hlt, hn⟩ := ho x hx
  refine ⟨?_, ?_⟩
  · cases x <;> simpa [Has] using hlt
  · rw [noted_connect? sink h]
    by_cases hv : value = some x
    · exact .inr (hne x hv hx)
    · rwa [if_neg hv]

end

/-! ## New groups -/

section

variable (parent : Option GroupId)

@[simp] theorem groups_size_addGroup :
    (g.addGroup parent).1.groups.size = g.groups.size + 1 := by
  simp [addGroup]

theorem content_addGroup (x : GroupId) : (g.addGroup parent).1.content x =
    if x = ⟨g.groups.size⟩ then ⟨parent, [], [], []⟩ else g.content x := by
  simp only [content, addGroup, group_push]
  split <;> rfl

@[simp] theorem label_addGroup : (g.addGroup parent).1.label = g.label := rfl

/-- A new group holds nothing, as does one that is not there. -/
@[simp] theorem held_addGroup : (g.addGroup parent).1.held = g.held := by
  funext s
  rcases s with m | m | x
  · rfl
  · rfl
  · by_cases h : x = ⟨g.groups.size⟩
    · subst h
      simp only [held, addGroup, group_push, if_true, group_next]
      rfl
    · simp only [held, addGroup, group_push, h, if_false]

@[simp] theorem noted_addGroup : (g.addGroup parent).1.noted = g.noted := by
  funext s
  rcases s with i | m | x
  · rfl
  · rfl
  · by_cases h : x = ⟨g.groups.size⟩
    · subst h
      simp only [noted, addGroup, group_push, if_true, group_next]
      rfl
    · simp only [noted, addGroup, group_push, h, if_false]

end

theorem addSubgroup_eq : (g.addSubgroup home).1 =
    ((g.addGroup (some home)).1.modifyGroup ⟨g.groups.size⟩
      (·.moved (spiral (g.group home).subgroups.length))).modifyGroup home fun group =>
        { group with subgroups := group.subgroups ++ [⟨g.groups.size⟩] } := rfl

@[simp] theorem groups_size_addSubgroup :
    (g.addSubgroup home).1.groups.size = g.groups.size + 1 := by
  simp [addSubgroup_eq]

theorem content_addSubgroup (hlt : home.index < g.groups.size) (x : GroupId) :
    (g.addSubgroup home).1.content x =
      if x = ⟨g.groups.size⟩ then ⟨some home, [], [], []⟩
      else if x = home then
        { g.content home with subgroups := (g.content home).subgroups ++ [⟨g.groups.size⟩] }
      else g.content x := by
  have hne : home ≠ ⟨g.groups.size⟩ := by
    rintro rfl
    exact Nat.lt_irrefl _ hlt
  rw [addSubgroup_eq, content_modifyGroup (fun c =>
    { c with subgroups := c.subgroups ++ [⟨g.groups.size⟩] }) (by simp; omega) (fun _ => rfl),
    content_modifyGroup_eq, content_addGroup, content_addGroup, if_neg hne]
  · by_cases hx : x = ⟨g.groups.size⟩
    · subst hx
      rw [if_neg (Ne.symm hne), if_pos rfl, if_pos rfl]
    · rw [if_neg hx, if_neg hx]
  · exact fun _ => rfl

@[simp] theorem label_addSubgroup : (g.addSubgroup home).1.label = g.label := rfl

@[simp] theorem held_addSubgroup : (g.addSubgroup home).1.held = g.held := by
  rw [addSubgroup_eq, held_modifyGroup_eq, held_modifyGroup_eq, held_addGroup]
  all_goals exact fun _ => rfl

@[simp] theorem noted_addSubgroup : (g.addSubgroup home).1.noted = g.noted := by
  rw [addSubgroup_eq, noted_modifyGroup_eq, noted_modifyGroup_eq, noted_addGroup]
  all_goals exact fun _ => rfl

/-! ## New inputs -/

theorem spaceInputs_alike (step : S) (number : Nat) (ids : List InputId) :
    g.Alike (g.spaceInputs step number ids) := by
  induction ids generalizing g number with
  | nil => exact .refl g
  | cons id ids ih =>
    refine Alike.trans ?_ (ih (number + 1))
    exact modifyInput_alike (fun _ => rfl) fun _ => rfl

section

variable (identifier : Char)

theorem addInput_alike : Alike
    (modifyGroup { g with inputs := g.inputs.push (.blank identifier (g.group home).position) }
      home fun group => { group with inputs := group.inputs ++ [⟨g.inputs.size⟩] })
    (g.addInput home identifier).1 :=
  spaceInputs_alike ..

@[simp] theorem groups_size_addInput :
    (g.addInput home identifier).1.groups.size = g.groups.size := by
  rw [(addInput_alike identifier).groups_size, groups_size_modifyGroup]

@[simp] theorem inputs_size_addInput :
    (g.addInput home identifier).1.inputs.size = g.inputs.size + 1 := by
  rw [(addInput_alike identifier).inputs_size, inputs_modifyGroup, Array.size_push]

@[simp] theorem merges_size_addInput :
    (g.addInput home identifier).1.merges.size = g.merges.size := by
  rw [(addInput_alike identifier).merges_size, merges_modifyGroup]

theorem content_addInput (hlt : home.index < g.groups.size) (x : GroupId) :
    (g.addInput home identifier).1.content x =
      if x = home then
        { g.content home with inputs := (g.content home).inputs ++ [⟨g.inputs.size⟩] }
      else g.content x := by
  rw [(addInput_alike identifier).content]
  exact content_modifyGroup (fun c => { c with inputs := c.inputs ++ [⟨g.inputs.size⟩] }) hlt
    (fun _ => rfl) x

/-- What is not about inputs a new input leaves as it was. -/
theorem content_addInput_keeps {α : Type} (field : Content → α)
    (h : ∀ (content : Content) (ids : List InputId),
      field { content with inputs := ids } = field content)
    (hlt : home.index < g.groups.size) (x : GroupId) :
    field ((g.addInput home identifier).1.content x) = field (g.content x) := by
  rw [content_addInput identifier hlt]
  split
  case isTrue he => rw [he, h]
  case isFalse => rfl

theorem label_addInput (i : InputId) : (g.addInput home identifier).1.label i =
    if i = ⟨g.inputs.size⟩ then ⟨identifier, none⟩ else g.label i := by
  rw [(addInput_alike identifier).label, label_modifyGroup]
  simp only [label, input_push]
  split <;> rfl

@[simp] theorem held_addInput : (g.addInput home identifier).1.held = g.held := by
  rw [(addInput_alike identifier).held, held_modifyGroup_eq]
  · funext s
    cases s <;> rfl
  · exact fun _ => rfl

/-- A new input is not used, nor is one that is not there. -/
@[simp] theorem noted_addInput : (g.addInput home identifier).1.noted = g.noted := by
  rw [(addInput_alike identifier).noted, noted_modifyGroup_eq]
  · funext s
    rcases s with i | m | x
    · by_cases h : i = ⟨g.inputs.size⟩
      · subst h
        simp only [noted, input_push, if_true, input_next]
        rfl
      · simp only [noted, input_push, h, if_false]
    · rfl
    · rfl
  · exact fun _ => rfl

end

/-! ## New merges -/

section

variable (function argument : Option Source)

theorem addMerge_eq : (g.addMerge home function argument).1 =
    ((connect? { g with merges := g.merges.push (.blank function argument (g.group home).position) }
      function (.merge ⟨g.merges.size⟩)).connect? argument (.merge ⟨g.merges.size⟩)).modifyGroup
        home fun group => { group with merges := group.merges ++ [⟨g.merges.size⟩] } := rfl

@[simp] theorem groups_size_addMerge :
    (g.addMerge home function argument).1.groups.size = g.groups.size := by
  simp [addMerge_eq]

@[simp] theorem inputs_size_addMerge :
    (g.addMerge home function argument).1.inputs.size = g.inputs.size := by
  simp [addMerge_eq]

@[simp] theorem merges_size_addMerge :
    (g.addMerge home function argument).1.merges.size = g.merges.size + 1 := by
  simp [addMerge_eq]

theorem content_addMerge (hlt : home.index < g.groups.size) (x : GroupId) :
    (g.addMerge home function argument).1.content x =
      if x = home then
        { g.content home with merges := (g.content home).merges ++ [⟨g.merges.size⟩] }
      else g.content x := by
  rw [addMerge_eq]
  refine (content_modifyGroup (fun c => { c with merges := c.merges ++ [⟨g.merges.size⟩] })
    (by simpa using hlt) (fun _ => rfl) x).trans ?_
  rw [content_connect?, content_connect?]
  rfl

/-- What is not about merges a new merge leaves as it was. -/
theorem content_addMerge_keeps {α : Type} (field : Content → α)
    (h : ∀ (content : Content) (ids : List MergeId),
      field { content with merges := ids } = field content)
    (hlt : home.index < g.groups.size) (x : GroupId) :
    field ((g.addMerge home function argument).1.content x) = field (g.content x) := by
  rw [content_addMerge function argument hlt]
  split
  case isTrue he => rw [he, h]
  case isFalse => rfl

@[simp] theorem label_addMerge : (g.addMerge home function argument).1.label = g.label := by
  rw [addMerge_eq, label_modifyGroup, label_connect?, label_connect?]
  rfl

theorem held_addMerge (s : Slot) : (g.addMerge home function argument).1.held s =
    if s = .function ⟨g.merges.size⟩ then function
    else if s = .argument ⟨g.merges.size⟩ then argument else g.held s := by
  rw [addMerge_eq, held_modifyGroup_eq, held_connect?, held_connect?]
  · cases s with
    | function m =>
      simp only [held, merge_push, Slot.function.injEq, reduceCtorEq, if_false]
      split <;> rfl
    | argument m =>
      simp only [held, merge_push, Slot.argument.injEq, reduceCtorEq, if_false]
      split <;> rfl
    | producer x => rfl
  · exact fun _ => rfl

end

/-- Both values of a new merge, which are different unless they are variables, are then noted to go
to it. -/
theorem noted_addMerge {function argument : Option Source} (hf : g.Open function)
    (ha : g.Open argument)
    (hne : ∀ x, function = some x → argument = some x → ∃ i, x = .input i) (x : Source) :
    (g.addMerge home function argument).1.noted x =
      (if function = some x then g.noted x ++ [.merge ⟨g.merges.size⟩] else g.noted x) ++
        if argument = some x then [.merge ⟨g.merges.size⟩] else [] := by
  let pushed : Graph S :=
    { g with merges := g.merges.push (.blank function argument (g.group home).position) }
  have hn : pushed.noted = g.noted := by
    funext y
    rcases y with i | m | z
    · rfl
    · by_cases h : m = ⟨g.merges.size⟩
      · subst h
        simp only [pushed, noted, merge_push, if_true, merge_next]
        rfl
      · simp only [pushed, noted, merge_push, h, if_false]
    · rfl
  have ho : ∀ {value}, g.Open value → pushed.Open value := by
    intro value hv y hy
    obtain ⟨hlt, hy⟩ := hv y hy
    refine ⟨?_, by rwa [hn]⟩
    cases y with
    | input i => exact hlt
    | merge m => simpa [Has, pushed] using Nat.lt_succ_of_lt hlt
    | output z => exact hlt
  rw [addMerge_eq, noted_modifyGroup_eq, noted_connect? _ ((ho hf).connect? _ (ho ha) hne),
    noted_connect? _ (ho hf), hn]
  · split <;> simp
  · exact fun _ => rfl

/-- A new merge is linked to both of its values. -/
theorem Linked.addMerge {function argument : Option Source} (hg : g.Linked)
    (hf : g.Open function) (ha : g.Open argument)
    (hne : ∀ x, function = some x → argument = some x → ∃ i, x = .input i) :
    (g.addMerge home function argument).1.Linked := by
  have hfun : g.held (.function ⟨g.merges.size⟩) = none := by
    rw [held, merge_next]
    rfl
  have harg : (g.addMerge home function none).1.held (.argument ⟨g.merges.size⟩) = none := by
    simp [held_addMerge]
  -- the two slots are filled one after the other
  have hbetween : (g.addMerge home function none).1.Linked := by
    have hslot : (g.addMerge home function none).1.held (.function ⟨g.merges.size⟩) = function := by
      simp [held_addMerge]
    refine hg.fill hfun hslot ?_ ?_
    · intro s hs
      rw [held_addMerge, if_neg hs]
      split
      · rename_i he
        rw [he, held, merge_next]
        rfl
      · rfl
    · intro x
      rw [noted_addMerge hf (fun _ h => by cases h) (fun _ _ h => by cases h)]
      simp
  have hslot : (g.addMerge home function argument).1.held (.argument ⟨g.merges.size⟩) =
      argument := by
    simp [held_addMerge]
  refine hbetween.fill harg hslot ?_ ?_
  · intro s hs
    simp [held_addMerge, hs]
  · intro x
    rw [noted_addMerge hf ha hne,
      noted_addMerge hf (fun _ h => by cases h) (fun _ _ h => by cases h)]
    by_cases hx : argument = some x
    · simp [hx]
    · simp [hx]

/-! ## What leaves a group -/

section

variable (value : Option Source)

omit [Scalar S] in
@[simp] theorem groups_size_feed : (g.feed home value).groups.size = g.groups.size := by
  simp [feed, modifyOutput]

omit [Scalar S] in
@[simp] theorem inputs_size_feed : (g.feed home value).inputs.size = g.inputs.size := by
  simp [feed, modifyOutput]

omit [Scalar S] in
@[simp] theorem merges_size_feed : (g.feed home value).merges.size = g.merges.size := by
  simp [feed, modifyOutput]

@[simp] theorem content_feed : (g.feed home value).content = g.content := by
  rw [feed, content_connect?, modifyOutput, content_modifyGroup_eq]
  exact fun _ => rfl

@[simp] theorem label_feed : (g.feed home value).label = g.label := by
  rw [feed, label_connect?]
  rfl

theorem held_feed (hlt : home.index < g.groups.size) (s : Slot) :
    (g.feed home value).held s = if s = .producer home then value else g.held s := by
  rw [feed, held_connect?]
  cases s with
  | function m => rfl
  | argument m => rfl
  | producer x =>
    simp only [held, modifyOutput, group_modifyGroup, Slot.producer.injEq]
    by_cases he : x = home
    · subst he
      rw [if_pos ⟨rfl, hlt⟩, if_pos rfl]
    · rw [if_neg (fun h => he h.1.symm), if_neg he]

end

theorem noted_feed (h : g.Open value) (x : Source) : (g.feed home value).noted x =
    if value = some x then g.noted x ++ [.output home] else g.noted x := by
  have hn : (g.modifyOutput home fun output => { output with producer := value }).noted =
      g.noted := noted_modifyGroup_eq fun _ => rfl
  have ho : (g.modifyOutput home fun output => { output with producer := value }).Open value := by
    intro y hy
    obtain ⟨hlt, hy⟩ := h y hy
    refine ⟨?_, by rwa [hn]⟩
    cases y <;> simpa [Has, modifyOutput] using hlt
  rw [feed, noted_connect? _ ho, hn]

/-- A group whose output held nothing is linked to the value that leaves it. -/
theorem Linked.feed (hg : g.Linked) (hlt : home.index < g.groups.size)
    (hempty : g.held (.producer home) = none) (h : g.Open value) :
    (g.feed home value).Linked :=
  hg.fill hempty ((held_feed value hlt _).trans (if_pos rfl))
    (fun s hs => by rw [held_feed value hlt, if_neg hs]) (noted_feed h)

/-! ## Hosting -/

section

variable (input : InputId) (group : GroupId)

@[simp] theorem inputs_size_host : (g.host input group).inputs.size = g.inputs.size := by
  simp [host, modifyInput]

theorem label_host (hlt : input.index < g.inputs.size) (i : InputId) :
    (g.host input group).label i =
      if i = input then ⟨(g.label input).identifier, some group⟩ else g.label i := by
  simp only [label, host, input_modifyInput]
  by_cases he : i = input
  · subst he
    rw [if_pos ⟨rfl, hlt⟩, if_pos rfl]
    rfl
  · rw [if_neg (fun h => he h.1.symm), if_neg he]

@[simp] theorem held_host : (g.host input group).held = g.held := by
  funext s
  cases s <;> rfl

@[simp] theorem noted_host : (g.host input group).noted = g.noted := by
  funext s
  cases s
  · simp only [noted, host, input_modifyInput]
    split <;> rfl
  · rfl
  · rfl

end

end Graph

end LambdaDiagram
