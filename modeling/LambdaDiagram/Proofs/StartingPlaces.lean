import LambdaDiagram.Proofs.Construction
import LambdaDiagram.Proofs.Ownership
import LambdaDiagram.Proofs.Relinking

/-!
Where things start. The root is put at the origin, and so are its inputs and the groups that they
host; flattening leaves everything where it is. So every hosted group starts at the center of its
input.
-/

namespace LambdaDiagram

variable {S : Type} [Scalar S]

namespace Graph

/-- Groups and inputs stay where they are. -/
structure SamePlaces (g g' : Graph S) : Prop where
  group : ∀ x, (g'.group x).position = (g.group x).position
  input : ∀ i, (g'.input i).position = (g.input i).position

/-- A group that has no parent is at the origin, and so are its inputs. -/
def Grounded (g : Graph S) : Prop :=
  ∀ x, (g.group x).parent = none →
    (g.group x).position = .zero ∧ ∀ i ∈ (g.group x).inputs, (g.input i).position = .zero

variable {g g' g'' : Graph S} {home x : GroupId} {i : InputId}

/-! ## What moves nothing -/

namespace SamePlaces

theorem refl (g : Graph S) : g.SamePlaces g := ⟨fun _ => rfl, fun _ => rfl⟩

theorem trans (h : g.SamePlaces g') (h' : g'.SamePlaces g'') : g.SamePlaces g'' :=
  ⟨fun x => (h'.group x).trans (h.group x), fun i => (h'.input i).trans (h.input i)⟩

theorem modifyGroup {f : Group S → Group S} (hf : ∀ group, (f group).position = group.position) :
    g.SamePlaces (g.modifyGroup x f) :=
  ⟨modifyGroup_keeps Group.position hf, fun _ => rfl⟩

theorem modifyInput {f : Input S → Input S} (hf : ∀ input, (f input).position = input.position) :
    g.SamePlaces (g.modifyInput i f) :=
  ⟨fun _ => rfl, modifyInput_keeps Input.position hf⟩

theorem modifyMerge (m : MergeId) (f : Merge S → Merge S) : g.SamePlaces (g.modifyMerge m f) :=
  ⟨fun _ => rfl, fun _ => rfl⟩

/-- Links say nothing about where things are. -/
theorem ignoresLinks (g : Graph S) : IgnoresLinks g.SamePlaces where
  modifyGroup _ _ hf h := h.trans (.modifyGroup fun group => congrArg Prod.fst (hf group))
  modifyInput _ _ hf h := h.trans (.modifyInput fun input => congrArg (·.2.2) (hf input))
  modifyMerge m f _ h := h.trans (.modifyMerge m f)

end SamePlaces

theorem flatten_samePlaces (g : Graph S) : g.SamePlaces g.flatten :=
  (SamePlaces.ignoresLinks g).flatten (.refl g)

/-! ## Building -/

theorem connect?_samePlaces (g : Graph S) (value : Option Source) (sink : Sink) :
    g.SamePlaces (g.connect? value sink) :=
  (SamePlaces.ignoresLinks g).connect? value sink (.refl g)

theorem spaceInputs_samePlaces (step : S) (number : Nat) (ids : List InputId) (g : Graph S) :
    g.SamePlaces (g.spaceInputs step number ids) := by
  induction ids generalizing g number with
  | nil => exact .refl g
  | cons id ids ih =>
    refine SamePlaces.trans ?_ (ih (number + 1) _)
    exact .modifyInput fun _ => rfl

/-- A new merge moves nothing. -/
theorem addMerge_samePlaces (g : Graph S) (home : GroupId) (function argument : Option Source) :
    g.SamePlaces (g.addMerge home function argument).1 := by
  let pushed : Graph S :=
    { g with merges := g.merges.push (.blank function argument (g.group home).position) }
  have hpushed : g.SamePlaces pushed := ⟨fun _ => rfl, fun _ => rfl⟩
  have hlinked := (connect?_samePlaces pushed function (.merge ⟨g.merges.size⟩)).trans
    (connect?_samePlaces _ argument (.merge ⟨g.merges.size⟩))
  rw [addMerge_eq]
  exact hpushed.trans (hlinked.trans (.modifyGroup fun _ => rfl))

theorem feed_samePlaces (g : Graph S) (home : GroupId) (value : Option Source) :
    g.SamePlaces (g.feed home value) := by
  apply SamePlaces.trans _ (connect?_samePlaces _ _ _)
  apply SamePlaces.modifyGroup
  exact fun _ => rfl

theorem host_samePlaces (g : Graph S) (i : InputId) (x : GroupId) :
    g.SamePlaces (g.host i x) := .modifyInput fun _ => rfl

/-- All that a new input moves is the input. -/
theorem addInput_samePlaces (g : Graph S) (home : GroupId) (c : Char) :
    { g with inputs := g.inputs.push (.blank c (g.group home).position) }.SamePlaces
      (g.addInput home c).1 := by
  let pushed : Graph S := { g with inputs := g.inputs.push (.blank c (g.group home).position) }
  have hlisted : pushed.SamePlaces (pushed.modifyGroup home fun group =>
      { group with inputs := group.inputs ++ [⟨g.inputs.size⟩] }) := .modifyGroup fun _ => rfl
  exact hlisted.trans (spaceInputs_samePlaces _ _ _ _)

/-- A new sub-group is put in its place on the spiral, and no group is moved. -/
theorem position_addSubgroup (g : Graph S) (home x : GroupId) :
    ((g.addSubgroup home).1.group x).position = if x = ⟨g.groups.size⟩ then
      (g.group home).position + spiral (g.group home).subgroups.length
    else (g.group x).position := by
  have hlisted : ((g.addGroup (some home)).1.modifyGroup ⟨g.groups.size⟩
      (·.moved (spiral (g.group home).subgroups.length))).SamePlaces (g.addSubgroup home).1 :=
    .modifyGroup fun _ => rfl
  have hsize : (g.addGroup (some home)).1.groups.size = g.groups.size + 1 :=
    groups_size_addGroup (some home)
  have hgroup : (g.addGroup (some home)).1.group x =
      if x = ⟨g.groups.size⟩ then .blank (some home) (g.group home).position else g.group x :=
    group_push _ x
  rw [hlisted.group, group_modifyGroup, hgroup, hsize]
  by_cases hnew : x = ⟨g.groups.size⟩
  · subst hnew
    rw [if_pos rfl, if_pos rfl, if_pos ⟨rfl, Nat.lt_succ_self _⟩]
    rfl
  · rw [if_neg hnew, if_neg hnew, if_neg fun he => hnew he.1.symm]

/-- Groups without a parent stay at the origin when nothing moves and they get no inputs. -/
theorem Grounded.of_samePlaces (h : g.Grounded) (hp : g.SamePlaces g')
    (hparent : ∀ x, (g'.content x).parent = (g.content x).parent)
    (hinputs : ∀ x, (g'.content x).inputs = (g.content x).inputs) : g'.Grounded := by
  intro x hx
  have hold : (g.content x).parent = none := (hparent x).symm.trans hx
  obtain ⟨hcenter, hown⟩ := h x hold
  refine ⟨(hp.group x).trans hcenter, fun i hi => (hp.input i).trans (hown i ?_)⟩
  have hi : i ∈ (g'.content x).inputs := hi
  rwa [hinputs] at hi

theorem grounded_empty : (empty : Graph S).Grounded := by
  intro x _
  obtain ⟨n⟩ := x
  refine ⟨?_, fun i hi => ?_⟩
  · cases n <;> rfl
  · have hx : i ∈ ((empty : Graph S).content ⟨n⟩).inputs := hi
    rw [content_empty] at hx
    cases hx

theorem Grounded.addGroup (h : g.Grounded) (parent : Option GroupId) :
    (g.addGroup parent).1.Grounded := by
  intro x hx
  by_cases hnew : x = ⟨g.groups.size⟩
  · subst hnew
    have hparent : ((g.addGroup parent).1.content ⟨g.groups.size⟩).parent = none := hx
    rw [content_addGroup, if_pos rfl] at hparent
    subst hparent
    have hgroup : (g.addGroup none).1.group ⟨g.groups.size⟩ = .blank none .zero :=
      (group_push _ _).trans (if_pos rfl)
    rw [hgroup]
    exact ⟨rfl, nofun⟩
  · have hgroup : (g.addGroup parent).1.group x = g.group x :=
      (group_push _ x).trans (if_neg hnew)
    rw [hgroup] at hx ⊢
    exact h x hx

theorem Grounded.addSubgroup (h : g.Grounded) (hlt : home.index < g.groups.size) :
    (g.addSubgroup home).1.Grounded := by
  intro x hx
  have hparent : ((g.addSubgroup home).1.content x).parent = none := hx
  have hnew : x ≠ ⟨g.groups.size⟩ := by
    rintro rfl
    rw [content_addSubgroup hlt, if_pos rfl] at hparent
    cases hparent
  have hcontent : ((g.addSubgroup home).1.content x).parent = (g.content x).parent ∧
      ((g.addSubgroup home).1.content x).inputs = (g.content x).inputs := by
    rw [content_addSubgroup hlt, if_neg hnew]
    split
    · rename_i he
      rw [he]
      exact ⟨rfl, rfl⟩
    · exact ⟨rfl, rfl⟩
  have hposition : ((g.addSubgroup home).1.group x).position = (g.group x).position :=
    (position_addSubgroup g home x).trans (if_neg hnew)
  obtain ⟨hcenter, hown⟩ := h x (hcontent.1.symm.trans hparent)
  refine ⟨hposition.trans hcenter, fun i hi => hown i ?_⟩
  have hi : i ∈ ((g.addSubgroup home).1.content x).inputs := hi
  rwa [hcontent.2] at hi

theorem Grounded.addInput (h : g.Grounded) (hin : g.InputsIn) (c : Char)
    (hlt : home.index < g.groups.size) : (g.addInput home c).1.Grounded := by
  intro x hx
  have hparent := content_addInput_keeps c Content.parent (fun _ _ => rfl) hlt x
  have hplaces := addInput_samePlaces g home c
  obtain ⟨hcenter, hown⟩ := h x (hparent.symm.trans hx)
  refine ⟨(hplaces.group x).trans hcenter, fun i hi => ?_⟩
  have hold : i ∈ (g.group x).inputs → ((g.addInput home c).1.input i).position = .zero := by
    intro hi
    have hne : i ≠ ⟨g.inputs.size⟩ := by
      rintro rfl
      exact Nat.lt_irrefl _ (hin x _ hi)
    rw [hplaces.input, input_push, if_neg hne]
    exact hown i hi
  have hi : i ∈ ((g.addInput home c).1.content x).inputs := hi
  rw [content_addInput c hlt] at hi
  split at hi
  · rename_i he
    subst he
    rcases List.mem_append.1 hi with hi | hi
    · exact hold hi
    · rw [hplaces.input, input_push, if_pos (List.mem_singleton.1 hi)]
      exact hcenter
  · exact hold hi

theorem hereditary_grounded : Hereditary fun g : Graph S => g.InputsIn ∧ g.Grounded where
  addGroup h hp := ⟨hereditary_inputsIn.addGroup h.1 hp, h.2.addGroup _⟩
  addSubgroup h hlt := ⟨hereditary_inputsIn.addSubgroup h.1 hlt, h.2.addSubgroup hlt⟩
  addInput c h hlt := ⟨hereditary_inputsIn.addInput c h.1 hlt, h.2.addInput h.1 c hlt⟩
  addMerge f a h hlt := ⟨hereditary_inputsIn.addMerge f a h.1 hlt,
    h.2.of_samePlaces (addMerge_samePlaces _ _ f a)
      (content_addMerge_keeps f a Content.parent (fun _ _ => rfl) hlt)
      (content_addMerge_keeps f a Content.inputs (fun _ _ => rfl) hlt)⟩
  feed := by
    intro g home value h
    refine ⟨hereditary_inputsIn.feed value h.1, h.2.of_samePlaces (feed_samePlaces ..) ?_ ?_⟩
    · rw [content_feed]
      exact fun _ => rfl
    · rw [content_feed]
      exact fun _ => rfl
  host i y h := ⟨hereditary_inputsIn.host i y h.1,
    h.2.of_samePlaces (host_samePlaces ..) (fun _ => rfl) fun _ => rfl⟩

/-- What hosts a group starts where the group does, also in the flattened graph. -/
theorem Forest.hosted_position {first : Tree} {others : List Tree} (hforest : g.Forest first others)
    {ts : Chain} (hg : ofChain? ts = .ok g) {y : GroupId}
    (hi : (g.flatten.input i).hosted = some y) :
    (g.flatten.group y).position = (g.flatten.input i).position := by
  have hlabel := congrFun hforest.flatten.2 i
  have hi : (g.input i).hosted = some y := (congrArg Label.hosted hlabel).symm.trans hi
  have hgrounded := (hereditary_grounded.ofChain? ⟨inputsIn_empty, grounded_empty⟩ hg).2
  have houtermost := hforest.ownershipTree.outermost
  have hroot := hgrounded Graph.root (houtermost Graph.root (.inl rfl))
  have hplaces := flatten_samePlaces g
  calc (g.flatten.group y).position
      = (g.group y).position := hplaces.group y
    _ = .zero := (hgrounded y (houtermost y (.inr ⟨i, hi⟩))).1
    _ = (g.input i).position := (hroot.2 i (hforest.mem_inputs_of_hosted hi)).symm
    _ = (g.flatten.input i).position := (hplaces.input i).symm

end Graph

end LambdaDiagram
