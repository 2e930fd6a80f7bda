import LambdaDiagram.Proofs.NestView
import LambdaDiagram.Proofs.Rearranging

/-!
What moving and laying out a nest change: places, and of these only those of the groups in the nest
and of their inputs, beside those of merges. Only two of the steps change sizes: a group is resized,
and so is an input; whatever else is done moves things and leaves their sizes.
-/

namespace LambdaDiagram

variable {S : Type} [Scalar S]

namespace Graph

/-- `g₀.Changes zs is g g'`: nothing changes but places; of groups only those of `zs` do, and of
inputs those of `is` and those that belong to `zs`. What belongs to a group is read off `g₀`. -/
structure Changes (g₀ : Graph S) (zs : List GroupId) (is : List InputId) (g g' : Graph S) :
    Prop where
  alike : g.Alike g'
  group : ∀ x, x ∉ zs → g'.group x = g.group x
  input : ∀ i, i ∉ is → (∀ z ∈ zs, i ∉ (g₀.group z).inputs) → g'.input i = g.input i

/-- All sizes stay. -/
structure SameSizes (g g' : Graph S) : Prop where
  radius : ∀ x, (g'.group x).radius = (g.group x).radius
  outerRadius : ∀ x, (g'.group x).outerRadius = (g.group x).outerRadius
  input : ∀ i, (g'.input i).radius = (g.input i).radius

variable {g₀ g g' g'' : Graph S} {x : GroupId} {i : InputId} {zs zs' : List GroupId}
  {is is' : List InputId}

/-! ## One change -/

theorem modifyGroup_alike {f : Group S → Group S}
    (hf : ∀ group, (f group).unplaced = group.unplaced) : g.Alike (g.modifyGroup x f) where
  groups_size := groups_size_modifyGroup
  inputs_size := rfl
  merges_size := rfl
  content := content_modifyGroup_eq fun group => congrArg (fun group => group.content) (hf group)
  label := rfl
  held := held_modifyGroup_eq fun group => congrArg (fun group => group.output.producer) (hf group)
  noted := noted_modifyGroup_eq fun group =>
    congrArg (fun group => group.output.downstream) (hf group)

theorem modifyMerge_alike {m : MergeId} {f : Merge S → Merge S}
    (hf : ∀ merge, (f merge).unplaced = merge.unplaced) : g.Alike (g.modifyMerge m f) where
  groups_size := rfl
  inputs_size := rfl
  merges_size := Array.size_modify
  content := rfl
  label := rfl
  held := by
    funext s
    cases s with
    | producer x => rfl
    | function n =>
      simp only [held, merge_modifyMerge]
      split
      · exact congrArg (fun merge => merge.function) (hf _)
      · rfl
    | argument n =>
      simp only [held, merge_modifyMerge]
      split
      · exact congrArg (fun merge => merge.argument) (hf _)
      · rfl
  noted := by
    funext s
    cases s with
    | input i => rfl
    | output x => rfl
    | merge n =>
      simp only [noted, merge_modifyMerge]
      split
      · exact congrArg (fun merge => merge.consumer.toList) (hf _)
      · rfl

namespace Changes

theorem refl (g₀ : Graph S) (zs : List GroupId) (is : List InputId) (g : Graph S) :
    g₀.Changes zs is g g :=
  ⟨.refl g, fun _ _ => rfl, fun _ _ _ => rfl⟩

theorem trans (h : g₀.Changes zs is g g') (h' : g₀.Changes zs is g' g'') :
    g₀.Changes zs is g g'' :=
  ⟨h.alike.trans h'.alike, fun x hx => (h'.group x hx).trans (h.group x hx),
    fun i hi hz => (h'.input i hi hz).trans (h.input i hi hz)⟩

theorem mono (h : g₀.Changes zs is g g') (hz : zs ⊆ zs') (hi : is ⊆ is') :
    g₀.Changes zs' is' g g' where
  alike := h.alike
  group x hx := h.group x fun hm => hx (hz hm)
  input i hn ho := h.input i (fun hm => hn (hi hm)) fun z hm => ho z (hz hm)

/-- Inputs of a group need not be listed beside the group. -/
theorem of_home (h : g₀.Changes zs is g g') (hi : ∀ i ∈ is, i ∈ (g₀.group x).inputs) :
    g₀.Changes (x :: zs) [] g g' where
  alike := h.alike
  group y hy := h.group y fun hm => hy (List.mem_cons_of_mem x hm)
  input i _ ho := by
    obtain ⟨hx, hz⟩ := List.forall_mem_cons.1 ho
    exact h.input i (fun hm => hx (hi i hm)) hz

theorem modifyGroup (hx : x ∈ zs) {f : Group S → Group S}
    (hf : ∀ group, (f group).unplaced = group.unplaced) :
    g₀.Changes zs is g (g.modifyGroup x f) where
  alike := modifyGroup_alike hf
  group y hy := by
    rw [group_modifyGroup, if_neg]
    exact fun h => hy (h.1 ▸ hx)
  input _ _ _ := rfl

theorem modifyInput (hi : i ∈ is) {f : Input S → Input S}
    (hf : ∀ input, (f input).unplaced = input.unplaced) :
    g₀.Changes zs is g (g.modifyInput i f) where
  alike := modifyInput_alike (fun input => congrArg (fun input => input.label) (hf input))
    fun input => congrArg (fun input => input.usages) (hf input)
  group _ _ := rfl
  input j hj _ := by
    rw [input_modifyInput, if_neg]
    exact fun h => hj (h.1 ▸ hi)

theorem modifyMerge {m : MergeId} {f : Merge S → Merge S}
    (hf : ∀ merge, (f merge).unplaced = merge.unplaced) :
    g₀.Changes zs is g (g.modifyMerge m f) :=
  ⟨modifyMerge_alike hf, fun _ _ => rfl, fun _ _ _ => rfl⟩

theorem foldl {α : Type} {f : Graph S → α → Graph S}
    (hf : ∀ (g : Graph S) (a : α), g₀.Changes zs is g (f g a)) (as : List α) (g : Graph S) :
    g₀.Changes zs is g (as.foldl f g) :=
  List.foldlRecOn as f (motive := fun g' => g₀.Changes zs is g g') (.refl g₀ zs is g)
    fun g' hg' a _ => hg'.trans (hf g' a)

end Changes

namespace SameSizes

theorem refl (g : Graph S) : g.SameSizes g := ⟨fun _ => rfl, fun _ => rfl, fun _ => rfl⟩

theorem trans (h : g.SameSizes g') (h' : g'.SameSizes g'') : g.SameSizes g'' :=
  ⟨fun x => (h'.radius x).trans (h.radius x),
    fun x => (h'.outerRadius x).trans (h.outerRadius x),
    fun i => (h'.input i).trans (h.input i)⟩

theorem modifyGroup {f : Group S → Group S} (hr : ∀ group, (f group).radius = group.radius)
    (ho : ∀ group, (f group).outerRadius = group.outerRadius) :
    g.SameSizes (g.modifyGroup x f) :=
  ⟨modifyGroup_keeps Group.radius hr, modifyGroup_keeps Group.outerRadius ho, fun _ => rfl⟩

theorem modifyInput {f : Input S → Input S} (hr : ∀ input, (f input).radius = input.radius) :
    g.SameSizes (g.modifyInput i f) :=
  ⟨fun _ => rfl, fun _ => rfl, modifyInput_keeps Input.radius hr⟩

theorem foldl {α : Type} {f : Graph S → α → Graph S}
    (hf : ∀ (g : Graph S) (a : α), g.SameSizes (f g a)) (as : List α) (g : Graph S) :
    g.SameSizes (as.foldl f g) :=
  List.foldlRecOn as f (motive := fun g' => g.SameSizes g') (.refl g)
    fun g' hg' a _ => hg'.trans (hf g' a)

end SameSizes

theorem placeInput_changes (g : Graph S) (position : Vec S) (hi : i ∈ is) :
    g₀.Changes zs is g (g.placeInput position i) :=
  .modifyInput hi fun _ => rfl

theorem shiftMerges_changes (merges : List MergeId) (g : Graph S) (d : Vec S) :
    g₀.Changes zs is g (merges.foldl (·.shiftMerge d) g) := by
  have hone : ∀ (g : Graph S) (m : MergeId), g₀.Changes zs is g (g.shiftMerge d m) :=
    fun g m => .modifyMerge fun _ => rfl
  exact .foldl hone merges g

theorem placeInput_sameSizes (g : Graph S) (position : Vec S) (i : InputId) :
    g.SameSizes (g.placeInput position i) :=
  .modifyInput fun _ => rfl

end Graph

open LambdaDiagram.Graph

/-! ## Moving a nest -/

mutual

/-- Moving a nest changes the places of what is in it. -/
theorem Nest.Shows.move_changes {g₀ : Graph S} : {n : Nest} → n.Shows g₀ → (g : Graph S) →
    (d : Vec S) → g₀.Changes n.groups [] g (n.move g d)
  | .group id anchors subgroups, ⟨hinputs, _, ha, hs⟩, g, d => by
    have hshift : g₀.Changes (id :: (subgroups.groups ++ anchors.groups)) [] g
        (g.shiftGroup d id) := .modifyGroup List.mem_cons_self fun _ => rfl
    have hanchors : ∀ g, g₀.Changes (id :: (subgroups.groups ++ anchors.groups)) [] g
        (anchors.move g d) := by
      intro g
      apply ((ha.move_changes g d).of_home fun i hi => hinputs ▸ hi).mono
      · exact List.cons_subset_cons id (List.subset_append_right _ _)
      · exact List.Subset.refl _
    have hsubgroups : ∀ g, g₀.Changes (id :: (subgroups.groups ++ anchors.groups)) [] g
        (subgroups.move g d) := by
      intro g
      apply (hs.move_changes g d).mono _ (List.Subset.refl _)
      exact List.subset_cons_of_subset id (List.subset_append_left _ _)
    have hhere := hshift.trans
      (shiftMerges_changes ((g.shiftGroup d id).group id).merges (g.shiftGroup d id) d)
    rw [Nest.move, Nest.groups]
    exact (hhere.trans (hanchors _)).trans (hsubgroups _)

theorem Anchors.Shows.move_changes {g₀ : Graph S} : {as : Anchors} → as.Shows g₀ →
    (g : Graph S) → (d : Vec S) → g₀.Changes as.groups as.own g (as.move g d)
  | .nil, _, g, _ => .refl _ _ _ g
  | .bare id rest, h, g, d => by
    rw [Anchors.move, Anchors.groups, Anchors.own]
    apply (placeInput_changes g _ List.mem_cons_self).trans
    exact (h.2.move_changes _ d).mono (List.Subset.refl _) (List.subset_cons_self _ _)
  | .hosting id hosted rest, h, g, d => by
    have hhosted : ∀ g d, g₀.Changes (rest.groups ++ hosted.groups) (id :: rest.own) g
        (hosted.move g d) := fun g d =>
      (h.2.1.move_changes g d).mono (List.subset_append_right _ _) (List.nil_subset _)
    have hrest : ∀ g, g₀.Changes (rest.groups ++ hosted.groups) (id :: rest.own) g
        (rest.move g d) := fun g =>
      (h.2.2.move_changes g d).mono (List.subset_append_left _ _) (List.subset_cons_self _ _)
    rw [Anchors.move, Anchors.groups, Anchors.own]
    apply (placeInput_changes g _ List.mem_cons_self).trans
    exact (hhosted _ _).trans (hrest _)

theorem Nests.Shows.move_changes {g₀ : Graph S} : {ns : Nests} → ns.Shows g₀ → (g : Graph S) →
    (d : Vec S) → g₀.Changes ns.groups [] g (ns.move g d)
  | .nil, _, g, _ => .refl _ _ _ g
  | .cons n rest, h, g, d => by
    rw [Nests.move, Nests.groups]
    apply ((h.1.move_changes g d).mono (List.subset_append_right _ _) (List.nil_subset _)).trans
    exact (h.2.move_changes _ d).mono (List.subset_append_left _ _) (List.nil_subset _)

end

/-- A property of graphs that stays when a group's circle, a merge or an input's point is put
elsewhere. -/
structure Graph.KeptByMoves (motive : Graph S → Prop) : Prop where
  group : ∀ g d x, motive g → motive (g.shiftGroup d x)
  merge : ∀ g d m, motive g → motive (g.shiftMerge d m)
  input : ∀ g position i, motive g → motive (g.placeInput position i)

mutual

/-- What the moves of single nodes keep is kept when a nest is moved. -/
theorem Nest.move_keeps {motive : Graph S → Prop} (hk : KeptByMoves motive) : (n : Nest) →
    (g : Graph S) → (d : Vec S) → motive g → motive (n.move g d)
  | .group id anchors subgroups, g, d, h => by
    have hmerges : ∀ (merges : List MergeId) (g : Graph S), motive g →
        motive (merges.foldl (·.shiftMerge d) g) := fun merges g h =>
      List.foldlRecOn merges _ h fun g' h m _ => hk.merge g' d m h
    rw [Nest.move]
    exact subgroups.move_keeps hk _ d
      (anchors.move_keeps hk _ d (hmerges _ _ (hk.group g d id h)))

theorem Anchors.move_keeps {motive : Graph S → Prop} (hk : KeptByMoves motive) : (as : Anchors) →
    (g : Graph S) → (d : Vec S) → motive g → motive (as.move g d)
  | .nil, _, _, h => h
  | .bare id rest, g, d, h => by
    rw [Anchors.move]
    exact rest.move_keeps hk _ d (hk.input g _ id h)
  | .hosting id hosted rest, g, d, h => by
    rw [Anchors.move]
    exact rest.move_keeps hk _ d (hosted.move_keeps hk _ _ (hk.input g _ id h))

theorem Nests.move_keeps {motive : Graph S → Prop} (hk : KeptByMoves motive) : (ns : Nests) →
    (g : Graph S) → (d : Vec S) → motive g → motive (ns.move g d)
  | .nil, _, _, h => h
  | .cons n rest, g, d, h => by
    rw [Nests.move]
    exact rest.move_keeps hk _ d (n.move_keeps hk g d h)

end

/-- Moving a nest changes no size. -/
theorem Nest.move_sameSizes (n : Nest) (g : Graph S) (d : Vec S) : g.SameSizes (n.move g d) := by
  have hkept : KeptByMoves g.SameSizes := {
    group := fun g' d x h => h.trans (.modifyGroup (fun _ => rfl) fun _ => rfl)
    merge := fun g' d m h => h.trans ⟨fun _ => rfl, fun _ => rfl, fun _ => rfl⟩
    input := fun g' position i h => h.trans (placeInput_sameSizes g' position i) }
  exact n.move_keeps hkept g d (.refl g)

/-- Moving a nest does nothing but move things. -/
theorem Nest.move_alike (n : Nest) (g : Graph S) (d : Vec S) : g.Alike (n.move g d) := by
  have hkept : KeptByMoves g.Alike := {
    group := fun g' d x h => h.trans (modifyGroup_alike fun _ => rfl)
    merge := fun g' d m h => h.trans (modifyMerge_alike fun _ => rfl)
    input := fun g' position i h => h.trans (modifyInput_alike (fun _ => rfl) fun _ => rfl) }
  exact n.move_keeps hkept g d (.refl g)

namespace Graph

/-- Putting an input somewhere with what it hosts does nothing but move things. -/
theorem moveInput_alike (g : Graph S) (i : InputId) (position : Vec S) :
    g.Alike (g.moveInput i position) := by
  have hplace : g.Alike (g.placeInput position i) :=
    modifyInput_alike (fun _ => rfl) fun _ => rfl
  unfold moveInput
  dsimp only
  split
  · exact hplace
  · exact hplace.trans (Nest.move_alike ..)

/-! ## Steps of a tick -/

variable (e : Engine S) {g₀ : Graph S} {x : GroupId}

/-- Sub-groups part in pairs: what each pair keeps is kept. -/
theorem separate_of_pairs {motive : Graph S → Prop} {as : List Nest}
    (hpair : ∀ (g : Graph S) (number number' : Nat), ∀ a ∈ as, ∀ b ∈ as, motive g →
      motive (e.separatePair g number number' a b))
    {g : Graph S} (number : Nat) (h : motive g) : motive (e.separate g number as) := by
  have hfrom : ∀ a ∈ as, ∀ bs : List Nest, bs ⊆ as → ∀ (g : Graph S) (number number' : Nat),
      motive g → motive (e.separateFrom g number a number' bs) := by
    intro a ha bs hbs
    induction bs with
    | nil => exact fun g number number' h => h
    | cons b bs ih =>
      obtain ⟨hb, hrest⟩ := List.cons_subset.1 hbs
      intro g number number' h
      exact ih hrest _ number _ (hpair g number number' a ha b hb h)
  have hall : ∀ bs : List Nest, bs ⊆ as → ∀ (g : Graph S) (number : Nat),
      motive g → motive (e.separate g number bs) := by
    intro bs hbs
    induction bs with
    | nil => exact fun g number h => h
    | cons b bs ih =>
      obtain ⟨hb, hrest⟩ := List.cons_subset.1 hbs
      intro g number h
      exact ih hrest _ _ (hfrom b hb bs hrest g number _ h)
  exact hall as (List.Subset.refl as) g number h

/-- Sub-groups part by being moved: what each of their moves keeps is kept. -/
theorem separate_of_moves {motive : Graph S → Prop} {as : List Nest}
    (hmove : ∀ (g : Graph S) (d : Vec S), ∀ a ∈ as, motive g → motive (a.move g d))
    {g : Graph S} (number : Nat) (h : motive g) : motive (e.separate g number as) := by
  refine separate_of_pairs e (fun g number number' a ha b hb h => ?_) number h
  unfold Engine.separatePair
  dsimp only
  split
  · exact hmove _ _ b hb (hmove _ _ a ha h)
  · exact h

theorem separate_sameSizes (g : Graph S) (number : Nat) (as : List Nest) :
    g.SameSizes (e.separate g number as) :=
  separate_of_moves e (motive := g.SameSizes)
    (fun g' d a _ h => h.trans (a.move_sameSizes g' d)) number (.refl g)

theorem separate_changes {ns : Nests} (hs : ns.Shows g₀) (g : Graph S) (number : Nat) :
    g₀.Changes ns.groups [] g (e.separate g number ns.toList) := by
  refine separate_of_moves e (motive := g₀.Changes ns.groups [] g) ?_ number (.refl _ _ _ g)
  intro g' d n hn h
  refine h.trans (((hs.of_mem n hn).move_changes g' d).mono ?_ (List.Subset.refl _))
  exact fun x hx => Nests.mem_groups.2 ⟨n, hn, hx⟩

theorem resize_changes (g : Graph S) (x : GroupId) (largest : S) :
    g₀.Changes [x] [] g (e.resize g x largest) :=
  .modifyGroup List.mem_cons_self fun _ => rfl

theorem resizeInput_changes (g : Graph S) (radius : S) (i : InputId) :
    g₀.Changes [] [i] g (g.resizeInput radius i) :=
  .modifyInput List.mem_cons_self fun _ => rfl

theorem resizeInput_changes_home (g : Graph S) (radius : S) {i : InputId}
    (hi : i ∈ (g₀.group x).inputs) : g₀.Changes [x] [] g (g.resizeInput radius i) :=
  (resizeInput_changes g radius i).of_home fun _ hj => List.mem_singleton.1 hj ▸ hi

theorem turn_changes (g : Graph S) (x : GroupId) (number : Nat) (i : InputId) :
    g₀.Changes [] [i] g (e.turn g x number i).1 := by
  have hangle : g₀.Changes [] [i] g
      (g.modifyInput i fun input => { input with angle := e.nextAngle g x number i }) :=
    .modifyInput List.mem_cons_self fun _ => rfl
  exact hangle.trans (placeInput_changes _ _ List.mem_cons_self)

theorem turn_changes_home (g : Graph S) (number : Nat) {i : InputId}
    (hi : i ∈ (g₀.group x).inputs) : g₀.Changes [x] [] g (e.turn g x number i).1 :=
  (turn_changes e g x number i).of_home fun _ hj => List.mem_singleton.1 hj ▸ hi

theorem turn_sameSizes (g : Graph S) (x : GroupId) (number : Nat) (i : InputId) :
    g.SameSizes (e.turn g x number i).1 := by
  have hangle : g.SameSizes
      (g.modifyInput i fun input => { input with angle := e.nextAngle g x number i }) :=
    .modifyInput fun _ => rfl
  exact hangle.trans (placeInput_sameSizes _ _ i)

theorem lowerOutput_changes (g : Graph S) (x : GroupId) :
    g₀.Changes [x] [] g (g.lowerOutput x) :=
  .modifyGroup List.mem_cons_self fun _ => rfl

theorem lowerOutput_sameSizes (g : Graph S) (x : GroupId) : g.SameSizes (g.lowerOutput x) :=
  .modifyGroup (fun _ => rfl) fun _ => rfl

theorem easeMerge_changes (g : Graph S) (x : GroupId) (m : MergeId) :
    g₀.Changes [] [] g (e.easeMerge g x m) := by
  unfold Engine.easeMerge
  split
  · exact .refl _ _ _ g
  · split
    · exact .modifyMerge fun _ => rfl
    · exact .refl _ _ _ g

theorem easeMerge_sameSizes (g : Graph S) (x : GroupId) (m : MergeId) :
    g.SameSizes (e.easeMerge g x m) := by
  have h : (g : Graph S).Changes [] [] g (e.easeMerge g x m) := easeMerge_changes e g x m
  have hgroup : ∀ y, (e.easeMerge g x m).group y = g.group y := fun y =>
    h.group y List.not_mem_nil
  refine ⟨fun y => by rw [hgroup], fun y => by rw [hgroup], fun i => ?_⟩
  rw [h.input i List.not_mem_nil nofun]

/-! Merges are eased last: then all groups and inputs are in place. -/

theorem easeMerges_changes (g : Graph S) (x : GroupId) :
    g₀.Changes [] [] g ((g.group x).merges.foldl (fun g m => e.easeMerge g x m) g) :=
  .foldl (fun g m => easeMerge_changes e g x m) (g.group x).merges g

theorem easeMerges_sameSizes (g : Graph S) (x : GroupId) :
    g.SameSizes ((g.group x).merges.foldl (fun g m => e.easeMerge g x m) g) :=
  .foldl (fun g m => easeMerge_sameSizes e g x m) (g.group x).merges g

end Graph

/-! ## Turning inputs -/

theorem Anchors.Shows.turnInputs_changes {g₀ : Graph S} (e : Engine S) (x : GroupId) :
    {as : Anchors} → as.Shows g₀ → (number : Nat) → (g : Graph S) →
    g₀.Changes as.groups as.own g (e.turnInputs g x number as)
  | .nil, _, _, g => .refl _ _ _ g
  | .bare id rest, h, number, g => by
    rw [Engine.turnInputs, Anchors.groups, Anchors.own]
    apply ((turn_changes e g x number id).mono (List.nil_subset _) _).trans
    · exact (h.2.turnInputs_changes e x _ _).mono (List.Subset.refl _) (List.subset_cons_self _ _)
    · exact List.cons_subset_cons id (List.nil_subset _)
  | .hosting id hosted rest, h, number, g => by
    have hturn : g₀.Changes (rest.groups ++ hosted.groups) (id :: rest.own) g
        (e.turn g x number id).1 :=
      (turn_changes e g x number id).mono (List.nil_subset _)
        (List.cons_subset_cons id (List.nil_subset _))
    have hhosted : ∀ g d, g₀.Changes (rest.groups ++ hosted.groups) (id :: rest.own) g
        (hosted.move g d) := fun g d =>
      (h.2.1.move_changes g d).mono (List.subset_append_right _ _) (List.nil_subset _)
    have hrest : ∀ g, g₀.Changes (rest.groups ++ hosted.groups) (id :: rest.own) g
        (e.turnInputs g x (number + 1) rest) := fun g =>
      (h.2.2.turnInputs_changes e x _ g).mono (List.subset_append_left _ _)
        (List.subset_cons_self _ _)
    rw [Engine.turnInputs, Anchors.groups, Anchors.own]
    exact hturn.trans ((hhosted _ _).trans (hrest _))

theorem Anchors.turnInputs_sameSizes (e : Engine S) (x : GroupId) : (as : Anchors) →
    (number : Nat) → (g : Graph S) → g.SameSizes (e.turnInputs g x number as)
  | .nil, _, g => .refl g
  | .bare id rest, number, g => by
    rw [Engine.turnInputs]
    exact (turn_sameSizes e g x number id).trans (rest.turnInputs_sameSizes e x _ _)
  | .hosting id hosted rest, number, g => by
    rw [Engine.turnInputs]
    exact (turn_sameSizes e g x number id).trans
      ((hosted.move_sameSizes _ _).trans (rest.turnInputs_sameSizes e x _ _))

/-! ## A tick -/

/-- A group that settles, with its inputs turned and its output still to be lowered. -/
def Engine.turned (e : Engine S) (g : Graph S) (id : GroupId) (anchors : Anchors)
    (subgroups : Nests) (largest : S) : Graph S :=
  e.turnInputs (e.resize (e.separate g 0 subgroups.toList) id largest) id 0 anchors

theorem Engine.settle_eq (e : Engine S) (g : Graph S) (id : GroupId) (anchors : Anchors)
    (subgroups : Nests) (largest : S) : e.settle g id anchors subgroups largest =
      ((((e.turned g id anchors subgroups largest).lowerOutput id).group id).merges.foldl
        (fun g m => e.easeMerge g id m)
        ((e.turned g id anchors subgroups largest).lowerOutput id)) := rfl

namespace Graph

variable (e : Engine S) {g₀ : Graph S} {id : GroupId} {anchors : Anchors} {subgroups : Nests}

theorem turned_changes (hinputs : anchors.own = (g₀.group id).inputs) (ha : anchors.Shows g₀)
    (hs : subgroups.Shows g₀) (g : Graph S) (largest : S) :
    g₀.Changes (id :: (subgroups.groups ++ anchors.groups)) [] g
      (e.turned g id anchors subgroups largest) := by
  have hseparate : g₀.Changes (id :: (subgroups.groups ++ anchors.groups)) [] g
      (e.separate g 0 subgroups.toList) :=
    (separate_changes e hs g 0).mono
      (List.subset_cons_of_subset id (List.subset_append_left _ _)) (List.Subset.refl _)
  have hresize : ∀ g, g₀.Changes (id :: (subgroups.groups ++ anchors.groups)) [] g
      (e.resize g id largest) := fun g =>
    (resize_changes e g id largest).mono (List.cons_subset_cons id (List.nil_subset _))
      (List.Subset.refl _)
  have hturn : ∀ g, g₀.Changes (id :: (subgroups.groups ++ anchors.groups)) [] g
      (e.turnInputs g id 0 anchors) := by
    intro g
    apply ((ha.turnInputs_changes e id 0 g).of_home fun i hi => hinputs ▸ hi).mono
    · exact List.cons_subset_cons id (List.subset_append_right _ _)
    · exact List.Subset.refl _
  exact (hseparate.trans (hresize _)).trans (hturn _)

/-- A group settles among what lies in it. -/
theorem settle_changes (hinputs : anchors.own = (g₀.group id).inputs) (ha : anchors.Shows g₀)
    (hs : subgroups.Shows g₀) (g : Graph S) (largest : S) :
    g₀.Changes (id :: (subgroups.groups ++ anchors.groups)) [] g
      (e.settle g id anchors subgroups largest) := by
  rw [Engine.settle_eq]
  apply (turned_changes e hinputs ha hs g largest).trans
  apply ((lowerOutput_changes _ id).mono _ (List.Subset.refl _)).trans
  · exact (easeMerges_changes e _ id).mono (List.nil_subset _) (List.Subset.refl _)
  · exact List.cons_subset_cons id (List.nil_subset _)

/-- Once a group has its size, settling changes no size. -/
theorem settle_sameSizes (g : Graph S) (id : GroupId) (anchors : Anchors) (subgroups : Nests)
    (largest : S) : (e.resize (e.separate g 0 subgroups.toList) id largest).SameSizes
      (e.settle g id anchors subgroups largest) := by
  rw [Engine.settle_eq]
  apply (anchors.turnInputs_sameSizes e id 0 _).trans
  exact (lowerOutput_sameSizes _ id).trans (easeMerges_sameSizes e _ id)

end Graph

mutual

/-- A tick changes what is in the nest. -/
theorem Nest.Shows.tick_changes {g₀ : Graph S} (e : Engine S) : {n : Nest} → n.Shows g₀ →
    (g : Graph S) → g₀.Changes n.groups [] g (e.tickNest g n)
  | .group id anchors subgroups, ⟨hinputs, _, ha, hs⟩, g => by
    have hanchors : g₀.Changes (id :: (subgroups.groups ++ anchors.groups)) [] g
        (e.tickAnchors g 0.0 anchors).1 := by
      apply ((ha.tick_changes e g 0.0).of_home fun i hi => hinputs ▸ hi).mono
      · exact List.cons_subset_cons id (List.subset_append_right _ _)
      · exact List.Subset.refl _
    have hsubgroups : ∀ g, g₀.Changes (id :: (subgroups.groups ++ anchors.groups)) [] g
        (e.tickNests g subgroups) := fun g =>
      (hs.tick_changes e g).mono
        (List.subset_cons_of_subset id (List.subset_append_left _ _)) (List.Subset.refl _)
    rw [Engine.tickNest, Nest.groups]
    exact (hanchors.trans (hsubgroups _)).trans (settle_changes e hinputs ha hs _ _)

theorem Anchors.Shows.tick_changes {g₀ : Graph S} (e : Engine S) : {as : Anchors} →
    as.Shows g₀ → (g : Graph S) → (largest : S) →
    g₀.Changes as.groups as.own g (e.tickAnchors g largest as).1
  | .nil, _, g, _ => .refl _ _ _ g
  | .bare id rest, h, g, largest => by
    have hresize : g₀.Changes rest.groups (id :: rest.own) g (g.resizeInput e.inputRadius id) :=
      (resizeInput_changes g _ id).mono (List.nil_subset _)
        (List.cons_subset_cons id (List.nil_subset _))
    rw [Engine.tickAnchors, Anchors.groups, Anchors.own]
    apply hresize.trans
    exact (h.2.tick_changes e _ _).mono (List.Subset.refl _) (List.subset_cons_self _ _)
  | .hosting id hosted rest, h, g, largest => by
    have hhosted : g₀.Changes (rest.groups ++ hosted.groups) (id :: rest.own) g
        (e.tickNest g hosted) :=
      (h.2.1.tick_changes e g).mono (List.subset_append_right _ _) (List.nil_subset _)
    have hresize : ∀ (g : Graph S) (radius : S),
        g₀.Changes (rest.groups ++ hosted.groups) (id :: rest.own) g (g.resizeInput radius id) :=
      fun g radius => (resizeInput_changes g radius id).mono (List.nil_subset _)
        (List.cons_subset_cons id (List.nil_subset _))
    rw [Engine.tickAnchors, Anchors.groups, Anchors.own]
    apply (hhosted.trans (hresize _ _)).trans
    exact (h.2.2.tick_changes e _ _).mono (List.subset_append_left _ _)
      (List.subset_cons_self _ _)

theorem Nests.Shows.tick_changes {g₀ : Graph S} (e : Engine S) : {ns : Nests} → ns.Shows g₀ →
    (g : Graph S) → g₀.Changes ns.groups [] g (e.tickNests g ns)
  | .nil, _, g => .refl _ _ _ g
  | .cons n rest, h, g => by
    rw [Engine.tickNests, Nests.groups]
    apply ((h.1.tick_changes e g).mono (List.subset_append_right _ _) (List.nil_subset _)).trans
    exact (h.2.tick_changes e _).mono (List.subset_append_left _ _) (List.nil_subset _)

end

end LambdaDiagram
