import LambdaDiagram.Proofs.Settling

/-!
Sizes after a tick. Within one tick they reach from the innermost groups to the root: every input is
as large as the group that it hosts now is, every group reaches to the far side of its largest input
now, and the engine returns how far the root reaches.
-/

namespace LambdaDiagram

variable {S : Type} [Scalar S]

namespace Engine

/-- The radius that an input takes from the group that it hosts, if any. -/
def hostRadius (e : Engine S) (g : Graph S) (i : InputId) : S :=
  match (g.input i).hosted with
  | some y => (g.group y).outerRadius + e.inputPadding
  | none => e.inputRadius

/-- The sizes of a group and of its inputs fit each other and what the inputs host. -/
structure Sized (e : Engine S) (g : Graph S) (x : GroupId) : Prop where
  input : ∀ i ∈ (g.group x).inputs, (g.input i).radius = e.hostRadius g i
  outer : (g.group x).outerRadius =
    (g.group x).radius + Scalar.largest ((g.group x).inputs.map fun i => (g.input i).radius)

section

variable {e : Engine S} {g₀ g g' : Graph S} {x : GroupId} {i : InputId}

theorem hostRadius_congr (hi : (g'.input i).hosted = (g.input i).hosted)
    (hgroup : ∀ y, (g.input i).hosted = some y →
      (g'.group y).outerRadius = (g.group y).outerRadius) :
    e.hostRadius g' i = e.hostRadius g i := by
  unfold hostRadius
  rw [hi]
  split
  · rw [hgroup _ ‹_›]
  · rfl

/-- Sizes fit as long as they stay. -/
theorem Sized.congr (h : e.Sized g x) (ha : g.Alike g')
    (hradius : (g'.group x).radius = (g.group x).radius)
    (houter : (g'.group x).outerRadius = (g.group x).outerRadius)
    (hinput : ∀ i ∈ (g.group x).inputs, (g'.input i).radius = (g.input i).radius)
    (hhosted : ∀ i ∈ (g.group x).inputs, ∀ y, (g.input i).hosted = some y →
      (g'.group y).outerRadius = (g.group y).outerRadius) : e.Sized g' x where
  input i hi := by
    rw [ha.inputs_eq] at hi
    rw [hinput i hi, h.input i hi]
    exact (hostRadius_congr (ha.hosted_eq i) (hhosted i hi)).symm
  outer := by
    rw [hradius, houter, h.outer, ha.inputs_eq]
    rw [List.map_congr_left hinput]

/-- What is moved stays as large, and nothing else has to do with how large it is. -/
theorem lasting_sized (e : Engine S) (g₀ : Graph S) : g₀.Lasting e.Sized where
  near := by
    intro g g' x ha ha' hx hin h
    apply h.congr ha'
    · rw [hx.1]
    · rw [hx.1]
    · intro i hi
      rw [ha.inputs_eq] at hi
      rw [hx.2 i hi]
    · intro i hi y hy
      rw [ha.inputs_eq] at hi
      rw [ha.hosted_eq] at hy
      rw [(hin y (.inr ⟨i, hi, hy⟩)).1]
  move := by
    intro n g d hn _ hold x hx
    have hs := n.move_sameSizes g d
    exact (hold x hx).congr (hn.shows.move_changes g d).alike (hs.radius x) (hs.outerRadius x)
      (fun i _ => hs.input i) fun _ _ y _ => hs.outerRadius y

end

end Engine

open LambdaDiagram.Graph

/-! ## Sizing the inputs -/

section

variable {g₀ g : Graph S} {home : GroupId} {i : InputId}

theorem radius_resizeInput (hlt : i.index < g.inputs.size) (radius : S) :
    ((g.resizeInput radius i).input i).radius = radius := by
  rw [Graph.resizeInput, input_modifyInput, if_pos ⟨rfl, hlt⟩]

/-- Once the inputs of a group are sized, each is as large as what it hosts asks for, and the
largest radius has been found. -/
theorem Anchors.Fits.tick_sizes (hg : g₀.Tidy) (e : Engine S) : {as : Anchors} →
    {g : Graph S} → (largest : S) → as.Fits g₀ home → g₀.Alike g →
    (∀ i ∈ as.own, ((e.tickAnchors g largest as).1.input i).radius =
      e.hostRadius (e.tickAnchors g largest as).1 i) ∧
    (e.tickAnchors g largest as).2 =
      (as.own.map fun i => ((e.tickAnchors g largest as).1.input i).radius).foldl Scalar.larger
        largest
  | .nil, _, _, _, _ => ⟨List.forall_mem_nil _, rfl⟩
  | .bare id rest, g, largest, h, ha => by
    have hresize : g₀.Changes [] [id] _ _ := resizeInput_changes g e.inputRadius id
    have ha1 := ha.trans hresize.alike
    have hrest := h.of_bare.shows.tick_changes e (g.resizeInput e.inputRadius id)
      (Scalar.larger largest e.inputRadius)
    obtain ⟨hown, hlargest⟩ := tick_sizes hg e (Scalar.larger largest e.inputRadius) h.of_bare ha1
    have hid := h.input_eq_of_bare hg hrest
    have hradius := radius_resizeInput (h.input_lt hg ha List.mem_cons_self) e.inputRadius
    have hhosted := ((ha1.trans hrest.alike).hosted_eq id).trans h.shows.1
    rw [Engine.tickAnchors, Anchors.own]
    refine ⟨List.forall_mem_cons.2 ⟨?_, hown⟩, ?_⟩
    · rw [hid, hradius, Engine.hostRadius, hhosted]
    · rw [hlargest, List.map_cons, List.foldl_cons, hid, hradius]
  | .hosting id hosted rest, g, largest, h, ha => by
    let radius := ((e.tickNest g hosted).group hosted.id).outerRadius + e.inputPadding
    have hhosted := h.hosted.shows.tick_changes e g
    have ha1 := ha.trans hhosted.alike
    have hresize : g₀.Changes [] [id] _ _ := resizeInput_changes (e.tickNest g hosted) radius id
    have ha2 := ha1.trans hresize.alike
    have hrest := h.of_hosting.shows.tick_changes e ((e.tickNest g hosted).resizeInput radius id)
      (Scalar.larger largest radius)
    obtain ⟨hown, hlargest⟩ := tick_sizes hg e (Scalar.larger largest radius) h.of_hosting ha2
    have hid := h.input_eq_of_hosting hg hrest
    have hradius := radius_resizeInput (h.input_lt hg ha1 List.mem_cons_self) radius
    have hlink := ((ha2.trans hrest.alike).hosted_eq id).trans h.shows.1
    have hgroup := hrest.group hosted.id fun hm => h.apart hm hosted.id_mem_groups
    rw [Engine.tickAnchors, Anchors.own]
    refine ⟨List.forall_mem_cons.2 ⟨?_, hown⟩, ?_⟩
    · rw [hid, hradius, Engine.hostRadius, hlink]
      exact congrArg (fun group => group.outerRadius + e.inputPadding) hgroup.symm
    · rw [hlargest, List.map_cons, List.foldl_cons, hid, hradius]

end

/-! ## Settling -/

/-- A group that settles takes another size; all else keeps its own. -/
theorem settle_sizes (e : Engine S) (g : Graph S) (id : GroupId) (anchors : Anchors)
    (subgroups : Nests) (largest : S) :
    (∀ i, ((e.settle g id anchors subgroups largest).input i).radius = (g.input i).radius) ∧
    ∀ x, x ≠ id → ((e.settle g id anchors subgroups largest).group x).outerRadius =
      (g.group x).outerRadius := by
  have hseparate := separate_sameSizes e g 0 subgroups.toList
  have hsettle := settle_sameSizes e g id anchors subgroups largest
  refine ⟨fun i => ?_, fun x hx => ?_⟩
  · rw [hsettle.input]
    exact hseparate.input i
  · rw [hsettle.outerRadius, Engine.resize, group_modifyGroup, if_neg fun h => hx h.1.symm]
    exact hseparate.outerRadius x

/-- A tick gives a group and its inputs sizes that fit. -/
theorem Nest.Fits.tick_sized {g₀ g : Graph S} {n : Nest} (hg : g₀.Tidy) (e : Engine S)
    (h : n.Fits g₀) (ha : g₀.Alike g) : e.Sized (e.tickNest g n) n.id := by
  obtain ⟨id, anchors, subgroups⟩ := n
  have hanchors := h.anchors hg
  let inner := e.inner g anchors subgroups
  let final := e.settle inner.1 id anchors subgroups inner.2
  have hinner := ha.trans (h.inner_alike hg e g)
  have hfinal : g₀.Alike final := ha.trans (h.shows.tick_changes e g).alike
  have hsized := ha.trans (hanchors.shows.tick_changes e g 0.0).alike
  obtain ⟨hradius, hlargest⟩ := hanchors.tick_sizes hg e 0.0 ha
  obtain ⟨hown, hhosted⟩ := h.inner_untouched hg e g
  obtain ⟨hinput, houter⟩ := settle_sizes e inner.1 id anchors subgroups inner.2
  have hlist : (final.group id).inputs = anchors.own :=
    (hfinal.inputs_eq id).trans h.shows.1.symm
  have hkept : ∀ i ∈ anchors.own,
      (final.input i).radius = ((e.tickAnchors g 0.0 anchors).1.input i).radius := by
    intro i hi
    rw [hinput, hown i hi]
  have htotal : inner.2 = Scalar.largest (anchors.own.map fun i => (final.input i).radius) := by
    rw [List.map_congr_left hkept]
    exact hlargest
  rw [Engine.tickNest_eq]
  show e.Sized final id
  constructor
  · rw [hlist]
    intro i hi
    refine (hkept i hi).trans ((hradius i hi).trans (Engine.hostRadius_congr ?_ ?_).symm)
    · exact (hfinal.hosted_eq i).trans (hsized.hosted_eq i).symm
    · intro y hy
      rw [hsized.hosted_eq] at hy
      have hmem := hanchors.shows.mem_groups hi hy
      rw [houter y (ne_of_mem_of_not_mem hmem hanchors.home_notMem), hhosted y hmem]
  · rw [hlist, ← htotal, h.group_settle hg e hinner]

/-! ## Every tick -/

theorem establishes_sized {g₀ : Graph S} (hg : g₀.Tidy) (e : Engine S) :
    e.Establishes g₀ (fun _ _ => True) e.Sized where
  lasting := e.lasting_sized g₀
  before _ _ _ _ _ := trivial
  own hn ha _ := hn.tick_sized hg e ha

/-- However a graph is drawn from a chain and flattened, and however often it is then laid out:
after each time every live input is as large as the group that it hosts now is, with some room
around, every live group reaches to the far side of its largest input now, and what the engine has
returned is how far the root reaches. -/
theorem Graph.sizes_propagate (e : Engine S) (names : List Char) (body : Chain) (rest : List Term)
    (n : Nat) : ∃ g : Graph S, ofChain? (.ofTerms (.group names body) rest) = .ok g ∧
      let result := e.update (e.run g.flatten n)
      (∀ i ∈ result.1.liveInputs, (result.1.input i).radius =
        match (result.1.input i).hosted with
        | some y => (result.1.group y).outerRadius + e.inputPadding
        | none => e.inputRadius) ∧
      (∀ x ∈ result.1.liveGroups, (result.1.group x).outerRadius = (result.1.group x).radius +
        ((result.1.group x).inputs.map fun i => (result.1.input i).radius).foldl Scalar.larger
          0.0) ∧
      result.2 = (result.1.group root).outerRadius := by
  obtain ⟨g, first, others, hg, hforest, -⟩ := exists_forest (S := S) names body rest
  have htidy := hforest.flatten.1.tidy
  have hsized := (establishes_sized htidy e).run htidy (fun _ _ _ => trivial)
    (fun _ _ => trivial) n
  have hr := ((Rearranged.refl g.flatten).run e n).tick e
  have hlive := hr.liveGroups_eq
  refine ⟨g, hg, fun i hi => ?_, fun x hx => ?_, rfl⟩
  · obtain ⟨x, hx, hix⟩ := List.mem_flatMap.1 hi
    exact (hsized x (hlive ▸ hx)).input i hix
  · exact (hsized x (hlive ▸ hx)).outer

end LambdaDiagram
