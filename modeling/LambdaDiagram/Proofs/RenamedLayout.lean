import LambdaDiagram.Proofs.Renaming
import Mathlib.Logic.Equiv.Basic

/-!
Names do not matter for the drawing. Flattening, moving and laying out a graph read no name, so each
of them does to a graph with other names what it does to the graph. Together with building, which
compares names and nothing more, this makes the drawings of a term and of the renamed term the same.
-/

namespace LambdaDiagram

variable {S : Type} [Scalar S] {r : Char → Char}

namespace Graph

variable {g : Graph S}

/-! ## Flattening -/

omit [Scalar S] in
theorem redirect_rename (source : Source) (old : Sink) (new : Option Sink) :
    (g.rename r).redirect source old new = (g.redirect source old new).rename r := by
  cases source with
  | input i =>
    apply modifyInput_rename i
    intro input
    cases new <;> rfl
  | merge m => rfl
  | output x => rfl

omit [Scalar S] in
theorem reroute_rename (sink : Sink) (old : Source) (new : Option Source) :
    (g.rename r).reroute sink old new = (g.reroute sink old new).rename r := by
  cases sink <;> rfl

theorem bypass_rename (id : GroupId) : (g.rename r).bypass id = (g.bypass id).rename r := by
  unfold bypass
  dsimp only
  rw [group_rename]
  cases (g.group id).output.producer <;> cases (g.group id).output.downstream <;>
    simp only [redirect_rename, reroute_rename]

theorem dissolve_rename (id home : GroupId) : (g.rename r).dissolve id home =
    ((g.dissolve id home).1.rename r, (g.dissolve id home).2) := by
  have horphans : ∀ (orphans : List GroupId) (g : Graph S),
      orphans.foldl (fun g orphan =>
        g.modifyGroup orphan fun group => { group with parent := some home }) (g.rename r) =
      (orphans.foldl (fun g orphan =>
        g.modifyGroup orphan fun group => { group with parent := some home }) g).rename r :=
    fun orphans g => List.foldl_hom (rename r) fun _ _ => rfl
  unfold dissolve
  simp only [bypass_rename, group_rename, modifyGroup_rename, horphans]

theorem flattenTo_rename (depth : Nat) (id : GroupId) :
    flattenTo depth (g.rename r) id = (flattenTo depth g id).rename r := by
  induction depth generalizing g id with
  | zero => rfl
  | succ depth ih =>
    have habsorb : ∀ (state : Graph S × List GroupId) (sub : GroupId),
        absorb depth id (state.1.rename r, state.2) sub =
          ((absorb depth id state sub).1.rename r, (absorb depth id state sub).2) := by
      intro state sub
      unfold absorb
      simp only [ih, group_rename, dissolve_rename]
      split <;> rfl
    have hprune : ∀ g : Graph S, prune depth (g.rename r) id = (prune depth g id).rename r := by
      intro g
      let other (state : Graph S × List GroupId) := (state.1.rename r, state.2)
      have hfold : (g.group id).subgroups.foldl (absorb depth id) (other (g, [])) =
          other ((g.group id).subgroups.foldl (absorb depth id) (g, [])) :=
        List.foldl_hom other habsorb
      unfold prune
      dsimp only [other] at hfold ⊢
      rw [group_rename, hfold, modifyGroup_rename]
    have hfold : ∀ ids : List GroupId, ids.foldl (flattenTo depth) (g.rename r) =
        (ids.foldl (flattenTo depth) g).rename r :=
      fun ids => List.foldl_hom (rename r) fun _ x => ih x
    rw [flattenTo_succ, flattenTo_succ]
    simp only [group_rename, hosted_rename, hfold, hprune]

/-- Flattening reads no name. -/
theorem flatten_rename (g : Graph S) : (g.rename r).flatten = g.flatten.rename r :=
  flattenTo_rename g.groups.size root

/-! ## Motion -/

theorem nestTo_rename (depth : Nat) : (g.rename r).nestTo depth = g.nestTo depth := by
  have hanchors : ∀ (nestOf : GroupId → Nest) (ids : List InputId),
      (g.rename r).anchorsWith nestOf ids = g.anchorsWith nestOf ids := by
    intro nestOf ids
    induction ids with
    | nil => rfl
    | cons i ids ih => rw [anchorsWith, anchorsWith, hosted_rename, ih]
  induction depth with
  | zero => rfl
  | succ depth ih =>
    funext id
    rw [nestTo, nestTo, group_rename, hanchors, ih]

@[simp] theorem nest_rename (id : GroupId) : (g.rename r).nest id = g.nest id :=
  congrFun (nestTo_rename g.groups.size) id

omit [Scalar S] in
theorem placeInput_rename (position : Vec S) (i : InputId) :
    (g.rename r).placeInput position i = (g.placeInput position i).rename r :=
  modifyInput_rename i fun _ => rfl

theorem foldl_shiftMerge_rename (d : Vec S) (merges : List MergeId) :
    merges.foldl (·.shiftMerge d) (g.rename r) = (merges.foldl (·.shiftMerge d) g).rename r :=
  List.foldl_hom (rename r) fun _ _ => rfl

end Graph

open LambdaDiagram.Graph

mutual

theorem Nest.move_rename : (n : Nest) → (g : Graph S) → (d : Vec S) →
    n.move (g.rename r) d = (n.move g d).rename r
  | .group id anchors subgroups, g, d => by
    have hshift : (g.rename r).shiftGroup d id = (g.shiftGroup d id).rename r := rfl
    rw [Nest.move, Nest.move]
    simp only [hshift, group_rename, foldl_shiftMerge_rename, Anchors.move_rename anchors,
      Nests.move_rename subgroups]

theorem Anchors.move_rename : (as : Anchors) → (g : Graph S) → (d : Vec S) →
    as.move (g.rename r) d = (as.move g d).rename r
  | .nil, _, _ => rfl
  | .bare id rest, g, d => by
    rw [Anchors.move, Anchors.move, position_rename, placeInput_rename, Anchors.move_rename rest]
  | .hosting id hosted rest, g, d => by
    rw [Anchors.move, Anchors.move]
    simp only [position_rename, placeInput_rename, Nest.move_rename hosted,
      Anchors.move_rename rest]

theorem Nests.move_rename : (ns : Nests) → (g : Graph S) → (d : Vec S) →
    ns.move (g.rename r) d = (ns.move g d).rename r
  | .nil, _, _ => rfl
  | .cons n rest, g, d => by
    rw [Nests.move, Nests.move, Nest.move_rename n, Nests.move_rename rest]

end

/-! ## Layout -/

namespace Graph

variable {g : Graph S}

@[simp] theorem sourcePosition_rename (source : Source) :
    (g.rename r).sourcePosition source = g.sourcePosition source := by
  cases source with
  | input i => exact position_rename i
  | merge m => rfl
  | output x => rfl

@[simp] theorem sourceRadius_rename (source : Source) :
    (g.rename r).sourceRadius source = g.sourceRadius source := by
  cases source with
  | input i => exact radius_rename i
  | merge m => rfl
  | output x => rfl

@[simp] theorem sinkPosition_rename (sink : Sink) :
    (g.rename r).sinkPosition sink = g.sinkPosition sink := by
  cases sink <;> rfl

@[simp] theorem sinkRadius_rename (sink : Sink) :
    (g.rename r).sinkRadius sink = g.sinkRadius sink := by
  cases sink <;> rfl

@[simp] theorem clearance_rename (siblings : List InputId) (number : Nat) (own : InputId)
    (p : Vec S) :
    (g.rename r).clearance siblings number own p = g.clearance siblings number own p := by
  unfold clearance
  simp only [usages_rename, sinkPosition_rename, position_rename, radius_rename]

omit [Scalar S] in
theorem resizeInput_rename (radius : S) (i : InputId) :
    (g.rename r).resizeInput radius i = (g.resizeInput radius i).rename r :=
  modifyInput_rename i fun _ => rfl

end Graph

namespace Engine

variable (e : Engine S) {g : Graph S}

theorem resize_rename (id : GroupId) (largest : S) :
    e.resize (g.rename r) id largest = (e.resize g id largest).rename r := by
  have hneeded : e.neededRadius (g.rename r) id = e.neededRadius g id := by
    unfold neededRadius
    simp only [group_rename, radius_rename]
    rfl
  unfold resize
  rw [hneeded]
  rfl

theorem separatePair_rename (number number' : Nat) (a b : Nest) :
    e.separatePair (g.rename r) number number' a b =
      (e.separatePair g number number' a b).rename r := by
  unfold separatePair
  simp only [group_rename, Nest.move_rename]
  split <;> rfl

theorem separateFrom_rename (number : Nat) (a : Nest) (number' : Nat) (bs : List Nest) :
    e.separateFrom (g.rename r) number a number' bs =
      (e.separateFrom g number a number' bs).rename r := by
  induction bs generalizing g number' with
  | nil => rfl
  | cons b bs ih => rw [separateFrom, separatePair_rename, ih, separateFrom]

theorem separate_rename (number : Nat) (as : List Nest) :
    e.separate (g.rename r) number as = (e.separate g number as).rename r := by
  induction as generalizing g number with
  | nil => rfl
  | cons a as ih => rw [separate, separateFrom_rename, ih, separate]

theorem turn_rename (group : GroupId) (number : Nat) (i : InputId) :
    e.turn (g.rename r) group number i =
      ((e.turn g group number i).1.rename r, (e.turn g group number i).2) := by
  have hangle : e.nextAngle (g.rename r) group number i = e.nextAngle g group number i := by
    unfold nextAngle
    simp only [group_rename, clearance_rename, angle_rename]
  have hturned : ∀ angle : S, (g.rename r).modifyInput i (fun input =>
      { input with angle := angle }) =
        (g.modifyInput i fun input => { input with angle := angle }).rename r :=
    fun angle => modifyInput_rename i fun _ => rfl
  unfold turn
  simp only [hangle, group_rename, position_rename, hturned, placeInput_rename]

theorem turnInputs_rename (group : GroupId) : (number : Nat) → (as : Anchors) → (g : Graph S) →
    e.turnInputs (g.rename r) group number as = (e.turnInputs g group number as).rename r
  | _, .nil, _ => rfl
  | number, .bare id rest, g => by
    rw [turnInputs, turnInputs, turn_rename, turnInputs_rename group (number + 1) rest]
  | number, .hosting id hosted rest, g => by
    rw [turnInputs, turnInputs, turn_rename]
    simp only [Nest.move_rename, turnInputs_rename group (number + 1) rest]

theorem easeMerge_rename (group : GroupId) (m : MergeId) :
    e.easeMerge (g.rename r) group m = (e.easeMerge g group m).rename r := by
  have htarget : e.target? (g.rename r) group m = e.target? g group m := by
    unfold target?
    simp only [merge_rename, sourcePosition_rename, sinkPosition_rename, sourceRadius_rename,
      sinkRadius_rename]
    rfl
  unfold easeMerge
  rw [htarget]
  cases e.target? g group m with
  | none => rfl
  | some target =>
    dsimp only
    split <;> rfl

theorem settle_rename (id : GroupId) (anchors : Anchors) (subgroups : Nests) (largest : S) :
    e.settle (g.rename r) id anchors subgroups largest =
      (e.settle g id anchors subgroups largest).rename r := by
  have hlower : ∀ g : Graph S, (g.rename r).lowerOutput id = (g.lowerOutput id).rename r :=
    fun _ => rfl
  have hease : ∀ (merges : List MergeId) (g : Graph S),
      merges.foldl (fun g m => e.easeMerge g id m) (g.rename r) =
        (merges.foldl (fun g m => e.easeMerge g id m) g).rename r :=
    fun merges g => List.foldl_hom (rename r) fun _ m => e.easeMerge_rename id m
  unfold settle
  simp only [separate_rename, resize_rename, turnInputs_rename, hlower, group_rename, hease]

mutual

theorem tickNest_rename (e : Engine S) : (n : Nest) → (g : Graph S) →
    e.tickNest (g.rename r) n = (e.tickNest g n).rename r
  | .group id anchors subgroups, g => by
    rw [tickNest, tickNest, tickAnchors_rename e anchors]
    simp only [tickNests_rename e subgroups, settle_rename]

theorem tickAnchors_rename (e : Engine S) : (as : Anchors) → (g : Graph S) → (largest : S) →
    e.tickAnchors (g.rename r) largest as =
      ((e.tickAnchors g largest as).1.rename r, (e.tickAnchors g largest as).2)
  | .nil, _, _ => rfl
  | .bare id rest, g, largest => by
    rw [tickAnchors, tickAnchors]
    simp only [resizeInput_rename, tickAnchors_rename e rest]
  | .hosting id hosted rest, g, largest => by
    rw [tickAnchors, tickAnchors]
    simp only [tickNest_rename e hosted, group_rename, resizeInput_rename,
      tickAnchors_rename e rest]

theorem tickNests_rename (e : Engine S) : (ns : Nests) → (g : Graph S) →
    e.tickNests (g.rename r) ns = (e.tickNests g ns).rename r
  | .nil, _ => rfl
  | .cons n rest, g => by
    rw [tickNests, tickNests, tickNest_rename e n, tickNests_rename e rest]

end

/-- A tick of the layout reads no name. -/
theorem tick_rename (g : Graph S) : e.tick (g.rename r) = (e.tick g).rename r := by
  unfold tick
  rw [nest_rename, tickNest_rename]

theorem run_rename (g : Graph S) (n : Nat) : e.run (g.rename r) n = (e.run g n).rename r := by
  induction n generalizing g with
  | zero => rfl
  | succ n ih => rw [run, tick_rename, ih, run]

theorem update_rename (g : Graph S) :
    e.update (g.rename r) = ((e.update g).1.rename r, (e.update g).2) := by
  unfold update
  simp only [tick_rename, group_rename]

end Engine

namespace Graph

/-- Names do not influence the drawing. A term with other names, told apart as before, has the graph
of the term with its inputs renamed; flattened and laid out for however long it stays that, and each
tick reports the same size for both. -/
theorem names_ignored (hr : Function.Injective r) (names : List Char) (body : Chain)
    (rest : List Term) :
    ∃ g : Graph S, ofChain? (.ofTerms (.group names body) rest) = .ok g ∧
      ofChain? ((Chain.ofTerms (.group names body) rest).rename r) = .ok (g.rename r) ∧
      ∀ (e : Engine S) (n : Nat),
        e.run (g.rename r).flatten n = (e.run g.flatten n).rename r ∧
          (e.update (e.run (g.rename r).flatten n)).2 = (e.update (e.run g.flatten n)).2 := by
  obtain ⟨g, first, others, hg, -⟩ := exists_forest (S := S) names body rest
  refine ⟨g, hg, ofChain?_rename hr hg, ?_⟩
  intro e n
  have hrun : e.run (g.rename r).flatten n = (e.run g.flatten n).rename r := by
    rw [flatten_rename, e.run_rename]
  refine ⟨hrun, ?_⟩
  rw [hrun, e.update_rename]

/-- Two names change places, where one of them is bound twice and a third is free. -/
theorem names_ignored_swap : Function.Injective (Equiv.swap 'x' 'y') ∧
    ∃ g : Graph Float,
      ofChain? (.ofTerms (.group ['x', 'y'] (.cons (.var 'x') (.last (.group ['x']
        (.cons (.var 'x') (.last (.var 'z'))))))) [.var 'y']) = .ok g ∧
      ofChain? (.ofTerms (.group ['y', 'x'] (.cons (.var 'y') (.last (.group ['y']
        (.cons (.var 'y') (.last (.var 'z'))))))) [.var 'x']) =
          .ok (g.rename (Equiv.swap 'x' 'y')) ∧
      ∀ (e : Engine Float) (n : Nat),
        e.run (g.rename (Equiv.swap 'x' 'y')).flatten n =
          (e.run g.flatten n).rename (Equiv.swap 'x' 'y') ∧
        (e.update (e.run (g.rename (Equiv.swap 'x' 'y')).flatten n)).2 =
          (e.update (e.run g.flatten n)).2 := by
  have hinj : Function.Injective (Equiv.swap 'x' 'y') := (Equiv.swap 'x' 'y').injective
  obtain ⟨g, hg, hrenamed, hdrawn⟩ := names_ignored (S := Float) hinj ['x', 'y']
    (.cons (.var 'x') (.last (.group ['x'] (.cons (.var 'x') (.last (.var 'z')))))) [.var 'y']
  exact ⟨hinj, g, hg, hrenamed, hdrawn⟩

end Graph

end LambdaDiagram
