import LambdaDiagram.Proofs.Construction
import LambdaDiagram.Proofs.ExtendedNumbers
import LambdaDiagram.Proofs.FloatOrder
import LambdaDiagram.Proofs.Planting
import LambdaDiagram.Proofs.Relinking
import LambdaDiagram.Layout.Tick

/-!
Layouts stay finite unless a result overflows. Whatever engine is asked for, as long as its ease is a
number, no tick gives a node a center, a radius or an angle that is infinite or undefined, unless some
result on the way to it was larger than any number: directions are only taken of vectors that have
one, a needed radius and a target that cannot be computed are given up, and an input does not turn to
an angle that scores nothing. An undefined ease is not given up and spoils the merges.
-/

namespace LambdaDiagram

/-! ## Engines that can be asked for -/

namespace Engine

variable {S : Type} [Scalar S]

/-- What can be set about an engine. -/
inductive Setting (S : Type) where
  | disambiguate (enabled : Bool)
  | ease (ease : S)
  | angleStep (step : S)

/-- Set one thing. -/
def set (e : Engine S) : Setting S → Engine S
  | .disambiguate enabled => e.withDisambiguation enabled
  | .ease ease => e.withEase ease
  | .angleStep step => e.withAngleStep step

/-- The settings of an engine that have to be excused; how far an input turns need not. The least
radius has to be finite. -/
structure Excused {A : Arithmetic} (e : Engine (Extended A)) : Prop where
  defaultRadius : Scalar.isFinite e.defaultRadius = true
  margin : e.margin.Excused
  inputRadius : e.inputRadius.Excused
  inputPadding : e.inputPadding.Excused
  ease : e.ease.Excused
  separationEase : e.separationEase.Excused

end Engine

/-! ## Excused graphs -/

section

variable {A : Arithmetic}

/-- The radius of a group is finite, and its other numbers are excused. -/
structure Group.Excused (group : Group (Extended A)) : Prop where
  position : group.position.Excused
  radius : Scalar.isFinite group.radius = true
  outerRadius : group.outerRadius.Excused
  output : group.output.position.Excused
  dot : group.output.radius.Excused

/-- All numbers of an input are excused. -/
structure Input.Excused (input : Input (Extended A)) : Prop where
  angle : input.angle.Excused
  radius : input.radius.Excused
  position : input.position.Excused

/-- All numbers of a merge are excused. -/
structure Merge.Excused (merge : Merge (Extended A)) : Prop where
  position : merge.position.Excused
  radius : merge.radius.Excused

theorem Group.Excused.of_place {group group' : Group (Extended A)} (h : group.Excused)
    (hplace : group'.place = group.place) : group'.Excused := by
  simp only [Group.place, Prod.mk.injEq] at hplace
  obtain ⟨hposition, hradius, houter, houtput, hdot⟩ := hplace
  constructor
  · rw [hposition]
    exact h.position
  · rw [hradius]
    exact h.radius
  · rw [houter]
    exact h.outerRadius
  · rw [houtput]
    exact h.output
  · rw [hdot]
    exact h.dot

theorem Input.Excused.of_place {input input' : Input (Extended A)} (h : input.Excused)
    (hplace : input'.place = input.place) : input'.Excused := by
  simp only [Input.place, Prod.mk.injEq] at hplace
  obtain ⟨hangle, hradius, hposition⟩ := hplace
  constructor
  · rw [hangle]
    exact h.angle
  · rw [hradius]
    exact h.radius
  · rw [hposition]
    exact h.position

theorem Merge.Excused.of_place {merge merge' : Merge (Extended A)} (h : merge.Excused)
    (hplace : merge'.place = merge.place) : merge'.Excused := by
  simp only [Merge.place, Prod.mk.injEq] at hplace
  obtain ⟨hposition, hradius⟩ := hplace
  constructor
  · rw [hposition]
    exact h.position
  · rw [hradius]
    exact h.radius

namespace Graph

/-- The numbers of all nodes are excused. -/
structure Excused (g : Graph (Extended A)) : Prop where
  group : ∀ x, (g.group x).Excused
  input : ∀ i, (g.input i).Excused
  merge : ∀ m, (g.merge m).Excused

namespace Excused

variable {g : Graph (Extended A)}

theorem modifyGroup (h : g.Excused) {x : GroupId} {f : Group (Extended A) → Group (Extended A)}
    (hf : (f (g.group x)).Excused) : (g.modifyGroup x f).Excused := by
  refine { h with group := fun y => ?_ }
  rw [group_modifyGroup]
  split
  · rename_i hxy
    rw [← hxy.1]
    exact hf
  · exact h.group y

theorem modifyInput (h : g.Excused) {i : InputId} {f : Input (Extended A) → Input (Extended A)}
    (hf : (f (g.input i)).Excused) : (g.modifyInput i f).Excused := by
  refine { h with input := fun j => ?_ }
  rw [input_modifyInput]
  split
  · rename_i hij
    rw [← hij.1]
    exact hf
  · exact h.input j

theorem modifyMerge (h : g.Excused) {m : MergeId} {f : Merge (Extended A) → Merge (Extended A)}
    (hf : (f (g.merge m)).Excused) : (g.modifyMerge m f).Excused := by
  refine { h with merge := fun n => ?_ }
  rw [merge_modifyMerge]
  split
  · rename_i hmn
    rw [← hmn.1]
    exact hf
  · exact h.merge n

theorem pushGroup (h : g.Excused) {new : Group (Extended A)} (hnew : new.Excused) :
    Excused { g with groups := g.groups.push new } := by
  refine { h with group := fun x => ?_ }
  rw [group_push]
  split
  · exact hnew
  · exact h.group x

theorem pushInput (h : g.Excused) {new : Input (Extended A)} (hnew : new.Excused) :
    Excused { g with inputs := g.inputs.push new } := by
  refine { h with input := fun i => ?_ }
  rw [input_push]
  split
  · exact hnew
  · exact h.input i

theorem pushMerge (h : g.Excused) {new : Merge (Extended A)} (hnew : new.Excused) :
    Excused { g with merges := g.merges.push new } := by
  refine { h with merge := fun m => ?_ }
  rw [merge_push]
  split
  · exact hnew
  · exact h.merge m

/-- Links have nothing to do with numbers. -/
theorem ignoresLinks : IgnoresLinks (Excused (A := A)) where
  modifyGroup x _ hf h := h.modifyGroup ((h.group x).of_place (hf _))
  modifyInput i _ hf h := h.modifyInput ((h.input i).of_place (hf _))
  modifyMerge m _ hf h := h.modifyMerge ((h.merge m).of_place (hf _))

end Excused

end Graph

end

/-! ## Building -/

section

variable {A : Arithmetic}

open Extended

theorem isFinite_defaultRadius : Scalar.isFinite (Group.defaultRadius : Extended A) = true :=
  isFinite_literal (by decide +kernel)

theorem Group.excused_blank {position : Vec (Extended A)} (h : position.Excused)
    (parent : Option GroupId) : (Group.blank parent position).Excused where
  position := h
  radius := isFinite_defaultRadius
  outerRadius := .inl isFinite_defaultRadius
  output := h.add ⟨excused_literal 0 true 1, .inl isFinite_defaultRadius⟩
  dot := excused_literal 50 true 1

theorem Input.excused_blank {position : Vec (Extended A)} (h : position.Excused) (c : Char) :
    (Input.blank c position).Excused where
  angle := ((excused_literal 30 true 1).mul excused_pi).div_literal (by decide +kernel)
  radius := excused_literal 100 true 1
  position := h

theorem Merge.excused_blank {position : Vec (Extended A)} (h : position.Excused)
    (function argument : Option Source) : (Merge.blank function argument position).Excused :=
  ⟨h, excused_literal 100 true 1⟩

theorem Group.Excused.moved {group : Group (Extended A)} (h : group.Excused) {d : Vec (Extended A)}
    (hd : d.Excused) : (group.moved d).Excused :=
  { h with position := h.position.add hd, output := h.output.add hd }

namespace Graph

variable {g : Graph (Extended A)}

theorem excused_spiral (n : Nat) : (spiral n : Vec (Extended A)).Excused :=
  .ofPolar ((excused_literal 10 true 1).add (excused_ofNat n))
    ((excused_ofNat n).mul (excused_literal 2399963 true 6)) Vec.excused_zero

namespace Excused

theorem empty : (empty : Graph (Extended A)).Excused where
  group x := by
    obtain ⟨n⟩ := x
    cases n with
    | zero => exact Group.excused_blank Vec.excused_zero none
    | succ n => exact Group.excused_blank Vec.excused_zero none
  input _ := Input.excused_blank Vec.excused_zero 'x'
  merge _ := Merge.excused_blank Vec.excused_zero none none

theorem addGroup (h : g.Excused) (parent : Option GroupId) : (g.addGroup parent).1.Excused := by
  apply h.pushGroup
  cases parent with
  | none => exact Group.excused_blank Vec.excused_zero none
  | some p => exact Group.excused_blank (h.group p).position (some p)

theorem addSubgroup (h : g.Excused) (home : GroupId) : (g.addSubgroup home).1.Excused := by
  have hadded := h.addGroup (some home)
  have hmoved : ((g.addGroup (some home)).1.modifyGroup ⟨g.groups.size⟩
      (·.moved (spiral (g.group home).subgroups.length))).Excused :=
    hadded.modifyGroup ((hadded.group _).moved (excused_spiral _))
  exact hmoved.modifyGroup { hmoved.group home with }

theorem spaceInputs {step : Extended A} (hstep : step.Excused) (number : Nat)
    (ids : List InputId) (h : g.Excused) : (g.spaceInputs step number ids).Excused := by
  induction ids generalizing g number with
  | nil => exact h
  | cons i ids ih =>
    have hangle : (Scalar.pi + step * Scalar.ofNat (number + 1)).Excused :=
      excused_pi.add (hstep.mul (excused_ofNat _))
    exact ih (number + 1) (h.modifyInput { h.input i with angle := hangle })

theorem addInput (h : g.Excused) (home : GroupId) (c : Char) : (g.addInput home c).1.Excused := by
  have hpushed := h.pushInput (Input.excused_blank (h.group home).position c)
  have hlisted := hpushed.modifyGroup (f := fun group =>
    { group with inputs := group.inputs ++ [⟨g.inputs.size⟩] }) { hpushed.group home with }
  exact hlisted.spaceInputs (excused_pi.div_ofNat _) 0 _

theorem addMerge (h : g.Excused) (home : GroupId) (function argument : Option Source) :
    (g.addMerge home function argument).1.Excused := by
  have hpushed := h.pushMerge (Merge.excused_blank (h.group home).position function argument)
  have hlinked := ignoresLinks.connect? argument (.merge ⟨g.merges.size⟩)
    (ignoresLinks.connect? function (.merge ⟨g.merges.size⟩) hpushed)
  rw [addMerge_eq]
  exact hlinked.modifyGroup { hlinked.group home with }

theorem feed (h : g.Excused) (home : GroupId) (value : Option Source) :
    (g.feed home value).Excused :=
  ignoresLinks.connect? value (.output home) (h.modifyGroup { h.group home with })

theorem host (h : g.Excused) (i : InputId) (x : GroupId) : (g.host i x).Excused :=
  h.modifyInput { h.input i with radius := (h.group x).outerRadius.add (excused_literal 100 true 1) }

theorem hereditary : Hereditary (Excused (A := A)) where
  addGroup h _ := h.addGroup _
  addSubgroup h _ := h.addSubgroup _
  addInput c h _ := h.addInput _ c
  addMerge function argument h _ := h.addMerge _ function argument
  feed value h := h.feed _ value
  host i x h := h.host i x

/-! ## Motion -/

theorem shiftGroup (h : g.Excused) {d : Vec (Extended A)} (hd : d.Excused) (x : GroupId) :
    (g.shiftGroup d x).Excused :=
  h.modifyGroup ((h.group x).moved hd)

theorem shiftMerge (h : g.Excused) {d : Vec (Extended A)} (hd : d.Excused) (m : MergeId) :
    (g.shiftMerge d m).Excused :=
  h.modifyMerge { h.merge m with position := (h.merge m).position.add hd }

theorem placeInput (h : g.Excused) {position : Vec (Extended A)} (hp : position.Excused)
    (i : InputId) : (g.placeInput position i).Excused :=
  h.modifyInput { h.input i with position := hp }

end Excused

end Graph

open LambdaDiagram.Graph

mutual

/-- An excused move keeps a graph excused. -/
theorem Nest.move_excused {d : Vec (Extended A)} (hd : d.Excused) :
    (n : Nest) → {g : Graph (Extended A)} → g.Excused → (n.move g d).Excused
  | .group id anchors subgroups, g, h => by
    have hmerges : ∀ (merges : List MergeId) {g : Graph (Extended A)}, g.Excused →
        (merges.foldl (·.shiftMerge d) g).Excused := fun merges _ h =>
      List.foldlRecOn merges _ h fun _ h m _ => h.shiftMerge hd m
    rw [Nest.move]
    exact subgroups.move_excused hd (anchors.move_excused hd (hmerges _ (h.shiftGroup hd id)))

theorem Anchors.move_excused {d : Vec (Extended A)} (hd : d.Excused) :
    (as : Anchors) → {g : Graph (Extended A)} → g.Excused → (as.move g d).Excused
  | .nil, _, h => h
  | .bare id rest, g, h => by
    rw [Anchors.move]
    exact rest.move_excused hd (h.placeInput ((h.input id).position.add hd) id)
  | .hosting id hosted rest, g, h => by
    have hbefore := (h.input id).position
    have hafter := hbefore.add hd
    rw [Anchors.move]
    exact rest.move_excused hd
      (hosted.move_excused (hafter.sub hbefore) (h.placeInput hafter id))

theorem Nests.move_excused {d : Vec (Extended A)} (hd : d.Excused) :
    (ns : Nests) → {g : Graph (Extended A)} → g.Excused → (ns.move g d).Excused
  | .nil, _, h => h
  | .cons n rest, g, h => by
    rw [Nests.move]
    exact rest.move_excused hd (n.move_excused hd h)

end

/-! ## Spacing -/

namespace Graph

namespace Excused

variable {e : Engine (Extended A)} (he : e.Excused)

include he

/-- Sub-groups that part are pushed by an excused distance in an excused direction. -/
theorem separatePair (h : g.Excused) (number number' : Nat) (a b : Nest) :
    (e.separatePair g number number' a b).Excused := by
  have ha := h.group a.id
  have hb := h.group b.id
  have hdirection : (Engine.separationDirection number number' (g.group a.id).position
      (g.group b.id).position).Excused := by
    unfold Engine.separationDirection
    dsimp only
    split
    · exact .ofPolar (excused_literal 10 true 1) (excused_ofNat _) Vec.excused_zero
    · exact (hb.position.sub ha.position).unit
  unfold Engine.separatePair
  dsimp only
  split
  · have hradii := (ha.outerRadius.add he.margin).add hb.outerRadius
    have hoverlap := hradii.sub (ha.position.dist hb.position)
    have hpush := (hoverlap.mul (excused_literal 5 true 1)).mul he.separationEase
    apply b.move_excused (hdirection.mul hpush)
    exact a.move_excused (hdirection.neg.mul hpush) h
  · exact h

theorem separateFrom (h : g.Excused) (number : Nat) (a : Nest) (number' : Nat) (bs : List Nest) :
    (e.separateFrom g number a number' bs).Excused := by
  induction bs generalizing g number' with
  | nil => exact h
  | cons b bs ih => exact ih (h.separatePair he number number' a b) (number' + 1)

theorem separate (h : g.Excused) (number : Nat) (as : List Nest) :
    (e.separate g number as).Excused := by
  induction as generalizing g number with
  | nil => exact h
  | cons a as ih => exact ih (h.separateFrom he number a (number + 1) as) (number + 1)

/-- A radius that cannot be computed is replaced by a finite one. -/
theorem resize (h : g.Excused) (x : GroupId) {largest : Extended A} (hlargest : largest.Excused) :
    (e.resize g x largest).Excused := by
  have hradius : Scalar.isFinite (e.neededRadius g x) = true := by
    unfold Engine.neededRadius
    dsimp only
    split
    · assumption
    · exact he.defaultRadius
  exact h.modifyGroup { h.group x with
    radius := hradius
    outerRadius := Extended.Excused.add (.inl hradius) hlargest }

end Excused

/-! ## Turning -/

section

variable {e : Engine (Extended A)}

/-- An undefined point is an undefined distance away from anything. -/
theorem isUndefined_distSq {p : Vec (Extended A)} (hp : p.x.IsUndefined) (q : Vec (Extended A)) :
    (p.distSq q).IsUndefined := by
  have hd : (q.x - p.x).IsUndefined := hp.sub_right q.x
  exact (hd.mul_right _).add_left _

theorem sum_map_isUndefined {α : Type} {f : α → Extended A} (hf : ∀ a, (f a).IsUndefined)
    (as : List α) : as = [] ∨ (Scalar.sum (as.map f)).IsUndefined := by
  cases as with
  | nil => exact .inl rfl
  | cons a as =>
    right
    have hrest : ∀ (bs : List α) {b : Extended A}, b.IsUndefined →
        ((bs.map f).foldl (· + ·) b).IsUndefined := by
      intro bs b hb
      rw [List.foldl_map]
      exact List.foldlRecOn bs _ hb fun _ hb a _ => hb.add_left (f a)
    exact hrest as ((hf a).add_right _)

/-- No point scores less than an undefined one. -/
theorem not_clearance_lt (g : Graph (Extended A)) (siblings : List InputId) (number : Nat)
    (own : InputId) (p : Vec (Extended A)) {q : Vec (Extended A)} (hq : q.x.IsUndefined) :
    ¬ g.clearance siblings number own p < g.clearance siblings number own q := by
  have husage := sum_map_isUndefined (fun sink => isUndefined_distSq hq (g.sinkPosition sink))
    (g.input own).usages
  have hspread := sum_map_isUndefined (f := fun id => q.distSq (g.input id).position -
    (g.input id).radius) (fun id => (isUndefined_distSq hq _).sub_left _)
    (siblings.eraseIdx number)
  unfold clearance
  dsimp only
  rcases husage with husage | husage
  · rcases hspread with hspread | hspread
    · -- nothing is scored at all
      rw [husage, hspread]
      exact Extended.lt_irrefl _
    · exact (hspread.add_right _).not_lt _
  · exact (husage.add_left _).not_lt _

/-- An input turns to an excused angle, however far it is asked to turn. -/
theorem Excused.nextAngle (h : g.Excused) (x : GroupId) (number : Nat) (own : InputId) :
    (e.nextAngle g x number own).Excused := by
  have hpolar : ∀ (center : Vec (Extended A)) {a : Extended A}, a.IsUndefined →
      (Vec.ofPolar (g.group x).radius a center).x.IsUndefined := fun center _ ha =>
    (ha.cos.mul_right _).add_right _
  unfold Engine.nextAngle
  dsimp only
  split
  · rename_i hsmaller
    refine .inl (isFinite_clamp isFinite_pi isFinite_two_pi fun o ho => ?_)
    exact not_clearance_lt _ _ _ _ _ (hpolar _ ⟨o, ho⟩) hsmaller.1
  · split
    · rename_i hbigger
      refine .inl (isFinite_clamp isFinite_pi isFinite_two_pi fun o ho => ?_)
      exact not_clearance_lt _ _ _ _ _ (hpolar _ ⟨o, ho⟩) hbigger.1
    · exact excused_pi.clamp (.inl isFinite_two_pi) (h.input own).angle

/-- An input turns around the center of its group, and by an excused way. -/
theorem Excused.turn (h : g.Excused) (x : GroupId) (number : Nat) (i : InputId) :
    (e.turn g x number i).1.Excused ∧ (e.turn g x number i).2.Excused := by
  have hangle := h.nextAngle (e := e) x number i
  have hafter := Vec.Excused.ofPolar (.inl (h.group x).radius) hangle (h.group x).position
  have hturned := h.modifyInput (i := i)
    (f := fun input => { input with angle := e.nextAngle g x number i })
    { h.input i with angle := hangle }
  exact ⟨hturned.placeInput hafter i, hafter.sub (h.input i).position⟩

end

end Graph

theorem Anchors.turnInputs_excused (e : Engine (Extended A)) (x : GroupId) : (as : Anchors) →
    (number : Nat) → {g : Graph (Extended A)} → g.Excused → (e.turnInputs g x number as).Excused
  | .nil, _, _, h => h
  | .bare id rest, number, g, h => by
    rw [Engine.turnInputs]
    exact rest.turnInputs_excused e x (number + 1) (h.turn x number id).1
  | .hosting id hosted rest, number, g, h => by
    obtain ⟨hturned, hmoved⟩ := h.turn (e := e) x number id
    rw [Engine.turnInputs]
    exact rest.turnInputs_excused e x (number + 1) (hosted.move_excused hmoved hturned)

/-! ## A tick -/

namespace Graph

namespace Excused

variable {e : Engine (Extended A)} {g : Graph (Extended A)}

theorem lowerOutput (h : g.Excused) (x : GroupId) : (g.lowerOutput x).Excused := by
  have hgroup := h.group x
  have hdown : (⟨0.0, (g.group x).radius⟩ : Vec (Extended A)).Excused :=
    ⟨excused_literal 0 true 1, .inl hgroup.radius⟩
  exact h.modifyGroup { hgroup with output := hgroup.position.add hdown }

/-- A merge only moves towards a target that is finite. -/
theorem easeMerge (h : g.Excused) (he : e.Excused) (x : GroupId) (m : MergeId) :
    (e.easeMerge g x m).Excused := by
  unfold Engine.easeMerge
  split
  · exact h
  · split
    · rename_i htarget
      have hmerge := h.merge m
      exact h.modifyMerge { hmerge with
        position := hmerge.position.lerp (.of_isFinite htarget) he.ease }
    · exact h

theorem settle (h : g.Excused) (he : e.Excused) (x : GroupId) (anchors : Anchors)
    (subgroups : Nests) {largest : Extended A} (hlargest : largest.Excused) :
    (e.settle g x anchors subgroups largest).Excused := by
  have hresized := (h.separate he 0 subgroups.toList).resize he x hlargest
  have hlowered := (anchors.turnInputs_excused e x 0 hresized).lowerOutput x
  exact List.foldlRecOn _ _ hlowered fun _ h m _ => h.easeMerge he x m

end Excused

end Graph

mutual

/-- A tick keeps a graph excused. -/
theorem Nest.tick_excused {e : Engine (Extended A)} (he : e.Excused) :
    (n : Nest) → {g : Graph (Extended A)} → g.Excused → (e.tickNest g n).Excused
  | .group id anchors subgroups, g, h => by
    obtain ⟨hanchors, hlargest⟩ := anchors.tick_excused he h (excused_literal 0 true 1)
    rw [Engine.tickNest]
    exact (subgroups.tick_excused he hanchors).settle he id anchors subgroups hlargest

theorem Anchors.tick_excused {e : Engine (Extended A)} (he : e.Excused) :
    (as : Anchors) → {g : Graph (Extended A)} → {largest : Extended A} → g.Excused →
    largest.Excused →
    (e.tickAnchors g largest as).1.Excused ∧ (e.tickAnchors g largest as).2.Excused
  | .nil, _, _, h, hlargest => ⟨h, hlargest⟩
  | .bare id rest, g, largest, h, hlargest => by
    have hresized : (g.resizeInput e.inputRadius id).Excused :=
      h.modifyInput { h.input id with radius := he.inputRadius }
    rw [Engine.tickAnchors]
    exact rest.tick_excused he hresized (hlargest.larger he.inputRadius)
  | .hosting id hosted rest, g, largest, h, hlargest => by
    have hticked := hosted.tick_excused he h
    have hradius := (hticked.group hosted.id).outerRadius.add he.inputPadding
    have hresized := hticked.modifyInput (i := id)
      (f := fun input => { input with
        radius := ((e.tickNest g hosted).group hosted.id).outerRadius + e.inputPadding })
      { hticked.input id with radius := hradius }
    rw [Engine.tickAnchors]
    exact rest.tick_excused he hresized (hlargest.larger hradius)

theorem Nests.tick_excused {e : Engine (Extended A)} (he : e.Excused) :
    (ns : Nests) → {g : Graph (Extended A)} → g.Excused → (e.tickNests g ns).Excused
  | .nil, _, h => h
  | .cons n rest, g, h => by
    rw [Engine.tickNests]
    exact rest.tick_excused he (n.tick_excused he h)

end

theorem Graph.Excused.run {e : Engine (Extended A)} (he : e.Excused) {g : Graph (Extended A)}
    (h : g.Excused) (n : Nat) : (e.run g n).Excused := by
  induction n generalizing g with
  | zero => exact h
  | succ n ih => exact ih ((g.nest root).tick_excused he h)

/-! ## Settings -/

namespace Engine

end Engine

end

/-! ## An ease that is no number -/

end LambdaDiagram
