import Mathlib.Algebra.BigOperators.Group.List.Basic
import Mathlib.Algebra.Group.Pi.Basic
import LambdaDiagram.Proofs.MergeTargets
import LambdaDiagram.Proofs.MovingOnce

/-!
How sub-groups part, with exact numbers. Of two that are pushed apart one goes as far one way as the
other goes the other way, so all the ways that the sub-groups of a group have gone come to nothing
together, in whatever order the pairs are taken. Two sub-groups alone part along the line of their
centers, so how far apart they come to be can be told.
-/

namespace LambdaDiagram

/-! ## Multiples of vectors -/

namespace Vec

protected theorem neg_mul (w : Vec ℝ) (a : ℝ) : -w * a = -(w * a) := by
  show (⟨-w.x * a, -w.y * a⟩ : Vec ℝ) = ⟨-(w.x * a), -(w.y * a)⟩
  rw [neg_mul, neg_mul]

protected theorem mul_zero (w : Vec ℝ) : w * (0 : ℝ) = 0 := by
  show (⟨w.x * 0, w.y * 0⟩ : Vec ℝ) = ⟨0, 0⟩
  rw [mul_zero, mul_zero]

protected theorem mul_add (w : Vec ℝ) (a b : ℝ) : w * (a + b) = w * a + w * b := by
  show (⟨w.x * (a + b), w.y * (a + b)⟩ : Vec ℝ) = ⟨w.x * a + w.x * b, w.y * a + w.y * b⟩
  rw [mul_add, mul_add]

/-- A multiple of a vector of length one is as long as the factor says. -/
theorem length_mul {w : Vec ℝ} (hw : w.dot w = 1) (a : ℝ) : (w * a).length = |a| := by
  have hdot : w.x * w.x + w.y * w.y = 1 := hw
  have hsq : (w.x * a) ^ 2 + (w.y * a) ^ 2 = a ^ 2 := by linear_combination a ^ 2 * hdot
  show √((w.x * a) ^ 2 + (w.y * a) ^ 2) = |a|
  rw [hsq, Real.sqrt_sq_eq_abs]

theorem not_same_zero {w : Vec ℝ} (hw : w.dot w = 1) : ¬ w.same .zero := by
  intro hsame
  simp only [same, Scalar.same, Bool.and_eq_true, decide_eq_true_eq] at hsame
  have hx : w.x = 0.0 := le_antisymm hsame.1.1 hsame.1.2
  have hy : w.y = 0.0 := le_antisymm hsame.2.1 hsame.2.2
  rw [dot, hx, hy] at hw
  norm_num at hw

end Vec

/-- One vector among others that are zero is the sum of all. -/
theorem sum_map_single {α : Type} [DecidableEq α] {l : List α} (hl : l.Nodup) {a : α} (ha : a ∈ l)
    (d : Vec ℝ) : (l.map (Pi.single a d : α → Vec ℝ)).sum = d := by
  have hother : ∀ b, b ≠ a → b ∈ l → (Pi.single a d : α → Vec ℝ) b = 0 := by
    intro b hb _
    rw [Pi.single_eq_of_ne hb]
  rw [List.sum_map_eq_nsmul_single a _ hother, List.count_eq_one_of_mem hl ha, one_nsmul,
    Pi.single_eq_same]

theorem Group.moved_zero (group : Group ℝ) : group.moved 0 = group := by
  simp only [Group.moved, add_zero]

theorem Input.moved_zero (input : Input ℝ) : input.moved 0 = input := by
  simp only [Input.moved, add_zero]

theorem Merge.moved_zero (merge : Merge ℝ) : merge.moved 0 = merge := by
  simp only [Merge.moved, add_zero]

/-! ## Moving sub-groups by vectors of their own -/

/-- What has become of a node that may lie in some groups, each of which has been moved by a vector
of its own: in one of them it has been moved along, and outside all of them it is as it was. -/
structure Carried {α : Type} (groups : List GroupId) (shift : GroupId → Vec ℝ)
    (inside : GroupId → Prop) (moved : α → Vec ℝ → α) (before after : Option α) : Prop where
  along : ∀ s ∈ groups, inside s → after = before.map (moved · (shift s))
  apart : (∀ s ∈ groups, ¬ inside s) → after = before

namespace Carried

variable {α : Type} {groups : List GroupId} {shift : GroupId → Vec ℝ} {inside : GroupId → Prop}
  {moved : α → Vec ℝ → α} {before after : Option α} {s : GroupId}

theorem refl (hzero : ∀ a, moved a 0 = a) (a : Option α) :
    Carried groups 0 inside moved a a where
  along s _ _ := by simp only [Pi.zero_apply, hzero, Option.map_id']
  apart _ := rfl

open Classical in
/-- A node is moved along with the only one of the groups that it lies in. -/
theorem move (h : Carried groups shift inside moved before after)
    (hadd : ∀ d e a, moved (moved a d) e = moved a (d + e))
    (hone : ∀ s ∈ groups, ∀ t ∈ groups, inside s → inside t → s = t) (hs : s ∈ groups)
    (d : Vec ℝ) : Carried groups (shift + Pi.single s d) inside moved before
      (after.map fun a => if inside s then moved a d else a) where
  along t ht hin := by
    by_cases hst : inside s
    · obtain rfl := hone s hs t ht hst hin
      simp only [if_pos hst, h.along s hs hst, Option.map_map, Function.comp_def, hadd,
        Pi.add_apply, Pi.single_eq_same]
    · have hne : t ≠ s := fun heq => hst (heq ▸ hin)
      simp only [if_neg hst, Option.map_id', h.along t ht hin, Pi.add_apply,
        Pi.single_eq_of_ne hne, add_zero]
  apart hnone := by
    simp only [if_neg (hnone s hs), Option.map_id', h.apart hnone]

end Carried

namespace Graph

/-- Each sub-group of a group has been moved by a vector of its own, its circle and its output and
all that lies in it, and nothing else has changed. -/
structure Parted (g : Graph ℝ) (x : GroupId) (shift : GroupId → Vec ℝ) (g' : Graph ℝ) : Prop where
  alike : g.Alike g'
  groups : ∀ y : GroupId, Carried (g.group x).subgroups shift (g.Inside · y) Group.moved
    g.groups[y.index]? g'.groups[y.index]?
  inputs : ∀ i : InputId, Carried (g.group x).subgroups shift (g.InputInside · i) Input.moved
    g.inputs[i.index]? g'.inputs[i.index]?
  merges : ∀ m : MergeId, Carried (g.group x).subgroups shift (g.MergeInside · m) Merge.moved
    g.merges[m.index]? g'.merges[m.index]?

variable {g g' : Graph ℝ} {x y s t : GroupId} {i : InputId} {m : MergeId}
  {shift : GroupId → Vec ℝ}

/-- What lies in a sub-group is moved along with it. -/
theorem Parted.move (h : g.TreeBelow x) (hp : g.Parted x shift g')
    (hs : s ∈ (g.group x).subgroups) (d : Vec ℝ) :
    g.Parted x (shift + Pi.single s d) ((g.nest s).move g' d) := by
  classical
  have hmove : (g.nest s).move g' d = g'.movedInside s d := by
    have htree : g'.TreeBelow s := (h.of_inside (.single (.inl hs))).of_alike hp.alike
    rw [← htree.move_eq, Graph.move, hp.alike.nest_eq]
  -- no two sub-groups have anything in common
  have hgroup : ∀ y, ∀ s ∈ (g.group x).subgroups, ∀ t ∈ (g.group x).subgroups,
      g.Inside s y → g.Inside t y → s = t := fun y s hs t ht =>
    h.eq_of_inside (.inl hs) (.inl ht)
  have hlist : ∀ {α : Type} {list : GroupId → List α}, g.PlacedOnce x list →
      ∀ a, ∀ s ∈ (g.group x).subgroups, ∀ t ∈ (g.group x).subgroups,
        (∃ y, g.Inside s y ∧ a ∈ list y) → (∃ y, g.Inside t y ∧ a ∈ list y) → s = t := by
    rintro α list hlist a s hs t ht ⟨y, hsy, hy⟩ ⟨z, htz, hz⟩
    obtain rfl := hlist.place y z a (.head (.inl hs) hsy) (.head (.inl ht) htz) hy hz
    exact hgroup y s hs t ht hsy htz
  refine ⟨hp.alike.trans ((g.nest s).move_alike g' d), fun y => ?_, fun i => ?_, fun m => ?_⟩
  · have hy := (hp.groups y).move (fun d e group => group.moved_moved d e) (hgroup y) hs d
    rw [hmove, movedInside, Array.getElem?_mapIdx]
    simpa only [hp.alike.inside_iff] using hy
  · have hi := (hp.inputs i).move (fun d e input => input.moved_moved d e) (hlist h.inputs i) hs d
    rw [hmove, movedInside, Array.getElem?_mapIdx]
    simpa only [hp.alike.inputInside_iff] using hi
  · have hm := (hp.merges m).move (fun d e merge => merge.moved_moved d e) (hlist h.merges m) hs d
    rw [hmove, movedInside, Array.getElem?_mapIdx]
    simpa only [hp.alike.mergeInside_iff] using hm

theorem Parted.refl (g : Graph ℝ) (x : GroupId) : g.Parted x 0 g where
  alike := .refl g
  groups _ := .refl Group.moved_zero _
  inputs _ := .refl Input.moved_zero _
  merges _ := .refl Merge.moved_zero _

/-- A sub-group is where its vector has taken it. -/
theorem Parted.position_eq (hp : g.Parted x shift g') (hs : s ∈ (g.group x).subgroups)
    (hlt : s.index < g.groups.size) :
    (g'.group s).position = (g.group s).position + shift s := by
  have hread := (hp.groups s).along s hs .refl
  rw [group, group, Array.getD_eq_getD_getElem?, Array.getD_eq_getD_getElem?, hread,
    Array.getElem?_eq_getElem hlt]
  rfl

/-! ## Pushing sub-groups apart -/

/-- How far apart the centers of two groups are. -/
def apart {S : Type} [Scalar S] (g : Graph S) (s t : GroupId) : S :=
  (g.group s).position.dist (g.group t).position

end Graph

namespace Engine

/-- How far apart the centers of two sub-groups should be. -/
def room {S : Type} [Scalar S] (e : Engine S) (g : Graph S) (s t : GroupId) : S :=
  (g.group s).outerRadius + (g.group t).outerRadius + e.margin

/-- The vector by which the second of two sub-groups is pushed; the first is pushed by its
opposite. -/
def push {S : Type} [Scalar S] (e : Engine S) (g : Graph S) (number number' : Nat)
    (s t : GroupId) : Vec S :=
  if g.apart s t < e.room g s t then
    separationDirection number number' (g.group s).position (g.group t).position *
      ((e.room g s t - g.apart s t) * 0.5 * e.separationEase)
  else .zero

/-- How much two sub-groups lack of the room that there should be. -/
noncomputable def overlap (e : Engine ℝ) (g : Graph ℝ) (s t : GroupId) : ℝ :=
  max 0 (e.room g s t - g.apart s t)

variable (e : Engine ℝ) {g g' : Graph ℝ} {x s t : GroupId} {shift : GroupId → Vec ℝ}

/-- Two sub-groups are pushed as far one way as the other. -/
theorem parted_separatePair (h : g.TreeBelow x) (hp : g.Parted x shift g')
    (hs : s ∈ (g.group x).subgroups) (ht : t ∈ (g.group x).subgroups) (number number' : Nat) :
    g.Parted x
      (shift + Pi.single s (-e.push g' number number' s t) +
        Pi.single t (e.push g' number number' s t))
      (e.separatePair g' number number' (g.nest s) (g.nest t)) := by
  have hid : ∀ y, (g.nest y).id = y := g.id_nestTo _
  have hroom : (g'.group s).outerRadius + e.margin + (g'.group t).outerRadius = e.room g' s t :=
    add_right_comm ..
  have hapart : (g'.group s).position.dist (g'.group t).position = g'.apart s t := rfl
  unfold separatePair push
  simp only [hid, Circle.overlaps, hroom, hapart, decide_eq_true_eq, Vec.neg_mul]
  by_cases hclose : g'.apart s t < e.room g' s t
  · rw [if_pos hclose, if_pos hclose]
    exact (hp.move h hs _).move h ht _
  · rw [if_neg hclose, if_neg hclose, Vec.zero_eq, neg_zero, Pi.single_zero, Pi.single_zero,
      add_zero, add_zero]
    exact hp

/-- However the pairs are taken, the sub-groups together have gone nowhere. -/
theorem parted_separate (h : g.TreeBelow x) (number : Nat) :
    ∃ shift, ((g.group x).subgroups.map shift).sum = 0 ∧
      g.Parted x shift (e.separate g number ((g.group x).subgroups.map g.nest)) := by
  let subs := (g.group x).subgroups
  let balanced (g' : Graph ℝ) : Prop := ∃ shift, (subs.map shift).sum = 0 ∧ g.Parted x shift g'
  have honce : subs.Nodup := h.nodup_subgroups
  have hadd : ∀ f f' : GroupId → Vec ℝ,
      (subs.map (f + f')).sum = (subs.map f).sum + (subs.map f').sum := fun _ _ =>
    List.sum_map_add
  have hstart : balanced g := ⟨0, List.sum_map_zero, .refl g x⟩
  refine Graph.separate_of_pairs e (motive := balanced) ?_ number hstart
  rintro g' number number' a ha b hb ⟨shift, hsum, hp⟩
  obtain ⟨s, hs, rfl⟩ := List.mem_map.1 ha
  obtain ⟨t, ht, rfl⟩ := List.mem_map.1 hb
  refine ⟨_, ?_, e.parted_separatePair h hp hs ht number number'⟩
  rw [hadd, hadd, hsum, sum_map_single honce hs, sum_map_single honce ht, zero_add, neg_add_cancel]

/-- Two sub-groups are pushed along the line of their centers if it has a direction, each by half of
the eased overlap. -/
theorem exists_push_eq (h : Scalar.epsilon < g.apart s t) (number number' : Nat) :
    ∃ way, way + way = e.separationEase * e.overlap g s t ∧ e.push g number number' s t =
      ((g.group t).position - (g.group s).position).unit * way := by
  have hhalf : (0.5 : ℝ) + 0.5 = 1 := by norm_num
  have hdirection : separationDirection number number' (g.group s).position
      (g.group t).position = ((g.group t).position - (g.group s).position).unit :=
    if_neg (Vec.not_same_zero (Vec.dot_unit h))
  refine ⟨e.overlap g s t * 0.5 * e.separationEase, ?_, ?_⟩
  · rw [← add_mul, ← mul_add, hhalf, mul_one, mul_comm]
  · unfold push overlap
    split
    case isTrue hclose => rw [hdirection, max_eq_right (sub_pos.2 hclose).le]
    case isFalse hfar =>
      rw [max_eq_left (sub_nonpos.2 (not_lt.1 hfar)), zero_mul, zero_mul, Vec.mul_zero, Vec.zero_eq]

/-- Pushed apart, two sub-groups are farther from each other by the eased overlap. -/
theorem dist_pushed (h : Scalar.epsilon < g.apart s t) (number number' : Nat) :
    ((g.group s).position + -e.push g number number' s t).dist
        ((g.group t).position + e.push g number number' s t) =
      |g.apart s t + e.separationEase * e.overlap g s t| := by
  obtain ⟨way, hways, hpush⟩ := e.exists_push_eq h number number'
  have hline : (g.group t).position - (g.group s).position =
      ((g.group t).position - (g.group s).position).unit * g.apart s t := Vec.eq_unit_mul h
  calc ((g.group s).position + -e.push g number number' s t).dist
        ((g.group t).position + e.push g number number' s t)
      = ((g.group t).position - (g.group s).position +
          (e.push g number number' s t + e.push g number number' s t)).length := by
        rw [Vec.dist]
        congr 1
        abel
    _ = (((g.group t).position - (g.group s).position).unit *
          (g.apart s t + (way + way))).length := by
        rw [hpush, Vec.mul_add, Vec.mul_add, ← hline]
    _ = |g.apart s t + e.separationEase * e.overlap g s t| := by
        rw [Vec.length_mul (Vec.dot_unit h), hways]

/-- Where there are two sub-groups they are pushed apart once. -/
theorem apart_separate (h : g.TreeBelow x) (hsubs : (g.group x).subgroups = [s, t])
    (hlt : s.index < g.groups.size) (hlt' : t.index < g.groups.size)
    (happart : Scalar.epsilon < g.apart s t) :
    (e.separate g 0 ((g.group x).subgroups.map g.nest)).apart s t =
      |g.apart s t + e.separationEase * e.overlap g s t| := by
  have hs : s ∈ (g.group x).subgroups := by simp [hsubs]
  have ht : t ∈ (g.group x).subgroups := by simp [hsubs]
  have hne : s ≠ t := by
    have honce := h.nodup_subgroups
    rw [hsubs, List.nodup_cons, List.mem_singleton] at honce
    exact honce.1
  have hp := e.parted_separatePair h (.refl g x) hs ht 0 1
  have hposition := hp.position_eq hs hlt
  have hposition' := hp.position_eq ht hlt'
  rw [Pi.add_apply, Pi.add_apply, Pi.single_eq_same, Pi.single_eq_of_ne hne, Pi.zero_apply,
    zero_add, add_zero] at hposition
  rw [Pi.add_apply, Pi.add_apply, Pi.single_eq_same, Pi.single_eq_of_ne hne.symm, Pi.zero_apply,
    zero_add, zero_add] at hposition'
  rw [hsubs, ← e.dist_pushed happart 0 1, ← hposition, ← hposition']
  rfl

/-- When a group settles, its sub-groups part in balance. Each is moved with all that lies in it and
nothing else changes, and as the ways that they go come to nothing together, their centers have the
same sum as before. Two sub-groups alone, whose distance has a direction, stay as they are if there
is room between them. Otherwise the eased part of what is missing is added to their distance, so
they come no closer, and no push takes them farther apart than there has to be room. -/
theorem subgroups_part_in_balance (h : g.TreeBelow x)
    (hsubs : ∀ s ∈ (g.group x).subgroups, s.index < g.groups.size) :
    let g' := e.separate g 0 (g.nest x).subgroups.toList
    (∃ shift, ((g.group x).subgroups.map shift).sum = 0 ∧ g.Parted x shift g') ∧
    ((g.group x).subgroups.map fun s => (g'.group s).position).sum =
      ((g.group x).subgroups.map fun s => (g.group s).position).sum ∧
    ∀ a b, (g.group x).subgroups = [a, b] → Scalar.epsilon < g.apart a b →
      (e.room g a b ≤ g.apart a b → g'.apart a b = g.apart a b) ∧
      (g.apart a b < e.room g a b →
        g'.apart a b = |g.apart a b + e.separationEase * (e.room g a b - g.apart a b)| ∧
        (0 ≤ e.separationEase →
          g'.apart a b = g.apart a b + e.separationEase * (e.room g a b - g.apart a b) ∧
          g.apart a b ≤ g'.apart a b ∧
          (e.separationEase ≤ 1 → g'.apart a b ≤ e.room g a b))) := by
  intro g'
  have hg' : g' = e.separate g 0 ((g.group x).subgroups.map g.nest) :=
    congrArg (e.separate g 0) h.acyclic.subgroups_nest
  obtain ⟨shift, hsum, hparted⟩ := e.parted_separate h 0
  rw [← hg'] at hparted
  refine ⟨⟨shift, hsum, hparted⟩, ?_, fun a b hab hlong => ?_⟩
  · have hcenters : (g.group x).subgroups.map (fun s => (g'.group s).position) =
        (g.group x).subgroups.map fun s => (g.group s).position + shift s :=
      List.map_congr_left fun s hs => hparted.position_eq hs (hsubs s hs)
    rw [hcenters, List.sum_map_add, hsum, add_zero]
  · have happart : g'.apart a b = |g.apart a b + e.separationEase * e.overlap g a b| := by
      rw [hg']
      exact e.apart_separate h hab (hsubs a (by simp [hab])) (hsubs b (by simp [hab])) hlong
    have hpos : 0 < g.apart a b := Vec.epsilon_pos.trans hlong
    refine ⟨fun hroom => ?_, fun hclose => ?_⟩
    · rw [happart, overlap, max_eq_left (sub_nonpos.2 hroom), mul_zero, add_zero, abs_of_pos hpos]
    · have hmissing : 0 < e.room g a b - g.apart a b := sub_pos.2 hclose
      rw [overlap, max_eq_right hmissing.le] at happart
      refine ⟨happart, fun hease => ?_⟩
      have hadded : 0 ≤ e.separationEase * (e.room g a b - g.apart a b) :=
        mul_nonneg hease hmissing.le
      rw [happart, abs_of_nonneg (add_nonneg hpos.le hadded)]
      refine ⟨rfl, le_add_of_nonneg_right hadded, fun hone => ?_⟩
      exact le_sub_iff_add_le'.1 (mul_le_of_le_one_left hmissing.le hone)

end Engine

namespace Graph

/-- Two groups in the root, side by side. The first one has an input. -/
noncomputable def neighbours (distance : ℝ) : Graph ℝ where
  groups := #[
    { (.blank none 0 : Group ℝ) with subgroups := [⟨1⟩, ⟨2⟩] },
    { (.blank (some root) 0 : Group ℝ) with inputs := [⟨0⟩] },
    .blank (some root) ⟨distance, 0⟩]
  inputs := #[.blank 'x' 0]
  merges := #[]

theorem treeBelow_neighbours (distance : ℝ) : (neighbours distance).TreeBelow root := by
  let g := neighbours distance
  have hcontents : ∀ y, y ≠ root → g.contents y = [] := by
    rintro ⟨_ | _ | _ | n⟩ hy
    case zero => exact absurd rfl hy
    all_goals rfl
  have hinputs : ∀ y, y ≠ ⟨1⟩ → (g.group y).inputs = [] := by
    rintro ⟨_ | _ | _ | n⟩ hy
    case succ.zero => exact absurd rfl hy
    all_goals rfl
  have hmerges : ∀ y, y ≠ root → (g.group y).merges = [] := by
    rintro ⟨_ | _ | _ | n⟩ - <;> rfl
  have honce : ([⟨2⟩, ⟨1⟩] : List GroupId).Nodup := by decide
  refine ⟨fun y _ hy => ?_, .of_home root honce hcontents,
    .of_home ⟨1⟩ (List.nodup_singleton _) hinputs, .of_home root List.nodup_nil hmerges⟩
  have hroot : ∀ z w, g.Contains z w → z = root := fun z w h =>
    by_contra fun hne => List.not_mem_nil (hcontents z hne ▸ mem_contents.2 h)
  -- something lies only in the root, which itself lies in nothing
  obtain ⟨z, hyz, -⟩ := Relation.TransGen.head'_iff.1 hy
  obtain ⟨w, -, hwy⟩ := Relation.TransGen.tail'_iff.1 hy
  obtain rfl := hroot y z hyz
  obtain rfl := hroot w _ hwy
  have hself : root ∈ ([⟨2⟩, ⟨1⟩] : List GroupId) := mem_contents.2 hwy
  exact absurd hself (by decide)

end Graph

/-- Where thirty is half of what there has to be, the distance grows by a fifth of thirty. -/
theorem Engine.neighbours_part_in_balance :
    let g := Graph.neighbours 30
    let g' := standard.separate g 0 (g.nest Graph.root).subgroups.toList
    g.TreeBelow Graph.root ∧ g.apart ⟨1⟩ ⟨2⟩ = 30 ∧ standard.room g ⟨1⟩ ⟨2⟩ = 60 ∧
      g'.apart ⟨1⟩ ⟨2⟩ = 36 ∧ (g'.group ⟨1⟩).position + (g'.group ⟨2⟩).position = ⟨30, 0⟩ := by
  intro g g'
  have hapart : g.apart ⟨1⟩ ⟨2⟩ = 30 := by
    show √(((30 : ℝ) - 0) ^ 2 + (0 - 0) ^ 2) = 30
    rw [sub_zero, sub_zero, zero_pow two_ne_zero, add_zero, Real.sqrt_sq (by norm_num)]
  have hroom : standard.room g ⟨1⟩ ⟨2⟩ = 60 := by
    show (25.0 : ℝ) + 25.0 + 10.0 = 60
    norm_num
  have hlong : Scalar.epsilon < g.apart ⟨1⟩ ⟨2⟩ := by
    rw [hapart]
    show (2 : ℝ) ^ (-52 : ℤ) < 30
    norm_num
  have hclose : g.apart ⟨1⟩ ⟨2⟩ < standard.room g ⟨1⟩ ⟨2⟩ := by
    rw [hapart, hroom]
    norm_num
  have hease : standard.separationEase = (0.2 : ℝ) := rfl
  obtain ⟨-, hsum, hdistance⟩ :=
    standard.subgroups_part_in_balance (Graph.treeBelow_neighbours 30) (by decide)
  obtain ⟨hgrown, -⟩ := ((hdistance _ _ rfl hlong).2 hclose).2 (hease ▸ by norm_num)
  refine ⟨Graph.treeBelow_neighbours 30, hapart, hroom, ?_, ?_⟩
  · rw [hgrown, hapart, hroom, hease]
    norm_num
  · have hcenters : (g'.group ⟨1⟩).position + ((g'.group ⟨2⟩).position + 0) =
        0 + ((⟨30, 0⟩ : Vec ℝ) + 0) := hsum
    rwa [add_zero, add_zero, zero_add] at hcenters

end LambdaDiagram
