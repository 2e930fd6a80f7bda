import Mathlib.Analysis.SpecialFunctions.Trigonometric.Basic
import LambdaDiagram.Picture.Frame
import LambdaDiagram.Proofs.ExactNumbers

/-!
What the frame of a picture covers, with exact numbers. Circles and lines lie in the frame, and so
do the ends and the middle of each curve. Between these a curve may come farther than the padding:
`Beyond` says when. It never does when its control point is near the middle between its ends.
-/

namespace LambdaDiagram

/-- `f.Covers p`: a point lies in a frame. -/
structure Frame.Covers (f : Frame ℝ) (p : Vec ℝ) : Prop where
  left : f.x ≤ p.x
  right : p.x ≤ f.x + f.width
  top : f.y ≤ p.y
  bottom : p.y ≤ f.y + f.height

/-- `s.Has p`: a point is one that a primitive paints. -/
inductive Primitive.Has : Primitive ℝ → Vec ℝ → Prop
  | strokeCircle (role : Role) {c : Circle ℝ} {p : Vec ℝ} (h : c.center.dist p ≤ c.radius) :
      Has (.strokeCircle role c) p
  | fillCircle (role : Role) {c : Circle ℝ} {p : Vec ℝ} (h : c.center.dist p ≤ c.radius) :
      Has (.fillCircle role c) p
  | line (role : Role) (l : Line ℝ) {t : ℝ} (h : 0 ≤ t) (h' : t ≤ 1) :
      Has (.line role l) (l.start.lerp l.stop t)
  | curve (role : Role) (q : Quadratic ℝ) {t : ℝ} (h : 0 ≤ t) (h' : t ≤ 1) :
      Has (.curve role q) (q.pointAt t)

/-! ## Along one axis -/

/-- Where the curve is along an axis, by its start, its control point and its end there. -/
noncomputable def bend (start control stop t : ℝ) : ℝ :=
  start + (control - start) * t +
    (control + (stop - control) * t - (start + (control - start) * t)) * t

/-- Where a curve turns along an axis. -/
noncomputable def summit (start control stop : ℝ) : ℝ :=
  (control * control - start * stop) * (control - start + (control - stop))⁻¹

/-- Along an axis a curve turns beyond one of two bounds. -/
inductive Beyond (low high start control stop : ℝ) : Prop
  | above (hstart : start < control) (hstop : stop < control)
      (hturn : high < summit start control stop)
  | below (hstart : control < start) (hstop : control < stop)
      (hturn : summit start control stop < low)

section

variable {low high start control stop t : ℝ}

theorem bend_neg : bend (-start) (-control) (-stop) t = -bend start control stop t := by
  unfold bend
  ring

theorem summit_neg : summit (-start) (-control) (-stop) = -summit start control stop := by
  have hturn : -control - -start + (-control - -stop) = -(control - start + (control - stop)) := by
    ring
  unfold summit
  rw [hturn, neg_mul_neg, neg_mul_neg, inv_neg, mul_neg]

theorem bend_reverse : bend stop control start (1 - t) = bend start control stop t := by
  unfold bend
  ring

/-- A turning point is above the rest of its curve. -/
theorem summit_sub_bend (h : 0 < control - start + (control - stop)) :
    summit start control stop - bend start control stop t =
      ((control - start + (control - stop)) * t - (control - start)) ^ 2 *
        (control - start + (control - stop))⁻¹ := by
  unfold summit bend
  field_simp
  ring

theorem lerp_le (hstart : start ≤ high) (hstop : stop ≤ high) (h : 0 ≤ t) (h' : t ≤ 1) :
    start + (stop - start) * t ≤ high := by
  have hfirst : (1 - t) * start ≤ (1 - t) * high :=
    mul_le_mul_of_nonneg_left hstart (sub_nonneg.2 h')
  have hsecond : t * stop ≤ t * high := mul_le_mul_of_nonneg_left hstop h
  linarith

theorem le_lerp (hstart : low ≤ start) (hstop : low ≤ stop) (h : 0 ≤ t) (h' : t ≤ 1) :
    low ≤ start + (stop - start) * t := by
  have hneg := lerp_le (neg_le_neg hstart) (neg_le_neg hstop) h h'
  linarith

/-- A curve whose ends are below a bound stays below it unless it turns above it. -/
theorem bend_le_iff (hstart : start ≤ high) (hstop : stop ≤ high) :
    (∀ t, 0 ≤ t → t ≤ 1 → bend start control stop t ≤ high) ↔
      ¬ (start < control ∧ stop < control ∧ high < summit start control stop) := by
  constructor
  · rintro hle ⟨hs, he, hturn⟩
    have hs : 0 < control - start := sub_pos.2 hs
    have he : 0 < control - stop := sub_pos.2 he
    have hsum : 0 < control - start + (control - stop) := add_pos hs he
    have hat := summit_sub_bend (t := (control - start) / (control - start + (control - stop))) hsum
    rw [mul_div_cancel₀ _ hsum.ne', sub_self, zero_pow two_ne_zero, zero_mul, sub_eq_zero] at hat
    have hbound := hle _ (div_nonneg hs.le hsum.le)
      ((div_le_one hsum).2 (le_add_of_nonneg_right he.le))
    exact (hat ▸ hbound).not_gt hturn
  · intro h t ht ht'
    by_cases hcontrol : control ≤ high
    · exact lerp_le (lerp_le hstart hcontrol ht ht') (lerp_le hcontrol hstop ht ht') ht ht'
    · have hs : start < control := hstart.trans_lt (not_le.1 hcontrol)
      have he : stop < control := hstop.trans_lt (not_le.1 hcontrol)
      have hsum : 0 < control - start + (control - stop) := add_pos (sub_pos.2 hs) (sub_pos.2 he)
      have hturn : summit start control stop ≤ high := not_lt.1 fun hturn => h ⟨hs, he, hturn⟩
      have hgap : 0 ≤ summit start control stop - bend start control stop t := by
        rw [summit_sub_bend hsum]
        exact mul_nonneg (sq_nonneg _) (inv_nonneg.2 hsum.le)
      exact (sub_nonneg.1 hgap).trans hturn

/-- A curve whose ends are between two bounds stays there unless it turns beyond one of them. -/
theorem bend_between_iff (hstart : low ≤ start) (hstart' : start ≤ high) (hstop : low ≤ stop)
    (hstop' : stop ≤ high) :
    (∀ t, 0 ≤ t → t ≤ 1 → low ≤ bend start control stop t ∧ bend start control stop t ≤ high) ↔
      ¬ Beyond low high start control stop := by
  have habove : _ ↔ ¬ (start < control ∧ stop < control ∧ high < summit start control stop) :=
    bend_le_iff hstart' hstop'
  have hbelow : _ ↔ ¬ (-start < -control ∧ -stop < -control ∧
      -low < summit (-start) (-control) (-stop)) :=
    bend_le_iff (neg_le_neg hstart) (neg_le_neg hstop)
  simp only [bend_neg, summit_neg, neg_le_neg_iff, neg_lt_neg_iff] at hbelow
  constructor
  · rintro h (⟨hs, he, hturn⟩ | ⟨hs, he, hturn⟩)
    · exact habove.1 (fun t ht ht' => (h t ht ht').2) ⟨hs, he, hturn⟩
    · exact hbelow.1 (fun t ht ht' => (h t ht ht').1) ⟨hs, he, hturn⟩
  · intro h t ht ht'
    exact ⟨hbelow.2 (fun ⟨hs, he, hturn⟩ => h (.below hs he hturn)) t ht ht',
      habove.2 (fun ⟨hs, he, hturn⟩ => h (.above hs he hturn)) t ht ht'⟩

/-- Between its start and its middle a curve comes no farther beyond them than a sixteenth of its
bend. -/
theorem bend_le_of_first_half {room : ℝ} (hstart : start ≤ high)
    (hmiddle : bend start control stop 0.5 ≤ high)
    (hbend : |start - control + (stop - control)| ≤ 16 * room) (h : 0 ≤ t) (h' : t ≤ 0.5) :
    bend start control stop t ≤ high + room := by
  have hhalf : (0.5 : ℝ) = 1 / 2 := by norm_num
  rw [hhalf] at hmiddle h'
  have hchord := lerp_le hstart hmiddle (t := 2 * t) (by linarith) (by linarith)
  have hsplit : bend start control stop t =
      start + (bend start control stop (1 / 2) - start) * (2 * t) -
        (start - control + (stop - control)) * (t * (1 / 2 - t)) := by
    unfold bend
    ring
  have hshare : 0 ≤ t * (1 / 2 - t) := mul_nonneg h (sub_nonneg.2 h')
  have hshare' : t * (1 / 2 - t) ≤ 1 / 16 := by linarith [sq_nonneg (t - 1 / 4)]
  have hover : -((start - control + (stop - control)) * (t * (1 / 2 - t))) ≤ room := by
    calc -((start - control + (stop - control)) * (t * (1 / 2 - t)))
      _ = -(start - control + (stop - control)) * (t * (1 / 2 - t)) := (neg_mul ..).symm
      _ ≤ |start - control + (stop - control)| * (t * (1 / 2 - t)) :=
        mul_le_mul_of_nonneg_right (neg_le_abs _) hshare
      _ ≤ |start - control + (stop - control)| * (1 / 16) :=
        mul_le_mul_of_nonneg_left hshare' (abs_nonneg _)
      _ ≤ room := by linarith
  linarith

theorem bend_le_of_flat {room : ℝ} (hstart : start ≤ high)
    (hmiddle : bend start control stop 0.5 ≤ high) (hstop : stop ≤ high)
    (hbend : |start - control + (stop - control)| ≤ 16 * room) (h : 0 ≤ t) (h' : t ≤ 1) :
    bend start control stop t ≤ high + room := by
  have hhalf : (0.5 : ℝ) = 1 / 2 := by norm_num
  by_cases ht : t ≤ 0.5
  · exact bend_le_of_first_half hstart hmiddle hbend h ht
  · have hmiddle' : bend stop control start 0.5 ≤ high := by
      rw [← bend_reverse] at hmiddle
      rwa [show (1 : ℝ) - 0.5 = 0.5 by norm_num] at hmiddle
    rw [add_comm] at hbend
    rw [← bend_reverse]
    refine bend_le_of_first_half hstop hmiddle' hbend (sub_nonneg.2 h') ?_
    rw [hhalf] at ht ⊢
    linarith [not_le.1 ht]

/-- A curve comes no farther beyond its ends and its middle than a sixteenth of its bend. -/
theorem bend_between_of_flat {room : ℝ} (hstart : low ≤ start ∧ start ≤ high)
    (hmiddle : low ≤ bend start control stop 0.5 ∧ bend start control stop 0.5 ≤ high)
    (hstop : low ≤ stop ∧ stop ≤ high)
    (hbend : |start - control + (stop - control)| ≤ 16 * room) (h : 0 ≤ t) (h' : t ≤ 1) :
    low - room ≤ bend start control stop t ∧ bend start control stop t ≤ high + room := by
  refine ⟨?_, bend_le_of_flat hstart.2 hmiddle.2 hstop.2 hbend h h'⟩
  have hbend' : |-start - -control + (-stop - -control)| ≤ 16 * room := by
    rw [← abs_neg]
    convert hbend using 2
    ring
  have hmiddle' : bend (-start) (-control) (-stop) 0.5 ≤ -low := by
    rw [bend_neg]
    exact neg_le_neg hmiddle.1
  have hneg := bend_le_of_flat (neg_le_neg hstart.1) hmiddle' (neg_le_neg hstop.1) hbend' h h'
  rw [bend_neg] at hneg
  linarith

end

/-! ## The box around a picture -/

theorem Scalar.smaller_eq_min (a b : ℝ) : smaller a b = min a b := by
  unfold smaller
  rw [if_pos (le_refl a)]
  split
  · rw [min_eq_right (le_of_lt ‹_›)]
  · rw [min_eq_left (not_lt.1 ‹_›)]

namespace Box

/-- `a.Within b`: the box `a` lies in the box `b`. -/
structure Within (a b : Box ℝ) : Prop where
  left : b.low.x ≤ a.low.x
  right : a.high.x ≤ b.high.x
  top : b.low.y ≤ a.low.y
  bottom : a.high.y ≤ b.high.y

variable {a b c : Box ℝ}

theorem Within.refl (a : Box ℝ) : a.Within a := ⟨le_refl _, le_refl _, le_refl _, le_refl _⟩

theorem Within.trans (h : a.Within b) (h' : b.Within c) : a.Within c :=
  ⟨h'.left.trans h.left, h.right.trans h'.right, h'.top.trans h.top, h.bottom.trans h'.bottom⟩

theorem join_eq (a b : Box ℝ) :
    a.join b = ⟨⟨min a.low.x b.low.x, min a.low.y b.low.y⟩,
      ⟨max a.high.x b.high.x, max a.high.y b.high.y⟩⟩ := by
  simp only [join, Scalar.smaller_eq_min, Scalar.larger_eq_max]

theorem within_join_left (a b : Box ℝ) : a.Within (a.join b) := by
  rw [join_eq]
  exact ⟨min_le_left .., le_max_left .., min_le_left .., le_max_left ..⟩

theorem within_join_right (a b : Box ℝ) : b.Within (a.join b) := by
  rw [join_eq]
  exact ⟨min_le_right .., le_max_right .., min_le_right .., le_max_right ..⟩

theorem include?_none (p : Vec ℝ) (extent : ℝ) : include? none p extent = some (around p extent) :=
  if_pos ⟨rfl, le_refl extent⟩

theorem include?_some (a : Box ℝ) (p : Vec ℝ) (extent : ℝ) :
    include? (some a) p extent = some (a.join (around p extent)) :=
  if_pos ⟨rfl, le_refl extent⟩

/-- What has been included stays included. -/
theorem exists_foldl_include? (points : List (Vec ℝ × ℝ)) (a : Box ℝ) :
    ∃ b, points.foldl (fun box point => include? box point.1 point.2) (some a) = some b ∧
      a.Within b ∧ ∀ point ∈ points, (around point.1 point.2).Within b := by
  induction points generalizing a with
  | nil => exact ⟨a, rfl, .refl a, List.forall_mem_nil _⟩
  | cons point points ih =>
    obtain ⟨b, hfold, hin, hall⟩ := ih (a.join (around point.1 point.2))
    refine ⟨b, ?_, (within_join_left ..).trans hin, List.forall_mem_cons.2 ⟨?_, hall⟩⟩
    · rw [List.foldl_cons, include?_some]
      exact hfold
    · exact (within_join_right ..).trans hin

end Box

namespace Frame

variable {picture : Picture ℝ}

theorem box?_eq (picture : Picture ℝ) : box? picture = (picture.flatMap Primitive.extents).foldl
    (fun box point => Box.include? box point.1 point.2) none := rfl

/-- Each point that counts lies in the box of a picture, as far as it reaches. -/
theorem exists_box? {point : Vec ℝ × ℝ} (h : point ∈ picture.flatMap Primitive.extents) :
    ∃ b, box? picture = some b ∧
      ∀ point ∈ picture.flatMap Primitive.extents, (Box.around point.1 point.2).Within b := by
  rw [box?_eq]
  cases hpoints : picture.flatMap Primitive.extents with
  | nil =>
    rw [hpoints] at h
    cases h
  | cons first points =>
    obtain ⟨b, hfold, hin, hall⟩ := Box.exists_foldl_include? points (.around first.1 first.2)
    refine ⟨b, ?_, List.forall_mem_cons.2 ⟨hin, hall⟩⟩
    rw [List.foldl_cons, Box.include?_none]
    exact hfold

/-- `f.Pads b`: a frame leaves some room on each side of a box. -/
structure Pads (f : Frame ℝ) (b : Box ℝ) : Prop where
  left : f.x = b.low.x - 20
  right : f.x + f.width = b.high.x + 20
  top : f.y = b.low.y - 20
  bottom : f.y + f.height = b.high.y + 20

theorem ofPicture_pads {b : Box ℝ} (h : box? picture = some b) (hle : b.low.x ≤ b.high.x) :
    (ofPicture picture).Pads b := by
  have hpadding : (padding : ℝ) = 20 := by
    unfold padding
    norm_num
  have htwo : (2.0 : ℝ) = 2 := by norm_num
  simp only [ofPicture, h, if_pos hle, hpadding, htwo]
  constructor
  · rfl
  · show b.low.x - 20 + (b.high.x - b.low.x + 20 * 2) = _
    ring
  · rfl
  · show b.low.y - 20 + (b.high.y - b.low.y + 20 * 2) = _
    ring

end Frame

/-! ## What is painted in it -/

theorem Vec.abs_x_le_dist (u v : Vec ℝ) : |v.x - u.x| ≤ u.dist v :=
  Real.abs_le_sqrt (le_add_of_nonneg_right (sq_nonneg _))

theorem Vec.abs_y_le_dist (u v : Vec ℝ) : |v.y - u.y| ≤ u.dist v :=
  Real.abs_le_sqrt (le_add_of_nonneg_left (sq_nonneg _))

/-- A primitive leaves a frame: it is a curve that turns beyond an edge of it. -/
inductive Primitive.Strays (f : Frame ℝ) : Primitive ℝ → Prop
  | across (role : Role) {q : Quadratic ℝ}
      (h : Beyond f.x (f.x + f.width) q.start.x q.control.x q.stop.x) : Strays f (.curve role q)
  | down (role : Role) {q : Quadratic ℝ}
      (h : Beyond f.y (f.y + f.height) q.start.y q.control.y q.stop.y) : Strays f (.curve role q)

/-- No circle of a picture is smaller than a point. -/
def Picture.RadiiNonneg (picture : Picture ℝ) : Prop :=
  ∀ role c, .strokeCircle role c ∈ picture ∨ .fillCircle role c ∈ picture → 0 ≤ c.radius

namespace Primitive

open Picture

section

variable {picture : Picture ℝ} {s : Primitive ℝ} {role : Role}

theorem extent_nonneg (hradii : RadiiNonneg picture) (hs : s ∈ picture) :
    ∀ point ∈ s.extents, 0 ≤ point.2 := by
  have hzero : (0 : ℝ) ≤ 0.0 := by norm_num
  cases s with
  | strokeCircle role c =>
    simp only [extents, List.forall_mem_singleton]
    exact hradii role c (.inl hs)
  | fillCircle role c =>
    simp only [extents, List.forall_mem_singleton]
    exact hradii role c (.inr hs)
  | line role l => simp [extents, hzero]
  | curve role q => simp [extents, hzero]
  | label role center text => simp [extents]

/-- The frame leaves room around a box that holds what a primitive counts by. -/
theorem exists_pads (hradii : RadiiNonneg picture) (hs : s ∈ picture) (hne : s.extents ≠ []) :
    ∃ b, (Frame.ofPicture picture).Pads b ∧
      ∀ point ∈ s.extents, (Box.around point.1 point.2).Within b := by
  obtain ⟨point, hpoint⟩ := List.exists_mem_of_ne_nil _ hne
  obtain ⟨b, hb, hall⟩ := Frame.exists_box? (List.mem_flatMap_of_mem hs hpoint)
  have hall : ∀ point ∈ s.extents, (Box.around point.1 point.2).Within b := fun point h =>
    hall point (List.mem_flatMap_of_mem hs h)
  have hextent := extent_nonneg hradii hs point hpoint
  have hin := hall point hpoint
  refine ⟨b, Frame.ofPicture_pads hb ?_, hall⟩
  exact hin.left.trans ((sub_le_self _ hextent).trans
    ((le_add_of_nonneg_right hextent).trans hin.right))

theorem covers_circle {c : Circle ℝ} {p : Vec ℝ} {f : Frame ℝ} {b : Box ℝ} (hf : f.Pads b)
    (hc : (Box.around c.center c.radius).Within b) (hp : c.center.dist p ≤ c.radius) :
    f.Covers p := by
  have hx := abs_le.1 ((c.center.abs_x_le_dist p).trans hp)
  have hy := abs_le.1 ((c.center.abs_y_le_dist p).trans hp)
  obtain ⟨hleft, hright, htop, hbottom⟩ := hc
  simp only [Box.around] at hleft hright htop hbottom
  constructor
  · linarith [hf.left]
  · linarith [hf.right]
  · linarith [hf.top]
  · linarith [hf.bottom]

/-- A point that counts as itself lies in the box. -/
theorem mem_of_within {p : Vec ℝ} {b : Box ℝ} (h : (Box.around p 0.0).Within b) :
    (b.low.x ≤ p.x ∧ p.x ≤ b.high.x) ∧ b.low.y ≤ p.y ∧ p.y ≤ b.high.y := by
  have hzero : (0.0 : ℝ) = 0 := by norm_num
  obtain ⟨hleft, hright, htop, hbottom⟩ := h
  simp only [Box.around, hzero, sub_zero, add_zero] at hleft hright htop hbottom
  exact ⟨⟨hleft, hright⟩, htop, hbottom⟩

theorem covers_line {l : Line ℝ} {t : ℝ} {f : Frame ℝ} {b : Box ℝ} (hf : f.Pads b)
    (hstart : (Box.around l.start 0.0).Within b) (hstop : (Box.around l.stop 0.0).Within b)
    (h : 0 ≤ t) (h' : t ≤ 1) : f.Covers (l.start.lerp l.stop t) := by
  obtain ⟨hsx, hsy⟩ := mem_of_within hstart
  obtain ⟨hex, hey⟩ := mem_of_within hstop
  have hleft := le_lerp hsx.1 hex.1 h h'
  have hright := lerp_le hsx.2 hex.2 h h'
  have htop := le_lerp hsy.1 hey.1 h h'
  have hbottom := lerp_le hsy.2 hey.2 h h'
  have hx : (l.start.lerp l.stop t).x = l.start.x + (l.stop.x - l.start.x) * t := rfl
  have hy : (l.start.lerp l.stop t).y = l.start.y + (l.stop.y - l.start.y) * t := rfl
  constructor
  · linarith [hf.left]
  · linarith [hf.right]
  · linarith [hf.top]
  · linarith [hf.bottom]

/-- A frame covers a curve just when the curve does not turn beyond one of its edges. -/
theorem covers_curve_iff {q : Quadratic ℝ} {f : Frame ℝ} {b : Box ℝ} (hf : f.Pads b)
    (hstart : (Box.around q.start 0.0).Within b) (hstop : (Box.around q.stop 0.0).Within b) :
    (∀ t, 0 ≤ t → t ≤ 1 → f.Covers (q.pointAt t)) ↔ ¬ (curve role q).Strays f := by
  obtain ⟨hsx, hsy⟩ := mem_of_within hstart
  obtain ⟨hex, hey⟩ := mem_of_within hstop
  obtain ⟨hleft, hright, htop, hbottom⟩ := hf
  have hx : _ ↔ ¬ Beyond f.x (f.x + f.width) q.start.x q.control.x q.stop.x :=
    bend_between_iff (by linarith) (by linarith) (by linarith) (by linarith)
  have hy : _ ↔ ¬ Beyond f.y (f.y + f.height) q.start.y q.control.y q.stop.y :=
    bend_between_iff (by linarith) (by linarith) (by linarith) (by linarith)
  constructor
  · rintro h (⟨_, hacross⟩ | ⟨_, hdown⟩)
    · exact hx.1 (fun t ht ht' => ⟨(h t ht ht').left, (h t ht ht').right⟩) hacross
    · exact hy.1 (fun t ht ht' => ⟨(h t ht ht').top, (h t ht ht').bottom⟩) hdown
  · intro h t ht ht'
    obtain ⟨hl, hr⟩ := hx.2 (fun hacross => h (.across role hacross)) t ht ht'
    obtain ⟨ht, hb⟩ := hy.2 (fun hdown => h (.down role hdown)) t ht ht'
    exact ⟨hl, hr, ht, hb⟩

/-- A curve that bends little is covered. -/
theorem covers_flat_curve {q : Quadratic ℝ} {f : Frame ℝ} {b : Box ℝ} (hf : f.Pads b)
    (hall : ∀ point ∈ (curve role q).extents, (Box.around point.1 point.2).Within b)
    (hx : |q.start.x - q.control.x + (q.stop.x - q.control.x)| ≤ 320)
    (hy : |q.start.y - q.control.y + (q.stop.y - q.control.y)| ≤ 320) {t : ℝ} (h : 0 ≤ t)
    (h' : t ≤ 1) : f.Covers (q.pointAt t) := by
  simp only [extents, List.forall_mem_cons] at hall
  obtain ⟨hstart, hmiddle, hstop, -⟩ := hall
  obtain ⟨hsx, hsy⟩ := mem_of_within hstart
  obtain ⟨hmx, hmy⟩ := mem_of_within hmiddle
  obtain ⟨hex, hey⟩ := mem_of_within hstop
  have hroom : (320 : ℝ) = 16 * 20 := by norm_num
  obtain ⟨hl, hr⟩ := bend_between_of_flat hsx hmx hex (hx.trans_eq hroom) h h'
  obtain ⟨ht, hb⟩ := bend_between_of_flat hsy hmy hey (hy.trans_eq hroom) h h'
  obtain ⟨hleft, hright, htop, hbottom⟩ := hf
  exact ⟨hleft.trans_le hl, hr.trans_eq hright.symm, htop.trans_le ht, hb.trans_eq hbottom.symm⟩

theorem covers_iff (hradii : RadiiNonneg picture) (hs : s ∈ picture) :
    (∀ p, s.Has p → (Frame.ofPicture picture).Covers p) ↔
      ¬ s.Strays (Frame.ofPicture picture) := by
  cases s with
  | strokeCircle role c =>
    obtain ⟨b, hf, hall⟩ := exists_pads hradii hs (List.cons_ne_nil _ _)
    refine ⟨fun _ => by rintro ⟨⟩, fun _ p hp => ?_⟩
    cases hp with | strokeCircle _ hp =>
    exact covers_circle hf (hall _ List.mem_cons_self) hp
  | fillCircle role c =>
    obtain ⟨b, hf, hall⟩ := exists_pads hradii hs (List.cons_ne_nil _ _)
    refine ⟨fun _ => by rintro ⟨⟩, fun _ p hp => ?_⟩
    cases hp with | fillCircle _ hp =>
    exact covers_circle hf (hall _ List.mem_cons_self) hp
  | line role l =>
    obtain ⟨b, hf, hall⟩ := exists_pads hradii hs (List.cons_ne_nil _ _)
    simp only [extents, List.forall_mem_cons] at hall
    refine ⟨fun _ => by rintro ⟨⟩, fun _ p hp => ?_⟩
    cases hp with | line _ _ h h' =>
    exact covers_line hf hall.1 hall.2.1 h h'
  | curve role q =>
    obtain ⟨b, hf, hall⟩ := exists_pads hradii hs (List.cons_ne_nil _ _)
    simp only [extents, List.forall_mem_cons] at hall
    rw [← covers_curve_iff hf hall.1 hall.2.2.1]
    refine ⟨fun h t ht ht' => h _ (.curve role q ht ht'), fun h p hp => ?_⟩
    cases hp with | curve _ _ ht ht' =>
    exact h _ ht ht'
  | label role center text =>
    refine ⟨fun _ => by rintro ⟨⟩, fun _ p hp => ?_⟩
    cases hp

end

end Primitive

namespace Frame

/-- The frame of a picture covers every point of each of its circles and lines, and of each of its
curves but those that turn beyond an edge of the frame. A curve whose control point is at most 160
from the middle between its ends, along either axis, never does. -/
theorem covers_unless_curve_strays (picture : Picture ℝ) (hradii : Picture.RadiiNonneg picture) :
    (∀ s ∈ picture,
        (∀ p, s.Has p → (ofPicture picture).Covers p) ↔ ¬ s.Strays (ofPicture picture)) ∧
      ∀ role q, .curve role q ∈ picture →
        |q.start.x - q.control.x + (q.stop.x - q.control.x)| ≤ 320 →
        |q.start.y - q.control.y + (q.stop.y - q.control.y)| ≤ 320 →
        ¬ (Primitive.curve role q).Strays (ofPicture picture) := by
  refine ⟨fun s hs => Primitive.covers_iff hradii hs, fun role q hq hx hy => ?_⟩
  obtain ⟨b, hf, hall⟩ := Primitive.exists_pads hradii hq (List.cons_ne_nil _ _)
  refine (Primitive.covers_iff hradii hq).1 fun p hp => ?_
  cases hp with | curve _ _ ht ht' =>
  exact Primitive.covers_flat_curve hf hall hx hy ht ht'

/-- A circle and a curve through its middle: both are covered. -/
theorem covers_unless_curve_strays_circle :
    let picture : Picture ℝ :=
      [.strokeCircle .group ⟨⟨0, 0⟩, 25⟩, .curve .merge ⟨⟨-25, 0⟩, ⟨0, 50⟩, ⟨25, 0⟩⟩]
    Picture.RadiiNonneg picture ∧
      ∀ s ∈ picture, ∀ p, s.Has p → (ofPicture picture).Covers p := by
  intro picture
  have hradii : Picture.RadiiNonneg picture := by
    intro role c hc
    have hcircle : role = .group ∧ c = ⟨⟨0, 0⟩, 25⟩ := by simpa [picture] using hc
    rw [hcircle.2]
    norm_num
  obtain ⟨hcovers, hflat⟩ := covers_unless_curve_strays picture hradii
  refine ⟨hradii, fun s hs => (hcovers s hs).2 ?_⟩
  rcases List.mem_cons.1 hs with rfl | hs
  · rintro ⟨⟩
  · obtain rfl := List.mem_singleton.1 hs
    refine hflat .merge _ (List.mem_cons_of_mem _ List.mem_cons_self) ?_ ?_
    · norm_num
    · norm_num

/-- A curve that swings out to the right before it ends: three quarters along it is at 225, but the
frame ends at 220. -/
theorem curve_leaves_frame :
    (Primitive.curve .merge ⟨⟨0, 0⟩, ⟨300, 0⟩, ⟨200, 0⟩⟩).Has ⟨225, 0⟩ ∧
      ¬ (ofPicture [.curve .merge ⟨⟨0, 0⟩, ⟨300, 0⟩, ⟨200, 0⟩⟩]).Covers ⟨225, 0⟩ := by
  let q : Quadratic ℝ := ⟨⟨0, 0⟩, ⟨300, 0⟩, ⟨200, 0⟩⟩
  have hmiddle : q.pointAt 0.5 = ⟨200, 0⟩ := by
    show (⟨bend 0 300 200 0.5, bend 0 0 0 0.5⟩ : Vec ℝ) = _
    norm_num [bend]
  have hpoint : q.pointAt 0.75 = ⟨225, 0⟩ := by
    show (⟨bend 0 300 200 0.75, bend 0 0 0 0.75⟩ : Vec ℝ) = _
    norm_num [bend]
  have hbox : box? [.curve .merge q] = some ⟨⟨0, 0⟩, ⟨200, 0⟩⟩ := by
    rw [box?_eq]
    simp only [List.flatMap_cons, List.flatMap_nil, List.append_nil, Primitive.extents, hmiddle,
      List.foldl_cons, List.foldl_nil, Box.include?_none, Box.include?_some, Box.join_eq]
    norm_num [Box.around, q]
  have hpads := ofPicture_pads hbox (by norm_num)
  refine ⟨hpoint ▸ .curve .merge q (by norm_num) (by norm_num), fun hcovers => ?_⟩
  have hright := hcovers.right
  rw [hpads.right] at hright
  norm_num at hright

end Frame

end LambdaDiagram
