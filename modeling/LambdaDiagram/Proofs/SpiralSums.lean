import Mathlib.Analysis.SpecialFunctions.Trigonometric.Basic
import Mathlib.NumberTheory.Transcendental.Lindemann.AnalyticalPart
import Mathlib.NumberTheory.Zsqrtd.GaussianInt
import Mathlib.RingTheory.Algebraic.Integral
import Mathlib.RingTheory.SimpleRing.Principal
import Mathlib.Topology.Algebra.Order.Floor
import LambdaDiagram.Diagram.Growth
import LambdaDiagram.Proofs.ExactNumbers

/-!
Sums of places on the spiral. A place on the spiral is a whole number of times a power of one number
of length one, the golden angle's, and that number is transcendental. So two sums of such places,
computed with exact numbers, are the same only if they are sums of the same places.
-/

namespace LambdaDiagram

open Polynomial

/-! ## The number whose angle is one -/

/-- A polynomial that has the first `n` positive whole numbers of times the imaginary unit as roots. -/
noncomputable def imaginaryRoots (n : ℕ) : ℤ[X] :=
  ∏ k ∈ Finset.range n, (X ^ 2 + C (((k + 1 : ℕ) : ℤ) ^ 2))

theorem imaginaryRoots_eval_zero (n : ℕ) : (imaginaryRoots n).eval 0 ≠ 0 := by
  rw [imaginaryRoots, eval_prod, Finset.prod_ne_zero_iff]
  intro k _
  have hpos : (0 : ℤ) < ((k + 1 : ℕ) : ℤ) ^ 2 := by positivity
  simpa using hpos.ne'

theorem mem_aroots_imaginaryRoots {n k : ℕ} (hk : k ∈ Finset.range n) :
    (((k + 1 : ℕ) : ℂ) * Complex.I) ∈ (imaginaryRoots n).aroots ℂ := by
  have hne : imaginaryRoots n ≠ 0 := by
    intro h
    apply imaginaryRoots_eval_zero n
    rw [h, eval_zero]
  rw [mem_aroots, imaginaryRoots, map_prod]
  refine ⟨hne, Finset.prod_eq_zero hk ?_⟩
  rw [map_add, map_pow, aeval_X, aeval_C, mul_pow, Complex.I_sq, mul_neg_one, map_pow, map_natCast,
    neg_add_cancel]

/-- An integer polynomial at an imaginary whole number is a Gaussian integer. -/
theorem exists_gaussian_aeval (p : ℤ[X]) (k : ℕ) :
    ∃ a : GaussianInt, aeval ((k : ℂ) * Complex.I) p = GaussianInt.toComplex a := by
  have hroot : (k : ℂ) * Complex.I = GaussianInt.toComplex.toIntAlgHom ⟨0, k⟩ := by
    simp [GaussianInt.toComplex_def]
  rw [hroot, aeval_algHom_apply]
  exact ⟨_, rfl⟩

/-- Powers over factorials become small. -/
theorem exists_prime_small (c bound : ℝ) (least : ℕ) :
    ∃ p, p.Prime ∧ least < p ∧ bound * (c ^ p / (p - 1).factorial) < 1 := by
  have hlimit := (FloorSemiring.tendsto_pow_div_factorial_atTop c).const_mul (bound * c)
  rw [mul_zero] at hlimit
  obtain ⟨m, hm⟩ := Filter.eventually_atTop.1 (hlimit.eventually (gt_mem_nhds one_pos))
  obtain ⟨p, hle, hp⟩ := Nat.exists_infinite_primes (max m least + 1)
  refine ⟨p, hp, by omega, ?_⟩
  have hsmall := hm (p - 1) (by omega)
  have hpow : c ^ p = c * c ^ (p - 1) := by rw [← pow_succ', Nat.sub_add_cancel hp.one_le]
  rwa [hpow, mul_div_assoc, ← mul_assoc]

/-- A multiple of a prime is not near a number that the prime does not divide. -/
theorem eq_zero_of_norm_lt_one {p : ℕ} (hp : p.Prime) {m c : ℤ} {a : GaussianInt}
    (hm : ¬ (p : ℤ) ∣ m) (hc : c.natAbs < p)
    (h : ‖((m * c : ℤ) : ℂ) + p * GaussianInt.toComplex a‖ < 1) : c = 0 := by
  have hre : ((m * c + p * a.re : ℤ) : ℝ) =
      (((m * c : ℤ) : ℂ) + p * GaussianInt.toComplex a).re := by
    rw [Complex.add_re, Complex.intCast_re, ← Complex.ofReal_natCast, Complex.re_ofReal_mul,
      ← GaussianInt.intCast_re, Int.cast_add, Int.cast_mul (p : ℤ), Int.cast_natCast]
  have habs : |((m * c + p * a.re : ℤ) : ℝ)| < 1 := by
    rw [hre]
    exact (Complex.abs_re_le_norm _).trans_lt h
  rw [← Int.cast_abs] at habs
  have hwhole : m * c + p * a.re = 0 := Int.abs_lt_one_iff.1 (by exact_mod_cast habs)
  have hdvd : (p : ℤ) ∣ m * c := ⟨-a.re, by linarith⟩
  obtain hdvd | hdvd := (Nat.prime_iff_prime_int.1 hp).dvd_or_dvd hdvd
  · exact absurd hdvd hm
  · exact Int.eq_zero_of_dvd_of_natAbs_lt_natAbs hdvd hc

/-- Whole numbers that are not all zero do not balance on the powers of the number whose angle is
one: approximated with a large prime, what is left of the first of them would be divided by it. -/
theorem aeval_exp_I_ne_zero {q : ℤ[X]} (hq : q.coeff 0 ≠ 0) :
    aeval (Complex.exp Complex.I) q ≠ 0 := by
  intro hzero
  let n := q.natDegree
  let root : ℕ → ℂ := fun k => ((k + 1 : ℕ) : ℂ) * Complex.I
  obtain ⟨c, happrox⟩ :=
    LindemannWeierstrass.exp_polynomial_approx (imaginaryRoots n) (imaginaryRoots_eval_zero n)
  obtain ⟨p, hp, hlarge, hsmall⟩ := exists_prime_small c
    (∑ k ∈ Finset.range n, |((q.coeff (k + 1) : ℤ) : ℝ)|)
    (max ((imaginaryRoots n).eval 0).natAbs (q.coeff 0).natAbs)
  obtain ⟨hlarge, hlarge'⟩ := max_lt_iff.1 hlarge
  obtain ⟨m, hm, approx, -, happrox⟩ := happrox p hlarge hp
  choose a ha using exists_gaussian_aeval approx
  let total : GaussianInt := ∑ k ∈ Finset.range n, (q.coeff (k + 1) : GaussianInt) * a (k + 1)
  have hpowers : ∑ k ∈ Finset.range n, (q.coeff (k + 1) : ℂ) * Complex.exp (root k) =
      -(q.coeff 0 : ℂ) := by
    rw [aeval_eq_sum_range, Finset.sum_range_succ'] at hzero
    simp only [zsmul_eq_mul, pow_zero, mul_one, ← Complex.exp_nat_mul] at hzero
    exact eq_neg_of_add_eq_zero_left hzero
  have htotal : GaussianInt.toComplex total =
      ∑ k ∈ Finset.range n, (q.coeff (k + 1) : ℂ) * aeval (root k) approx := by
    simp only [total, root, map_sum, map_mul, map_intCast, ← ha]
  have hbalance : ∑ k ∈ Finset.range n,
      (q.coeff (k + 1) : ℂ) * (m • Complex.exp (root k) - p • aeval (root k) approx) =
        -(((m * q.coeff 0 : ℤ) : ℂ) + p * GaussianInt.toComplex total) := by
    calc _ = m * ∑ k ∈ Finset.range n, (q.coeff (k + 1) : ℂ) * Complex.exp (root k) -
          p * ∑ k ∈ Finset.range n, (q.coeff (k + 1) : ℂ) * aeval (root k) approx := by
            rw [Finset.mul_sum, Finset.mul_sum, ← Finset.sum_sub_distrib]
            refine Finset.sum_congr rfl fun k _ => ?_
            rw [zsmul_eq_mul, nsmul_eq_mul]
            ring
      _ = _ := by
        rw [hpowers, ← htotal, Int.cast_mul]
        ring
  refine hq (eq_zero_of_norm_lt_one hp hm hlarge' (a := total) ?_)
  rw [← norm_neg, ← hbalance]
  rw [Finset.sum_mul] at hsmall
  refine lt_of_le_of_lt (norm_sum_le_of_le _ fun k hk => ?_) hsmall
  rw [norm_mul, Complex.norm_intCast]
  exact mul_le_mul_of_nonneg_left (happrox (mem_aroots_imaginaryRoots hk)) (abs_nonneg _)

theorem transcendental_exp_I : Transcendental ℤ (Complex.exp Complex.I) := by
  intro halgebraic
  obtain ⟨q, hq, hzero⟩ := halgebraic.exists_nonzero_coeff_and_aeval_eq_zero
    (mem_nonZeroDivisors_of_ne_zero (Complex.exp_ne_zero _))
  exact aeval_exp_I_ne_zero hq hzero

/-- So is every number with an angle that is a fraction. -/
theorem transcendental_exp_mul_I {a b : ℕ} (ha : a ≠ 0) (hb : b ≠ 0) :
    Transcendental ℤ (Complex.exp (((a / b : ℝ) : ℂ) * Complex.I)) := by
  intro halgebraic
  have hpow : Complex.exp (((a / b : ℝ) : ℂ) * Complex.I) ^ b = Complex.exp Complex.I ^ a := by
    have hb : (b : ℂ) ≠ 0 := Nat.cast_ne_zero.2 hb
    rw [← Complex.exp_nat_mul, ← Complex.exp_nat_mul]
    push_cast
    congr 1
    field_simp
  exact transcendental_exp_I (.of_pow (Nat.pos_of_ne_zero ha) (hpow ▸ halgebraic.pow b))

/-! ## Places on the spiral -/

/-- A point of the plane as a complex number. -/
def Vec.toComplex (v : Vec ℝ) : ℂ := ⟨v.x, v.y⟩

theorem Vec.toComplex_inj {u v : Vec ℝ} : u.toComplex = v.toComplex ↔ u = v := by
  obtain ⟨a, b⟩ := u
  obtain ⟨c, d⟩ := v
  simp [Vec.toComplex]

/-- The number of length one whose angle is that between a place on the spiral and the next. -/
noncomputable def goldenTurn : ℂ := Complex.exp ((2.399963 : ℝ) * Complex.I)

theorem transcendental_goldenTurn : Transcendental ℤ goldenTurn := by
  have hfraction : (2.399963 : ℝ) = ((2399963 : ℕ) : ℝ) / ((1000000 : ℕ) : ℝ) := by norm_num
  rw [goldenTurn, hfraction]
  exact transcendental_exp_mul_I (by norm_num) (by norm_num)

theorem Scalar.ofNat_eq_cast (n : ℕ) : (Scalar.ofNat n : ℝ) = n := by
  show ((Rat.ofScientific n false 0 : ℚ) : ℝ) = n
  rw [Rat.ofScientific_false_def]
  simp

theorem toComplex_spiral (n : ℕ) :
    (Graph.spiral n : Vec ℝ).toComplex = (n + 1 : ℝ) * goldenTurn ^ n := by
  have hzero : (0.0 : ℝ) = 0 := by norm_num
  have hone : (1.0 : ℝ) = 1 := by norm_num
  have hspiral : (Graph.spiral n : Vec ℝ) =
      ⟨(n + 1) * Real.cos (n * 2.399963), (n + 1) * Real.sin (n * 2.399963)⟩ := by
    show (⟨0.0 + (1.0 + Scalar.ofNat n) * Real.cos (Scalar.ofNat n * 2.399963),
      0.0 + (1.0 + Scalar.ofNat n) * Real.sin (Scalar.ofNat n * 2.399963)⟩ : Vec ℝ) = _
    rw [Scalar.ofNat_eq_cast, hzero, hone, zero_add, zero_add, add_comm]
  have hpower : goldenTurn ^ n = Complex.exp ((n * 2.399963 : ℝ) * Complex.I) := by
    rw [goldenTurn, ← Complex.exp_nat_mul, Complex.ofReal_mul, Complex.ofReal_natCast, mul_assoc]
  rw [hspiral, hpower]
  apply Complex.ext
  · rw [Complex.re_ofReal_mul, Complex.exp_ofReal_mul_I_re]
    rfl
  · rw [Complex.im_ofReal_mul, Complex.exp_ofReal_mul_I_im]
    rfl

/-- The place that is reached from a point by places on the spiral, one after the other. -/
def Vec.along {S : Type} [Scalar S] (u : Vec S) (ns : List ℕ) : Vec S :=
  ns.foldl (fun u n => u + Graph.spiral n) u

/-- The powers that places on the spiral are sums of. -/
noncomputable def spiralPolynomial (ns : List ℕ) : ℤ[X] :=
  (ns.map fun n => monomial n (n + 1 : ℤ)).sum

theorem spiralPolynomial_cons (n : ℕ) (ns : List ℕ) :
    spiralPolynomial (n :: ns) = monomial n (n + 1 : ℤ) + spiralPolynomial ns := by
  rw [spiralPolynomial, List.map_cons, List.sum_cons, spiralPolynomial]

theorem coeff_spiralPolynomial (ns : List ℕ) (k : ℕ) :
    (spiralPolynomial ns).coeff k = (k + 1) * ns.count k := by
  induction ns with
  | nil => simp [spiralPolynomial]
  | cons n ns ih =>
    rw [spiralPolynomial_cons, coeff_add, coeff_monomial, ih, List.count_cons]
    by_cases h : n = k
    · simp [h]
      ring
    · simp [h]

theorem toComplex_along (u : Vec ℝ) (ns : List ℕ) :
    (u.along ns).toComplex = u.toComplex + aeval goldenTurn (spiralPolynomial ns) := by
  induction ns generalizing u with
  | nil => simp [Vec.along, spiralPolynomial]
  | cons n ns ih =>
    have hstep : (u + Graph.spiral n).toComplex = u.toComplex + (Graph.spiral n).toComplex := rfl
    rw [Vec.along, List.foldl_cons, ← Vec.along, ih, hstep, toComplex_spiral,
      spiralPolynomial_cons, map_add, aeval_monomial, add_assoc]
    simp

/-- Different sums of places on the spiral lead to different places. -/
theorem along_eq_along_iff (u : Vec ℝ) (ms ns : List ℕ) : u.along ms = u.along ns ↔ ms.Perm ns := by
  rw [← Vec.toComplex_inj, toComplex_along, toComplex_along, add_right_inj,
    (transcendental_iff_injective.1 transcendental_goldenTurn).eq_iff, List.perm_iff_count,
    Polynomial.ext_iff]
  refine forall_congr' fun k => ?_
  rw [coeff_spiralPolynomial, coeff_spiralPolynomial]
  have hne : (k + 1 : ℤ) ≠ 0 := by positivity
  rw [mul_right_inj' hne, Nat.cast_inj]

end LambdaDiagram
