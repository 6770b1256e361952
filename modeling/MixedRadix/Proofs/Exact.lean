import MixedRadix.Proofs.Butterfly
import MixedRadix.Proofs.Spectrum
import Mathlib.Analysis.SpecialFunctions.Trigonometric.Basic

/-!
# Exact scalars

The reading of kernels over the real numbers, where every constant is the number that it names and
nothing is rounded. Over these scalars the butterflies are the sums that define a discrete Fourier
transform (`ComplexPair.dft_ofComplex`), the character being `phase q = e ^ (iπq)`.
-/

namespace MixedRadix

open Real

/-- The real numbers as scalars. A place that nothing was written to holds some number, and no proof
can tell which. -/
noncomputable instance : Scalar ℝ where
  add x y := x + y
  sub x y := x - y
  mul x y := x * y
  div x y := x / y
  neg x := -x
  ofScientific := OfScientific.ofScientific
  ofNat n := n
  pi := π
  invSqrtTwo := 1 / √2
  sinThird := √3 / 2
  cosFifthGap := (cos (2 * π / 5) - cos (4 * π / 5)) / 2
  sinFifth := sin (2 * π / 5)
  sinTwoFifths := sin (4 * π / 5)
  sin := sin
  cos := cos
  sqrt := sqrt
  abs x := |x|
  lt x y := decide (x < y)
  isNaN _ := false
  nan := Classical.arbitrary ℝ

/-! ### Rotations of the plane -/

/-- The factor by which a rotation of `q` half turns multiplies. -/
noncomputable def phase : AddChar ℚ ℂ where
  toFun q := Complex.exp ((π * q : ℝ) * Complex.I)
  map_zero_eq_one' := by simp
  map_add_eq_mul' q q' := by
    rw [← Complex.exp_add]
    congr 1
    push_cast
    ring

lemma phase_apply (q : ℚ) : phase q = Complex.exp ((π * q : ℝ) * Complex.I) := rfl

lemma phase_eq (q : ℚ) : phase q = ⟨cos (π * q), sin (π * q)⟩ :=
  Complex.ext (Complex.exp_ofReal_mul_I_re _) (Complex.exp_ofReal_mul_I_im _)

lemma phase_two : phase 2 = 1 := by
  have hturn : ((π * (2 : ℚ) : ℝ) : ℂ) * Complex.I = 2 * π * Complex.I := by
    push_cast
    ring
  rw [phase_apply, hturn, Complex.exp_two_pi_mul_I]

/-- The factors of a transform of `n` points are powers of one of them. -/
lemma phase_eq_pow {n : ℕ} (hn : n ≠ 0) (m : ℕ) :
    phase (-2 * m / n) = phase (-2 / n) ^ (m % n) := by
  have hcast : (n : ℚ) ≠ 0 := by exact_mod_cast hn
  have hpow (m : ℕ) : phase (-2 / n) ^ m = phase (-2 * m / n) := by
    rw [← AddChar.map_nsmul_eq_pow, nsmul_eq_mul]
    congr 1
    ring
  have hself : phase (-2 / n) ^ n = 1 := by
    rw [hpow, mul_div_cancel_right₀ _ hcast, AddChar.map_neg_eq_inv, phase_two, inv_one]
  rw [← hpow, pow_eq_pow_mod m hself]

/-- A factor by its angle. -/
lemma phase_pow_eq (n m : ℕ) :
    phase (-2 / n) ^ m = cos (2 * m * π / n) - Complex.I * sin (2 * m * π / n) := by
  have hangle : ((π * (-2 / n : ℚ) : ℝ) : ℂ) * Complex.I * m =
      ((-(2 * m * π / n) : ℝ) : ℂ) * Complex.I := by
    push_cast
    ring
  rw [phase_apply, ← Complex.exp_nat_mul, mul_comm (m : ℂ), hangle, Complex.exp_ofReal_mul_I,
    cos_neg, sin_neg]
  push_cast
  ring

/-- A factor and the one as far from the end are conjugate. -/
lemma phase_pow_sub {n m : ℕ} (hn : n ≠ 0) (hm : m ≤ n) :
    phase (-2 / n) ^ (n - m) = cos (2 * m * π / n) + Complex.I * sin (2 * m * π / n) := by
  have hcast : (n : ℝ) ≠ 0 := by exact_mod_cast hn
  have hangle : 2 * ((n - m : ℕ) : ℝ) * π / n = 2 * π - 2 * m * π / n := by
    push_cast [hm]
    field_simp
  rw [phase_pow_eq, hangle, cos_two_pi_sub, sin_two_pi_sub]
  push_cast
  ring

/-! ### Transforms -/

/-- The sum that defines a discrete Fourier transform. -/
noncomputable def discreteFourier (n : ℕ) (x : ℕ → ℂ) (k : ℕ) : ℂ :=
  ∑ j ∈ Finset.range n, x j * Complex.exp (-2 * π * Complex.I * j * k / n)

/-- The sum that defines a cosine transform. -/
noncomputable def cosineSum (n : ℕ) (x : ℕ → ℝ) (k : ℕ) : ℝ :=
  ∑ i ∈ Finset.range n, x i * cos ((2 * i + 1) * k * π / (2 * n))

/-- The sum that defines an inverse cosine transform. -/
noncomputable def inverseCosineSum (n : ℕ) (a : ℕ → ℝ) (i : ℕ) : ℝ :=
  ∑ k ∈ Finset.range n, a k * cos ((2 * i + 1) * k * π / (2 * n))

lemma bin_phase (n : ℕ) (x : ℕ → ℂ) (k : ℕ) : bin phase n x k = discreteFourier n x k := by
  refine Finset.sum_congr rfl fun j _ => ?_
  rw [phase_apply]
  congr 2
  push_cast
  ring

namespace ComplexPair

/-- A complex number by its parts. -/
def ofComplex (z : ℂ) : ComplexPair ℝ :=
  ⟨z.re, z.im⟩

variable (z w : ℂ)

@[simp] lemma ofComplex_add : ofComplex z + ofComplex w = ofComplex (z + w) := rfl

@[simp] lemma ofComplex_sub : ofComplex z - ofComplex w = ofComplex (z - w) := rfl

@[simp]
lemma scale_ofComplex (c : ℝ) : scale c (ofComplex z) = ofComplex (c * z) := by
  simp only [ofComplex, scale, Complex.re_ofReal_mul, Complex.im_ofReal_mul]

@[simp]
lemma addI_ofComplex : addI (ofComplex z) (ofComplex w) = ofComplex (z + Complex.I * w) := by
  simp only [ofComplex, addI, Complex.add_re, Complex.add_im, Complex.I_mul_re, Complex.I_mul_im]
  rfl

@[simp]
lemma subI_ofComplex : subI (ofComplex z) (ofComplex w) = ofComplex (z - Complex.I * w) := by
  simp only [ofComplex, subI, Complex.sub_re, Complex.sub_im, Complex.I_mul_re, Complex.I_mul_im,
    sub_neg_eq_add]

/-! ### Transforms of two to five points -/

variable (v : ℕ → ℂ)

lemma dft2_ofComplex :
    dft2 (ofComplex (v 0)) (ofComplex (v 1)) =
      (ofComplex (bin phase 2 v 0), ofComplex (bin phase 2 v 1)) := by
  have hω : phase (-2 / (2 : ℕ)) = -1 := by
    simpa using phase_pow_eq 2 1
  simp only [dft2, ofComplex_add, ofComplex_sub, bin, Finset.sum_range_succ, Finset.sum_range_zero,
    phase_eq_pow two_ne_zero, hω]
  norm_num [sub_eq_add_neg]

lemma dft3_ofComplex :
    dft3 (ofComplex (v 0)) (ofComplex (v 1)) (ofComplex (v 2)) =
      (ofComplex (bin phase 3 v 0), ofComplex (bin phase 3 v 1), ofComplex (bin phase 3 v 2)) := by
  have hcos : cos (2 * (1 : ℕ) * π / (3 : ℕ)) = -(1 / 2) := by
    rw [show 2 * ((1 : ℕ) : ℝ) * π / (3 : ℕ) = π - π / 3 by push_cast; ring, cos_pi_sub,
      cos_pi_div_three]
  have hsin : sin (2 * (1 : ℕ) * π / (3 : ℕ)) = Scalar.sinThird := by
    rw [show 2 * ((1 : ℕ) : ℝ) * π / (3 : ℕ) = π - π / 3 by push_cast; ring, sin_pi_sub,
      sin_pi_div_three]
    rfl
  have hone := phase_pow_eq 3 1
  have htwo := phase_pow_sub three_ne_zero (show 1 ≤ 3 by decide)
  rw [hcos, hsin] at hone htwo
  have hhalf : ((0.5 : ℝ) : ℂ) = 1 / 2 := by norm_num
  simp only [dft3, ofComplex_add, ofComplex_sub, scale_ofComplex, addI_ofComplex, subI_ofComplex,
    bin, Finset.sum_range_succ, Finset.sum_range_zero, phase_eq_pow three_ne_zero, hhalf]
  refine Prod.ext ?_ (Prod.ext ?_ ?_) <;> refine congrArg ofComplex ?_ <;>
    simp only [Nat.reduceMul, Nat.reduceMod, pow_zero, hone, htwo]
  · ring
  · push_cast
    ring
  · push_cast
    ring

lemma dft4_ofComplex :
    dft4 (ofComplex (v 0)) (ofComplex (v 1)) (ofComplex (v 2)) (ofComplex (v 3)) =
      (ofComplex (bin phase 4 v 0), ofComplex (bin phase 4 v 1), ofComplex (bin phase 4 v 2),
        ofComplex (bin phase 4 v 3)) := by
  have hquarter : 2 * ((1 : ℕ) : ℝ) * π / (4 : ℕ) = π / 2 := by
    push_cast
    ring
  have hone := phase_pow_eq 4 1
  have htwo := phase_pow_eq 4 2
  have hthree := phase_pow_sub four_ne_zero (show 1 ≤ 4 by decide)
  rw [hquarter, cos_pi_div_two, sin_pi_div_two] at hone hthree
  rw [show 2 * ((2 : ℕ) : ℝ) * π / (4 : ℕ) = π by push_cast; ring, cos_pi, sin_pi] at htwo
  simp only [dft4, ofComplex_add, ofComplex_sub, addI_ofComplex, subI_ofComplex, bin,
    Finset.sum_range_succ, Finset.sum_range_zero, phase_eq_pow four_ne_zero]
  refine Prod.ext ?_ (Prod.ext ?_ (Prod.ext ?_ ?_)) <;> refine congrArg ofComplex ?_ <;>
    simp only [Nat.reduceMul, Nat.reduceMod, pow_zero, hone, htwo, hthree] <;> push_cast <;> ring

/-- The cosines of one and of two fifths of a turn. -/
lemma cos_fifth_add : cos (2 * π / 5) + cos (4 * π / 5) = -(1 / 2) := by
  have hquadratic := quadratic_root_cos_pi_div_five
  have hone : cos (2 * π / 5) = 2 * cos (π / 5) ^ 2 - 1 := by
    rw [← cos_two_mul]
    ring_nf
  have htwo : cos (4 * π / 5) = -cos (π / 5) := by
    rw [← cos_pi_sub]
    ring_nf
  rw [hone, htwo]
  linarith

lemma dft5_ofComplex :
    dft5 (ofComplex (v 0)) (ofComplex (v 1)) (ofComplex (v 2)) (ofComplex (v 3))
        (ofComplex (v 4)) =
      (ofComplex (bin phase 5 v 0), ofComplex (bin phase 5 v 1), ofComplex (bin phase 5 v 2),
        ofComplex (bin phase 5 v 3), ofComplex (bin phase 5 v 4)) := by
  have hfive : 5 ≠ 0 := by decide
  have hfifth : 2 * ((1 : ℕ) : ℝ) * π / (5 : ℕ) = 2 * π / 5 := by push_cast; ring
  have hfifths : 2 * ((2 : ℕ) : ℝ) * π / (5 : ℕ) = 4 * π / 5 := by push_cast; ring
  have hone := phase_pow_eq 5 1
  have htwo := phase_pow_eq 5 2
  have hthree := phase_pow_sub hfive (show 2 ≤ 5 by decide)
  have hfour := phase_pow_sub hfive (show 1 ≤ 5 by decide)
  rw [hfifth] at hone hfour
  rw [hfifths] at htwo hthree
  have hsum : (cos (2 * π / 5) + cos (4 * π / 5) : ℂ) = -(1 / 2) := by
    rw [← Complex.ofReal_add, cos_fifth_add]
    norm_num
  have hgap : ((Scalar.cosFifthGap : ℝ) : ℂ) = (cos (2 * π / 5) - cos (4 * π / 5)) / 2 := by
    simp [Scalar.cosFifthGap]
  have hquarter : ((0.25 : ℝ) : ℂ) = 1 / 4 := by norm_num
  simp only [dft5, ofComplex_add, ofComplex_sub, scale_ofComplex, addI_ofComplex, subI_ofComplex,
    bin, Finset.sum_range_succ, Finset.sum_range_zero, phase_eq_pow hfive, hgap,
    hquarter, Scalar.sinFifth, Scalar.sinTwoFifths]
  refine Prod.ext ?_ (Prod.ext ?_ (Prod.ext ?_ (Prod.ext ?_ ?_))) <;>
    refine congrArg ofComplex ?_ <;>
    simp only [Nat.reduceMul, Nat.reduceMod, pow_zero, hone, htwo, hthree, hfour]
  · ring
  · linear_combination (-(v 1 + v 2 + v 3 + v 4) / 2) * hsum
  · linear_combination (-(v 1 + v 2 + v 3 + v 4) / 2) * hsum
  · linear_combination (-(v 1 + v 2 + v 3 + v 4) / 2) * hsum
  · linear_combination (-(v 1 + v 2 + v 3 + v 4) / 2) * hsum

/-- The points of a butterfly become their bins. -/
theorem dft_ofComplex (radix : Radix) :
    dft ((List.range radix.size).map fun j => ofComplex (v j)) =
      (List.range radix.size).map fun k => ofComplex (bin phase radix.size v k) := by
  cases radix with
  | two =>
    change dft [ofComplex (v 0), ofComplex (v 1)] = _
    simp only [dft, dft2_ofComplex]
    rfl
  | three =>
    change dft [ofComplex (v 0), ofComplex (v 1), ofComplex (v 2)] = _
    simp only [dft, dft3_ofComplex]
    rfl
  | four =>
    change dft [ofComplex (v 0), ofComplex (v 1), ofComplex (v 2), ofComplex (v 3)] = _
    simp only [dft, dft4_ofComplex]
    rfl
  | five =>
    change dft [ofComplex (v 0), ofComplex (v 1), ofComplex (v 2), ofComplex (v 3),
      ofComplex (v 4)] = _
    simp only [dft, dft5_ofComplex]
    rfl

end ComplexPair

end MixedRadix
