import MixedRadix.Cosine.Forward
import MixedRadix.Cosine.Inverse
import MixedRadix.Proofs.Exact

/-!
# Cosine sums by a transform of half the size

A cosine sum of `n` samples is a part of a rotated bin of the samples in another order, the even
ones first and the odd ones backwards behind them (`re_rotatedBin`, `im_rotatedBin`). If `n = 2m`,
the bins of the `n` samples can be read off the `m` bins of the samples in pairs (`two_mul_bin`).
The other way round, sums of cosines are the `m` bins of their amplitudes, rotated and folded into
pairs (`bin_folded`).
-/

namespace MixedRadix

open Real ComplexConjugate

lemma conj_phase (q : ℚ) : conj (phase q) = phase (-q) := by
  rw [phase_apply, phase_apply, ← Complex.exp_conj]
  simp

lemma phase_neg_one : phase (-1) = -1 := by
  have hangle : ((π * (-1 : ℚ) : ℝ) : ℂ) * Complex.I = -(π * Complex.I) := by
    push_cast
    ring
  rw [phase_apply, hangle, Complex.exp_neg, Complex.exp_pi_mul_I]
  norm_num

namespace Cosine

/-! ### The order of the samples -/

lemma evenOdd_lt {n i : ℕ} (hn : n % 2 = 0) (hi : i < n) : evenOdd n i < n := by
  unfold evenOdd
  split <;> omega

lemma packedPlace_lt {n i : ℕ} (hi : i < n) : packedPlace n i < n := by
  unfold packedPlace
  split <;> omega

lemma packedPlace_evenOdd {n i : ℕ} (hn : n % 2 = 0) (hi : i < n) :
    packedPlace n (evenOdd n i) = i := by
  unfold packedPlace evenOdd
  split <;> split <;> omega

lemma evenOdd_packedPlace {n i : ℕ} (hn : n % 2 = 0) (hi : i < n) :
    evenOdd n (packedPlace n i) = i := by
  unfold packedPlace evenOdd
  split <;> split <;> omega

/-- In both orders, there are the same samples. -/
lemma sum_evenOdd {n : ℕ} (hn : n % 2 = 0) (f : ℕ → ℝ) :
    ∑ i ∈ Finset.range n, f (evenOdd n i) = ∑ i ∈ Finset.range n, f i := by
  refine Finset.sum_nbij' (evenOdd n) (packedPlace n) ?_ ?_ ?_ ?_ fun _ _ => rfl
  · intro i hi
    exact Finset.mem_range.2 (evenOdd_lt hn (Finset.mem_range.1 hi))
  · intro i hi
    exact Finset.mem_range.2 (packedPlace_lt (Finset.mem_range.1 hi))
  · intro i hi
    exact packedPlace_evenOdd hn (Finset.mem_range.1 hi)
  · intro i hi
    exact evenOdd_packedPlace hn (Finset.mem_range.1 hi)

/-- The angles of a sample in both orders differ by their sign and full turns. -/
lemma cos_evenOdd {n i : ℕ} (hn : n % 2 = 0) (hi : i < n) (k : ℕ) :
    cos ((2 * evenOdd n i + 1) * k * π / (2 * n)) = cos ((4 * i + 1) * k * π / (2 * n)) := by
  have hpos : (n : ℝ) ≠ 0 := by
    have : n ≠ 0 := by omega
    exact_mod_cast this
  unfold evenOdd
  split
  · congr 3
    push_cast
    ring
  · rename_i hge
    have hcast : ((2 * n - 1 - 2 * i : ℕ) : ℝ) = 2 * n - 1 - 2 * i := by
      rw [Nat.sub_sub, Nat.cast_sub (by omega)]
      push_cast
      ring
    rw [hcast, ← cos_nat_mul_two_pi_sub _ k]
    congr 1
    field_simp
    ring

/-! ### Rotated bins -/

/-- Bin `k` of real samples, rotated by a quarter of the angle between bins. -/
noncomputable def rotatedBin (n : ℕ) (v : ℕ → ℝ) (k : ℕ) : ℂ :=
  phase (-k / (2 * n)) * bin phase n (fun i => (v i : ℂ)) k

lemma rotatedBin_eq (n : ℕ) (v : ℕ → ℝ) (k : ℕ) :
    rotatedBin n v k = ∑ i ∈ Finset.range n, v i * phase (-((4 * i + 1) * k) / (2 * n)) := by
  rw [rotatedBin, bin, Finset.mul_sum]
  refine Finset.sum_congr rfl fun i _ => ?_
  rw [mul_left_comm, ← AddChar.map_add_eq_mul]
  congr 2
  push_cast
  rcases eq_or_ne (n : ℚ) 0 with hn | hn
  · simp [hn]
  · field_simp
    ring

/-- The angle of a term in radians. -/
lemma pi_mul_angle (n i k : ℕ) :
    π * ((-((4 * i + 1) * k) / (2 * n) : ℚ) : ℝ) = -((4 * i + 1) * k * π / (2 * n)) := by
  push_cast
  ring

/-- From both ends of the spectrum, angles add up to a quarter turn. -/
lemma angle_sub {n k : ℕ} (hn : 0 < n) (hk : k ≤ n) (i : ℕ) :
    (4 * i + 1) * ((n - k : ℕ) : ℝ) * π / (2 * n) =
      i * (2 * π) + (π / 2 - (4 * i + 1) * k * π / (2 * n)) := by
  have hcast : (n : ℝ) ≠ 0 := by exact_mod_cast hn.ne'
  rw [Nat.cast_sub hk]
  field_simp
  ring

/-- A cosine sum is the real part of a rotated bin. -/
lemma re_rotatedBin {n : ℕ} (hn : n % 2 = 0) (x : ℕ → ℝ) (k : ℕ) :
    (rotatedBin n (fun i => x (evenOdd n i)) k).re = cosineSum n x k := by
  rw [rotatedBin_eq, Complex.re_sum, cosineSum,
    ← sum_evenOdd hn fun i => x i * cos ((2 * i + 1) * k * π / (2 * n))]
  refine Finset.sum_congr rfl fun i hi => ?_
  rw [Complex.re_ofReal_mul, phase_eq, pi_mul_angle, cos_neg,
    cos_evenOdd hn (Finset.mem_range.1 hi)]

/-- A cosine sum is the negated imaginary part of the rotated bin as far from the end. -/
lemma im_rotatedBin {n : ℕ} (hn : n % 2 = 0) (x : ℕ → ℝ) {k : ℕ} (hk : k ≤ n) :
    -(rotatedBin n (fun i => x (evenOdd n i)) (n - k)).im = cosineSum n x k := by
  rw [rotatedBin_eq, Complex.im_sum, cosineSum, ← Finset.sum_neg_distrib,
    ← sum_evenOdd hn fun i => x i * cos ((2 * i + 1) * k * π / (2 * n))]
  refine Finset.sum_congr rfl fun i hi => ?_
  have hpos : 0 < n := (Nat.zero_le i).trans_lt (Finset.mem_range.1 hi)
  rw [Complex.im_ofReal_mul, phase_eq, pi_mul_angle, sin_neg, angle_sub hpos hk, add_comm,
    sin_add_nat_mul_two_pi, sin_pi_div_two_sub, cos_evenOdd hn (Finset.mem_range.1 hi)]
  ring

/-! ### Samples in pairs -/

/-- The samples in pairs. -/
noncomputable def pairUp (v : ℕ → ℝ) (j : ℕ) : ℂ :=
  ⟨v (2 * j), v (2 * j + 1)⟩

/-- Factors at both ends are conjugate. -/
lemma conj_phase_sub {m k : ℕ} (hm : m ≠ 0) (hk : k ≤ m) (j : ℕ) :
    conj (phase (-2 * (j * (m - k) : ℕ) / m)) = phase (-2 * (j * k : ℕ) / m) := by
  have hcast : (m : ℚ) ≠ 0 := by exact_mod_cast hm
  have hangle : -(-2 * (j * (m - k) : ℕ) / m : ℚ) = 2 * (j : ℤ) + -2 * (j * k : ℕ) / m := by
    push_cast [hk]
    field_simp
    ring
  rw [conj_phase, hangle, AddChar.map_add_eq_mul, Angle.map_two_mul_int phase_two, one_mul]

/-- Half as far apart, they are also opposite. -/
lemma phase_half_sub {m k : ℕ} (hm : m ≠ 0) (hk : k ≤ m) :
    phase (-2 * (m - k : ℕ) / (2 * m : ℕ)) = -conj (phase (-2 * k / (2 * m : ℕ))) := by
  have hcast : (m : ℚ) ≠ 0 := by exact_mod_cast hm
  have hangle : (-2 * (m - k : ℕ) / (2 * m : ℕ) : ℚ) = -1 + -(-2 * k / (2 * m : ℕ)) := by
    push_cast [hk]
    field_simp
    ring
  rw [hangle, AddChar.map_add_eq_mul, phase_neg_one, conj_phase, neg_one_mul]

/-- Real samples have conjugate bins at both ends. -/
lemma conj_bin {m : ℕ} (hm : m ≠ 0) (u : ℕ → ℝ) {k : ℕ} (hk : k ≤ m) :
    conj (bin phase m (fun j => (u j : ℂ)) (m - k)) = bin phase m (fun j => (u j : ℂ)) k := by
  rw [bin, map_sum]
  refine Finset.sum_congr rfl fun j _ => ?_
  rw [map_mul, Complex.conj_ofReal, conj_phase_sub hm hk]

lemma bin_real_zero (m : ℕ) (u : ℕ → ℝ) :
    bin phase m (fun j => (u j : ℂ)) 0 = (∑ j ∈ Finset.range m, u j : ℝ) := by
  simp [bin]

lemma bin_pairUp (m : ℕ) (v : ℕ → ℝ) (k : ℕ) :
    bin phase m (pairUp v) k = bin phase m (fun j => (v (2 * j) : ℂ)) k +
      Complex.I * bin phase m (fun j => (v (2 * j + 1) : ℂ)) k := by
  rw [bin, bin, bin, Finset.mul_sum, ← Finset.sum_add_distrib]
  refine Finset.sum_congr rfl fun j _ => ?_
  have hpair : pairUp v j = v (2 * j) + Complex.I * v (2 * j + 1) := by
    apply Complex.ext <;> simp [pairUp]
  rw [hpair]
  ring

/-- The bins of all samples from those of the even and the odd ones. -/
lemma bin_two_mul {m : ℕ} (hm : 0 < m) (v : ℕ → ℝ) (k : ℕ) :
    bin phase (2 * m) (fun i => (v i : ℂ)) k = bin phase m (fun j => (v (2 * j) : ℂ)) k +
      phase (-2 * k / (2 * m : ℕ)) * bin phase m (fun j => (v (2 * j + 1) : ℂ)) k := by
  have hsplit := bin_mul phase_two Nat.two_pos hm (fun i => (v i : ℂ)) 0 k
  rw [mul_zero, zero_add] at hsplit
  rw [← hsplit, bin, Finset.sum_range_succ, Finset.sum_range_one]
  simp

/-- Twice what even samples contribute, from two bins of pairs. -/
noncomputable def evenPart (a b : ℂ) : ℂ :=
  a + conj b

/-- Twice what odd samples contribute, from two bins of pairs. -/
noncomputable def oddPart (a b : ℂ) : ℂ :=
  -Complex.I * (a - conj b)

section Split

variable {m : ℕ} (hm : 0 < m) (v : ℕ → ℝ) {k : ℕ}

include hm in
lemma conj_bin_pairUp (hk : k ≤ m) :
    conj (bin phase m (pairUp v) (m - k)) = bin phase m (fun j => (v (2 * j) : ℂ)) k -
      Complex.I * bin phase m (fun j => (v (2 * j + 1) : ℂ)) k := by
  rw [bin_pairUp, map_add, map_mul, Complex.conj_I, conj_bin hm.ne' _ hk, conj_bin hm.ne' _ hk]
  ring

include hm in
lemma evenPart_bin (hk : k ≤ m) :
    evenPart (bin phase m (pairUp v) k) (bin phase m (pairUp v) (m - k)) =
      2 * bin phase m (fun j => (v (2 * j) : ℂ)) k := by
  rw [evenPart, conj_bin_pairUp hm v hk, bin_pairUp]
  ring

include hm in
lemma oddPart_bin (hk : k ≤ m) :
    oddPart (bin phase m (pairUp v) k) (bin phase m (pairUp v) (m - k)) =
      2 * bin phase m (fun j => (v (2 * j + 1) : ℂ)) k := by
  rw [oddPart, conj_bin_pairUp hm v hk, bin_pairUp]
  linear_combination
    (-2 * bin phase m (fun j => (v (2 * j + 1) : ℂ)) k) * Complex.I_mul_I

include hm in
/-- A bin of all samples from two bins of pairs. -/
lemma two_mul_bin (hk : k ≤ m) :
    2 * bin phase (2 * m) (fun i => (v i : ℂ)) k =
      evenPart (bin phase m (pairUp v) k) (bin phase m (pairUp v) (m - k)) +
        phase (-2 * k / (2 * m : ℕ)) *
          oddPart (bin phase m (pairUp v) k) (bin phase m (pairUp v) (m - k)) := by
  rw [evenPart_bin hm v hk, oddPart_bin hm v hk, bin_two_mul hm]
  ring

include hm in
/-- The bin as far from the middle from the same two bins of pairs. -/
lemma two_mul_bin_sub (hk : k ≤ m) :
    2 * bin phase (2 * m) (fun i => (v i : ℂ)) (m - k) =
      conj (evenPart (bin phase m (pairUp v) k) (bin phase m (pairUp v) (m - k)) -
        phase (-2 * k / (2 * m : ℕ)) *
          oddPart (bin phase m (pairUp v) k) (bin phase m (pairUp v) (m - k))) := by
  have hsub : m - (m - k) = k := by omega
  rw [two_mul_bin hm v (Nat.sub_le m k), hsub, phase_half_sub hm.ne' hk]
  simp only [evenPart, oddPart, map_sub, map_add, map_mul, map_neg, Complex.conj_I,
    Complex.conj_conj]
  ring

lemma bin_pairUp_zero : bin phase m (pairUp v) 0 =
    ⟨∑ j ∈ Finset.range m, v (2 * j), ∑ j ∈ Finset.range m, v (2 * j + 1)⟩ := by
  rw [bin_pairUp, bin_real_zero, bin_real_zero]
  apply Complex.ext <;> simp

include hm in
/-- The first bin of all samples from the first one of pairs. -/
lemma bin_first : bin phase (2 * m) (fun i => (v i : ℂ)) 0 =
    ((bin phase m (pairUp v) 0).re + (bin phase m (pairUp v) 0).im : ℝ) := by
  rw [bin_two_mul hm, bin_pairUp_zero, bin_real_zero, bin_real_zero]
  simp

include hm in
/-- The bin in the middle of all samples from the first one of pairs. -/
lemma bin_middle : bin phase (2 * m) (fun i => (v i : ℂ)) m =
    ((bin phase m (pairUp v) 0).re - (bin phase m (pairUp v) 0).im : ℝ) := by
  have hcast : (m : ℚ) ≠ 0 := by exact_mod_cast hm.ne'
  have hangle : (-2 * m / (2 * m : ℕ) : ℚ) = -1 := by
    push_cast
    field_simp
  have hlast (u : ℕ → ℝ) : bin phase m (fun j => (u j : ℂ)) m = ∑ j ∈ Finset.range m, u j := by
    rw [← conj_bin hm.ne' u le_rfl, Nat.sub_self, bin_real_zero, Complex.conj_ofReal]
  rw [bin_two_mul hm, bin_pairUp_zero, hlast, hlast, hangle, phase_neg_one]
  push_cast
  ring

end Split

/-! ### Folding bins -/

/-- The bins at `k` and as far from the end as one rotated value. -/
noncomputable def rotatedPair (n : ℕ) (a : ℕ → ℝ) (k : ℕ) : ℂ :=
  phase (-k / (2 * n)) * ⟨a k, a (n - k)⟩

/-- The values of half the size whose bins are the samples in pairs. -/
noncomputable def folded (m : ℕ) (a : ℕ → ℝ) (k : ℕ) : ℂ :=
  if k = 0 then ⟨a 0 + Scalar.invSqrtTwo * a m, a 0 - Scalar.invSqrtTwo * a m⟩
  else
    evenPart ((0.5 : ℝ) * rotatedPair (2 * m) a k) ((0.5 : ℝ) * rotatedPair (2 * m) a (m - k)) -
      phase (-2 * k / (2 * m : ℕ)) *
        oddPart ((0.5 : ℝ) * rotatedPair (2 * m) a k) ((0.5 : ℝ) * rotatedPair (2 * m) a (m - k))

/-- A sum over both halves of the spectrum, from both ends at once. -/
lemma sum_both_ends {m : ℕ} (hm : 0 < m) (f : ℕ → ℝ) :
    ∑ k ∈ Finset.range (2 * m), f k =
      f 0 + f m + ∑ k ∈ Finset.Ico 1 m, (f k + f (2 * m - k)) := by
  have hreflect := Finset.sum_Ico_reflect f 1 (show m ≤ 2 * m + 1 by omega)
  rw [show 2 * m + 1 - m = m + 1 by omega, Nat.add_sub_cancel] at hreflect
  rw [Finset.sum_add_distrib, hreflect, Finset.range_eq_Ico,
    ← Finset.sum_Ico_consecutive f (Nat.zero_le m) (show m ≤ 2 * m by omega),
    Finset.sum_eq_sum_Ico_succ_bot hm, Finset.sum_eq_sum_Ico_succ_bot (show m < 2 * m by omega)]
  ring

/-- What the bins at `k` and as far from the end contribute to a sample. -/
lemma re_rotatedPair {n k : ℕ} (hn : 0 < n) (hk : k ≤ n) (a : ℕ → ℝ) (j : ℕ) :
    (rotatedPair n a k * phase (-2 * (j * k : ℕ) / n)).re =
      a k * cos ((4 * j + 1) * k * π / (2 * n)) +
        a (n - k) * cos ((4 * j + 1) * (n - k : ℕ) * π / (2 * n)) := by
  have hcast : (n : ℚ) ≠ 0 := by exact_mod_cast hn.ne'
  have hangle : (-k / (2 * n) : ℚ) + -2 * (j * k : ℕ) / n = -((4 * j + 1) * k) / (2 * n) := by
    push_cast
    field_simp
    ring
  rw [rotatedPair, mul_right_comm, ← AddChar.map_add_eq_mul, hangle, phase_eq, pi_mul_angle,
    angle_sub hn hk, add_comm _ (π / 2 - _), cos_add_nat_mul_two_pi, cos_pi_div_two_sub, cos_neg,
    sin_neg, Complex.mul_re]
  ring

/-- A sample from the bins in pairs. -/
lemma inverseCosineSum_evenOdd {m j : ℕ} (hj : j < 2 * m) (a : ℕ → ℝ) :
    inverseCosineSum (2 * m) a (evenOdd (2 * m) j) = a 0 + a m * cos ((4 * j + 1) * π / 4) +
      ∑ k ∈ Finset.Ico 1 m,
        (rotatedPair (2 * m) a k * phase (-2 * (j * k : ℕ) / (2 * m : ℕ))).re := by
  have hm : 0 < m := by omega
  have hcast : (m : ℝ) ≠ 0 := by exact_mod_cast hm.ne'
  have hsum : inverseCosineSum (2 * m) a (evenOdd (2 * m) j) =
      ∑ k ∈ Finset.range (2 * m), a k * cos ((4 * j + 1) * k * π / (2 * (2 * m : ℕ))) :=
    Finset.sum_congr rfl fun k _ => by rw [cos_evenOdd (Nat.mul_mod_right 2 m) hj]
  have hmiddle : (4 * j + 1) * m * π / (2 * (2 * m : ℕ)) = (4 * j + 1) * π / 4 := by
    push_cast
    field_simp
    ring
  rw [hsum, sum_both_ends hm, hmiddle]
  congr 1
  · simp
  · refine Finset.sum_congr rfl fun k hk => ?_
    have hk' := (Finset.mem_Ico.1 hk).2
    rw [re_rotatedPair (by omega) (by omega)]

lemma cos_middle_even (p : ℕ) :
    cos ((4 * (2 * p : ℕ) + 1) * π / 4) = Scalar.invSqrtTwo := by
  have hangle : (4 * (2 * p : ℕ) + 1) * π / 4 = π / 4 + p * (2 * π) := by
    push_cast
    ring
  rw [hangle, cos_add_nat_mul_two_pi, cos_pi_div_four, sqrt_div_self']
  rfl

lemma cos_middle_odd (p : ℕ) :
    cos ((4 * (2 * p + 1 : ℕ) + 1) * π / 4) = -Scalar.invSqrtTwo := by
  have hangle : (4 * (2 * p + 1 : ℕ) + 1) * π / 4 = π / 4 + π + p * (2 * π) := by
    push_cast
    ring
  rw [hangle, cos_add_nat_mul_two_pi, cos_add_pi, cos_pi_div_four, sqrt_div_self']
  rfl

/-- What the pair at `k` contributes to bin `p` of the folded values by the value at `k`. -/
noncomputable def foldedNear (m : ℕ) (a : ℕ → ℝ) (p k : ℕ) : ℂ :=
  (0.5 : ℝ) * rotatedPair (2 * m) a k * (1 + Complex.I * phase (-2 * k / (2 * m : ℕ))) *
    phase (-2 * (p * k : ℕ) / m)

/-- What the pair at `k` contributes to bin `p` of the folded values by the value as far from the
end. -/
noncomputable def foldedFar (m : ℕ) (a : ℕ → ℝ) (p k : ℕ) : ℂ :=
  (0.5 : ℝ) * conj (rotatedPair (2 * m) a k) *
    (1 + Complex.I * conj (phase (-2 * k / (2 * m : ℕ)))) * conj (phase (-2 * (p * k : ℕ) / m))

lemma folded_mul_phase {m k : ℕ} (hk : k ∈ Finset.Ico 1 m) (a : ℕ → ℝ) (p : ℕ) :
    folded m a k * phase (-2 * (k * p : ℕ) / m) = foldedNear m a p k + foldedFar m a p (m - k) := by
  obtain ⟨hpos, hlt⟩ := Finset.mem_Ico.1 hk
  rw [folded, if_neg (by omega), foldedNear, foldedFar, phase_half_sub (by omega) hlt.le,
    conj_phase_sub (by omega) hlt.le, evenPart, oddPart, map_neg, map_mul, Complex.conj_ofReal,
    Complex.conj_conj, mul_comm k p]
  ring

/-- Together, they are the parts of the pair that two samples hold. -/
lemma foldedNear_add_foldedFar {m : ℕ} (hm : 0 < m) (a : ℕ → ℝ) (p k : ℕ) :
    foldedNear m a p k + foldedFar m a p k =
      (rotatedPair (2 * m) a k * phase (-2 * (2 * p * k : ℕ) / (2 * m : ℕ))).re +
        Complex.I *
          (rotatedPair (2 * m) a k * phase (-2 * ((2 * p + 1) * k : ℕ) / (2 * m : ℕ))).re := by
  have hcast : (m : ℚ) ≠ 0 := by exact_mod_cast hm.ne'
  have heven : (-2 * (2 * p * k : ℕ) / (2 * m : ℕ) : ℚ) = -2 * (p * k : ℕ) / m := by
    push_cast
    field_simp
  have hodd : (-2 * ((2 * p + 1) * k : ℕ) / (2 * m : ℕ) : ℚ) =
      -2 * k / (2 * m : ℕ) + -2 * (p * k : ℕ) / m := by
    push_cast
    field_simp
    ring
  rw [foldedNear, foldedFar, Complex.re_eq_add_conj, Complex.re_eq_add_conj, heven, hodd,
    AddChar.map_add_eq_mul]
  simp only [map_mul]
  norm_num
  ring

/-- The bins of the folded values are the samples in pairs. -/
theorem bin_folded {m p : ℕ} (hp : p < m) (a : ℕ → ℝ) :
    bin phase m (folded m a) p =
      pairUp (fun j => inverseCosineSum (2 * m) a (evenOdd (2 * m) j)) p := by
  have hm : 0 < m := by omega
  have hreflect := Finset.sum_Ico_reflect (foldedFar m a p) 1 (Nat.le_succ m)
  rw [show m + 1 - m = 1 by omega, Nat.add_sub_cancel] at hreflect
  have hpairs : ∑ k ∈ Finset.Ico 1 m, folded m a k * phase (-2 * (k * p : ℕ) / m) =
      ∑ k ∈ Finset.Ico 1 m, (foldedNear m a p k + foldedFar m a p k) := by
    rw [Finset.sum_congr rfl fun k hk => folded_mul_phase hk a p, Finset.sum_add_distrib, hreflect,
      Finset.sum_add_distrib]
  have hzero : folded m a 0 * phase (-2 * (0 * p : ℕ) / m) =
      ⟨a 0 + Scalar.invSqrtTwo * a m, a 0 - Scalar.invSqrtTwo * a m⟩ := by
    simp [folded]
  rw [bin, Finset.range_eq_Ico, Finset.sum_eq_sum_Ico_succ_bot hm, hzero, hpairs,
    Finset.sum_congr rfl fun k _ => foldedNear_add_foldedFar hm a p k, pairUp,
    inverseCosineSum_evenOdd (by omega), inverseCosineSum_evenOdd (by omega), cos_middle_even,
    cos_middle_odd]
  apply Complex.ext
  · simp only [Complex.add_re, Complex.re_sum, Complex.ofReal_re, Complex.I_mul_re,
      Complex.ofReal_im, neg_zero, add_zero, mul_comm (a m)]
  · simp only [Complex.add_im, Complex.im_sum, Complex.ofReal_re, Complex.I_mul_im,
      Complex.ofReal_im, zero_add, mul_comm (a m), neg_mul, ← sub_eq_add_neg]

end Cosine

end MixedRadix
