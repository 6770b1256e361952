import MixedRadix.Proofs.Cosine.Scaling
import MixedRadix.Proofs.Cosine.Sums
import MixedRadix.Proofs.Requests
import MixedRadix.Proofs.Unrolled

/-!
# Cosine transforms as functions

What the code of a cosine transform computes, as functions of the samples and for every arithmetic
(`Cosine.forward`, `Cosine.inverse`). Over exact scalars these are the cosine sums of the samples,
each times its coefficient (`forward_eq`), and the sums of cosines with given coefficients
(`inverse_eq`).
-/

namespace MixedRadix.Cosine

open Fourier (transformed unrolledTurn)

section Functions

variable {R : Type} [Scalar R]

/-- The sum of two values, and the conjugate of their difference. -/
def sumAndMirror (s d : ComplexPair R) : ComplexPair R × ComplexPair R :=
  (⟨s.re + d.re, s.im + d.im⟩, ⟨s.re - d.re, d.im - s.im⟩)

/-! ### Forward -/

/-- The samples in pairs, the even ones first and the odd ones backwards behind them. -/
def packed (n : ℕ) (x : ℕ → R) (i : ℕ) : ComplexPair R :=
  ⟨x (evenOdd n (2 * i)), x (evenOdd n (2 * i + 1))⟩

/-- The first bin and the one in the middle from the first bin of pairs. -/
def firstSplit (z : ComplexPair R) : ComplexPair R × ComplexPair R :=
  (⟨z.re + z.im, 0.0⟩, ⟨z.re - z.im, 0.0⟩)

/-- Two bins from two bins of pairs. -/
def pairSplit (angle : Angle) (a b : ComplexPair R) : ComplexPair R × ComplexPair R :=
  sumAndMirror ⟨a.re + b.re, a.im - b.im⟩
    (Rotation.turned angle none ⟨a.im + b.im, b.re - a.re⟩)

/-- A bin from a bin of pairs that is its own partner. -/
def middleSplit (angle : Angle) (a : ComplexPair R) : ComplexPair R :=
  let d := Rotation.turned angle none ⟨a.im + a.im, a.re - a.re⟩
  ⟨a.re + a.re + d.re, d.im⟩

/-- The angle between the even and the odd part of bin `k`. -/
def splitAngle (n k : ℕ) : Angle :=
  .ofRatioD (-2 * Int.ofNat k) (Int.ofNat n)

/-- The angle by which bin `k` is rotated. -/
def binAngle (n k : ℕ) : Angle :=
  .ofRatioD (-Int.ofNat k) (2 * Int.ofNat n)

/-- The bins up to the middle, but for a factor of two, from the bins of pairs. -/
def splitBins (n : ℕ) (g : ℕ → ComplexPair R) (i : ℕ) : ComplexPair R :=
  if i = 0 then (firstSplit (g 0)).1
  else if n / 2 ≤ i then (firstSplit (g 0)).2
  else if i < n / 2 - i then (pairSplit (splitAngle n i) (g i) (g (n / 2 - i))).1
  else if i = n / 2 - i then middleSplit (splitAngle n i) (g i)
  else (pairSplit (splitAngle n (n / 2 - i)) (g (n / 2 - i)) (g i)).2

/-- The gain that takes the factor of two back. -/
def binGain (n k : ℕ) : Option R :=
  if k = n / 2 then none else some 0.5

/-- The bins, rotated. -/
def rotatedBins (n : ℕ) (g : ℕ → ComplexPair R) (i : ℕ) : ComplexPair R :=
  if i = 0 then g 0 else Rotation.turned (binAngle n i) (binGain n i) (g i)

/-- A result from the rotated bins. -/
def resultOfBins (n : ℕ) (c : ℕ → R) (g : ℕ → ComplexPair R) (k : ℕ) : R :=
  if k ≤ n / 2 then timesAsIs (c k) (g k).re else timesNegated (c k) (g (n - k)).im

/-- The bins of which the results of a forward transform are parts. -/
def forwardBins (n : ℕ) (x : ℕ → R) : ℕ → ComplexPair R :=
  rotatedBins n (splitBins n (transformed unrolledTurn (n / 2) (packed n x)))

/-- The results of a forward transform. -/
def forward (n : ℕ) (c x : ℕ → R) : ℕ → R :=
  resultOfBins n c (forwardBins n x)

/-! ### Inverse -/

/-- The first value from the first bin and the one in the middle. -/
def firstFold (m : ℕ) (c x : ℕ → R) : ComplexPair R :=
  let a := times (c 0) (x 0)
  let b := times (Scalar.invSqrtTwo * c m) (x m)
  ⟨a + b, a - b⟩

/-- Two bins as one value, rotated. -/
def rotatedLoad (c x : ℕ → R) (gain : R) (k1 k2 : ℕ) (angle : Angle) : ComplexPair R :=
  let g := foldGain gain (c k1) (c k2)
  Rotation.turned angle g.gain ⟨times g.re (x k1), times g.im (x k2)⟩

/-- Two values from two rotated ones. -/
def pairFold (angle : Angle) (a b : ComplexPair R) : ComplexPair R × ComplexPair R :=
  sumAndMirror ⟨a.re + b.re, a.im - b.im⟩
    (Rotation.turned angle none ⟨-(a.im + b.im), a.re - b.re⟩)

/-- The angle by which bin `n/2 - k` is rotated. -/
def mirrorAngle (n k : ℕ) : Angle :=
  .ofRatioD (Int.ofNat k - Int.ofNat (n / 2)) (2 * Int.ofNat n)

/-- The values at `k` and `n/2 - k`. -/
def foldedPair (n : ℕ) (c x : ℕ → R) (k : ℕ) : ComplexPair R × ComplexPair R :=
  pairFold (splitAngle n k) (rotatedLoad c x 0.5 k (n - k) (binAngle n k))
    (rotatedLoad c x 0.5 (n / 2 - k) (n / 2 + k) (mirrorAngle n k))

/-- The values whose transform holds the results in pairs. -/
def foldedValues (n : ℕ) (c x : ℕ → R) (i : ℕ) : ComplexPair R :=
  if i = 0 then firstFold (n / 2) c x
  else if 2 * i = n / 2 then rotatedLoad c x 1.0 i (n - i) (binAngle n i)
  else if 2 * i < n / 2 then (foldedPair n c x i).1
  else (foldedPair n c x (n / 2 - i)).2

/-- A result from the transformed values. -/
def resultOfPairs (n : ℕ) (g : ℕ → ComplexPair R) (i : ℕ) : R :=
  if packedPlace n i % 2 = 0 then (g (packedPlace n i / 2)).re else (g (packedPlace n i / 2)).im

/-- The results of an inverse transform. -/
def inverse (n : ℕ) (c x : ℕ → R) : ℕ → R :=
  resultOfPairs n (transformed unrolledTurn (n / 2) (foldedValues n c x))

end Functions

/-! ### Exact scalars -/

open ComplexPair (ofComplex)
open ComplexConjugate

lemma sumAndMirror_ofComplex (s d : ℂ) :
    sumAndMirror (ofComplex s) (ofComplex d) = (ofComplex (s + d), ofComplex (conj (s - d))) := by
  refine Prod.ext rfl (congrArg₂ ComplexPair.mk rfl ?_)
  change d.im - s.im = -(s - d).im
  rw [Complex.sub_im, neg_sub]

lemma ofComplex_evenPart (a b : ℂ) :
    (⟨a.re + b.re, a.im - b.im⟩ : ComplexPair ℝ) = ofComplex (evenPart a b) := by
  simp [evenPart, ofComplex, sub_eq_add_neg]

lemma ofComplex_oddPart (a b : ℂ) :
    (⟨a.im + b.im, b.re - a.re⟩ : ComplexPair ℝ) = ofComplex (oddPart a b) := by
  simp [oddPart, ofComplex]

lemma turned_none (angle : Angle) (z : ℂ) :
    Rotation.turned angle none (ofComplex z) = ofComplex (phase angle.halfTurns * z) := by
  rw [Rotation.turned_ofComplex, Rotation.factor_none]

lemma pairSplit_ofComplex (angle : Angle) (a b : ℂ) :
    pairSplit angle (ofComplex a) (ofComplex b) =
      (ofComplex (evenPart a b + phase angle.halfTurns * oddPart a b),
        ofComplex (conj (evenPart a b - phase angle.halfTurns * oddPart a b))) := by
  rw [← sumAndMirror_ofComplex, ← turned_none, ← ofComplex_evenPart, ← ofComplex_oddPart]
  rfl

lemma middleSplit_ofComplex (angle : Angle) (a : ℂ) :
    middleSplit angle (ofComplex a) =
      ofComplex (evenPart a a + phase angle.halfTurns * oddPart a a) := by
  have him : (evenPart a a).im = 0 := by simp [evenPart]
  have hpair := congrArg Prod.fst (pairSplit_ofComplex angle a a)
  refine (congrArg₂ ComplexPair.mk (congrArg ComplexPair.re hpair) ?_ :)
  change (Rotation.turned angle none ⟨a.im + a.im, a.re - a.re⟩).im = _
  rw [ofComplex_oddPart, turned_none, ofComplex, Complex.add_im, him, zero_add]

lemma pairFold_ofComplex (angle : Angle) (a b : ℂ) :
    pairFold angle (ofComplex a) (ofComplex b) =
      (ofComplex (evenPart a b - phase angle.halfTurns * oddPart a b),
        ofComplex (conj (evenPart a b + phase angle.halfTurns * oddPart a b))) := by
  have hodd : (⟨-(a.im + b.im), a.re - b.re⟩ : ComplexPair ℝ) = ofComplex (-oddPart a b) := by
    simp [oddPart, ofComplex]
  have hsub : evenPart a b - phase angle.halfTurns * oddPart a b =
      evenPart a b + phase angle.halfTurns * -oddPart a b := by ring
  have hadd : evenPart a b + phase angle.halfTurns * oddPart a b =
      evenPart a b - phase angle.halfTurns * -oddPart a b := by ring
  rw [hsub, hadd, ← sumAndMirror_ofComplex, ← turned_none, ← ofComplex_evenPart, ← hodd]
  rfl

/-! ### Angles -/

section Angles

variable {n k : ℕ} (hn : 0 < n) (hlt : 2 * n < 2 ^ 62) (hk : k ≤ n / 2)

include hn hlt

lemma ofRatio_mirrorAngle (k : ℕ) :
    Angle.ofRatio (Int.ofNat k - Int.ofNat (n / 2)) (2 * Int.ofNat n) = .ok (mirrorAngle n k) :=
  Angle.ofRatio_eq_ok (by simpa using hn) (by simp; omega) (by simp; omega)

include hk

lemma ofRatio_splitAngle :
    Angle.ofRatio (-2 * Int.ofNat k) (Int.ofNat n) = .ok (splitAngle n k) :=
  Angle.ofRatio_eq_ok (by simpa using hn) (by simp; omega) (by simp; omega)

lemma ofRatio_binAngle :
    Angle.ofRatio (-Int.ofNat k) (2 * Int.ofNat n) = .ok (binAngle n k) :=
  Angle.ofRatio_eq_ok (by simpa using hn) (by simp; omega) (by simp; omega)

lemma phase_splitAngle : phase (splitAngle n k).halfTurns = phase (-2 * k / n) := by
  simpa using Angle.map_halfTurns_ofRatio phase_two (ofRatio_splitAngle hn hlt hk)

lemma phase_binAngle : phase (binAngle n k).halfTurns = phase (-k / (2 * n)) := by
  simpa using Angle.map_halfTurns_ofRatio phase_two (ofRatio_binAngle hn hlt hk)

lemma phase_mirrorAngle :
    phase (mirrorAngle n k).halfTurns = phase (-(n / 2 - k : ℕ) / (2 * n)) := by
  rw [Angle.map_halfTurns_ofRatio phase_two (ofRatio_mirrorAngle hn hlt k)]
  generalize n / 2 = m at hk
  push_cast [hk]
  simp

end Angles

/-! ### The forward transform -/

section Splitting

variable {m : ℕ} (hm : 0 < m) (hlt : 4 * m < 2 ^ 62) {k : ℕ}

include hm hlt

/-- Splitting gives the bins of all samples; those between the first and the last one are twice as
large. -/
lemma splitBins_eq (v : ℕ → ℝ) {g : ℕ → ComplexPair ℝ}
    (hg : ∀ i < m, g i = ofComplex (bin phase m (pairUp v) i)) (hk : k ≤ m) :
    splitBins (2 * m) g k =
      ofComplex ((if k = 0 ∨ k = m then 1 else 2) * bin phase (2 * m) (fun i => (v i : ℂ)) k) := by
  have hhalf : 2 * m / 2 = m := Nat.mul_div_cancel_left m Nat.two_pos
  have hzero : (0.0 : ℝ) = 0 := by norm_num
  unfold splitBins
  rw [hhalf]
  -- both ends come from the first bin alone
  by_cases hfirst : k = 0
  · subst hfirst
    rw [if_pos rfl, if_pos (Or.inl rfl), one_mul, bin_first hm, hg 0 hm]
    exact congrArg (ComplexPair.mk _) hzero
  rw [if_neg hfirst]
  rcases hk.eq_or_lt with rfl | hkm
  · rw [if_pos le_rfl, if_pos (Or.inr rfl), one_mul, bin_middle hm, hg 0 hm]
    exact congrArg (ComplexPair.mk _) hzero
  rw [if_neg (not_le.2 hkm), if_neg (by omega : ¬(k = 0 ∨ k = m))]
  split
  · rw [hg k hkm, hg (m - k) (by omega), pairSplit_ofComplex,
      phase_splitAngle (by omega) (by omega) (by omega),
      two_mul_bin hm v hk]
  split
  · -- the bin in the middle, where both halves of a pair are the same
    rename_i hself
    rw [hg k hkm, middleSplit_ofComplex, phase_splitAngle (by omega) (by omega) (by omega),
      two_mul_bin hm v hk, ← hself]
  · -- the second half of a pair that was split at the other index
    have hback : m - (m - k) = k := by omega
    have hsub := two_mul_bin_sub hm v (Nat.sub_le m k)
    rw [hback] at hsub
    rw [hg k hkm, hg (m - k) (by omega), pairSplit_ofComplex,
      phase_splitAngle (by omega) (by omega) (by omega), hsub]

lemma rotatedBins_eq (v : ℕ → ℝ) {g : ℕ → ComplexPair ℝ}
    (hg : ∀ i < m, g i = ofComplex (bin phase m (pairUp v) i)) (hk : k ≤ m) :
    rotatedBins (2 * m) (splitBins (2 * m) g) k = ofComplex (rotatedBin (2 * m) v k) := by
  have hhalf : 2 * m / 2 = m := Nat.mul_div_cancel_left m Nat.two_pos
  unfold rotatedBins
  rw [splitBins_eq hm hlt v hg hk, splitBins_eq hm hlt v hg (Nat.zero_le m)]
  by_cases hfirst : k = 0
  · subst hfirst
    simp [rotatedBin]
  rw [if_neg hfirst, Rotation.turned_ofComplex, Rotation.factor,
    phase_binAngle (by omega) (by omega) (by omega), binGain,
    hhalf, rotatedBin]
  by_cases hlast : k = m
  · simp [hlast]
  · -- the gain takes back the factor that splitting leaves
    have hgain : (((some 0.5 : Option ℝ).getD 1 : ℝ) : ℂ) = 1 / 2 := by norm_num
    rw [if_neg hlast, if_neg (by omega : ¬(k = 0 ∨ k = m)), hgain]
    congr 1
    ring

end Splitting

/-! ### The inverse transform -/

lemma conj_evenPart (a b : ℂ) : conj (evenPart a b) = evenPart b a := by
  simp [evenPart, add_comm]

lemma conj_oddPart (a b : ℂ) : conj (oddPart a b) = oddPart b a := by
  simp only [oddPart, map_mul, map_neg, map_sub, Complex.conj_I, Complex.conj_conj]
  ring

/-- A value that is its own partner folds to itself. -/
lemma folded_middle {m k : ℕ} (hm : 0 < m) (hk : 2 * k = m) (a : ℕ → ℝ) :
    folded m a k = rotatedPair (2 * m) a k := by
  have hcast : (m : ℚ) ≠ 0 := by exact_mod_cast hm.ne'
  have hpartner : m - k = k := by omega
  have hquarter : phase (-2 * k / (2 * m : ℕ)) = -Complex.I := by
    have hangle : (-2 * k / (2 * m : ℕ) : ℚ) = -1 + 1 / 2 := by
      have hk' : (2 * k : ℚ) = m := by exact_mod_cast hk
      push_cast
      field_simp
      linarith
    rw [hangle, AddChar.map_add_eq_mul, phase_neg_one, phase_half]
    ring
  rw [folded, if_neg (by omega), hpartner, hquarter]
  generalize rotatedPair (2 * m) a k = z
  apply Complex.ext
  · simp [evenPart, oddPart]
    ring
  · simp [evenPart, oddPart]
    ring

/-- The value as far from the end, from the same two rotated pairs. -/
lemma folded_sub {m k : ℕ} (hpos : 0 < k) (hk : k < m) (a : ℕ → ℝ) :
    folded m a (m - k) = conj (evenPart ((0.5 : ℝ) * rotatedPair (2 * m) a k)
        ((0.5 : ℝ) * rotatedPair (2 * m) a (m - k)) +
      phase (-2 * k / (2 * m : ℕ)) * oddPart ((0.5 : ℝ) * rotatedPair (2 * m) a k)
        ((0.5 : ℝ) * rotatedPair (2 * m) a (m - k))) := by
  have hback : m - (m - k) = k := by omega
  rw [folded, if_neg (by omega), hback, phase_half_sub (by omega) hk.le, map_add, map_mul,
    conj_evenPart, conj_oddPart]
  ring

/-- Two bins with equal coefficients are loaded as the two products, rotated and with a gain. -/
lemma rotatedLoad_eq {n k1 k2 : ℕ} (orthogonal : Bool) (hk1 : k1 < n) (hk2 : k2 < n)
    (hpos1 : k1 ≠ 0) (hpos2 : k2 ≠ 0) {gain : ℝ}
    (hgain : IsPlain (gain * coefficient n orthogonal k1)) (x : ℕ → ℝ) (angle : Angle) :
    rotatedLoad (coefficient n orthogonal) x gain k1 k2 angle =
      ofComplex (gain * (phase angle.halfTurns *
        ⟨coefficient n orthogonal k1 * x k1, coefficient n orthogonal k2 * x k2⟩)) := by
  -- the two coefficients are equal, so one gain stands for both
  obtain ⟨g, hg, hvalue⟩ := foldGain_eq hgain
  have hequal := coefficient_eq_coefficient orthogonal hk2 hk1 hpos2 hpos1
  have hproduct : (⟨coefficient n orthogonal k1 * x k1, coefficient n orthogonal k1 * x k2⟩ : ℂ) =
      (coefficient n orthogonal k1 : ℝ) * ⟨x k1, x k2⟩ := by
    apply Complex.ext <;> simp
  rw [rotatedLoad, hequal, hg]
  change Rotation.turned angle g ⟨times 1.0 (x k1), times 1.0 (x k2)⟩ = _
  rw [times_one, times_one, hproduct]
  change Rotation.turned angle g (ofComplex ⟨x k1, x k2⟩) = _
  rw [Rotation.turned_ofComplex, Rotation.factor, hvalue]
  push_cast
  congr 1
  ring

section Folding

variable {m : ℕ} (hm : 0 < m) (hlt : 4 * m < 2 ^ 62) (orthogonal : Bool) (x : ℕ → ℝ) {k : ℕ}

include hm

lemma firstFold_eq : firstFold m (coefficient (2 * m) orthogonal) x =
    ofComplex (folded m (fun k => coefficient (2 * m) orthogonal k * x k) 0) := by
  have heven : 2 * m % 2 = 0 := Nat.mul_mod_right 2 m
  have hfirst := isPlain_coefficient orthogonal heven (show 0 < 2 * m by omega)
  have hmiddle : IsPlain (Scalar.invSqrtTwo * coefficient (2 * m) orthogonal m) :=
    (isPlain_coefficient orthogonal heven (by omega)).mul
      (one_div_nonneg.2 (Real.sqrt_nonneg 2)) invSqrtTwo_le
  rw [firstFold]
  change (⟨times _ _ + times (Scalar.invSqrtTwo * coefficient (2 * m) orthogonal m : ℝ) _,
    times _ _ - times (Scalar.invSqrtTwo * coefficient (2 * m) orthogonal m : ℝ) _⟩ :
      ComplexPair ℝ) = _
  rw [hfirst.times_eq, hmiddle.times_eq, mul_assoc]
  rfl

include hlt

/-- The pair of values folded at `k` are those of the sums at `k` and as far from the end. -/
lemma foldedPair_eq (hpos : 0 < k) (hk : k < m) :
    foldedPair (2 * m) (coefficient (2 * m) orthogonal) x k =
      (ofComplex (folded m (fun k => coefficient (2 * m) orthogonal k * x k) k),
        ofComplex (folded m (fun k => coefficient (2 * m) orthogonal k * x k) (m - k))) := by
  have hhalf : 2 * m / 2 = m := Nat.mul_div_cancel_left m Nat.two_pos
  have heven : 2 * m % 2 = 0 := Nat.mul_mod_right 2 m
  have hgain {j : ℕ} (hj : j < 2 * m) : IsPlain (0.5 * coefficient (2 * m) orthogonal j) :=
    (isPlain_coefficient orthogonal heven hj).mul (by norm_num) (by norm_num)
  have hfar : m + k = 2 * m - (m - k) := by omega
  rw [foldedPair, hhalf, hfar]
  change pairFold (splitAngle (2 * m) k)
    (rotatedLoad (coefficient (2 * m) orthogonal) x (0.5 : ℝ) k (2 * m - k) (binAngle (2 * m) k))
    (rotatedLoad (coefficient (2 * m) orthogonal) x (0.5 : ℝ) (m - k) (2 * m - (m - k))
      (mirrorAngle (2 * m) k)) = _
  rw [rotatedLoad_eq orthogonal (by omega) (by omega) (by omega) (by omega) (hgain (by omega)),
    rotatedLoad_eq orthogonal (by omega) (by omega) (by omega) (by omega) (hgain (by omega)),
    phase_binAngle (by omega) (by omega) (by omega),
    phase_mirrorAngle (by omega) (by omega) (by omega), hhalf, pairFold_ofComplex,
    phase_splitAngle (by omega) (by omega) (by omega), folded_sub hpos hk, folded, if_neg hpos.ne']
  rfl

lemma foldedValues_eq (hk : k < m) :
    foldedValues (2 * m) (coefficient (2 * m) orthogonal) x k =
      ofComplex (folded m (fun k => coefficient (2 * m) orthogonal k * x k) k) := by
  have hhalf : 2 * m / 2 = m := Nat.mul_div_cancel_left m Nat.two_pos
  have heven : 2 * m % 2 = 0 := Nat.mul_mod_right 2 m
  unfold foldedValues
  rw [hhalf]
  split
  · rename_i hzero
    rw [hzero, firstFold_eq hm]
  split
  · -- the value in the middle is loaded without a gain
    rename_i hpos hmiddle
    have hgain : IsPlain ((1.0 : ℝ) * coefficient (2 * m) orthogonal k) := by
      norm_num
      exact isPlain_coefficient orthogonal heven (by omega)
    rw [folded_middle hm hmiddle]
    change rotatedLoad (coefficient (2 * m) orthogonal) x (1.0 : ℝ) k (2 * m - k)
      (binAngle (2 * m) k) = _
    rw [rotatedLoad_eq orthogonal (by omega) (by omega) (by omega) (by omega) hgain,
      phase_binAngle (by omega) (by omega) (by omega)]
    norm_num [rotatedPair]
  split
  · rw [foldedPair_eq hm hlt orthogonal x (by omega) hk]
  · -- the second half of the pair that was folded at the other index
    have hback : m - (m - k) = k := by omega
    rw [foldedPair_eq hm hlt orthogonal x (by omega) (by omega), hback]

end Folding

variable {m : ℕ} (hm : m ∈ Nat.smoothNumbers 6) (hlt : 4 * m < 2 ^ 62) (orthogonal : Bool)

include hm hlt

/-- Over exact scalars, the results of a forward transform are cosine sums, each times its
coefficient. -/
theorem forward_eq (x : ℕ → ℝ) {k : ℕ} (hk : k < 2 * m) :
    forward (2 * m) (coefficient (2 * m) orthogonal) x k =
      coefficient (2 * m) orthogonal k * cosineSum (2 * m) x k := by
  have hpos : 0 < m := by omega
  have heven : 2 * m % 2 = 0 := Nat.mul_mod_right 2 m
  have hhalf : 2 * m / 2 = m := Nat.mul_div_cancel_left m Nat.two_pos
  have hplain := isPlain_coefficient orthogonal heven hk
  have hbins (i : ℕ) (hi : i < m) :
      transformed unrolledTurn m (packed (2 * m) x) i =
        ofComplex (bin phase m (pairUp fun j => x (evenOdd (2 * m) j)) i) :=
    Fourier.transformed_ofComplex Fourier.isExactTurn_unrolledTurn hm (by omega)
      (pairUp fun j => x (evenOdd (2 * m) j)) hi
  -- a result up to the middle is the real part of its bin; one behind it is the imaginary part of
  -- the bin as far from the end, negated
  unfold forward resultOfBins forwardBins
  rw [hhalf]
  split
  · rename_i hle
    rw [rotatedBins_eq hpos hlt _ hbins hle, hplain.timesAsIs_eq, ofComplex,
      re_rotatedBin heven]
  · rw [rotatedBins_eq hpos hlt _ hbins (by omega), hplain.timesNegated_eq, ofComplex,
      im_rotatedBin heven _ hk.le]

/-- Over exact scalars, the results of an inverse transform are sums of cosines, of which the
samples times their coefficients are the amplitudes. -/
theorem inverse_eq (x : ℕ → ℝ) {i : ℕ} (hi : i < 2 * m) :
    inverse (2 * m) (coefficient (2 * m) orthogonal) x i =
      inverseCosineSum (2 * m) (fun k => coefficient (2 * m) orthogonal k * x k) i := by
  have hpos : 0 < m := by omega
  have heven : 2 * m % 2 = 0 := Nat.mul_mod_right 2 m
  have hhalf : 2 * m / 2 = m := Nat.mul_div_cancel_left m Nat.two_pos
  have hplace := packedPlace_lt hi
  have hsample := evenOdd_packedPlace heven hi
  set a : ℕ → ℝ := fun k => coefficient (2 * m) orthogonal k * x k with ha
  set z := foldedValues (2 * m) (coefficient (2 * m) orthogonal) x with hz
  have hfolded (j : ℕ) (hj : j < m) : (⟨(z j).re, (z j).im⟩ : ℂ) = folded m a j := by
    rw [hz, foldedValues_eq hpos hlt orthogonal x hj]
    rfl
  have hpairs (p : ℕ) (hp : p < m) : transformed unrolledTurn m z p =
      ofComplex (pairUp (fun j => inverseCosineSum (2 * m) a (evenOdd (2 * m) j)) p) := by
    rw [← bin_folded hp, ← bin_congr hfolded]
    exact Fourier.transformed_ofComplex Fourier.isExactTurn_unrolledTurn hm (by omega)
      (fun j => ⟨(z j).re, (z j).im⟩) hp
  -- a sample is the part of its pair that its place says
  unfold inverse resultOfPairs
  rw [hhalf, hpairs _ (by omega)]
  split
  · have hindex : 2 * (packedPlace (2 * m) i / 2) = packedPlace (2 * m) i := by omega
    simp only [ofComplex, pairUp, hindex, hsample]
  · have hindex : 2 * (packedPlace (2 * m) i / 2) + 1 = packedPlace (2 * m) i := by omega
    simp only [ofComplex, pairUp, hindex, hsample]

end MixedRadix.Cosine
