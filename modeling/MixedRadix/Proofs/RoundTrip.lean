import Mathlib.Algebra.BigOperators.Field
import MixedRadix.Proofs.Safety

/-!
# Round trips

Sampled cosines are orthogonal, so over exact scalars a forward and an inverse cosine transform of
one size undo each other: exactly if the coefficients are the orthogonal ones, and up to a scale and
a constant without coefficients. By the same sums, kernels of cosine transforms pass their
self-check.
-/

namespace MixedRadix

open Real

/-! ### Orthogonality -/

namespace Cosine

/-- A row of cosines at equal angles, from none up to just short of `m` half turns. -/
lemma two_mul_sin_mul_sum_cos {n : ℕ} (hn : n ≠ 0) (m : ℤ) :
    2 * sin (m * π / (2 * n)) * ∑ k ∈ Finset.range n, cos (k * (m * π / n)) =
      (1 - (-1) ^ m) * sin (m * π / (2 * n)) := by
  have hcast : (n : ℝ) ≠ 0 := by exact_mod_cast hn
  set θ : ℝ := m * π / (2 * n) with hθ
  have hdouble : m * π / n = 2 * θ := by
    rw [hθ]
    field_simp
  -- each cosine is the difference of two sines, and the sum telescopes
  have hsum (count : ℕ) : 2 * sin θ * ∑ k ∈ Finset.range count, cos (k * (2 * θ)) =
      sin ((2 * count - 1) * θ) + sin θ := by
    induction count with
    | zero => simp
    | succ count ih =>
      have hstep : 2 * sin θ * cos (count * (2 * θ)) =
          sin ((2 * count + 1) * θ) - sin ((2 * count - 1) * θ) := by
        have hplus : (2 * count + 1) * θ = count * (2 * θ) + θ := by ring
        have hminus : (2 * count - 1) * θ = count * (2 * θ) - θ := by ring
        rw [hplus, hminus, sin_add, sin_sub]
        ring
      have hnext : (2 * ((count + 1 : ℕ) : ℝ) - 1) * θ = (2 * count + 1) * θ := by
        push_cast
        ring
      rw [Finset.sum_range_succ, mul_add, ih, hstep, hnext]
      ring
  have hend : (2 * n - 1) * θ = m * π - θ := by
    rw [hθ]
    field_simp
  rw [hdouble, hsum, hend, sin_sub, sin_int_mul_pi, cos_int_mul_pi]
  ring

lemma sum_cos_of_not_dvd {n : ℕ} (hn : n ≠ 0) {m : ℤ} (hm : ¬2 * (n : ℤ) ∣ m) :
    ∑ k ∈ Finset.range n, cos (k * (m * π / n)) = (1 - (-1) ^ m) / 2 := by
  have hcast : (n : ℝ) ≠ 0 := by exact_mod_cast hn
  have hsin : sin (m * π / (2 * n)) ≠ 0 := by
    refine sin_ne_zero_iff.2 fun t ht => hm ⟨t, ?_⟩
    have hreal : (m : ℝ) = 2 * n * t := by
      field_simp at ht
      linarith
    exact_mod_cast hreal
  have hsum := two_mul_sin_mul_sum_cos hn m
  have hcancel : 2 * ∑ k ∈ Finset.range n, cos (k * (m * π / n)) = 1 - (-1) ^ m :=
    mul_left_cancel₀ hsin (by linear_combination hsum)
  linarith

/-- Sampled cosines are orthogonal, but for the constant one. -/
lemma sum_cos_mul_cos {n i j : ℕ} (hi : i < n) (hj : j < n) :
    ∑ k ∈ Finset.range n,
        cos ((2 * i + 1) * k * π / (2 * n)) * cos ((2 * j + 1) * k * π / (2 * n)) =
      (if i = j then (n : ℝ) / 2 else 0) + 1 / 2 := by
  have hn : n ≠ 0 := by omega
  have hcast : (n : ℝ) ≠ 0 := by exact_mod_cast hn
  have hterm (k : ℕ) : cos ((2 * i + 1) * k * π / (2 * n)) * cos ((2 * j + 1) * k * π / (2 * n)) =
      (cos (k * (((i - j : ℤ) : ℝ) * π / n)) + cos (k * (((i + j + 1 : ℤ) : ℝ) * π / n))) / 2 := by
    have hsub : k * (((i - j : ℤ) : ℝ) * π / n) =
        (2 * i + 1) * k * π / (2 * n) - (2 * j + 1) * k * π / (2 * n) := by
      push_cast
      field_simp
      ring
    have hadd : k * (((i + j + 1 : ℤ) : ℝ) * π / n) =
        (2 * i + 1) * k * π / (2 * n) + (2 * j + 1) * k * π / (2 * n) := by
      push_cast
      field_simp
      ring
    rw [hsub, hadd, ← two_mul_cos_mul_cos]
    ring
  have hfar : ¬2 * (n : ℤ) ∣ i + j + 1 := fun h => by
    have := Int.le_of_dvd (by omega) h
    omega
  rw [Finset.sum_congr rfl fun k _ => hterm k, ← Finset.sum_div, Finset.sum_add_distrib,
    sum_cos_of_not_dvd hn hfar]
  rcases eq_or_ne i j with rfl | hne
  · have hodd : (-1 : ℝ) ^ (i + i + 1 : ℤ) = -1 := Odd.neg_one_zpow ⟨i, by ring⟩
    rw [if_pos rfl, hodd]
    simp
    ring
  · have hnear : ¬2 * (n : ℤ) ∣ i - j := fun h => by
      have := Int.eq_zero_of_abs_lt_dvd h (abs_lt.2 ⟨by omega, by omega⟩)
      omega
    -- the two angles are of different parity
    have hparity : (-1 : ℝ) ^ (i + j + 1 : ℤ) = -(-1) ^ (i - j : ℤ) := by
      have hsplit : (i + j + 1 : ℤ) = (i - j) + (2 * j + 1) := by ring
      have hodd : (-1 : ℝ) ^ (2 * j + 1 : ℤ) = -1 := Odd.neg_one_zpow ⟨j, rfl⟩
      rw [hsplit, zpow_add₀ (by norm_num), hodd]
      ring
    rw [if_neg hne, sum_cos_of_not_dvd hn hnear, hparity]
    ring

/-- The inverse sum of cosine sums gives the samples back, up to a scale and a constant. -/
lemma inverseCosineSum_cosineSum {n i : ℕ} (hi : i < n) (x : ℕ → ℝ) :
    inverseCosineSum n (cosineSum n x) i = n / 2 * x i + cosineSum n x 0 / 2 := by
  have hzero : cosineSum n x 0 = ∑ j ∈ Finset.range n, x j := by simp [cosineSum]
  calc inverseCosineSum n (cosineSum n x) i
      = ∑ j ∈ Finset.range n, x j * ∑ k ∈ Finset.range n,
          cos ((2 * i + 1) * k * π / (2 * n)) * cos ((2 * j + 1) * k * π / (2 * n)) := by
        simp only [inverseCosineSum, cosineSum, Finset.sum_mul, Finset.mul_sum]
        rw [Finset.sum_comm]
        refine Finset.sum_congr rfl fun j _ => Finset.sum_congr rfl fun k _ => ?_
        ring
    _ = ∑ j ∈ Finset.range n, ((if i = j then n / 2 * x j else 0) + x j / 2) := by
        refine Finset.sum_congr rfl fun j hj => ?_
        rw [sum_cos_mul_cos hi (Finset.mem_range.1 hj)]
        split <;> ring
    _ = n / 2 * x i + cosineSum n x 0 / 2 := by
        rw [Finset.sum_add_distrib, Finset.sum_ite_eq, if_pos (Finset.mem_range.2 hi),
          ← Finset.sum_div, hzero]

end Cosine

/-! ### Direct sums -/

lemma mapM_eq_ok {ε α β : Type} {f : α → Except ε β} {g : α → β} {xs : List α}
    (h : ∀ x ∈ xs, f x = .ok (g x)) : xs.mapM f = .ok (xs.map g) := by
  induction xs with
  | nil => rfl
  | cons x xs ih =>
    rw [List.mapM_cons, h x (by simp), ih fun y hy => h y (by simp [hy])]
    rfl

namespace DirectSum

lemma cosine_eq (n i k : ℕ) : (cosine n i k : ℝ) = cos ((2 * i + 1) * k * π / (2 * n)) := by
  change cos (π * ((2 * i + 1) * k : ℕ) / (2 * n : ℕ)) = _
  push_cast
  ring_nf

lemma sum_map_range (f : ℕ → ℝ) (n : ℕ) :
    Scalar.sum ((List.range n).map f) = ∑ i ∈ Finset.range n, f i := by
  have hzero : -(0.0 : ℝ) = 0 := by norm_num
  rw [Scalar.sum, hzero]
  induction n with
  | zero => rfl
  | succ n ih =>
    rw [List.range_succ, List.map_append, List.foldl_append, ih, Finset.sum_range_succ]
    rfl

lemma zipIdx_toList (x : Array ℝ) :
    x.toList.zipIdx = (List.range x.size).map fun i => (x.getD i Scalar.nan, i) := by
  refine List.ext_getElem (by simp) fun i hi _ => ?_
  have hi : i < x.size := by simpa using hi
  simp [hi]

variable {x weights : Array ℝ} {weight : ℕ → ℝ} {n : ℕ} (hsize : x.size = n)
  (hweights : ∀ k < n, weights[k]? = some (weight k))

include hsize hweights

lemma cosineForward_eq : cosineForward x weights = .ok ((List.range n).map fun k =>
    weight k * cosineSum n (fun i => x.getD i Scalar.nan) k) := by
  subst hsize
  refine mapM_eq_ok fun k hk => ?_
  rw [getOrFault_eq_ok.2 (hweights k (List.mem_range.1 hk)), zipIdx_toList, List.map_map]
  refine congrArg (fun sum => Except.ok (weight k * sum)) ((sum_map_range _ _).trans ?_)
  exact Finset.sum_congr rfl fun i _ => congrArg _ (cosine_eq _ _ _)

lemma cosineInverse_eq : cosineInverse x weights = .ok ((List.range n).map fun i =>
    inverseCosineSum n (fun k => weight k * x.getD k Scalar.nan) i) := by
  subst hsize
  refine mapM_eq_ok fun i _ => ?_
  have hterms : (x.toList.zipIdx.mapM fun p => do
      return (← getOrFault weights p.2) * p.1 * cosine x.size i p.2) =
      .ok (x.toList.zipIdx.map fun p => weight p.2 * p.1 * cosine x.size i p.2) := by
    refine mapM_eq_ok fun p hp => ?_
    have hlt : p.2 < x.size := by
      simpa using (List.getElem?_eq_some_iff.1 (List.mem_zipIdx_iff_getElem?.1 hp)).1
    rw [getOrFault_eq_ok.2 (hweights p.2 hlt)]
    rfl
  refine (congrArg (fun r => r >>= fun terms => pure (Scalar.sum terms)) hterms).trans ?_
  rw [zipIdx_toList, List.map_map]
  refine congrArg Except.ok ((sum_map_range _ _).trans ?_)
  exact Finset.sum_congr rfl fun k _ => congrArg _ (cosine_eq _ _ _)

end DirectSum

/-- A cosine kernel whose results are the direct sums has no error. -/
lemma Kernel.cosineError_eq {k : Kernel ℝ} {out : Array ℝ}
    {direct : Array ℝ → Array ℝ → Except Fault (List ℝ)}
    (hrun : k.runReal (DirectSum.testSignal k.size 0.3) = .ok out)
    (hdirect : direct (DirectSum.testSignal k.size 0.3) k.coefficients = .ok out.toList) :
    k.cosineError direct = .ok (0, magnitude out.toList) := by
  simp only [cosineError, hrun]
  change (direct (DirectSum.testSignal k.size 0.3) k.coefficients >>= fun want =>
    pure (maxDistance out.toList want, magnitude want)) = _
  rw [hdirect]
  exact congrArg (fun d => Except.ok (d, magnitude out.toList)) (maxDistance_self _)

/-! ### Kernels -/

lemma toList_eq_map_range {out : Array ℝ} {n : ℕ} {f : ℕ → ℝ} (hsize : out.size = n)
    (h : ∀ i < n, out[i]? = some (f i)) : out.toList = (List.range n).map f := by
  refine List.ext_getElem? fun i => ?_
  rcases lt_or_ge i n with hi | hi
  · simp [h i hi, hi]
  · simp [hsize, hi]

namespace Config

/-- The results of a forward transform: cosine sums, each times its coefficient. -/
noncomputable def forwardSum (c : Config) (x : ℕ → ℝ) (k : ℕ) : ℝ :=
  Cosine.coefficient c.size c.orthogonal k * cosineSum c.size x k

/-- The results of an inverse transform: inverse cosine sums of the scaled samples. -/
noncomputable def inverseSum (c : Config) (x : ℕ → ℝ) (i : ℕ) : ℝ :=
  inverseCosineSum c.size (fun k => Cosine.coefficient c.size c.orthogonal k * x k) i

variable {c : Config} {order : Option Permutation} {b : Builder ℝ} {k : Kernel ℝ}
  {samples : Array ℝ}

lemma transforms_forwardSum (htransform : c.transform = .cosineForward)
    (hsize : c.transform.checkSize c.size = .ok ())
    (hrun : (c.emit : Build ℝ _).run.run { annotate := c.annotate } = (.ok order, b)) :
    Cosine.Transforms c.size c.forwardSum b := by
  obtain ⟨heven, hsmooth, hlt, hemit⟩ := emitForward_of_emit htransform hsize hrun
  obtain ⟨b', hrun', htransforms⟩ := Cosine.exists_emitForward (R := ℝ) heven hsmooth hlt
    c.orthogonal c.annotate
  obtain rfl : b' = b := congrArg Prod.snd (hrun'.symm.trans hemit)
  have htwo := Nat.two_mul_div_two_of_even (Nat.even_iff.2 heven)
  refine htransforms.congr fun x k hk => ?_
  have heq := Cosine.forward_eq hsmooth (by omega) c.orthogonal x (k := k) (by omega)
  rwa [htwo] at heq

lemma transforms_inverseSum (htransform : c.transform = .cosineInverse)
    (hsize : c.transform.checkSize c.size = .ok ())
    (hrun : (c.emit : Build ℝ _).run.run { annotate := c.annotate } = (.ok order, b)) :
    Cosine.Transforms c.size c.inverseSum b := by
  obtain ⟨heven, hsmooth, hlt, hemit⟩ := emitInverse_of_emit htransform hsize hrun
  obtain ⟨b', hrun', htransforms⟩ := Cosine.exists_emitInverse (R := ℝ) heven hsmooth hlt
    c.orthogonal c.annotate
  obtain rfl : b' = b := congrArg Prod.snd (hrun'.symm.trans hemit)
  have htwo := Nat.two_mul_div_two_of_even (Nat.even_iff.2 heven)
  refine htransforms.congr fun x i hi => ?_
  have heq := Cosine.inverse_eq hsmooth (by omega) c.orthogonal x (i := i) (by omega)
  rwa [htwo] at heq

/-- The error of a kernel whose results are direct sums. -/
lemma measuredError_eq {k : Kernel ℝ} {n : ℕ} {f : ℕ → ℝ}
    {direct : Array ℝ → Array ℝ → Except Fault (List ℝ)}
    (hmeasured : k.measuredError = k.cosineError direct)
    (hrun : ∃ out, k.runReal (DirectSum.testSignal k.size 0.3) = .ok out ∧ out.size = n ∧
      ∀ i < n, out[i]? = some (f i))
    (hdirect : direct (DirectSum.testSignal k.size 0.3) k.coefficients =
      .ok ((List.range n).map f)) : ∃ xs, k.measuredError = .ok (0, Kernel.magnitude xs) := by
  obtain ⟨out, hout, hsize, hvalues⟩ := hrun
  rw [← toList_eq_map_range hsize hvalues] at hdirect
  exact ⟨_, hmeasured.trans (Kernel.cosineError_eq hout hdirect)⟩

lemma size_testSignal (n : ℕ) (phase : ℝ) : (DirectSum.testSignal n phase).size = n := by
  simp [DirectSum.testSignal]

/-- Over exact scalars a kernel of a cosine transform passes its self-check. -/
lemma selfCheck_of_emit (hcosine : c.transform.isCosine = true)
    (hsize : c.transform.checkSize c.size = .ok ())
    (hrun : (c.emit : Build ℝ _).run.run { annotate := c.annotate } = (.ok order, b)) :
    (c.kernel order b.eliminateDeadCode.2).selfCheck = .ok 0 := by
  set k := c.kernel order b.eliminateDeadCode.2 with hk
  have hsignal : (DirectSum.testSignal c.size (0.3 : ℝ)).size = c.size := size_testSignal _ _
  have hweights (i : ℕ) (hi : i < c.size) : (Cosine.coefficients c.size c.orthogonal)[i]? =
      some (Cosine.coefficient c.size c.orthogonal i : ℝ) :=
    Cosine.getElem?_coefficients c.orthogonal hi
  have hcoefficients : k.coefficients = Cosine.coefficients c.size c.orthogonal := if_pos hcosine
  suffices h : ∃ xs, k.measuredError = .ok (0, Kernel.magnitude xs) by
    obtain ⟨xs, hxs⟩ := h
    exact Kernel.selfCheck_eq_ok hxs
  cases htransform : c.transform with
  | cosineForward =>
    have hmeasured : k.measuredError = k.cosineError DirectSum.cosineForward := by
      simp only [Kernel.measuredError, hk, kernel, htransform]
    refine measuredError_eq hmeasured
      (runReal_of_transforms order (transforms_forwardSum htransform hsize hrun) hsignal) ?_
    rw [hcoefficients]
    exact DirectSum.cosineForward_eq hsignal hweights
  | cosineInverse =>
    have hmeasured : k.measuredError = k.cosineError DirectSum.cosineInverse := by
      simp only [Kernel.measuredError, hk, kernel, htransform]
    refine measuredError_eq hmeasured
      (runReal_of_transforms order (transforms_inverseSum htransform hsize hrun) hsignal) ?_
    rw [hcoefficients]
    exact DirectSum.cosineInverse_eq hsignal hweights
  | fourier => simp [htransform, Transform.isCosine] at hcosine

lemma exists_compile_cosine (hcosine : c.transform.isCosine = true) (hvalid : c.validate = .ok ())
    (hsize : c.IsSplittable) (hlt : c.size < 2 ^ 61) : ∃ k : Kernel ℝ, c.compile = .ok k := by
  obtain ⟨order, b, hrun, hclosed⟩ := exists_emit (R := ℝ) hsize hlt
  rcases checkSize_cases c with ⟨-, hcheck⟩ | ⟨hrough, -⟩
  · exact ⟨_, compile_eq_ok (compileUnchecked_eq_ok hvalid hcheck hrun hclosed.checkLifetimes)
      (selfCheck_of_emit hcosine hcheck hrun)⟩
  · exact absurd hsize hrough

/-- What a compiled forward transform gives. -/
lemma runReal_forward (htransform : c.transform = .cosineForward) (h : c.compile = .ok k)
    (hsize : samples.size = c.size) : ∃ out, k.runReal samples = .ok out ∧ out.size = c.size ∧
      ∀ i < c.size, out[i]? = some (c.forwardSum (fun j => samples.getD j Scalar.nan) i) := by
  obtain ⟨hcheck, order, b, hrun, -, rfl⟩ := exists_of_compile h
  exact runReal_of_transforms order (transforms_forwardSum htransform hcheck hrun) hsize

/-- What a compiled inverse transform gives. -/
lemma runReal_inverse (htransform : c.transform = .cosineInverse) (h : c.compile = .ok k)
    (hsize : samples.size = c.size) : ∃ out, k.runReal samples = .ok out ∧ out.size = c.size ∧
      ∀ i < c.size, out[i]? = some (c.inverseSum (fun j => samples.getD j Scalar.nan) i) := by
  obtain ⟨hcheck, order, b, hrun, -, rfl⟩ := exists_of_compile h
  exact runReal_of_transforms order (transforms_inverseSum htransform hcheck hrun) hsize

lemma inverseSum_congr {x y : ℕ → ℝ} (h : ∀ k < c.size, x k = y k) (i : ℕ) :
    c.inverseSum x i = c.inverseSum y i := by
  unfold inverseSum inverseCosineSum
  refine Finset.sum_congr rfl fun k hk => ?_
  simp only [h k (Finset.mem_range.1 hk)]

/-! ### Round trip -/

/-- Orthogonal coefficients make up for the scale and for the constant. -/
lemma inverseSum_forwardSum_of_orthogonal {f g : Config} (hsize : g.size = f.size)
    (hf : f.orthogonal = true) (hg : g.orthogonal = true) (x : ℕ → ℝ) {i : ℕ} (hi : i < f.size) :
    g.inverseSum (f.forwardSum x) i = x i := by
  have hn : (f.size : ℝ) ≠ 0 := by exact_mod_cast (by omega : f.size ≠ 0)
  have hsq (k : ℕ) (hk : k < f.size) : (Cosine.coefficient f.size true k : ℝ) *
      (Cosine.coefficient f.size true k * cosineSum f.size x k) =
        2 / f.size * cosineSum f.size x k - if k = 0 then cosineSum f.size x k / f.size else 0 := by
    rw [Cosine.coefficient_eq true hk, if_pos rfl, ← mul_assoc]
    split
    · rw [Real.mul_self_sqrt (by positivity)]
      ring
    · rw [Real.mul_self_sqrt (by positivity), sub_zero]
  calc g.inverseSum (f.forwardSum x) i
      = ∑ k ∈ Finset.range f.size, (2 / f.size * (cosineSum f.size x k *
          cos ((2 * i + 1) * k * π / (2 * f.size))) -
            if k = 0 then cosineSum f.size x 0 / f.size else 0) := by
        rw [inverseSum, hg, hsize]
        refine Finset.sum_congr rfl fun k hk => ?_
        simp only [forwardSum, hf]
        rw [hsq k (Finset.mem_range.1 hk)]
        rcases eq_or_ne k 0 with rfl | hk
        · simp
        · simp [hk, mul_assoc]
    _ = 2 / f.size * inverseCosineSum f.size (cosineSum f.size x) i -
          cosineSum f.size x 0 / f.size := by
        rw [Finset.sum_sub_distrib, ← Finset.mul_sum, Finset.sum_ite_eq',
          if_pos (Finset.mem_range.2 (by omega)), inverseCosineSum]
    _ = x i := by
        rw [Cosine.inverseCosineSum_cosineSum hi]
        field_simp
        ring

/-- Without coefficients the scale and the constant are left. -/
lemma inverseSum_forwardSum_of_plain {f g : Config} (hsize : g.size = f.size)
    (hf : f.orthogonal = false) (hg : g.orthogonal = false) (x : ℕ → ℝ) {i : ℕ} (hi : i < f.size) :
    x i = 2 / f.size * (g.inverseSum (f.forwardSum x) i - f.forwardSum x 0 / 2) := by
  have hn : (f.size : ℝ) ≠ 0 := by exact_mod_cast (by omega : f.size ≠ 0)
  have hplain (y : ℕ → ℝ) (k : ℕ) (hk : k < f.size) :
      (Cosine.coefficient f.size false k : ℝ) * y k = y k := by
    rw [Cosine.coefficient_eq false hk, if_neg (by simp), one_mul]
  have hforward (k : ℕ) (hk : k < f.size) : f.forwardSum x k = cosineSum f.size x k := by
    rw [forwardSum, hf, hplain _ k hk]
  have hinverse : g.inverseSum (f.forwardSum x) i =
      inverseCosineSum f.size (cosineSum f.size x) i := by
    rw [inverseSum, hg, hsize]
    refine Finset.sum_congr rfl fun k hk => ?_
    simp only [hplain _ k (Finset.mem_range.1 hk), hforward k (Finset.mem_range.1 hk)]
  rw [hinverse, hforward 0 (by omega), Cosine.inverseCosineSum_cosineSum hi]
  field_simp
  ring

/-- A forward and an inverse cosine transform of one size undo each other: exactly if they are
orthogonal, and otherwise up to a scale and a constant, which is half the first result of the
forward transform. Both kernels exist as long as their angles are words; the names of temporaries
have no bound (`TempPool`). -/
theorem runReal_roundTrip {f g : Config} (hf : f.transform = .cosineForward)
    (hg : g.transform = .cosineInverse) (hfvalid : f.validate = .ok ())
    (hgvalid : g.validate = .ok ()) (hsize : g.size = f.size)
    (horthogonal : g.orthogonal = f.orthogonal) (heven : f.size % 2 = 0)
    (hsmooth : f.size / 2 ∈ Nat.smoothNumbers 6) :
    ((∃ forward inverse : Kernel ℝ, f.compile = .ok forward ∧ g.compile = .ok inverse) ↔
      f.size < 2 ^ 61) ∧
    ∀ forward inverse : Kernel ℝ, f.compile = .ok forward → g.compile = .ok inverse →
      ∀ x : Array ℝ, x.size = f.size → ∃ X z : Array ℝ, forward.runReal x = .ok X ∧
        inverse.runReal X = .ok z ∧ X.size = f.size ∧ z.size = f.size ∧
        (f.orthogonal = true → z = x) ∧
        (f.orthogonal = false → ∀ i < f.size,
          x.getD i 0 = 2 / f.size * (z.getD i 0 - X.getD 0 0 / 2)) := by
  have hfsplit : f.IsSplittable := by
    rw [IsSplittable, hf]
    exact ⟨heven, hsmooth⟩
  have hgsplit : g.IsSplittable := by
    rw [IsSplittable, hg, hsize]
    exact ⟨heven, hsmooth⟩
  refine ⟨⟨?_, fun hlt => ?_⟩, ?_⟩
  · rintro ⟨forward, -, hforward, -⟩
    obtain ⟨hcheck, order, b, hrun, -⟩ := exists_of_compile hforward
    obtain ⟨-, -, hlt, -⟩ := emitForward_of_emit hf hcheck hrun
    exact hlt
  · obtain ⟨forward, hforward⟩ :=
      exists_compile_cosine (congrArg Transform.isCosine hf) hfvalid hfsplit hlt
    obtain ⟨inverse, hinverse⟩ :=
      exists_compile_cosine (congrArg Transform.isCosine hg) hgvalid hgsplit (hsize ▸ hlt)
    exact ⟨forward, inverse, hforward, hinverse⟩
  · intro forward inverse hforward hinverse x hx
    obtain ⟨X, hrunX, hsizeX, hX⟩ := runReal_forward hf hforward hx
    obtain ⟨z, hrunz, hsizez, hz⟩ := runReal_inverse hg hinverse (hsizeX.trans hsize.symm)
    rw [hsize] at hsizez hz
    have hresult (i : ℕ) (hi : i < f.size) : z[i]? =
        some (g.inverseSum (f.forwardSum fun j => x.getD j Scalar.nan) i) := by
      rw [hz i hi]
      refine congrArg some (inverseSum_congr (fun k hk => ?_) i)
      simp [hX k (hsize ▸ hk)]
    refine ⟨X, z, hrunX, hrunz, hsizeX, hsizez, fun horth => ?_, fun hplain i hi => ?_⟩
    · refine Array.ext_getElem? fun i => ?_
      rcases lt_or_ge i f.size with hi | hi
      · rw [hresult i hi, inverseSum_forwardSum_of_orthogonal hsize horth
          (horthogonal.trans horth) _ hi]
        simp [hx, hi]
      · simp [hx, hsizez, hi]
    · have htrip := inverseSum_forwardSum_of_plain hsize hplain (horthogonal.trans hplain)
        (fun j => x.getD j Scalar.nan) hi
      have hsample : x.getD i 0 = x.getD i Scalar.nan := by simp [hx, hi]
      rw [hsample, htrip]
      simp only [Array.getD_eq_getD_getElem?, hresult i hi, hX 0 (by omega), Option.getD_some]

/-- Ten samples are given back by orthogonal kernels, and by others up to a scale and a constant. -/
theorem runReal_roundTrip_ten :
    (∃ (forward inverse : Kernel ℝ) (X z : Array ℝ),
      ({ transform := .cosineForward, size := 10, orthogonal := true } : Config).compile =
        .ok forward ∧
      ({ transform := .cosineInverse, size := 10, orthogonal := true } : Config).compile =
        .ok inverse ∧
      forward.runReal #[0, 1, 2, 3, 4, 5, 6, 7, 8, 9] = .ok X ∧ inverse.runReal X = .ok z ∧
      z = #[0, 1, 2, 3, 4, 5, 6, 7, 8, 9]) ∧
    ∃ (forward inverse : Kernel ℝ) (X z : Array ℝ),
      ({ transform := .cosineForward, size := 10, orthogonal := false } : Config).compile =
        .ok forward ∧
      ({ transform := .cosineInverse, size := 10, orthogonal := false } : Config).compile =
        .ok inverse ∧
      forward.runReal #[0, 1, 2, 3, 4, 5, 6, 7, 8, 9] = .ok X ∧ inverse.runReal X = .ok z ∧
      9 = 2 / 10 * (z.getD 9 0 - X.getD 0 0 / 2) := by
  have hsmooth : 10 / 2 ∈ Nat.smoothNumbers 6 :=
    Nat.mem_smoothNumbers_of_lt (by decide) (by decide)
  constructor
  · obtain ⟨hiff, htrip⟩ := runReal_roundTrip
      (f := { transform := .cosineForward, size := 10, orthogonal := true })
      (g := { transform := .cosineInverse, size := 10, orthogonal := true }) rfl rfl rfl rfl rfl rfl
      (by norm_num) hsmooth
    obtain ⟨forward, inverse, hforward, hinverse⟩ := hiff.2 (by norm_num)
    obtain ⟨X, z, hX, hz, -, -, horthogonal, -⟩ := htrip forward inverse hforward hinverse
      #[0, 1, 2, 3, 4, 5, 6, 7, 8, 9] rfl
    exact ⟨forward, inverse, X, z, hforward, hinverse, hX, hz, horthogonal rfl⟩
  · obtain ⟨hiff, htrip⟩ := runReal_roundTrip
      (f := { transform := .cosineForward, size := 10, orthogonal := false })
      (g := { transform := .cosineInverse, size := 10, orthogonal := false }) rfl rfl rfl rfl rfl
      rfl (by norm_num) hsmooth
    obtain ⟨forward, inverse, hforward, hinverse⟩ := hiff.2 (by norm_num)
    obtain ⟨X, z, hX, hz, -, -, -, hplain⟩ := htrip forward inverse hforward hinverse
      #[0, 1, 2, 3, 4, 5, 6, 7, 8, 9] rfl
    have hlast := hplain rfl 9 (by norm_num)
    exact ⟨forward, inverse, X, z, hforward, hinverse, hX, hz, by simpa using hlast⟩

end Config

end MixedRadix
