import MixedRadix.Proofs.Cosine.Forward
import MixedRadix.Proofs.Cosine.Inverse
import MixedRadix.Proofs.Kernel

/-!
# Cosine kernels

There is code for a cosine transform of every even size whose half can be split into radices, as
long as twice the size is the denominator of an angle. Over exact scalars its results are the cosine
sums of the samples, each times its coefficient (`Cosine.emitForward_cosineSum`), and the sums of
cosines whose amplitudes are the samples times their coefficients
(`Cosine.emitInverse_inverseCosineSum`).
-/

namespace MixedRadix.Cosine

/-! ### Sizes that are too large -/

section Bound

variable {R : Type} {n : ℕ}

/-- An angle of one half turn divided by `2n` bounds the size. -/
lemma lt_of_succeeds_angle (h : Succeeds
    (Build.ofFaulty (Angle.ofRatio (-Int.ofNat 1) (2 * Int.ofNat n)) : Build R Angle)) :
    n < 2 ^ 61 := by
  obtain ⟨_, angle, _, hrun⟩ := h
  have hangle := (Build.run_ofFaulty_eq_ok.1 hrun).1
  have hlt := Angle.lt_of_ofRatio_neg_one (q := 2 * n) (by simpa using hangle)
  omega

variable [Scalar R] {coeffs : Array R}

/-- The rotation of the first bin bounds the size. -/
lemma lt_of_succeeds_emitForward (hn : 0 < n / 2) (h : Succeeds (emitForward n coeffs)) :
    n < 2 ^ 61 := by
  rw [emitForward_eq] at h
  replace h := h.of_bind.1
  -- down to the rotations, which are the last step
  iterate 13 obtain ⟨-, _, h⟩ := h.of_bind
  exact lt_of_succeeds_angle (h.of_bind.1.of_mem (y := 1) (by simp; omega)).of_bind.1

/-- The first bin that is folded together with another one bounds the size. -/
lemma lt_of_succeeds_emitInverse (h : Succeeds (emitInverse n coeffs)) : n < 2 ^ 61 := by
  by_cases hsmall : n < 6
  · omega
  rw [emitInverse_eq] at h
  replace h := h.of_bind.1
  iterate 3 obtain ⟨-, _, h⟩ := h.of_bind
  have hround := h.of_bind.1.of_mem (y := 1) (by simp; omega)
  rw [if_neg one_ne_zero, if_neg (by omega)] at hround
  iterate 4 obtain ⟨-, _, hround⟩ := hround.of_bind
  exact lt_of_succeeds_angle hround.of_bind.1

end Bound

/-! ### Code for all other sizes -/

section Existence

variable {R : Type} [Scalar R] {n : ℕ} (hn : n % 2 = 0) (hsmooth : n / 2 ∈ Nat.smoothNumbers 6)
  (hlt : n < 2 ^ 61) (orthogonal annotate : Bool)

lemma Transforms.congr {results results' : (ℕ → R) → ℕ → R} {b : Builder R}
    (h : Transforms n results b) (heq : ∀ x, ∀ k < n, results x k = results' x k) :
    Transforms n results' b := by
  refine ⟨h.closed, fun m x out hx hout hsize htemps => ?_⟩
  obtain ⟨m', out', hrun, hout', hsize', hresults⟩ := h.execute m x out hx hout hsize htemps
  exact ⟨m', out', hrun, hout', hsize', fun k hk => heq x k hk ▸ hresults k hk⟩

/-- Code that there is up to a bound, and not above it, does the same whenever it is there. -/
lemma succeeds_iff_and_transforms {e : Build R Unit} {results results' : (ℕ → R) → ℕ → R}
    {bound : ℕ} (hbound : Succeeds e → n < bound)
    (hexists : n < bound → ∃ b, e.run.run { annotate } = (.ok (), b) ∧ Transforms n results b)
    (heq : n < bound → ∀ x, ∀ k < n, results x k = results' x k) :
    ((∃ b, e.run.run { annotate } = (.ok (), b)) ↔ n < bound) ∧
      ∀ b, e.run.run { annotate } = (.ok (), b) → Transforms n results' b := by
  refine ⟨⟨fun ⟨b, hrun⟩ => hbound ⟨_, _, _, hrun⟩, fun hlt => ?_⟩, fun b hrun => ?_⟩
  · obtain ⟨b, hrun, -⟩ := hexists hlt
    exact ⟨b, hrun⟩
  · have hlt := hbound ⟨_, _, _, hrun⟩
    obtain ⟨b', hrun', hb⟩ := hexists hlt
    obtain rfl : b' = b := congrArg Prod.snd (hrun'.symm.trans hrun)
    exact hb.congr (heq hlt)

include hn hsmooth hlt

lemma exists_emitForward : ∃ b, (emitForward n (coefficients n orthogonal) : Build R Unit).run.run
    { annotate } = (.ok (), b) ∧ Transforms n (forward n (coefficient n orthogonal)) b :=
  exists_transforms (fun _ _ hx hout => emits_emitForward hn hsmooth (by omega)
    (fun _ hk => getElem?_coefficients orthogonal hk) hx hout) annotate

lemma exists_emitInverse : ∃ b, (emitInverse n (coefficients n orthogonal) : Build R Unit).run.run
    { annotate } = (.ok (), b) ∧ Transforms n (inverse n (coefficient n orthogonal)) b :=
  exists_transforms (fun _ _ hx hout => emits_emitInverse hn hsmooth (by omega)
    (fun _ hk => getElem?_coefficients orthogonal hk) hx hout) annotate

end Existence

/-! ### Exact scalars -/

/-- A machine with an impulse at place `j` for a builder's code. -/
noncomputable def impulseMachine (b : Builder ℝ) (j : ℕ) : Machine ℝ where
  temps := (({ size := 8 } : Config).kernel none b.eliminateDeadCode.2).freshTemps
  input := (Array.range 8).map fun i => if i = j then 1 else 0
  output := some (Array.replicate 8 0)
  lanes := ⟨#[], #[]⟩

lemma Transforms.execute_impulse {results : (ℕ → ℝ) → ℕ → ℝ} {b : Builder ℝ}
    (h : Transforms 8 results b) (j : ℕ) : ∃ m' out,
    (impulseMachine b j).execute b.shiftTables b.eliminateDeadCode.2.stream.toList = .ok m' ∧
      m'.output = some out ∧ ∀ k < 8, out[k]? =
        some (results (fun i => if i = j then 1 else 0) k) := by
  obtain ⟨m', out, hexecute, hout, -, hresults⟩ := h.execute (impulseMachine b j)
    (fun i => if i = j then 1 else 0) _ (fun i hi => by simp [impulseMachine, hi]) rfl (by simp)
    (Kernel.hasTemps (k := ({ size := 8 } : Config).kernel none b.eliminateDeadCode.2) rfl)
  exact ⟨m', out, hexecute, hout, hresults⟩

variable {n : ℕ}

/-- There is code of a forward transform as long as its angles are words, and what is left of it
without dead operations leaves the cosine sums of the samples, each times its coefficient. The names
of temporaries have no bound (`TempPool`), and 32-bit words run out of them at smaller sizes. -/
theorem emitForward_cosineSum (hn : n % 2 = 0) (hsmooth : n / 2 ∈ Nat.smoothNumbers 6)
    (orthogonal annotate : Bool) :
    ((∃ b, (emitForward n (coefficients n orthogonal) : Build ℝ Unit).run.run { annotate } =
      (.ok (), b)) ↔ n < 2 ^ 61) ∧
    ∀ b, (emitForward n (coefficients n orthogonal) : Build ℝ Unit).run.run { annotate } =
        (.ok (), b) →
      Transforms n (fun x k => coefficient n orthogonal k * cosineSum n x k) b := by
  have hpos : 0 < n / 2 := Nat.pos_of_ne_zero (Nat.ne_zero_of_mem_smoothNumbers hsmooth)
  have htwo := Nat.two_mul_div_two_of_even (Nat.even_iff.2 hn)
  refine succeeds_iff_and_transforms annotate (lt_of_succeeds_emitForward hpos)
    (fun hlt => exists_emitForward hn hsmooth hlt orthogonal annotate) fun hlt x k hk => ?_
  rw [← htwo] at hk ⊢
  exact forward_eq hsmooth (by omega) orthogonal x hk

/-- All cosines of a single sample. -/
theorem emitForward_cosineSum_impulse : ∃ (b : Builder ℝ) (m' : Machine ℝ) (out : Array ℝ),
    (emitForward 8 (coefficients 8 true)).run.run { annotate := false } = (.ok (), b) ∧
      (impulseMachine b 0).execute b.shiftTables b.eliminateDeadCode.2.stream.toList = .ok m' ∧
      m'.output = some out ∧
      ∀ k < 8, out[k]? = some (coefficient 8 true k * Real.cos (k * Real.pi / 16)) := by
  have hsmooth : 8 / 2 ∈ Nat.smoothNumbers 6 := Nat.mem_smoothNumbers_of_lt (by decide) (by decide)
  obtain ⟨hiff, htransforms⟩ := emitForward_cosineSum (n := 8) rfl hsmooth true false
  obtain ⟨b, hrun⟩ := hiff.2 (by norm_num)
  obtain ⟨m', out, hexecute, hout, hresults⟩ := (htransforms b hrun).execute_impulse 0
  refine ⟨b, m', out, hrun, hexecute, hout, fun k hk => ?_⟩
  rw [hresults k hk, cosineSum, Finset.sum_eq_single_of_mem 0 (by simp) (by simp +contextual)]
  norm_num

/-- There is code of an inverse transform as long as its angles are words, and what is left of it
without dead operations leaves the sums of cosines whose amplitudes are the samples times their
coefficients. The names of temporaries have no bound (`TempPool`). -/
theorem emitInverse_inverseCosineSum (hn : n % 2 = 0) (hsmooth : n / 2 ∈ Nat.smoothNumbers 6)
    (orthogonal annotate : Bool) :
    ((∃ b, (emitInverse n (coefficients n orthogonal) : Build ℝ Unit).run.run { annotate } =
      (.ok (), b)) ↔ n < 2 ^ 61) ∧
    ∀ b, (emitInverse n (coefficients n orthogonal) : Build ℝ Unit).run.run { annotate } =
        (.ok (), b) →
      Transforms n
        (fun y i => inverseCosineSum n (fun k => coefficient n orthogonal k * y k) i) b := by
  have htwo := Nat.two_mul_div_two_of_even (Nat.even_iff.2 hn)
  refine succeeds_iff_and_transforms annotate lt_of_succeeds_emitInverse
    (fun hlt => exists_emitInverse hn hsmooth hlt orthogonal annotate) fun hlt y i hi => ?_
  rw [← htwo] at hi ⊢
  exact inverse_eq hsmooth (by omega) orthogonal y hi

/-- A single cosine from its amplitude. -/
theorem emitInverse_inverseCosineSum_impulse :
    ∃ (b : Builder ℝ) (m' : Machine ℝ) (out : Array ℝ),
      (emitInverse 8 (coefficients 8 true)).run.run { annotate := false } = (.ok (), b) ∧
        (impulseMachine b 5).execute b.shiftTables b.eliminateDeadCode.2.stream.toList = .ok m' ∧
        m'.output = some out ∧
        ∀ i < (8 : ℕ), out[i]? =
          some (coefficient 8 true 5 * Real.cos ((2 * i + 1) * 5 * Real.pi / 16)) := by
  have hsmooth : 8 / 2 ∈ Nat.smoothNumbers 6 := Nat.mem_smoothNumbers_of_lt (by decide) (by decide)
  obtain ⟨hiff, htransforms⟩ := emitInverse_inverseCosineSum (n := 8) rfl hsmooth true false
  obtain ⟨b, hrun⟩ := hiff.2 (by norm_num)
  obtain ⟨m', out, hexecute, hout, hresults⟩ := (htransforms b hrun).execute_impulse 5
  refine ⟨b, m', out, hrun, hexecute, hout, fun i hi => ?_⟩
  rw [hresults i hi, inverseCosineSum,
    Finset.sum_eq_single_of_mem 5 (by simp) (by simp +contextual)]
  norm_num

end MixedRadix.Cosine
