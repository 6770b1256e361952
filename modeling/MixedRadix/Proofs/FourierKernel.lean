import MixedRadix.Proofs.Fourier.Results
import MixedRadix.Proofs.Kernel

/-!
# Fourier kernels

Both kinds of code, straight-line and made of calls, leave the spectrum of the complex slots. A
configuration of a Fourier transform therefore gives a kernel, which passes its self-check, and
whose results are the sums that define the transform (`Config.exists_compile_fourier`).
-/

namespace MixedRadix

open ComplexPair (ofComplex)

/-- The complex numbers in two arrays of parts. -/
noncomputable def Lanes.toComplex (l : Lanes ℝ) (j : ℕ) : ℂ :=
  ⟨l.re.getD j 0, l.im.getD j 0⟩

lemma Lanes.shows_toComplex {l : Lanes ℝ} {n : ℕ} (hre : l.re.size = n) (him : l.im.size = n) :
    l.Shows (n, n) fun i => ofComplex (l.toComplex i) where
  size_re := hre
  size_im := him
  re i hi := by simp [ofComplex, toComplex, hre, hi]
  im i hi := by simp [ofComplex, toComplex, him, hi]

lemma Lanes.Shows.toComplex_eq {l : Lanes ℝ} {n : ℕ} {x : ℕ → ℂ}
    (h : l.Shows (n, n) fun i => ofComplex (x i)) {i : ℕ} (hi : i < n) : l.toComplex i = x i := by
  have hre : l.re.getD i 0 = (x i).re := by
    rw [Array.getD_eq_getD_getElem?, h.re i hi]
    rfl
  have him : l.im.getD i 0 = (x i).im := by
    rw [Array.getD_eq_getD_getElem?, h.im i hi]
    rfl
  exact Complex.ext hre him

namespace Fourier

variable {n : ℕ}

/-- The complex numbers in the parts of complex values. -/
noncomputable def numbers (z : ℕ → ComplexPair ℝ) (j : ℕ) : ℂ :=
  ⟨(z j).re, (z j).im⟩

/-- The finished code of the builder leaves the spectrum of the complex slots in them. -/
abbrev Transforms (n : ℕ) (b : Builder ℝ) : Prop :=
  Performs n (fun z k => ofComplex (discreteFourier n (numbers z) k)) b

/-- With exact rotations, the results of a plan are the spectrum. -/
lemma Performs.transforms {turn : Angle → ComplexPair ℝ → ComplexPair ℝ} {b : Builder ℝ}
    (h : Performs n (transformed turn n) b) (hturn : IsExactTurn turn)
    (hn : n ∈ Nat.smoothNumbers 6) (hlt : n < 2 ^ 62) : Transforms n b :=
  h.congr fun z k hk => by
    rw [← bin_phase]
    exact transformed_ofComplex hturn hn hlt (numbers z) hk

end Fourier

/-! ### Direct sums -/

namespace DirectSum

/-- The factor of a term, reduced to one turn. -/
lemma phase_eq_mod {n : ℕ} (hn : n ≠ 0) (m : ℕ) :
    phase (-2 * m / n) = ⟨Real.cos (-(2.0) * Real.pi * (m % n : ℕ) / n),
      Real.sin (-(2.0) * Real.pi * (m % n : ℕ) / n)⟩ := by
  have hangle : -(2.0) * Real.pi * (m % n : ℕ) / n = -(2 * (m % n : ℕ) * Real.pi / n) := by
    norm_num
    ring
  rw [phase_eq_pow hn, phase_pow_eq, hangle, Real.cos_neg, Real.sin_neg]
  apply Complex.ext <;> simp [-Complex.ofReal_cos, -Complex.ofReal_sin]

lemma fourierBin_eq {n : ℕ} (hn : n ≠ 0) (x : ℕ → ℂ) (k : ℕ) :
    fourierBin n ((List.range n).map fun j => (((x j).re, (x j).im), j)) k =
      ((discreteFourier n x k).re, (discreteFourier n x k).im) := by
  have hsum (count : ℕ) :
      fourierBin n ((List.range count).map fun j => (((x j).re, (x j).im), j)) k =
        ((∑ j ∈ Finset.range count, x j * phase (-2 * (j * k : ℕ) / n)).re,
          (∑ j ∈ Finset.range count, x j * phase (-2 * (j * k : ℕ) / n)).im) := by
    induction count with
    | zero =>
      have hzero : (0.0 : ℝ) = 0 := by norm_num
      simp [fourierBin, hzero]
    | succ count ih =>
      rw [fourierBin] at ih ⊢
      rw [List.range_succ, List.map_append, List.foldl_append, ih, Finset.sum_range_succ,
        phase_eq_mod hn]
      rfl
  rw [hsum, ← bin_phase]
  rfl

lemma zipIdx_toComplex {l : Lanes ℝ} {n : ℕ} (hre : l.re.size = n) (him : l.im.size = n) :
    (l.re.toList.zip l.im.toList).zipIdx =
      (List.range n).map fun j => (((l.toComplex j).re, (l.toComplex j).im), j) := by
  refine List.ext_getElem (by simp [hre, him]) fun j hj _ => ?_
  have hj' : j < n := by simpa [hre, him] using hj
  simp [Lanes.toComplex, hre, him, hj']

lemma fourier_eq {l : Lanes ℝ} {n : ℕ} (hn : n ≠ 0) (hre : l.re.size = n) (him : l.im.size = n) :
    fourier l.re l.im =
      .ok ((List.range n).map fun k => (discreteFourier n l.toComplex k).re,
        (List.range n).map fun k => (discreteFourier n l.toComplex k).im) := by
  rw [fourier, if_neg (by omega), zipIdx_toComplex hre him, hre]
  simp [fourierBin_eq hn, List.unzip_eq_map]

end DirectSum

namespace Config

variable {c : Config}

lemma exists_emit_fourier (htransform : c.transform = .fourier)
    (hn : c.size ∈ Nat.smoothNumbers 6) (hlt : c.size < 2 ^ 62) :
    ∃ order b, (c.emit : Build ℝ _).run.run { annotate := c.annotate } = (.ok order, b) ∧
      Fourier.Transforms c.size b := by
  cases hstrategy : c.strategy with
  | unrolled =>
    obtain ⟨u, b, hrun, hb⟩ :=
      Fourier.exists_emitUnrolled (R := ℝ) (hasPlan_of_mem_smoothNumbers hn hlt) c.annotate
    refine ⟨none, b, ?_, hb.transforms Fourier.isExactTurn_unrolledTurn hn hlt⟩
    simp only [emit, htransform, hstrategy, ExceptT.run_bind, StateT.run_bind, hrun]
    rfl
  | calls =>
    obtain ⟨order, b, hrun, hb⟩ :=
      Fourier.exists_emitCalled (R := ℝ) (hasPlan_of_mem_smoothNumbers hn hlt) c.annotate
    refine ⟨some order, b, ?_, hb.transforms Fourier.isExactTurn_calledTurn hn hlt⟩
    simp only [emit, htransform, hstrategy, ExceptT.run_bind, StateT.run_bind, hrun]
    rfl

lemma exists_runComplex {R : Type} [Scalar R] (order : Option Permutation) {b : Builder R}
    {results : (ℕ → ComplexPair R) → ℕ → ComplexPair R}
    (hb : Fourier.Performs c.size results b) {values : Lanes R} {z : ℕ → ComplexPair R}
    (hvalues : values.Shows (c.size, c.size) z) :
    ∃ out, (c.kernel order b.eliminateDeadCode.2).runComplex values = .ok out ∧
      out.Shows (c.size, c.size) (results z) := by
  set k := c.kernel order b.eliminateDeadCode.2 with hk
  let m : Machine R := { temps := k.freshTemps, input := #[], output := none, lanes := values }
  obtain ⟨m', hrun, hm'⟩ := hb.execute m z
    (Machine.separate_iff.2 (Or.inr (Or.inl rfl))) (Kernel.hasTemps (k := k) rfl) hvalues
  refine ⟨m'.lanes, ?_, hm'⟩
  rw [Kernel.runComplex, if_neg (by simp [hk, kernel, hvalues.size_re]),
    if_neg (by simp [hk, kernel, hvalues.size_im])]
  change (m.execute b.shiftTables b.eliminateDeadCode.2.stream.toList >>=
    fun m => pure m.lanes) = _
  rw [hrun]
  rfl

lemma runComplex_kernel (order : Option Permutation) {b : Builder ℝ}
    (hb : Fourier.Transforms c.size b) {values : Lanes ℝ} (hre : values.re.size = c.size)
    (him : values.im.size = c.size) :
    ∃ out, (c.kernel order b.eliminateDeadCode.2).runComplex values = .ok out ∧
      out.Shows (c.size, c.size) fun k =>
        ofComplex (discreteFourier c.size values.toComplex k) := by
  obtain ⟨out, hrun, hout⟩ := exists_runComplex order hb (Lanes.shows_toComplex hre him)
  exact ⟨out, hrun, hout⟩

/-- A kernel whose results are the direct sums has no error. -/
lemma measuredError_fourier {k : Kernel ℝ} (htransform : k.transform = .fourier)
    (hsize : k.size ≠ 0)
    (hrun : ∀ values : Lanes ℝ, values.re.size = k.size → values.im.size = k.size →
      ∃ out, k.runComplex values = .ok out ∧
        out.Shows (k.size, k.size) fun i =>
          ofComplex (discreteFourier k.size values.toComplex i)) :
    ∃ xs, k.measuredError = .ok (0, Kernel.magnitude xs) := by
  set signal : Lanes ℝ := ⟨DirectSum.testSignal k.size 0.3, DirectSum.testSignal k.size 1.1⟩
  have hre : signal.re.size = k.size := by simp [signal, DirectSum.testSignal]
  have him : signal.im.size = k.size := by simp [signal, DirectSum.testSignal]
  obtain ⟨out, hout, hshows⟩ := hrun signal hre him
  have hmeasured : k.measuredError = k.fourierError := by
    simp [Kernel.measuredError, htransform]
  have hdirect : DirectSum.fourier signal.re signal.im = .ok (out.re.toList, out.im.toList) := by
    rw [DirectSum.fourier_eq hsize hre him, hshows.toList_re, hshows.toList_im]
    rfl
  refine ⟨out.re.toList ++ out.im.toList, ?_⟩
  rw [hmeasured, Kernel.fourierError]
  change (do
    let (wantRe, wantIm) ← DirectSum.fourier signal.re signal.im
    let got ← k.runComplex signal
    let maxError := Scalar.max (Kernel.maxDistance got.re.toList wantRe)
      (Kernel.maxDistance got.im.toList wantIm)
    return (maxError, Kernel.magnitude (wantRe ++ wantIm))) = _
  rw [hdirect, hout]
  change Except.ok (Scalar.max (Kernel.maxDistance out.re.toList out.re.toList)
    (Kernel.maxDistance out.im.toList out.im.toList), _) = _
  rw [Kernel.maxDistance_self, Kernel.maxDistance_self, Kernel.max_eq, max_self]

/-- A configuration of a Fourier transform has a kernel, and the results of the kernel are the sums
that define the transform, in their natural order. The size is bounded by its angles, which are made
of 64-bit words; the names of temporaries and the counts of operations have no bound (`TempPool`,
`Cost`), and 32-bit words run out of them at smaller sizes. -/
theorem exists_compile_fourier (hvalid : c.validate = .ok ()) (htransform : c.transform = .fourier)
    (hn : c.size ∈ Nat.smoothNumbers 6) (hlt : c.size < 2 ^ 62) :
    ∃ k : Kernel ℝ, c.compile = .ok k ∧
      ∀ values : Lanes ℝ, values.re.size = c.size → values.im.size = c.size →
        ∃ out, k.runComplex values = .ok out ∧ out.re.size = c.size ∧ out.im.size = c.size ∧
          ∀ i < c.size, out.toComplex i = discreteFourier c.size values.toComplex i := by
  obtain ⟨order, b, hrun, hb⟩ := exists_emit_fourier htransform hn hlt
  obtain ⟨f, hf, -⟩ := Factorization.exists_ofSize hn
  have hsize : c.transform.checkSize c.size = .ok () := by
    rw [htransform, Transform.checkSize, hf]
    rfl
  have hk := compileUnchecked_eq_ok hvalid hsize hrun hb.checkLifetimes
  obtain ⟨xs, hmeasured⟩ := measuredError_fourier (k := c.kernel order b.eliminateDeadCode.2)
    htransform (Nat.ne_zero_of_mem_smoothNumbers hn) fun values => runComplex_kernel order hb
  refine ⟨_, compile_eq_ok hk (Kernel.selfCheck_eq_ok hmeasured), fun values hre him => ?_⟩
  obtain ⟨out, hout, hshows⟩ := runComplex_kernel order hb hre him
  exact ⟨out, hout, hshows.size_re, hshows.size_im, fun i hi => hshows.toComplex_eq hi⟩

/-- All results for an impulse are one. -/
theorem exists_compile_fourier_six : ∃ k : Kernel ℝ,
    ({ size := 6, transform := .fourier, strategy := .calls } : Config).compile = .ok k ∧
      ∃ out, k.runComplex ⟨#[1, 0, 0, 0, 0, 0], .replicate 6 0⟩ = .ok out ∧
        ∀ i < 6, out.toComplex i = 1 := by
  have hsmooth : 2 * 3 ∈ Nat.smoothNumbers 6 := Nat.mul_mem_smoothNumbers
    (Nat.mem_smoothNumbers_of_lt (by decide) (by decide))
    (Nat.mem_smoothNumbers_of_lt (by decide) (by decide))
  obtain ⟨k, hk, hrun⟩ := exists_compile_fourier
    (c := { size := 6, transform := .fourier, strategy := .calls }) rfl rfl hsmooth (by decide)
  obtain ⟨out, hout, -, -, hvalues⟩ := hrun ⟨#[1, 0, 0, 0, 0, 0], .replicate 6 0⟩ rfl rfl
  refine ⟨k, hk, out, hout, fun i hi => ?_⟩
  have hone : (⟨1, 0⟩ : ℂ) = 1 := rfl
  have hzero : (⟨0, 0⟩ : ℂ) = 0 := rfl
  rw [hvalues i hi]
  simp [discreteFourier, Finset.sum_range_succ, Lanes.toComplex, hone, hzero]

end Config

end MixedRadix
