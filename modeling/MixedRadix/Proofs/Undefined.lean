import MixedRadix.Proofs.Footprint
import MixedRadix.Proofs.Kernel

/-!
# Undefined results

A result that is undefined has no distance from the direct sum, and a kernel with such a result does
not pass its self-check, with one exception. The error of a Fourier transform is the larger one of
the errors of the two parts, and there an undefined error gives way to a defined one. So the check
fails exactly if the errors of all parts are undefined or one of them is defined and too large
(`Kernel.selfCheck_undefined`).
-/

namespace MixedRadix

variable {R : Type} [Scalar R]

/-! ### Undefined scalars -/

namespace Scalar

/-- What is made of an undefined scalar is undefined. -/
structure PropagatesNaN (R : Type) [Scalar R] : Prop where
  nan : isNaN (Scalar.nan : R) = true
  sub_left : ∀ x y : R, isNaN x = true → isNaN (x - y) = true
  abs : ∀ x : R, isNaN x = true → isNaN (Scalar.abs x) = true

lemma max_of_isNaN_left {x : R} (hx : isNaN x = true) (y : R) : Scalar.max x y = y :=
  if_pos hx

lemma max_of_isNaN_right {x y : R} (hx : isNaN x = false) (hy : isNaN y = true) :
    Scalar.max x y = x := by
  simp [Scalar.max, hx, hy]

end Scalar

section Double

open Float.Model

lemma unpack_of_isNaN {x : Float} (h : x.isNaN = true) : x.toModel.unpack = .notANumber := by
  change x.toModel.unpack.isNaN = true at h
  cases hx : x.toModel.unpack with
  | notANumber => rfl
  | _ =>
    rw [hx] at h
    cases h

lemma isNaN_pack_notANumber : (Float.Model.pack .notANumber).isNaN = true := by decide

/-- Doubles pass on what is undefined. -/
lemma propagatesNaN_double : Scalar.PropagatesNaN Float where
  nan := by decide
  sub_left x y hx := by
    change (pack (UnpackedFloat.sub .binary64 x.toModel.unpack y.toModel.unpack)).isNaN = true
    rw [unpack_of_isNaN hx]
    exact isNaN_pack_notANumber
  abs x hx := by
    change (pack x.toModel.unpack.abs).isNaN = true
    rw [unpack_of_isNaN hx]
    exact isNaN_pack_notANumber

end Double

/-! ### Distances -/

namespace Kernel

/-- An undefined distance is not forgotten. -/
lemma isNaN_foldl_of_isNaN (laws : Scalar.PropagatesNaN R) {ds : List R} {largest : R}
    (h : Scalar.isNaN largest = true ∨ ∃ d ∈ ds, Scalar.isNaN d = true) :
    Scalar.isNaN (ds.foldl (fun largest d =>
      if Scalar.isNaN d || Scalar.isNaN largest then Scalar.nan else Scalar.max largest d)
      largest) = true := by
  induction ds generalizing largest with
  | nil => simpa using h
  | cons d ds ih =>
    rw [List.foldl_cons]
    refine ih ?_
    by_cases hnow : Scalar.isNaN d = true ∨ Scalar.isNaN largest = true
    · refine Or.inl ?_
      rw [if_pos (by simpa using hnow)]
      exact laws.nan
    · refine Or.inr ?_
      rcases h with h | ⟨d', hd', h⟩
      · exact absurd (Or.inr h) hnow
      · rcases List.mem_cons.1 hd' with rfl | hd'
        · exact absurd (Or.inl h) hnow
        · exact ⟨d', hd', h⟩

/-- An undefined entry makes the distance undefined, if there is an entry to compare it with. -/
lemma isNaN_maxDistance (laws : Scalar.PropagatesNaN R) {xs ys : List R}
    (hlength : xs.length ≤ ys.length) (h : ∃ x ∈ xs, Scalar.isNaN x = true) :
    Scalar.isNaN (maxDistance xs ys) = true := by
  refine isNaN_foldl_of_isNaN laws (Or.inr ?_)
  obtain ⟨x, hx, hnan⟩ := h
  obtain ⟨i, hi, rfl⟩ := List.getElem_of_mem hx
  have hi' : i < ys.length := hi.trans_le hlength
  refine ⟨Scalar.abs (xs[i] - ys[i]), List.mem_map.2 ⟨(xs[i], ys[i]), ?_, rfl⟩, ?_⟩
  · have hzip : (xs.zip ys)[i]? = some (xs[i], ys[i]) := by simp [hi, hi']
    exact List.mem_of_getElem? hzip
  · exact laws.abs _ (laws.sub_left _ _ hnan)

/-! ### Comparisons -/

/-- The results of a cosine transform for the test signal, beside the direct sums. -/
def cosineComparison (k : Kernel R) (direct : Array R → Array R → Except Fault (List R)) :
    Except Fault (List (List R × List R)) := do
  let x := DirectSum.testSignal k.size 0.3
  let got ← k.runReal x
  let want ← direct x k.coefficients
  return [(got.toList, want)]

/-- What the kernel gives for the test signal, beside the direct sums: the results of a cosine
transform, or the real and the imaginary parts of a Fourier transform. -/
def comparison (k : Kernel R) : Except Fault (List (List R × List R)) :=
  match k.transform with
  | .cosineForward => k.cosineComparison DirectSum.cosineForward
  | .cosineInverse => k.cosineComparison DirectSum.cosineInverse
  | .fourier => do
    let re := DirectSum.testSignal k.size 0.3
    let im := DirectSum.testSignal k.size 1.1
    let (wantRe, wantIm) ← DirectSum.fourier re im
    let got ← k.runComplex ⟨re, im⟩
    return [(got.re.toList, wantRe), (got.im.toList, wantIm)]

/-- How far a part of the results is from the direct sums. -/
def partError (part : List R × List R) : R :=
  maxDistance part.1 part.2

/-- The largest error that passes. -/
def tolerance (parts : List (List R × List R)) : R :=
  1e-9 * magnitude (parts.flatMap Prod.snd)

lemma size_of_runReal {k : Kernel R} {samples out : Array R}
    (h : k.runReal samples = .ok out) : out.size = k.size := by
  rw [runReal] at h
  split at h
  · cases h
  · obtain ⟨m, hrun, hout⟩ := bind_eq_ok.1 h
    cases hout
    have hshape := Machine.shape_of_execute hrun
    simp only [Machine.shape, Prod.mk.injEq] at hshape
    obtain ⟨out, hout, hsize⟩ := Option.map_eq_some_iff.1 hshape.2.2.1
    rw [hout]
    simpa using hsize

lemma size_of_runComplex {k : Kernel R} {values out : Lanes R}
    (h : k.runComplex values = .ok out) : out.re.size = k.size ∧ out.im.size = k.size := by
  rw [runComplex] at h
  split at h
  · cases h
  · rename_i hre
    split at h
    · cases h
    · rename_i him
      obtain ⟨m, hrun, hout⟩ := bind_eq_ok.1 h
      cases hout
      have hshape := Machine.shape_of_execute hrun
      simp only [Machine.shape, Prod.mk.injEq] at hshape
      exact ⟨hshape.2.2.2.1.trans (not_not.1 hre), hshape.2.2.2.2.trans (not_not.1 him)⟩

lemma length_of_mapM {α β : Type} {f : α → Except Fault β} {xs : List α} {ys : List β}
    (h : xs.mapM f = .ok ys) : ys.length = xs.length := by
  induction xs generalizing ys with
  | nil =>
    cases h
    rfl
  | cons x xs ih =>
    rw [List.mapM_cons] at h
    obtain ⟨y, -, h⟩ := bind_eq_ok.1 h
    obtain ⟨ys', hys', h⟩ := bind_eq_ok.1 h
    cases h
    simp [ih hys']

lemma length_of_cosineForward {x c : Array R} {want : List R}
    (h : DirectSum.cosineForward x c = .ok want) : want.length = x.size := by
  simpa using length_of_mapM h

lemma length_of_cosineInverse {x c : Array R} {want : List R}
    (h : DirectSum.cosineInverse x c = .ok want) : want.length = x.size := by
  simpa using length_of_mapM h

lemma length_of_fourier {re im : Array R} {wantRe wantIm : List R}
    (h : DirectSum.fourier re im = .ok (wantRe, wantIm)) :
    wantRe.length = re.size ∧ wantIm.length = re.size := by
  rw [DirectSum.fourier] at h
  split at h
  · cases h
  · simp only [List.unzip_eq_map] at h
    cases h
    simp

variable {k : Kernel R} {parts : List (List R × List R)}

lemma cosineComparison_eq_ok {direct : Array R → Array R → Except Fault (List R)}
    (hlength : ∀ {x c want}, direct x c = .ok want → want.length = x.size)
    (h : k.cosineComparison direct = .ok parts) :
    ∃ part, parts = [part] ∧ part.1.length ≤ part.2.length ∧
      k.cosineError direct = .ok (partError part, magnitude part.2) := by
  obtain ⟨got, hgot, h⟩ := bind_eq_ok.1 h
  obtain ⟨want, hwant, h⟩ := bind_eq_ok.1 h
  cases h
  refine ⟨(got.toList, want), rfl, ?_, ?_⟩
  · simp [size_of_runReal hgot, hlength hwant, DirectSum.testSignal]
  · simp only [cosineError, hgot, hwant]
    rfl

/-- One part is compared for a cosine transform. -/
lemma comparison_of_isCosine (hcosine : k.transform.isCosine = true)
    (h : k.comparison = .ok parts) :
    ∃ part, parts = [part] ∧ part.1.length ≤ part.2.length ∧
      k.measuredError = .ok (partError part, magnitude part.2) := by
  unfold comparison at h
  unfold measuredError
  cases htransform : k.transform with
  | cosineForward =>
    rw [htransform] at h
    exact cosineComparison_eq_ok length_of_cosineForward h
  | cosineInverse =>
    rw [htransform] at h
    exact cosineComparison_eq_ok length_of_cosineInverse h
  | fourier =>
    rw [htransform] at hcosine
    cases hcosine

/-- Two parts are compared for a Fourier transform, and an undefined error of one of them gives way
to the error of the other. -/
lemma comparison_of_fourier (hfourier : k.transform.isCosine = false)
    (h : k.comparison = .ok parts) :
    ∃ re im, parts = [re, im] ∧ re.1.length ≤ re.2.length ∧ im.1.length ≤ im.2.length ∧
      k.measuredError =
        .ok (Scalar.max (partError re) (partError im), magnitude (re.2 ++ im.2)) := by
  unfold comparison at h
  unfold measuredError
  cases htransform : k.transform with
  | cosineForward =>
    rw [htransform] at hfourier
    cases hfourier
  | cosineInverse =>
    rw [htransform] at hfourier
    cases hfourier
  | fourier =>
    simp only [htransform] at h ⊢
    obtain ⟨want, hwant, h⟩ := bind_eq_ok.1 h
    obtain ⟨got, hgot, h⟩ := bind_eq_ok.1 h
    cases h
    obtain ⟨hre, him⟩ := size_of_runComplex hgot
    obtain ⟨hwantRe, hwantIm⟩ := length_of_fourier hwant
    refine ⟨(got.re.toList, want.1), (got.im.toList, want.2), rfl, ?_, ?_, ?_⟩
    · simp [hre, hwantRe, DirectSum.testSignal]
    · simp [him, hwantIm, DirectSum.testSignal]
    · rw [fourierError, hwant, hgot]
      rfl

/-! ### The self-check -/

lemma selfCheck_of_measuredError {maxError scale : R}
    (h : k.measuredError = .ok (maxError, scale)) :
    k.selfCheck = if Scalar.isNaN maxError || Scalar.lt (1e-9 * scale) maxError then
      .error (.mismatch maxError) else .ok maxError := by
  rw [selfCheck, h]

/-- The check fails exactly if the measured error is undefined or too large. -/
lemma exists_mismatch_iff {maxError scale : R} (h : k.measuredError = .ok (maxError, scale)) :
    (∃ e, k.selfCheck = .error (.mismatch e)) ↔
      Scalar.isNaN maxError = true ∨ Scalar.lt (1e-9 * scale) maxError = true := by
  rw [selfCheck_of_measuredError h, ← Bool.or_eq_true]
  split <;> simp_all

/-- A part with an undefined result has an undefined error. -/
lemma isNaN_partError (laws : Scalar.PropagatesNaN R) {part : List R × List R}
    (hlength : part.1.length ≤ part.2.length) (h : ∃ x ∈ part.1, Scalar.isNaN x = true) :
    Scalar.isNaN (partError part) = true :=
  isNaN_maxDistance laws hlength h

/-- A kernel with an undefined result fails its self-check if it is a cosine transform or has
undefined results in both parts. In any case it fails exactly if the errors of all parts are
undefined or one of them is defined and too large: beside a defined error, an undefined one is
lost. -/
theorem selfCheck_undefined (laws : Scalar.PropagatesNaN R) (hparts : k.comparison = .ok parts)
    (hnan : ∃ part ∈ parts, ∃ x ∈ part.1, Scalar.isNaN x = true) :
    ((k.transform.isCosine = true ∨ ∀ part ∈ parts, ∃ x ∈ part.1, Scalar.isNaN x = true) →
      ∃ e, Scalar.isNaN e = true ∧ k.selfCheck = .error (.mismatch e)) ∧
    ((∃ e, k.selfCheck = .error (.mismatch e)) ↔
      (∀ part ∈ parts, Scalar.isNaN (partError part) = true) ∨
      ∃ part ∈ parts, Scalar.isNaN (partError part) = false ∧
        Scalar.lt (tolerance parts) (partError part) = true) := by
  cases hcosine : k.transform.isCosine with
  | true =>
    obtain ⟨part, rfl, hlength, herror⟩ := comparison_of_isCosine hcosine hparts
    have hpart : Scalar.isNaN (partError part) = true :=
      isNaN_partError laws hlength (by simpa using hnan)
    have hfails : k.selfCheck = .error (.mismatch (partError part)) := by
      simp [selfCheck_of_measuredError herror, hpart]
    refine ⟨fun _ => ⟨_, hpart, hfails⟩, ?_⟩
    simp [hfails, hpart]
  | false =>
    obtain ⟨re, im, rfl, hre, him, herror⟩ := comparison_of_fourier hcosine hparts
    have hone : Scalar.isNaN (partError re) = true ∨ Scalar.isNaN (partError im) = true := by
      obtain ⟨part, hpart, hnan⟩ := hnan
      rcases List.mem_pair.1 hpart with rfl | rfl
      · exact Or.inl (isNaN_partError laws hre hnan)
      · exact Or.inr (isNaN_partError laws him hnan)
    refine ⟨?_, ?_⟩
    · rintro (h | hall)
      · cases h
      · have hre' := isNaN_partError laws hre (hall re (by simp))
        have him' := isNaN_partError laws him (hall im (by simp))
        refine ⟨partError im, him', ?_⟩
        rw [selfCheck_of_measuredError herror, Scalar.max_of_isNaN_left hre']
        simp [him']
    · -- the error that is measured is the one of the part that may be defined
      have htolerance : tolerance [re, im] = 1e-9 * magnitude (re.2 ++ im.2) := by simp [tolerance]
      rw [exists_mismatch_iff herror, ← htolerance]
      by_cases hre' : Scalar.isNaN (partError re) = true
      · rw [Scalar.max_of_isNaN_left hre']
        by_cases him' : Scalar.isNaN (partError im) = true <;> simp_all
      · have him' : Scalar.isNaN (partError im) = true := hone.resolve_left hre'
        rw [Scalar.max_of_isNaN_right (by simpa using hre') him']
        simp_all

lemma testSignal_one (seed : R) : DirectSum.testSignal 1 seed =
    #[Scalar.sin (0.7 * Scalar.ofNat 0 + seed) + 0.05 * Scalar.ofNat 0 - 0.3] := by
  refine Array.toList_inj.1 ?_
  simp [DirectSum.testSignal]

/-- A kernel for one sample that writes nothing. -/
def emptyCosine : Kernel Float where
  transform := .cosineForward
  size := 1
  strategy := .unrolled
  orthogonal := false
  coefficients := #[1.0]
  stream := []
  shiftTables := #[]
  routines := []
  statistics := {}
  maxFunctionLines := 100

theorem selfCheck_undefined_empty : ∃ parts, emptyCosine.comparison = .ok parts ∧
    (∃ part ∈ parts, ∃ x ∈ part.1, Scalar.isNaN x = true) ∧
    ∃ e, Scalar.isNaN e = true ∧ emptyCosine.selfCheck = .error (.mismatch e) := by
  have hparts : ∃ want, emptyCosine.comparison = .ok [([Scalar.nan], want)] := by
    simp only [emptyCosine, comparison, cosineComparison, testSignal_one]
    exact ⟨_, rfl⟩
  obtain ⟨want, hparts⟩ := hparts
  have hnan : ∃ part ∈ [([(Scalar.nan : Float)], want)], ∃ x ∈ part.1, Scalar.isNaN x = true := by
    simpa using propagatesNaN_double.nan
  exact ⟨_, hparts, hnan, (selfCheck_undefined propagatesNaN_double hparts hnan).1 (Or.inl rfl)⟩

end Kernel

/-! ### Partial scalars -/

/-- Scalars that may be missing. An operation on a missing one gives nothing, and a missing one is
neither smaller nor larger than another. -/
instance partialScalar : Scalar (Option R) where
  add x y := Option.map₂ (· + ·) x y
  sub x y := Option.map₂ (· - ·) x y
  mul x y := Option.map₂ (· * ·) x y
  div x y := Option.map₂ (· / ·) x y
  neg x := x.map (-·)
  ofScientific m s e := some (OfScientific.ofScientific m s e)
  ofNat n := some (Scalar.ofNat n)
  pi := some Scalar.pi
  invSqrtTwo := some Scalar.invSqrtTwo
  sinThird := some Scalar.sinThird
  cosFifthGap := some Scalar.cosFifthGap
  sinFifth := some Scalar.sinFifth
  sinTwoFifths := some Scalar.sinTwoFifths
  sin x := x.map Scalar.sin
  cos x := x.map Scalar.cos
  sqrt x := x.map Scalar.sqrt
  abs x := x.map Scalar.abs
  lt x y := (Option.map₂ Scalar.lt x y).getD false
  isNaN x := x.all Scalar.isNaN
  nan := none

lemma propagatesNaN_option : Scalar.PropagatesNaN (Option ℝ) where
  nan := rfl
  sub_left x y hx := by
    cases x with
    | none => rfl
    | some x => cases hx
  abs x hx := by
    cases x with
    | none => rfl
    | some x => cases hx

namespace Kernel

/-- The magnitude of numbers is a number. -/
lemma magnitude_map_some (xs : List ℝ) : magnitude (xs.map some) = some (magnitude xs) := by
  have hmax (x y : ℝ) : Scalar.max (some x) (Scalar.abs (some y)) =
      some (Scalar.max x (Scalar.abs y)) := by
    change (if decide (x < |y|) = true then some |y| else some x) =
      some (if decide (x < |y|) = true then |y| else x)
    split <;> rfl
  have hfold (largest : ℝ) :
      (xs.map some).foldl (fun largest x => Scalar.max largest (Scalar.abs x)) (some largest) =
        some (xs.foldl (fun largest x => Scalar.max largest (Scalar.abs x)) largest) := by
    induction xs generalizing largest with
    | nil => rfl
    | cons x xs ih =>
      rw [List.map_cons, List.foldl_cons, List.foldl_cons, hmax]
      exact ih _
  exact hfold 1.0

/-- A Fourier kernel for one value that moves its parts through two temporaries, the first of which
is never written. -/
def unwrittenReal (R : Type) : Kernel R where
  transform := .fourier
  size := 1
  strategy := .unrolled
  orthogonal := false
  coefficients := #[]
  stream :=
    [.op { stmt := .assign (.temp 0) (.sym (.real 0)), pruned := true },
      .op { stmt := .assign (.temp 1) (.sym (.imag 0)) },
      .op { stmt := .assign (.real 0) (.sym (.temp 0)), mandatory := true },
      .op { stmt := .assign (.imag 0) (.sym (.temp 1)), mandatory := true }]
  shiftTables := #[]
  routines := []
  statistics := {}
  maxFunctionLines := 100

/-- The direct sum for one value is the value. -/
lemma fourierBin_one (x y : ℝ) :
    DirectSum.fourierBin 1 [((some x, some y), 0)] 0 = (some x, some y) := by
  have hangle : -(2.0) * Scalar.pi * Scalar.ofNat (0 * 0 % 1) / Scalar.ofNat 1 =
      (some 0 : Option ℝ) := by
    change some (-(2.0) * Real.pi * (0 : ℕ) / (1 : ℕ)) = some 0
    simp
  have hsin : Scalar.sin (some (0 : ℝ)) = some 0 := congrArg some Real.sin_zero
  have hcos : Scalar.cos (some (0 : ℝ)) = some 1 := congrArg some Real.cos_zero
  simp only [DirectSum.fourierBin, List.foldl_cons, List.foldl_nil, hangle, hsin, hcos]
  change (some (0.0 + (x * 1 - y * 0)), some (0.0 + (x * 0 + y * 1))) = (some x, some y)
  norm_num

omit [Scalar R] in
lemma tempCount_unwrittenReal : (unwrittenReal R).tempCount = 2 :=
  rfl

lemma runComplex_unwrittenReal (x y : R) :
    (unwrittenReal R).runComplex ⟨#[x], #[y]⟩ = .ok ⟨#[Scalar.nan], #[y]⟩ := by
  have htemps : (unwrittenReal R).freshTemps = #[Scalar.nan, Scalar.nan] := by
    rw [freshTemps, tempCount_unwrittenReal]
    rfl
  rw [runComplex, htemps]
  rfl

lemma comparison_unwrittenReal : ∃ x y : ℝ, (unwrittenReal (Option ℝ)).comparison =
    .ok [([none], [some x]), ([some y], [some y])] := by
  obtain ⟨x, hx⟩ : ∃ x : ℝ, DirectSum.testSignal 1 (0.3 : Option ℝ) = #[some x] :=
    ⟨_, testSignal_one _⟩
  obtain ⟨y, hy⟩ : ∃ y : ℝ, DirectSum.testSignal 1 (1.1 : Option ℝ) = #[some y] :=
    ⟨_, testSignal_one _⟩
  have hdirect : DirectSum.fourier #[some x] #[some y] = .ok ([some x], [some y]) := by
    simp [DirectSum.fourier, fourierBin_one]
  have hsize : (unwrittenReal (Option ℝ)).size = 1 := rfl
  have htransform : (unwrittenReal (Option ℝ)).transform = .fourier := rfl
  refine ⟨x, y, ?_⟩
  simp only [comparison, htransform, hsize, hx, hy, hdirect, runComplex_unwrittenReal]
  rfl

/-- The check passes although the real part of the result is undefined. -/
theorem selfCheck_unwrittenReal : Scalar.PropagatesNaN (Option ℝ) ∧
    (∃ parts, (unwrittenReal (Option ℝ)).comparison = .ok parts ∧
      ∃ part ∈ parts, ∃ x ∈ part.1, Scalar.isNaN x = true) ∧
    (unwrittenReal (Option ℝ)).selfCheck = .ok (some 0) := by
  obtain ⟨x, y, hparts⟩ := comparison_unwrittenReal
  refine ⟨propagatesNaN_option, ⟨_, hparts, ([none], [some x]), by simp, none, by simp, rfl⟩, ?_⟩
  obtain ⟨re, im, heq, -, -, herror⟩ := comparison_of_fourier rfl hparts
  cases heq
  have hre : Scalar.isNaN (partError ([none], [some x])) = true := rfl
  have him : partError ([some y], [some y]) = some 0 := by
    change Scalar.max (some 0.0) (some |y - y|) = some 0
    norm_num [Scalar.max, Scalar.isNaN, Scalar.lt]
  have hpasses : Scalar.lt (1e-9 * magnitude [some x, some y]) (some (0 : ℝ)) = false := by
    have hone := one_le_magnitude [x, y]
    rw [show [some x, some y] = [x, y].map some from rfl, magnitude_map_some]
    refine decide_eq_false (not_lt.2 ?_)
    positivity
  rw [selfCheck_of_measuredError herror, Scalar.max_of_isNaN_left hre, him]
  simp [hpasses, Scalar.isNaN]

end Kernel

end MixedRadix
