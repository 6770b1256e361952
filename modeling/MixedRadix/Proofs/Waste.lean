import MixedRadix.Proofs.Cosine.Spared
import MixedRadix.Proofs.CosineKernel
import MixedRadix.Proofs.Fourier.Results

/-!
# Dead operations of the engines

The unrolled Fourier transform and the inverse cosine transform emit nothing that is dead. Of the
forward cosine transform three operations are dead: the first bin is real, and of the last one only
the real part is stored, so that its rotation makes an imaginary part for nothing (`engines_waste`).
-/

namespace MixedRadix

open Build

namespace Cosine

variable {R : Type} [Scalar R] {taken N U : Set Symbol} {D : Outlook} {n : ℕ}
  {x1 x2 first last : ComplexSymbol} {rest : List ComplexSymbol}

/-! ### Splitting bins -/

lemma within_scratch {ts : List Symbol} (old : List Symbol) (hD : D.Within taken)
    (hts : Fresh taken ts) :
    (⟨D.needed \ {s | s ∈ old} ∪ {s | s ∈ ts}, D.unneeded⟩ : Outlook).Within
      (taken ∪ {s | s ∈ ts}) := by
  refine ⟨Set.union_subset_union_left _ (Set.sdiff_subset.trans hD.needed),
    hD.unneeded.trans Set.subset_union_left, ?_⟩
  rintro s (hs | hs)
  · exact hD.disjoint s hs.1
  · exact (hD.notMem_of_fresh hts hs).2

lemma spared_splitPair (hD : D.Within taken) (hx : NeedsAll D.needed [x1, x2]) (angle : Angle) :
    Spared taken D (splitPair x1 x2 angle : Build R Unit) D := by
  refine Writes.fresh fun h => h.allocTemp fun t1 h => h.allocTemp fun t2 h =>
    h.allocTemp fun t3 h => h.allocTemp fun t4 h => ?_
  iterate 4 refine Writes.assign ?_
  have hne : t3 ≠ t4 := by
    have hnodup := h.nodup
    simp at hnodup
    tauto
  refine (Rotation.spared_emit (v := ⟨t3, t4⟩) (within_scratch (symbolsOf [x1, x2]) hD h)
    ⟨by simp, by simp, hne⟩ angle none).bind ?_
  rintro _ _ rotation ⟨rfl, hrotation⟩
  iterate 4 refine Writes.assign ?_
  refine Writes.releaseAll Set.subset_union_left h.notMem ⟨rfl, ?_⟩
  change Marks D ([_, _, _, _] ++ (rotation ++ [_, _, _, _])) [] D
  refine marks_around [t1, t2, t3, t4] hD h hx.mem hx.nodup (hD.notMem_inputs hx.mem h ?_) ?_ ?_ ?_
    ?_ ?_ ?_ ?_ hrotation
  all_goals simp [AllUseful, symbolsOf]

lemma spared_splitMiddle (hD : D.Within taken) (hx : D.NeedsPair x1) (angle : Angle) :
    Spared taken D (splitMiddle x1 angle : Build R Unit) D := by
  refine Writes.fresh fun h => h.allocTemp fun t1 h => h.allocTemp fun t3 h =>
    h.allocTemp fun t4 h => ?_
  iterate 3 refine Writes.assign ?_
  have hne : t3 ≠ t4 := by
    have hnodup := h.nodup
    simp at hnodup
    tauto
  refine (Rotation.spared_emit (v := ⟨t3, t4⟩) (within_scratch [x1.re, x1.im] hD h)
    ⟨by simp, by simp, hne⟩ angle none).bind ?_
  rintro _ _ rotation ⟨rfl, hrotation⟩
  iterate 2 refine Writes.assign ?_
  refine Writes.releaseAll Set.subset_union_left h.notMem ⟨rfl, ?_⟩
  change Marks D ([_, _, _] ++ (rotation ++ [_, _])) [] D
  refine marks_around [t1, t3, t4] hD h hx.mem hx.nodup (hD.notMem_inputs hx.mem h ?_) ?_ ?_ ?_
    ?_ ?_ ?_ ?_ hrotation
  all_goals simp [AllUseful]

/-- Which parts of the bins before the last one are stored. -/
def storedParts (first : ComplexSymbol) (rest : List ComplexSymbol) : Set Symbol :=
  {s | s ∈ first.re :: symbolsOf rest}

/-- Before the rotation of the last bin, all parts are needed but the imaginary part of the first
one. -/
def binsOutlook (first : ComplexSymbol) (rest : List ComplexSymbol) (last : ComplexSymbol) :
    Outlook :=
  ⟨storedParts first rest ∪ {s | s ∈ [last.re, last.im]}, {first.im}⟩

/-- Behind it, the imaginary part of the last bin is not needed either, nor is the scratch symbol
that it was made of. -/
def storesOutlook (first : ComplexSymbol) (rest : List ComplexSymbol) (last : ComplexSymbol)
    (t : Symbol) : Outlook :=
  ⟨storedParts first rest ∪ {s | s ∈ [last.re]}, {first.im} ∪ {s | s ∈ [last.im, t]}⟩

/-- The bins are in different symbols, which are in use. -/
structure HeldBins (taken : Set Symbol) (first : ComplexSymbol) (rest : List ComplexSymbol)
    (last : ComplexSymbol) : Prop where
  nodup : (symbolsOf (first :: (rest ++ [last]))).Nodup
  mem : ∀ s ∈ symbolsOf (first :: (rest ++ [last])), s ∈ taken

namespace HeldBins

lemma symbolsOf_eq : symbolsOf (first :: (rest ++ [last])) =
    [first.re, first.im] ++ (symbolsOf rest ++ [last.re, last.im]) := by
  simp [symbolsOf]

lemma mem_symbolsOf_of_stored {s : Symbol}
    (hs : s ∈ (storesOutlook first rest last t).needed) :
    s ∈ symbolsOf (first :: (rest ++ [last])) := by
  rw [symbolsOf_eq]
  rcases hs with hs | hs
  · rcases List.mem_cons.1 hs with rfl | hs
    · simp
    · simp [hs]
  · simp [List.mem_singleton.1 hs]

variable (h : HeldBins taken first rest last)

include h

lemma first_disjoint : [first.re, first.im].Disjoint (symbolsOf rest ++ [last.re, last.im]) :=
  List.disjoint_of_nodup_append (symbolsOf_eq ▸ h.nodup)

lemma nodup_rest : (symbolsOf rest ++ [last.re, last.im]).Nodup :=
  (List.nodup_append.1 (symbolsOf_eq ▸ h.nodup)).2.1

lemma mem_taken {s : Symbol}
    (hs : s ∈ [first.re, first.im] ∨ s ∈ symbolsOf rest ∨ s ∈ [last.re, last.im]) : s ∈ taken :=
  h.mem s (by rw [symbolsOf_eq, List.mem_append, List.mem_append]; exact hs)

lemma storedParts_subset : storedParts first rest ⊆ taken := by
  intro s hs
  rcases List.mem_cons.1 hs with rfl | hs
  · exact h.mem_taken (.inl (by simp))
  · exact h.mem_taken (.inr (.inl hs))

lemma notMem_storedParts {s : Symbol} (hs : s ∈ [last.re, last.im]) :
    s ∉ storedParts first rest := by
  intro hmem
  rcases List.mem_cons.1 hmem with rfl | hmem
  · exact h.first_disjoint (by simp) (List.mem_append_right _ hs)
  · exact List.disjoint_of_nodup_append h.nodup_rest hmem hs

lemma first_ne : first.re ≠ first.im :=
  re_ne_im_of_nodup_symbolsOf h.nodup (by simp)

lemma last_ne : last.re ≠ last.im :=
  re_ne_im_of_nodup_symbolsOf h.nodup (by simp)

/-- The imaginary part of the first bin is no part of another one. -/
lemma within : (binsOutlook first rest last).Within taken := by
  refine ⟨Set.union_subset h.storedParts_subset fun s hs => h.mem_taken (.inr (.inr hs)),
    Set.singleton_subset_iff.2 (h.mem_taken (.inl (by simp))), ?_⟩
  rintro _ hs rfl
  rcases hs with hs | hs
  · rcases List.mem_cons.1 hs with hs | hs
    · exact h.first_ne hs.symm
    · exact h.first_disjoint (by simp) (List.mem_append_left _ hs)
  · exact h.first_disjoint (by simp) (List.mem_append_right _ hs)

lemma needsAll_rest : NeedsAll (binsOutlook first rest last).needed rest :=
  ⟨fun _ hs => .inl (List.mem_cons_of_mem _ hs), (List.nodup_append.1 h.nodup_rest).1⟩

/-- No real part is unneeded. -/
lemma re_notMem {t : Symbol} (ht : t ∉ taken) {v : ComplexSymbol}
    (hv : v ∈ first :: (rest ++ [last])) : v.re ∉ (storesOutlook first rest last t).unneeded := by
  have hne {w : ComplexSymbol} (hw : w ∈ first :: (rest ++ [last])) : v.re ≠ w.im := by
    obtain ⟨i, hi⟩ := List.mem_iff_getElem?.1 hv
    obtain ⟨j, hj⟩ := List.mem_iff_getElem?.1 hw
    by_cases hij : i = j
    · obtain rfl : v = w := Option.some.inj (hi.symm.trans (hij ▸ hj))
      exact re_ne_im_of_nodup_symbolsOf h.nodup hv
    · intro e
      exact disjoint_of_nodup_symbolsOf h.nodup hi hj hij (a := v.re) (by simp) (by simp [e])
  have ht' : v.re ≠ t := fun e => ht (e ▸ h.mem _ (re_mem_symbolsOf hv))
  simpa [storesOutlook, ht'] using ⟨hne (by simp), hne (by simp)⟩

/-- An imaginary part is needed if it is between those of the first and of the last bin. -/
lemma im_notMem {t : Symbol} (ht : t ∉ taken) {v : ComplexSymbol} {k : ℕ} (hk : 0 < k)
    (hk' : k ≤ rest.length) (hv : (first :: (rest ++ [last]))[k]? = some v) :
    v.im ∉ (storesOutlook first rest last t).unneeded := by
  have hne {j : ℕ} {w : ComplexSymbol} (hj : k ≠ j)
      (hw : (first :: (rest ++ [last]))[j]? = some w) : v.im ≠ w.im := fun e =>
    disjoint_of_nodup_symbolsOf h.nodup hv hw hj (a := v.im) (by simp) (by simp [e])
  have hfirst : v.im ≠ first.im := hne (j := 0) (by omega) rfl
  have hlast : v.im ≠ last.im := hne (j := rest.length + 1) (by omega) (by simp)
  have ht' : v.im ≠ t := fun e => ht (e ▸ h.mem _ (im_mem_symbolsOf (List.mem_of_getElem? hv)))
  simp [storesOutlook, ht', hfirst, hlast]

end HeldBins

/-- The imaginary part of the first bin is set to zero, and nobody reads it. -/
lemma writes_splitFirst (hbins : HeldBins taken first rest last) :
    Writes taken (splitFirst first last : Build R Unit) fun _ taken' ops => taken' = taken ∧
      Marks ⟨{s | s ∈ symbolsOf (first :: rest)}, ∅⟩ ops
        [{ stmt := .assign first.im (.lit 0.0), pruned := true }]
        (binsOutlook first rest last) := by
  refine Writes.fresh fun h => h.allocTemp fun t0 h => h.allocTemp fun t1 h => ?_
  iterate 6 refine Writes.assign ?_
  refine Writes.release Set.subset_union_left (h.notMem t0 (by simp))
    (Writes.release_last subset_rfl (h.notMem t1 (by simp)) ⟨rfl, ?_⟩)
  have hfresh {s t : Symbol} (ht : t ∈ [t0, t1])
      (hs : s ∈ [first.re, first.im] ∨ s ∈ symbolsOf rest ∨ s ∈ [last.re, last.im]) : s ≠ t :=
    fun e => h.notMem t ht (e ▸ hbins.mem_taken hs)
  have ht : t0 ≠ t1 := by simpa using h.nodup
  -- both bins are made of the first value, which is still there when the second one is made
  have hmake : Marks ⟨{s | s ∈ symbolsOf (first :: rest)}, ∅⟩
      [({ stmt := .assign t0 (first.re + first.im) } : Op R),
        { stmt := .assign t1 (first.re - first.im) }, { stmt := .assign first.re t0 }] []
      ⟨storedParts first rest ∪ {s | s ∈ [t1]}, ∅⟩ := by
    have hre : first.re ≠ t1 := hfresh (by simp) (by simp)
    refine marks_of_allWanted (by simp) ?_ (fun s hs => ?_) (by simp)
    · simp [AllWanted, IsWanted, storedParts, hre.symm, ht]
    · have hs' : s = first.re ∨ s = first.im ∨ s ∈ symbolsOf rest := by simpa [symbolsOf] using hs
      rcases hs' with rfl | rfl | hs'
      · simp [IsWanted]
      · simp [IsWanted]
      · have h0 : s ≠ t0 := hfresh (by simp) (.inr (.inl hs'))
        have h1 : s ≠ t1 := hfresh (by simp) (.inr (.inl hs'))
        have hre : s ≠ first.re := fun e =>
          hbins.first_disjoint (by simp [e]) (List.mem_append_left _ hs')
        simp [IsWanted, storedParts, h0, h1, hre, hs']
  have hwaste : Marks ⟨storedParts first rest ∪ {s | s ∈ [t1]}, ∅⟩
      [({ stmt := .assign first.im (.lit 0.0) } : Op R)]
      [{ stmt := .assign first.im (.lit 0.0), pruned := true }]
      ⟨storedParts first rest ∪ {s | s ∈ [t1]}, {first.im}⟩ :=
    .waste rfl rfl (by simp) subset_rfl (by simp)
  have hmove : Marks ⟨storedParts first rest ∪ {s | s ∈ [t1]}, {first.im}⟩
      [({ stmt := .assign last.re t1 } : Op R), { stmt := .assign last.im (.lit 0.0) }] []
      (binsOutlook first rest last) := by
    have him : first.im ≠ t1 := hfresh (by simp) (by simp)
    refine marks_replace [t1] [last.re, last.im] _ (by simp) rfl (by simpa using hbins.last_ne)
      (by simp [AllUseful]) (fun s hs => ⟨hbins.notMem_storedParts hs, fun hmem => ?_⟩) (by simp)
      (by simp [him])
    exact hfresh (List.mem_cons_of_mem t0 hmem) (.inr (.inr hs)) rfl
  exact hmake.seq (hwaste.append hmove)

/-- All bins behind the first one are split in place. -/
lemma spared_splitRest (hD : D.Within taken) (hrest : NeedsAll D.needed rest)
    (hlength : rest.length + 1 = n / 2) :
    Spared taken D (splitRest n (first :: (rest ++ [last])).toArray : Build R Unit) D := by
  refine Spared.forM (fun _ => D) rfl rfl fun i k hk => ?_
  obtain ⟨hlt, rfl⟩ := List.getElem?_eq_some_iff.1 hk
  rw [List.length_range'] at hlt
  rw [List.getElem_range', one_mul, add_comm 1 i]
  -- both partners are behind the first bin and before the last one
  have hget {j : ℕ} {v : ComplexSymbol} (hj : j + 1 < n / 2)
      (hv : (first :: (rest ++ [last])).toArray[j + 1]? = some v) : rest[j]? = some v := by
    rwa [List.getElem?_toArray, List.getElem?_cons_succ, List.getElem?_append_left (by omega)] at hv
  refine Writes.ofFaulty fun angle _ => ?_
  split
  · refine Writes.entry fun x1 h1 => Writes.entry fun x2 h2 => ?_
    obtain ⟨j, hj⟩ : ∃ j, n / 2 - (i + 1) = j + 1 := ⟨n / 2 - (i + 1) - 1, by omega⟩
    rw [hj] at h2
    have hne : [i, j].Nodup := by simpa using show i ≠ j by omega
    exact spared_splitPair hD (hrest.pick hne (.cons (hget (by omega) h1)
      (.cons (hget (by omega) h2) .nil))) angle
  · split
    · refine Writes.entry fun x1 h1 => ?_
      have hx1 := List.mem_of_getElem? (hget (by omega) h1)
      exact spared_splitMiddle hD (hrest.needsPair hx1 _) angle
    · exact Spared.pure ()

/-! ### Rotating bins -/

/-- Only the real part of the value is needed behind the rotation, so that the imaginary part is
made for nothing. -/
lemma writes_diagonal {v : ComplexSymbol} (hN : N ⊆ taken) (hU : U ⊆ taken)
    (hv : ∀ s ∈ [v.re, v.im], s ∈ taken ∧ s ∉ N ∧ s ∉ U) :
    Writes taken (Rotation.diagonal v 7 none : Build R Unit) fun _ taken' ops =>
      taken' = taken ∧ ∃ t ∉ taken, Marks ⟨N ∪ {s | s ∈ [v.re, v.im]}, U⟩ ops
        [{ stmt := .assign t (v.im - v.re), pruned := true },
          { stmt := .assign v.im (.sym t * .lit (Scalar.invSqrtTwo * 1.0)), pruned := true }]
        ⟨N ∪ {s | s ∈ [v.re]}, U ∪ {s | s ∈ [v.im, t]}⟩ := by
  refine Writes.fresh fun h => h.allocTemp fun t0 h => h.allocTemp fun t1 h => ?_
  iterate 4 refine Writes.assign ?_
  refine Writes.release Set.subset_union_left (h.notMem t0 (by simp))
    (Writes.release_last subset_rfl (h.notMem t1 (by simp))
      ⟨rfl, t1, h.notMem t1 (by simp), ?_⟩)
  have ht : t0 ≠ t1 := by simpa using h.nodup
  have hfresh {s : Symbol} (hs : s ∈ taken) : s ≠ t0 := fun e => h.notMem t0 (by simp) (e ▸ hs)
  have hre : v.re ≠ t0 := hfresh (hv v.re (by simp)).1
  have him : v.im ≠ t0 := hfresh (hv v.im (by simp)).1
  have hsum : Marks ⟨N ∪ {s | s ∈ [v.re, v.im]}, U⟩
      [({ stmt := .assign t0 (v.re + v.im) } : Op R)] [] ⟨N ∪ {s | s ∈ [t0]}, U⟩ := by
    refine marks_replace _ [t0] _ (by simp) rfl (by simp) (by simp [AllUseful]) ?_ (by simp) ?_
    · have hN' : t0 ∉ N := fun hmem => hfresh (hN hmem) rfl
      simp [hN', hre.symm, him.symm]
    · intro s hs
      have hre : s ≠ v.re := fun e => (hv v.re (by simp)).2.2 (e ▸ hs)
      have him : s ≠ v.im := fun e => (hv v.im (by simp)).2.2 (e ▸ hs)
      simp [hre, him]
  have hscratch : Marks ⟨N ∪ {s | s ∈ [t0]}, U⟩ [({ stmt := .assign t1 (v.im - v.re) } : Op R)]
      [{ stmt := .assign t1 (v.im - v.re), pruned := true }]
      ⟨N ∪ {s | s ∈ [t0]}, U ∪ {s | s ∈ [v.im, t1]}⟩ :=
    .waste rfl rfl (by simp) subset_rfl Set.subset_union_left
  have hreal : Marks ⟨N ∪ {s | s ∈ [t0]}, U ∪ {s | s ∈ [v.im, t1]}⟩
      [({ stmt := .assign v.re (.sym t0 * .lit (Scalar.invSqrtTwo * 1.0)) } : Op R)] []
      ⟨N ∪ {s | s ∈ [v.re]}, U ∪ {s | s ∈ [v.im, t1]}⟩ := by
    refine marks_replace [t0] [v.re] _ (by simp) rfl (by simp) (by simp [AllUseful]) ?_ (by simp) ?_
    · simp [hre, (hv v.re (by simp)).2.1]
    · rintro s (hs | hs)
      · simp [hfresh (hU hs)]
      · rcases List.mem_pair.1 hs with rfl | rfl
        · simp [him]
        · simp [ht.symm]
  have himag : Marks ⟨N ∪ {s | s ∈ [v.re]}, U ∪ {s | s ∈ [v.im, t1]}⟩
      [({ stmt := .assign v.im (.sym t1 * .lit (Scalar.invSqrtTwo * 1.0)) } : Op R)]
      [{ stmt := .assign v.im (.sym t1 * .lit (Scalar.invSqrtTwo * 1.0)), pruned := true }]
      ⟨N ∪ {s | s ∈ [v.re]}, U ∪ {s | s ∈ [v.im, t1]}⟩ :=
    .waste rfl rfl (by simp) subset_rfl subset_rfl
  exact hsum.seq (hscratch.append (hreal.seq himag))

/-- Bin `n/2` is rotated by an eighth of a turn. -/
lemma turn_lastBin {angle : Angle} (hn : 0 < n / 2) (heven : n % 2 = 0)
    (h : Angle.ofRatio (-Int.ofNat (n / 2)) (2 * Int.ofNat n) = .ok angle) :
    angle.turn = .diagonal 7 := by
  obtain ⟨m, rfl⟩ := Nat.dvd_of_mod_eq_zero heven
  rw [Nat.mul_div_cancel_left m two_pos] at h hn
  obtain ⟨k, hk⟩ := Angle.halfTurns_ofRatio h
  have hratio : ((-Int.ofNat m : ℤ) : ℚ) / (2 * Int.ofNat (2 * m) : ℤ) = -1 / 4 := by
    have hpos : (m : ℚ) ≠ 0 := by exact_mod_cast hn.ne'
    push_cast [Int.ofNat_eq_natCast]
    field_simp
    norm_num
  rw [hratio] at hk
  have hbounds := angle.halfTurns_mem
  rw [hk] at hbounds
  obtain rfl : k = 1 := by
    have hlow : (0 : ℚ) < k := by linarith
    have hhigh : (k : ℚ) < 2 := by linarith
    have hlow' : 0 < k := by exact_mod_cast hlow
    have hhigh' : k < 2 := by exact_mod_cast hhigh
    omega
  refine Angle.turn_eq_diagonal (by decide) ?_
  rw [hk]
  norm_num

/-- Of the rotation of the last bin, which makes its imaginary part, half is for nothing. -/
lemma writes_rotateBins (heven : n % 2 = 0) (hlength : rest.length + 1 = n / 2)
    (hbins : HeldBins taken first rest last) :
    Writes taken (rotateBins n (first :: (rest ++ [last])).toArray : Build R Unit)
      fun _ taken' ops => taken' = taken ∧ ∃ t ∉ taken,
        Marks (binsOutlook first rest last) ops
          [{ stmt := .assign t (last.im - last.re), pruned := true },
            { stmt := .assign last.im (.sym t * .lit (Scalar.invSqrtTwo * 1.0)), pruned := true }]
          (storesOutlook first rest last t) := by
  have hrange : List.range' 1 (n / 2) = List.range' 1 (n / 2 - 1) ++ [n / 2] := by
    obtain ⟨m, hm⟩ : ∃ m, n / 2 = m + 1 := ⟨n / 2 - 1, by omega⟩
    rw [hm, List.range'_1_concat, Nat.add_sub_cancel, add_comm 1 m]
  unfold rotateBins
  rw [hrange]
  rw [Writes.forM_concat]
  refine (Spared.forM (fun _ => binsOutlook first rest last) rfl rfl fun i k hk => ?_).bind ?_
  · obtain ⟨hlt, rfl⟩ := List.getElem?_eq_some_iff.1 hk
    rw [List.length_range'] at hlt
    rw [List.getElem_range', one_mul, add_comm 1 i]
    refine Writes.ofFaulty fun angle _ => Writes.entry fun v hv => ?_
    rw [List.getElem?_toArray, List.getElem?_cons_succ, List.getElem?_append_left (by omega)] at hv
    exact Rotation.spared_emit hbins.within
      (hbins.needsAll_rest.needsPair (List.mem_of_getElem? hv) _) angle _
  rintro _ _ loop ⟨rfl, hloop⟩
  refine Writes.ofFaulty fun angle hangle => Writes.entry fun v hv => ?_
  obtain rfl : last = v := by
    rw [List.getElem?_toArray, ← hlength, List.getElem?_cons_succ] at hv
    simpa using hv
  unfold Rotation.emit
  rw [turn_lastBin (by omega) heven hangle, if_pos rfl]
  refine (writes_diagonal hbins.storedParts_subset hbins.within.unneeded fun s hs => ?_).bind ?_
  · exact ⟨hbins.mem_taken (.inr (.inr hs)), hbins.notMem_storedParts hs,
      fun hmem => hbins.within.disjoint s (.inr hs) hmem⟩
  rintro _ _ rotation ⟨rfl, t, ht, hrotation⟩
  refine (Writes.recordRotation _).mono ?_
  rintro _ _ _ ⟨rfl, rfl⟩
  rw [List.append_nil]
  exact ⟨rfl, t, ht, hloop.seq hrotation⟩

/-! ### Storing bins -/

/-- The operation that stores result `k`: a part of one of the bins. -/
def IsStore (n : ℕ) (coeffs : Array R) (bins : List ComplexSymbol) (k : ℕ) (ops : List (Op R)) :
    Prop :=
  ∃ c v, coeffs[k]? = some c ∧ (k ≤ n / 2 ∧ bins[k]? = some v ∧
      ops = [{ stmt := .assign (.output k) (binAsIs c v.re), mandatory := true }] ∨
    n / 2 < k ∧ bins[n - k]? = some v ∧
      ops = [{ stmt := .assign (.output k) (binNegated c v.im), mandatory := true }])

@[simp] lemma occurrences_binAsIs (c : R) (s : Symbol) : (binAsIs c s).occurrences = [s] := by
  unfold binAsIs
  split_ifs <;> simp

@[simp] lemma occurrences_binNegated (c : R) (s : Symbol) : (binNegated c s).occurrences = [s] := by
  unfold binNegated
  split_ifs <;> simp

lemma writes_storeBins {coeffs : Array R} {t : Symbol} (heven : n % 2 = 0)
    (hlength : rest.length + 1 = n / 2) (hbins : HeldBins taken first rest last)
    (hslots : Fresh slotSymbols (symbolsOf (first :: (rest ++ [last])))) (ht : t ∉ taken) :
    Writes taken (storeBins n coeffs (first :: (rest ++ [last])).toArray) fun _ taken' ops =>
      (taken' = taken ∧
        Marks (storesOutlook first rest last t)
          ops [] ⟨∅, (storesOutlook first rest last t).unneeded⟩) ∧
      ∀ k ∈ List.range n, ∃ round, IsStore n coeffs (first :: (rest ++ [last])) k round ∧
        round ⊆ ops := by
  refine writes_storeLoop (fun k hk => ?_) ?_ ?_
  · split
    · refine Writes.entry fun v hv => Writes.entry fun c hc => Writes.store_last ⟨rfl, c, v, hc, ?_⟩
      exact .inl ⟨by assumption, by simpa using hv, rfl⟩
    · refine Writes.entry fun v hv => Writes.entry fun c hc => Writes.store_last ⟨rfl, c, v, hc, ?_⟩
      exact .inr ⟨by omega, by simpa using hv, rfl⟩
  · rintro k hkn _ ⟨c, v, -, hstore⟩
    rw [List.mem_range] at hkn
    have hout : .output k ∉ (storesOutlook first rest last t).needed := fun hmem =>
      hslots.notMem_of_slot rfl (HeldBins.mem_symbolsOf_of_stored hmem)
    rcases hstore with ⟨-, hv, rfl⟩ | ⟨hk, hv, rfl⟩
    · refine ⟨by simp, by simpa [storesOutlook] using hout, ?_⟩
      simpa [storesOutlook] using hbins.re_notMem ht (List.mem_of_getElem? hv)
    · refine ⟨by simp, by simpa [storesOutlook] using hout, ?_⟩
      simpa [storesOutlook] using hbins.im_notMem ht (by omega) (by omega) hv
  · have hre {k : ℕ} {v : ComplexSymbol} (hk : k ≤ n / 2)
        (hv : (first :: (rest ++ [last]))[k]? = some v) : ∃ y ∈ List.range n, ∀ round,
        IsStore n coeffs (first :: (rest ++ [last])) y round → ∃ o ∈ round, v.re ∈ o.inputs := by
      refine ⟨k, List.mem_range.2 (by omega), ?_⟩
      rintro _ ⟨c, w, -, ⟨-, hw, rfl⟩ | ⟨hlt, -, -⟩⟩
      · obtain rfl := Option.some.inj (hv.symm.trans hw)
        simp
      · omega
    have him {k : ℕ} {v : ComplexSymbol} (hk : 0 < k) (hk' : k < n / 2)
        (hv : (first :: (rest ++ [last]))[k]? = some v) : ∃ y ∈ List.range n, ∀ round,
        IsStore n coeffs (first :: (rest ++ [last])) y round → ∃ o ∈ round, v.im ∈ o.inputs := by
      refine ⟨n - k, List.mem_range.2 (by omega), ?_⟩
      rintro _ ⟨c, w, -, ⟨hle, -, -⟩ | ⟨-, hw, rfl⟩⟩
      · omega
      · rw [Nat.sub_sub_self (by omega)] at hw
        obtain rfl := Option.some.inj (hv.symm.trans hw)
        simp
    rintro s (hs | hs)
    · rcases List.mem_cons.1 hs with rfl | hs
      · exact hre (Nat.zero_le _) rfl
      · obtain ⟨v, hv, hs⟩ := mem_symbolsOf.1 hs
        obtain ⟨i, hi, rfl⟩ := List.getElem_of_mem hv
        have hget : (first :: (rest ++ [last]))[i + 1]? = some rest[i] := by
          rw [List.getElem?_cons_succ, List.getElem?_append_left hi, List.getElem?_eq_getElem hi]
        rcases hs with rfl | rfl
        · exact hre (by omega) hget
        · exact him (by omega) (by omega) hget
    · rw [List.mem_singleton.1 hs]
      exact hre (k := n / 2) le_rfl (by simp [← hlength])

/-! ### The whole code -/

/-- The operations that a forward transform makes for nothing, for the first and the last bin and a
scratch symbol. -/
def deadOps (first last : ComplexSymbol) (t : Symbol) : List (Op R) :=
  [{ stmt := .assign first.im (.lit 0.0), pruned := true },
    { stmt := .assign t (last.im - last.re), pruned := true },
    { stmt := .assign last.im (.sym t * .lit (Scalar.invSqrtTwo * 1.0)), pruned := true }]

/-- Behind the first part, the bins are in temporaries, which are all that are in use. -/
structure Unstored (n : ℕ) (values : List ComplexSymbol × List ComplexSymbol) (taken : Set Symbol)
    (ops : List (Op R)) (first : ComplexSymbol) (rest : List ComplexSymbol) (last : ComplexSymbol)
    (t : Symbol) : Prop where
  bins_eq : values.2 = first :: (rest ++ [last])
  perm : values.1.Perm values.2
  even : n % 2 = 0
  length_eq : rest.length + 1 = n / 2
  fresh : Fresh slotSymbols (symbolsOf values.2)
  taken_eq : taken = slotSymbols ∪ {s | s ∈ symbolsOf values.2}
  notMem : t ∉ taken
  marks : Marks ⟨∅, ∅⟩ ops (deadOps first last t)
    (storesOutlook first rest last t)

lemma writes_forwardFront (n : ℕ) : Writes slotSymbols
    (forwardFront n : Build R (List ComplexSymbol × List ComplexSymbol)) fun values taken ops =>
      ∃ first rest last t, Unstored n values taken ops first rest last t := by
  refine Writes.ofSized fun _ hsize => ?_
  obtain ⟨hn, heven⟩ := of_checkSize hsize
  refine Writes.comment (Writes.fresh fun h => (h.allocComplexes (n / 2)).bind ?_)
  rintro packed _ _ ⟨⟨hlength, hfresh⟩, rfl, rfl⟩
  rw [List.nil_append] at hfresh ⊢
  have hneeds : NeedsAll {s | s ∈ symbolsOf packed} packed := ⟨fun s hs => hs, hfresh.nodup⟩
  refine (spared_load hfresh.nodup fun i =>
    (.input (evenOdd n (2 * i)), .input (evenOdd n (2 * i + 1)))).bind ?_
  rintro _ _ load ⟨rfl, hload⟩
  refine Writes.comment ((Fourier.spared_unroll Set.subset_union_right hneeds).bind ?_)
  rintro order _ ops ⟨⟨hbijective, hsize⟩, rfl, hops⟩
  refine (Writes.mapM (P := fun k v => packed[order.image k]? = some v) fun k hk => ?_).read
    fun found hfound => ?_
  · refine Writes.entry fun j hj => Writes.entry_last fun v hv => ⟨?_, rfl, rfl⟩
    rw [Permutation.getElem?_map (by rw [hsize, hlength]; exact List.mem_range.1 hk),
      Option.some.injEq] at hj
    subst hj
    simpa using hv
  rw [← hlength] at hfound
  have hperm := Permutation.perm_of_picked hbijective hsize hfound
  obtain ⟨first, rest, rfl⟩ : ∃ first rest, found = first :: rest := by
    refine List.exists_cons_of_length_pos ?_
    rw [hperm.length_eq, hlength]
    omega
  have hpacked : {s | s ∈ symbolsOf packed} = {s | s ∈ symbolsOf (first :: rest)} :=
    Set.ext fun s => (hperm.symm.flatMap_right _).mem_iff
  refine hfresh.allocComplex fun last h => ?_
  have hsymbols : (symbolsOf packed ++ [last.re, last.im]).Perm
      (symbolsOf (first :: (rest ++ [last]))) := by
    rw [HeldBins.symbolsOf_eq, ← List.append_assoc]
    exact (hperm.symm.flatMap_right _).append_right _
  have htaken : {s | s ∈ symbolsOf packed ++ [last.re, last.im]} =
      {s | s ∈ symbolsOf (first :: (rest ++ [last]))} := Set.ext fun s => hsymbols.mem_iff
  rw [htaken]
  have hslots : Fresh slotSymbols (symbolsOf (first :: (rest ++ [last]))) :=
    ⟨hsymbols.nodup_iff.1 h.nodup, fun t ht => h.notMem t (hsymbols.mem_iff.2 ht)⟩
  have hbins : HeldBins (slotSymbols ∪ {s | s ∈ symbolsOf (first :: (rest ++ [last]))}) first rest
      last := ⟨hslots.nodup, fun s hs => .inr hs⟩
  have hrest : rest.length + 1 = n / 2 := hlength ▸ hperm.length_eq
  -- the bins are split and rotated
  refine Writes.comment (Writes.entry fun v hv => ?_)
  obtain rfl : first = v := by simpa using hv
  refine (writes_splitFirst hbins).bind ?_
  rintro _ _ split ⟨rfl, hsplit⟩
  refine (spared_splitRest hbins.within hbins.needsAll_rest hrest).bind ?_
  rintro _ _ splits ⟨rfl, hsplits⟩
  refine Writes.comment ((writes_rotateBins heven hrest hbins).bind ?_)
  rintro _ _ rotations ⟨rfl, t, ht, hrotations⟩
  rw [hpacked] at hload hops
  have hmarks := hload.seq (hops.seq (hsplit.append (hsplits.seq hrotations)))
  exact Writes.pure ⟨first, rest, last, t, rfl, hperm.symm.append_right [last], heven, hrest,
    hslots, rfl, ht, by rwa [List.append_nil]⟩

/-- The real part of bin `k` is stored as result `k`. -/
def StoresBin (coeffs : Array R) (ops : List (Op R)) (k : ℕ) (bin : ComplexSymbol) : Prop :=
  ∃ c, coeffs[k]? = some c ∧
    { stmt := .assign (.output k) (binAsIs c bin.re), mandatory := true } ∈ ops

lemma writes_emitForward (n : ℕ) (coeffs : Array R) :
    Writes slotSymbols (emitForward n coeffs) fun _ _ ops => ∃ first last t, ∃ U : Set Symbol,
      Marks ⟨∅, ∅⟩ ops (deadOps first last t) ⟨∅, U⟩ ∧
      StoresBin coeffs ops 0 first ∧ StoresBin coeffs ops (n / 2) last := by
  rw [emitForward_eq]
  refine (writes_forwardFront n).bind ?_
  rintro ⟨values, bins⟩ taken ops ⟨first, rest, last, t, h⟩
  obtain ⟨hbins, hperm, heven, hlength, hslots, rfl, ht, hmarks⟩ := h
  dsimp only at hbins hperm hslots ht
  subst hbins
  have hheld : HeldBins (slotSymbols ∪ {s | s ∈ symbolsOf (first :: (rest ++ [last]))}) first rest
      last := ⟨hslots.nodup, fun s hs => .inr hs⟩
  refine Writes.comment ((writes_storeBins heven hlength hheld hslots ht).bind ?_)
  rintro _ _ stores ⟨⟨rfl, hstores⟩, hrounds⟩
  have hstored {k : ℕ} {v : ComplexSymbol} (hk : k ≤ n / 2)
      (hv : (first :: (rest ++ [last]))[k]? = some v) :
      StoresBin coeffs (ops ++ (stores ++ [])) k v := by
    have hk' : k ∈ List.range n := List.mem_range.2 (by omega)
    obtain ⟨_, ⟨c, w, hc, ⟨-, hw, rfl⟩ | ⟨hlt, -, -⟩⟩, hsub⟩ := hrounds k hk'
    · obtain rfl := Option.some.inj (hv.symm.trans hw)
      refine ⟨c, hc, List.mem_append_right _ ?_⟩
      simpa using hsub
    · omega
  refine Writes.releaseComplexAll Set.subset_union_left (fun s hs => ?_)
    ⟨first, last, t, _, hmarks.append (hstores.seq (.nil subset_rfl subset_rfl)), ?_, ?_⟩
  · exact hslots.notMem s ((hperm.flatMap_right _).mem_iff.1 hs)
  · exact hstored (by omega) rfl
  · exact hstored le_rfl (by simp [← hlength])

/-! ### Code for all coefficients -/

section Existence

variable {coeffs : Array R} (heven : n % 2 = 0) (hsmooth : n / 2 ∈ Nat.smoothNumbers 6)
  (hcoeffs : coeffs.size = n) (annotate : Bool)

lemma getElem?_eq_getD (hcoeffs : coeffs.size = n) {k : ℕ} (hk : k < n) :
    coeffs[k]? = some (coeffs[k]?.getD Scalar.nan) := by
  simp [hcoeffs, hk]

include heven hsmooth hcoeffs

lemma exists_run_emitForward_iff :
    (∃ b, (emitForward n coeffs).run.run { annotate } = (.ok (), b)) ↔ n < 2 ^ 61 := by
  have hpos : 0 < n / 2 := Nat.pos_of_ne_zero (Nat.ne_zero_of_mem_smoothNumbers hsmooth)
  refine ⟨fun ⟨b, hrun⟩ => lt_of_succeeds_emitForward hpos ⟨_, _, _, hrun⟩, fun hlt => ?_⟩
  obtain ⟨b, hrun, -⟩ := exists_transforms (fun _ _ hx hout =>
    emits_emitForward heven hsmooth (by omega) (fun _ hk => getElem?_eq_getD hcoeffs hk) hx hout)
    annotate
  exact ⟨b, hrun⟩

lemma exists_run_emitInverse_iff :
    (∃ b, (emitInverse n coeffs).run.run { annotate } = (.ok (), b)) ↔ n < 2 ^ 61 := by
  refine ⟨fun ⟨b, hrun⟩ => lt_of_succeeds_emitInverse ⟨_, _, _, hrun⟩, fun hlt => ?_⟩
  obtain ⟨b, hrun, -⟩ := exists_transforms (fun _ _ hx hout =>
    emits_emitInverse heven hsmooth (by omega) (fun _ hk => getElem?_eq_getD hcoeffs hk) hx hout)
    annotate
  exact ⟨b, hrun⟩

end Existence

end Cosine

/-! ### What is pruned -/

variable {R : Type} [Scalar R]

omit [Scalar R] in
lemma Builder.eliminateDeadCode_of_marks {b : Builder R} {marked : List (Op R)} {U : Set Symbol}
    (h : Marks ⟨∅, ∅⟩ b.ops marked ⟨∅, U⟩) : b.eliminateDeadCode.1 = marked.length ∧
      b.eliminateDeadCode.2.ops.filter (·.pruned) = marked := by
  have hmarked : (markPruned b.ops).filter (·.pruned) = marked := by
    have hend := h.marked_eq [] ⟨by simp, fun _ _ => rfl⟩
    rwa [List.append_nil, markPruned, List.filter_nil, List.append_nil] at hend
  refine ⟨?_, by rw [Builder.ops_eliminateDeadCode, hmarked]⟩
  have hcount := countP_eliminateDeadCode b.stream.toList
  have hnone : b.ops.countP (·.pruned) = 0 := by
    rw [List.countP_eq_zero]
    exact fun o ho => by simp [h.unpruned o ho]
  rw [countP_not_isLive, countP_not_isLive, filterMap_op?_eliminateDeadCode] at hcount
  change (markPruned b.ops).countP _ = b.ops.countP _ + _ at hcount
  rw [hnone, List.countP_eq_length_filter, hmarked, zero_add] at hcount
  exact hcount.symm

omit [Scalar R] in
/-- What is known of the operations of a computation that starts with nothing. -/
lemma Build.Writes.of_start {α : Type} {x : Build R α}
    {Q : α → Set Symbol → List (Op R) → Prop} (h : Writes slotSymbols x Q) {annotate : Bool}
    {a : α} {b : Builder R} (hrun : x.run.run { annotate } = (.ok a, b)) :
    ∃ taken, Q a taken b.ops := by
  have hkeeps : ({ annotate } : Builder R).Keeps slotSymbols := by
    refine ⟨.start fun _ => none, Builder.holds_start annotate _, ?_⟩
    rintro _ hs id rfl
    exact absurd hs (by simp [slotSymbols, Symbol.isTemp, Symbol.tempId?])
  obtain ⟨taken, ops, -, hops, hq⟩ := h hkeeps hrun
  obtain rfl : b.ops = ops := hops
  exact ⟨taken, hq⟩

/-- Code for a Fourier transform and for an inverse cosine transform has no dead operation, and code
for a forward cosine transform has three: that which zeroes the imaginary part of the first bin, and
those of the last bin's rotation that make and store its imaginary part. There is code as long as
its angles are words; the names of temporaries have no bound (`TempPool`). -/
theorem engines_waste (annotate : Bool) (n : ℕ) :
    (n ∈ Nat.smoothNumbers 6 →
      (n < 2 ^ 62 → ∃ order b,
        (Fourier.emitUnrolled n : Build R _).run.run { annotate } = (.ok order, b)) ∧
      ∀ order b, (Fourier.emitUnrolled n : Build R _).run.run { annotate } = (.ok order, b) →
        b.eliminateDeadCode.1 = 0) ∧
    ∀ coeffs : Array R, n % 2 = 0 → n / 2 ∈ Nat.smoothNumbers 6 → coeffs.size = n →
      ((∃ b, (Cosine.emitInverse n coeffs).run.run { annotate } = (.ok (), b)) ↔ n < 2 ^ 61) ∧
      (∀ b, (Cosine.emitInverse n coeffs).run.run { annotate } = (.ok (), b) →
        b.eliminateDeadCode.1 = 0) ∧
      ((∃ b, (Cosine.emitForward n coeffs).run.run { annotate } = (.ok (), b)) ↔ n < 2 ^ 61) ∧
      ∀ b, (Cosine.emitForward n coeffs).run.run { annotate } = (.ok (), b) →
        b.eliminateDeadCode.1 = 3 ∧ ∃ first last t,
          b.eliminateDeadCode.2.ops.filter (·.pruned) = Cosine.deadOps first last t ∧
          Cosine.StoresBin coeffs b.ops 0 first ∧ Cosine.StoresBin coeffs b.ops (n / 2) last := by
  refine ⟨fun hsmooth => ⟨fun hlt => ?_, fun order b hrun => ?_⟩,
    fun coeffs heven hsmooth hcoeffs => ⟨?_, fun b hrun => ?_, ?_, fun b hrun => ?_⟩⟩
  · obtain ⟨order, b, hrun, -⟩ := Fourier.exists_emitUnrolled (R := R)
      (hasPlan_of_mem_smoothNumbers hsmooth hlt) annotate
    exact ⟨order, b, hrun⟩
  · obtain ⟨-, hmarks⟩ := (Fourier.writes_emitUnrolled n).of_start hrun
    exact (Builder.eliminateDeadCode_of_marks hmarks).1
  · exact Cosine.exists_run_emitInverse_iff heven hsmooth hcoeffs annotate
  · obtain ⟨-, hmarks⟩ := (Cosine.writes_emitInverse n coeffs).of_start hrun
    exact (Builder.eliminateDeadCode_of_marks hmarks).1
  · exact Cosine.exists_run_emitForward_iff heven hsmooth hcoeffs annotate
  · obtain ⟨-, first, last, t, U, hmarks, hfirst, hlast⟩ :=
      (Cosine.writes_emitForward n coeffs).of_start hrun
    obtain ⟨hcount, hpruned⟩ := Builder.eliminateDeadCode_of_marks hmarks
    exact ⟨hcount, first, last, t, hpruned, hfirst, hlast⟩

/-- Code of ten points, with coefficients of both signs and one that is zero. -/
theorem engines_waste_ten :
    (∃ order b, (Fourier.emitUnrolled 10 : Build ℝ _).run.run { annotate := true } =
      (.ok order, b) ∧ b.eliminateDeadCode.1 = 0) ∧
    (∃ b, (Cosine.emitInverse 10 #[(3 : ℝ), -1, 0, 1, 2, 5, -7, 1, 1, 4]).run.run
      { annotate := true } = (.ok (), b) ∧ b.eliminateDeadCode.1 = 0) ∧
    ∃ b, (Cosine.emitForward 10 #[(3 : ℝ), -1, 0, 1, 2, 5, -7, 1, 1, 4]).run.run
      { annotate := true } = (.ok (), b) ∧ b.eliminateDeadCode.1 = 3 := by
  have hfive : 5 ∈ Nat.smoothNumbers 6 := Nat.mem_smoothNumbers_of_lt (by decide) (by decide)
  have hten : 2 * 5 ∈ Nat.smoothNumbers 6 :=
    Nat.mul_mem_smoothNumbers (Nat.mem_smoothNumbers_of_lt (by decide) (by decide)) hfive
  obtain ⟨hfourier, hcosine⟩ := engines_waste (R := ℝ) true 10
  obtain ⟨order, b, hrun⟩ := (hfourier hten).1 (by norm_num)
  obtain ⟨hinverse, hinverse', hforward, hforward'⟩ := hcosine
    #[(3 : ℝ), -1, 0, 1, 2, 5, -7, 1, 1, 4] rfl hfive rfl
  obtain ⟨b₁, hrun₁⟩ := hinverse.2 (by norm_num)
  obtain ⟨b₂, hrun₂⟩ := hforward.2 (by norm_num)
  exact ⟨⟨order, b, hrun, (hfourier hten).2 order b hrun⟩, ⟨b₁, hrun₁, hinverse' b₁ hrun₁⟩,
    b₂, hrun₂, (hforward' b₂ hrun₂).1⟩

end MixedRadix
