import MixedRadix.Proofs.Cosine.Inverse
import MixedRadix.Proofs.Spared

/-!
# Inverse cosine transforms waste nothing

Every bin is folded into the values before the Fourier transform, and every part of a value behind
it is stored, so that nothing of an inverse cosine transform is dead (`Cosine.writes_emitInverse`).
-/

namespace MixedRadix.Cosine

open Build

variable {R : Type} [Scalar R] {taken N : Set Symbol} {z zk zmk : ComplexSymbol}
  {coeffs : Array R} {n : ℕ}

@[simp] lemma occurrences_scaled (c : R) (s : Symbol) : (scaled c s).occurrences = [s] := by
  unfold scaled
  split <;> simp

lemma within_union {new : List Symbol} (hN : N ⊆ taken) (hnew : ∀ s ∈ new, s ∈ taken) :
    (⟨N ∪ {s | s ∈ new}, ∅⟩ : Outlook).Within taken :=
  ⟨Set.union_subset hN hnew, by simp, by simp⟩

lemma spared_foldFirst (hz : ∀ s ∈ [z.re, z.im], s ∈ taken ∧ s ∉ N) (hN : N ⊆ taken)
    (hne : z.re ≠ z.im) (m : ℕ) :
    Spared taken ⟨N, ∅⟩ (foldFirst coeffs m z) ⟨N ∪ {s | s ∈ [z.re, z.im]}, ∅⟩ := by
  refine Writes.fresh fun h => h.allocTemp fun t1 h => h.allocTemp fun t2 h => ?_
  refine Writes.entry fun c1 _ => Writes.assign (Writes.entry fun c2 _ => Writes.assign ?_)
  refine Writes.assign (Writes.assign (Writes.release Set.subset_union_left (h.notMem t1 (by simp))
    (Writes.release_last subset_rfl (h.notMem t2 (by simp)) ⟨rfl, ?_⟩)))
  have hfresh {s : Symbol} (hs : s ∈ [t1, t2]) : s ∉ N := fun hmem => h.notMem s hs (hN hmem)
  change Marks _ ([_, _] ++ [_, _]) [] _
  refine Marks.seq (marks_load [t1, t2] (by simp) rfl h.nodup (by simp [AllUseful])
    (fun s hs => hfresh hs) (by simp)) ?_
  exact marks_replace [t1, t2] [z.re, z.im] _ (by simp) rfl (by simpa using hne)
    (by simp [AllUseful]) (fun s hs => ⟨(hz s hs).2, fun hmem => h.notMem s hmem (hz s hs).1⟩)
    (by simp) (by simp)

/-- A complex value is loaded and rotated. -/
lemma spared_loadRotated (hz : ∀ s ∈ [z.re, z.im], s ∈ taken ∧ s ∉ N) (hN : N ⊆ taken)
    (hne : z.re ≠ z.im) (gain : R) (k1 k2 : ℕ) (angle : Angle) :
    Spared taken ⟨N, ∅⟩ (loadRotated coeffs z gain k1 k2 angle)
      ⟨N ∪ {s | s ∈ [z.re, z.im]}, ∅⟩ := by
  refine Writes.entry fun c1 _ => Writes.entry fun c2 _ => Writes.assign (Writes.assign ?_)
  refine (Rotation.spared_emit (within_union hN fun s hs => (hz s hs).1)
    ⟨by simp, by simp, hne⟩ angle _).mono ?_
  rintro _ _ ops ⟨htaken, hops⟩
  refine ⟨htaken, ?_⟩
  change Marks _ ([_, _] ++ ops) [] _
  exact Marks.seq (marks_load [z.re, z.im] (by simp) rfl (by simpa using hne)
    (by simp [AllUseful]) (fun s hs => (hz s hs).2) (by simp)) hops

/-- Two pairs of bins are folded into two complex values. -/
lemma spared_foldPair (hz : ∀ s ∈ [zk.re, zk.im, zmk.re, zmk.im], s ∈ taken ∧ s ∉ N)
    (hN : N ⊆ taken) (hnodup : [zk.re, zk.im, zmk.re, zmk.im].Nodup) (k : ℕ) :
    Spared taken ⟨N, ∅⟩ (foldPair n coeffs k zk zmk)
      ⟨N ∪ {s | s ∈ [zk.re, zk.im, zmk.re, zmk.im]}, ∅⟩ := by
  refine Writes.fresh fun h => h.allocComplex fun z1 h => h.allocComplex fun z2 h => ?_
  have hz1 : Fresh N [z1.re, z1.im] := h.left.mono (hN.trans Set.subset_union_left)
  have hz2 : Fresh (N ∪ {s | s ∈ [z1.re, z1.im]}) [z2.re, z2.im] :=
    h.right.mono (Set.union_subset_union_left _ hN)
  refine Writes.ofFaulty fun angle1 _ => ?_
  refine (spared_loadRotated (fun s hs => ⟨?_, hz1.notMem s hs⟩) (hN.trans Set.subset_union_left)
    (by simpa using hz1.nodup) _ _ _ angle1).bind ?_
  · exact .inr (List.mem_append_left _ hs)
  rintro _ _ load1 ⟨rfl, hload1⟩
  refine Writes.ofFaulty fun angle2 _ => ?_
  refine (spared_loadRotated (fun s hs => ⟨?_, hz2.notMem s hs⟩) ?_ (by simpa using hz2.nodup) _ _ _
    angle2).bind ?_
  · exact .inr (List.mem_append_right _ hs)
  · exact Set.union_subset_union hN fun s hs => List.mem_append_left _ hs
  rintro _ _ load2 ⟨rfl, hload2⟩
  refine h.allocComplex fun s h => h.allocComplex fun d h => ?_
  have hsd : Fresh (taken ∪ {x | x ∈ [z1.re, z1.im, z2.re, z2.im]}) [s.re, s.im, d.re, d.im] :=
    Fresh.right (show Fresh taken ([z1.re, z1.im, z2.re, z2.im] ++ [s.re, s.im, d.re, d.im]) from h)
  have hzz : Fresh (taken ∪ {x | x ∈ [s.re, s.im, d.re, d.im]}) [z1.re, z1.im, z2.re, z2.im] :=
    Fresh.left (show Fresh taken ([z1.re, z1.im, z2.re, z2.im] ++ [s.re, s.im, d.re, d.im]) from h)
  have hfresh : Fresh taken [s.re, s.im, d.re, d.im] := hsd.mono Set.subset_union_left
  have hd : d.re ≠ d.im := by
    have hnodup := hsd.nodup
    simp only [List.nodup_cons, List.mem_cons, not_or] at hnodup
    exact hnodup.2.2.1.1
  iterate 4 refine Writes.assign ?_
  refine Writes.releaseComplex (Set.union_subset_union_right taken fun x hx => ?_)
    (hzz.notMem z1.re (by simp)) (hzz.notMem z1.im (by simp))
    (Writes.releaseComplex subset_rfl (hzz.notMem z2.re (by simp)) (hzz.notMem z2.im (by simp)) ?_)
  · exact List.mem_append_right [z1.re, z1.im, z2.re, z2.im] hx
  refine Writes.ofFaulty fun angle _ => ?_
  refine (Rotation.spared_emit (within_union (hN.trans Set.subset_union_left) fun x hx => .inr hx)
    ⟨by simp, by simp, hd⟩ angle none).bind ?_
  rintro _ _ rotation ⟨rfl, hrotation⟩
  iterate 4 refine Writes.assign ?_
  refine Writes.releaseComplex Set.subset_union_left (hfresh.notMem s.re (by simp))
    (hfresh.notMem s.im (by simp)) (Writes.release subset_rfl (hfresh.notMem d.re (by simp))
      (Writes.release_last subset_rfl (hfresh.notMem d.im (by simp)) ⟨rfl, ?_⟩))
  refine hload1.seq (hload2.seq ?_)
  change Marks _ ([_, _, _, _] ++ (rotation ++ [_, _, _, _])) [] _
  refine Marks.seq ?_ (hrotation.seq ?_)
  · refine (marks_replace [z1.re, z1.im, z2.re, z2.im] [s.re, s.im, d.re, d.im] _ (by simp) rfl
      hsd.nodup (by simp [AllUseful]) (fun x hx => ?_) (by simp) (by simp)).mono ?_ subset_rfl
    · exact ⟨fun hmem => hfresh.notMem x hx (hN hmem), fun hmem => hsd.notMem x hx (.inr hmem)⟩
    · intro x hx
      simpa [or_assoc] using hx
  · refine marks_replace [s.re, s.im, d.re, d.im] [zk.re, zk.im, zmk.re, zmk.im] _ (by simp) rfl
      hnodup (by simp [AllUseful]) (fun x hx => ?_) (by simp) (by simp)
    exact ⟨(hz x hx).2, fun hmem => hfresh.notMem x hmem (hz x hx).1⟩

/-- The parts of those values into which bins were folded before round `k`. -/
def foldedBefore (values : List ComplexSymbol) (k : ℕ) : Set Symbol :=
  {s | ∃ i v, values[i]? = some v ∧ (i < k ∨ values.length - i < k) ∧ s ∈ [v.re, v.im]}

section Folded

variable {values : List ComplexSymbol} {j k : ℕ} {v : ComplexSymbol} {s : Symbol}

lemma notMem_foldedBefore (hnodup : (symbolsOf values).Nodup) (hv : values[j]? = some v)
    (hj : k ≤ j) (hj' : k ≤ values.length - j) (hs : s ∈ [v.re, v.im]) :
    s ∉ foldedBefore values k := by
  rintro ⟨i, w, hw, hi, hs'⟩
  exact disjoint_of_nodup_symbolsOf hnodup hw hv (by omega) hs' hs

lemma foldedBefore_subset (hnodup : ∀ s ∈ symbolsOf values, s ∈ taken) :
    foldedBefore values k ⊆ taken := by
  rintro s ⟨i, w, hw, -, hs⟩
  refine hnodup s (mem_symbolsOf.2 ⟨w, List.mem_of_getElem? hw, ?_⟩)
  simpa using hs

lemma foldedBefore_succ : foldedBefore values k ⊆ foldedBefore values (k + 1) := by
  rintro s ⟨i, w, hw, hi, hs⟩
  exact ⟨i, w, hw, by omega, hs⟩

end Folded

/-- One round folds bins into one or two values. -/
lemma spared_foldRound {values : List ComplexSymbol} (hlength : values.length = n / 2)
    (hnodup : (symbolsOf values).Nodup) (htaken : ∀ s ∈ symbolsOf values, s ∈ taken) {i : ℕ}
    (hi : i < n / 2 / 2 + 1) :
    Spared taken ⟨foldedBefore values i, ∅⟩ (do
      if i = 0 then foldFirst coeffs (n / 2) (← entry values.toArray 0)
      else if 2 * i = n / 2 then
        let angle ← ofFaulty (Angle.ofRatio (-Int.ofNat i) (2 * Int.ofNat n))
        loadRotated coeffs (← entry values.toArray i) 1.0 i (n - i) angle
      else foldPair n coeffs i (← entry values.toArray i) (← entry values.toArray (n / 2 - i)))
      ⟨foldedBefore values (i + 1), ∅⟩ := by
  have hB {k : ℕ} : foldedBefore values k ⊆ taken := foldedBefore_subset htaken
  have hpart {j : ℕ} {v : ComplexSymbol} (hv : values[j]? = some v) (hj : i ≤ j)
      (hj' : i ≤ values.length - j) (s : Symbol) (hs : s ∈ [v.re, v.im]) :
      s ∈ taken ∧ s ∉ foldedBefore values i := by
    refine ⟨htaken s (mem_symbolsOf.2 ⟨v, List.mem_of_getElem? hv, by simpa using hs⟩), ?_⟩
    exact notMem_foldedBefore hnodup hv hj hj' hs
  have hne {j : ℕ} {v : ComplexSymbol} (hv : values[j]? = some v) : v.re ≠ v.im :=
    re_ne_im_of_nodup_symbolsOf hnodup (List.mem_of_getElem? hv)
  have hnext {parts : List Symbol} (hparts : ∀ s ∈ parts, s ∈ foldedBefore values (i + 1)) :
      foldedBefore values i ∪ {s | s ∈ parts} ⊆ foldedBefore values (i + 1) :=
    Set.union_subset foldedBefore_succ hparts
  split
  · refine Writes.entry fun v hv => ?_
    rw [List.getElem?_toArray] at hv
    exact (spared_foldFirst (hpart hv (by omega) (by omega)) hB (hne hv) _).weaken
      (hnext fun s hs => ⟨0, v, hv, by omega, hs⟩) subset_rfl
  · split
    · refine Writes.ofFaulty fun angle _ => Writes.entry fun v hv => ?_
      rw [List.getElem?_toArray] at hv
      exact (spared_loadRotated (hpart hv le_rfl (by omega)) hB (hne hv) _ _ _ angle).weaken
        (hnext fun s hs => ⟨i, v, hv, by omega, hs⟩) subset_rfl
    · refine Writes.entry fun v hv => Writes.entry fun w hw => ?_
      rw [List.getElem?_toArray] at hv hw
      have hdisjoint := disjoint_of_nodup_symbolsOf hnodup hv hw (by omega)
      have hparts : ([v.re, v.im] ++ [w.re, w.im]).Nodup :=
        List.Nodup.append (by simpa using hne hv) (by simpa using hne hw) hdisjoint
      refine (spared_foldPair (fun s hs => ?_) hB hparts _).weaken (hnext fun s hs => ?_) subset_rfl
      · rcases List.mem_append.1 (show s ∈ [v.re, v.im] ++ [w.re, w.im] from hs) with hs | hs
        · exact hpart hv le_rfl (by omega) s hs
        · exact hpart hw (by omega) (by omega) s hs
      · rcases List.mem_append.1 (show s ∈ [v.re, v.im] ++ [w.re, w.im] from hs) with hs | hs
        · exact ⟨i, v, hv, by omega, hs⟩
        · exact ⟨n / 2 - i, w, hw, by omega, hs⟩

/-- Behind the last round, all values have been folded into. -/
lemma foldedBefore_last {values : List ComplexSymbol} (hlength : values.length = n / 2) :
    foldedBefore values (n / 2 / 2 + 1) = {s | s ∈ symbolsOf values} := by
  refine Set.Subset.antisymm (foldedBefore_subset fun s hs => hs) fun s hs => ?_
  obtain ⟨v, hv, hs⟩ := mem_symbolsOf.1 hs
  obtain ⟨j, hj, rfl⟩ := List.getElem_of_mem hv
  exact ⟨j, _, List.getElem?_eq_getElem hj, by omega, by simpa using hs⟩

lemma spared_foldAll {values : List ComplexSymbol} (hlength : values.length = n / 2)
    (hnodup : (symbolsOf values).Nodup) (htaken : ∀ s ∈ symbolsOf values, s ∈ taken) :
    Spared taken ⟨∅, ∅⟩ (foldAll n coeffs values.toArray) ⟨{s | s ∈ symbolsOf values}, ∅⟩ := by
  refine Spared.forM (fun k => ⟨foldedBefore values k, ∅⟩) (by simp [foldedBefore]) ?_
    fun i k hk => ?_
  · rw [List.length_range, foldedBefore_last hlength]
  · obtain ⟨hlt, rfl⟩ := List.getElem?_eq_some_iff.1 hk
    rw [List.length_range] at hlt
    rw [List.getElem_range]
    exact spared_foldRound hlength hnodup htaken hlt

omit [Scalar R] in
/-- The samples are stored, each of which is a part of one of the values. -/
lemma spared_storeSamples {values : List ComplexSymbol} {order : Permutation} (hn : n % 2 = 0)
    (hlength : values.length = n / 2) (hfresh : Fresh slotSymbols (symbolsOf values))
    (hbijective : Permutation.IsBijective order.map) (hsize : order.size = n / 2) :
    Spared taken ⟨{s | s ∈ symbolsOf values}, ∅⟩
      (storeSamples n values.toArray order : Build R Unit) ⟨∅, ∅⟩ := by
  refine spared_storeLoop (P := fun i round =>
    ∃ v, values[order.image (packedPlace n i / 2)]? = some v ∧
      round = [{ stmt := .assign (.output i) (if packedPlace n i % 2 = 0 then v.re else v.im),
                 mandatory := true }]) (fun i hi => ?_) ?_ fun s hs => ?_
  · refine Writes.entry fun j hj => Writes.entry fun v hv => ?_
    have hplace := packedPlace_lt (List.mem_range.1 hi)
    rw [Permutation.getElem?_map (by omega), Option.some.injEq] at hj
    subst hj
    refine Writes.store_last ⟨rfl, v, by simpa using hv, rfl⟩
  · rintro i - _ ⟨v, -, rfl⟩
    have hout : Symbol.output i ∉ symbolsOf values := hfresh.notMem_of_slot rfl
    exact ⟨by simp, by simp [hout], by simp⟩
  · obtain ⟨v, hv, hs⟩ := mem_symbolsOf.1 hs
    obtain ⟨j, hj, rfl⟩ := List.getElem_of_mem hv
    obtain ⟨p, hp, rfl⟩ := Permutation.exists_image_eq hbijective (hsize ▸ hlength ▸ hj)
    -- the real part is at an even place, and the imaginary part behind it
    obtain ⟨q, hq, hsq⟩ : ∃ q < 2, s = if (2 * p + q) % 2 = 0 then values[order.image p].re
        else values[order.image p].im := by
      rcases hs with rfl | rfl
      · exact ⟨0, by omega, by simp⟩
      · exact ⟨1, by omega, by simp⟩
    refine ⟨evenOdd n (2 * p + q), List.mem_range.2 (evenOdd_lt hn (by omega)), ?_⟩
    rintro _ ⟨v, hv', rfl⟩
    rw [packedPlace_evenOdd hn (by omega)] at hv' ⊢
    obtain rfl : values[order.image p] = v := by
      have hhalf : (2 * p + q) / 2 = p := by omega
      simpa [hhalf, List.getElem?_eq_getElem hj] using hv'
    refine ⟨_, List.mem_singleton_self _, Op.mem_inputs_assign _ |>.2 ?_⟩
    by_cases heven : (2 * p + q) % 2 = 0
    · rw [hsq, if_pos heven, if_pos heven]
      exact List.mem_singleton_self _
    · rw [hsq, if_neg heven, if_neg heven]
      exact List.mem_singleton_self _

/-- Nothing that is emitted for an inverse cosine transform is dead. -/
lemma writes_emitInverse (n : ℕ) (coeffs : Array R) :
    Writes slotSymbols (emitInverse n coeffs) fun _ _ ops => Marks ⟨∅, ∅⟩ ops [] ⟨∅, ∅⟩ := by
  refine Writes.ofSized fun _ hcheck => Writes.fresh fun h => (h.allocComplexes (n / 2)).bind ?_
  rintro folded _ _ ⟨⟨hlength, hfresh⟩, rfl, rfl⟩
  rw [List.nil_append] at hfresh ⊢
  have hneeds : NeedsAll {s | s ∈ symbolsOf folded} folded := ⟨fun s hs => hs, hfresh.nodup⟩
  refine Writes.comment ((spared_foldAll hlength hfresh.nodup fun s hs => .inr hs).bind ?_)
  rintro _ _ load ⟨rfl, hload⟩
  refine Writes.comment ((Fourier.spared_unroll Set.subset_union_right hneeds).bind ?_)
  rintro order _ ops ⟨⟨hbijective, hsize⟩, rfl, hops⟩
  refine Writes.comment ((spared_storeSamples (of_checkSize hcheck).2 hlength hfresh hbijective
    (hsize.trans hlength)).bind ?_)
  rintro _ _ stores ⟨rfl, hstores⟩
  refine Writes.releaseComplexAll Set.subset_union_left hfresh.notMem ?_
  exact hload.seq (hops.seq (hstores.seq (.nil subset_rfl subset_rfl)))

end MixedRadix.Cosine
