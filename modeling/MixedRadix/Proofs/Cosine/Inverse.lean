import MixedRadix.Proofs.Cosine.Algorithm
import MixedRadix.Proofs.Cosine.Results

/-!
# Code of inverse cosine transforms

The code of an inverse cosine transform computes what `Cosine.inverse` says, operation by operation
and for every arithmetic (`emits_emitInverse`). As in the other direction, the first part reads the
bins and keeps the transformed values in temporaries (`inverseFront`), and the second one stores the
results (`inverseBack`).
-/

namespace MixedRadix.Cosine

open Fourier (transformed unrolledTurn known emits_entry)

variable {R : Type} [Scalar R] {S S₁ : Scene R} {n : ℕ} {coeffs : Array R} {weight x : ℕ → R}

/-! ### Folding bins -/

section Fold

variable (hc : ∀ k < n, coeffs[k]? = some (weight k))
  (hx : ∀ i < n, S.value (.input i) = some (x i))

include hc hx

lemma emits_foldFirst {z : ComplexSymbol} (hn : n / 2 < n) (hz : S.WritablePair z) :
    Emits S (foldFirst coeffs (n / 2) z) fun _ S' => S' = S.put z (firstFold (n / 2) weight x) := by
  refine (Scratch.refl S).allocTemp fun t1 _ hs => hs.allocTemp fun t2 _ hs => ?_
  refine (Emits.entry (hc 0 (by omega))).read ?_
  refine hs.assign_blank (yields_scaled (hs.base (hx 0 (by omega))) _) fun _ hs => ?_
  refine (Emits.entry (hc (n / 2) hn)).read ?_
  refine hs.assign_blank (yields_scaled (hs.base (hx (n / 2) hn)) _) fun _ hs => ?_
  refine hs.put hz (z := firstFold (n / 2) weight x)
    (.add (.sym (hs.fact 0 rfl)) (.sym (hs.fact 1 rfl)))
    (fun _ hs => .sub (.sym (hs.fact 0 rfl)) (.sym (hs.fact 1 rfl))) fun _ hs => ?_
  exact hs.release_first.bind fun _ _ hs => hs.release_last

lemma emits_loadRotated {z : ComplexSymbol} {k1 k2 : ℕ} (hk1 : k1 < n) (hk2 : k2 < n)
    (hz : S.WritablePair z) (gain : R) (angle : Angle) :
    Emits S (loadRotated coeffs z gain k1 k2 angle) fun _ S' => Scene.SameOff [z.re, z.im] S S' ∧
      S'.HasPair z (rotatedLoad weight x gain k1 k2 angle) := by
  refine (Emits.entry (hc k1 hk1)).read ((Emits.entry (hc k2 hk2)).read ?_)
  set g := foldGain gain (weight k1) (weight k2)
  set y : ComplexPair R := ⟨times g.re (x k1), times g.im (x k2)⟩ with hy
  -- the second input is still there when the first one has been loaded
  have hne : .input k2 ≠ z.re := by
    intro heq
    have := hz.re.isInput
    rw [← heq] at this
    exact Bool.noConfusion this
  have hre : (scaled g.re (.input k1)).Yields S.value y.re := yields_scaled (hx k1 hk1) _
  have him : (scaled g.im (.input k2)).Yields (S.assign z.re y.re).value y.im := by
    refine yields_scaled ?_ _
    rw [Scene.assign_value_of_ne hne, hx k2 hk2]
  have hput := hz.emits_put hre him
  have hrotate := Rotation.emits_emit (hz.hasPair_put y) (hz.put z y) angle g.gain
  have hall := hput.then_ (f := fun _ => Rotation.emit z angle g.gain) fun _ => hrotate
  rw [bind_assoc] at hall
  refine hall.mono ?_
  rintro _ S' ⟨hoff, hpair⟩
  exact ⟨(Scene.sameOff_put S z y).trans hoff, hpair⟩

lemma emits_foldPair {k : ℕ} {zk zmk : ComplexSymbol} (hlt : 2 * n < 2 ^ 62) (hpos : 0 < k)
    (hk : k < n / 2) (hzk : S.WritablePair zk) (hzmk : S.WritablePair zmk) :
    Emits S (foldPair n coeffs k zk zmk) fun _ S' =>
      S' = (S.put zk (foldedPair n weight x k).1).put zmk (foldedPair n weight x k).2 := by
  have hbase {S₁ : Scene R} {facts : List (Symbol × R)} {blank : List Symbol}
      (hs : Scratch S facts blank S₁) (i : ℕ) (hi : i < n) : S₁.value (.input i) = some (x i) :=
    hs.base (hx i hi)
  -- both bins are loaded, each turned by its own angle
  refine (Scratch.refl S).allocComplex fun z1 _ hs => hs.allocComplex fun z2 _ hs => ?_
  refine (Emits.ofFaulty (ofRatio_binAngle (by omega) hlt hk.le)).read ?_
  refine hs.fill_by (fun hz1 => emits_loadRotated hc (hbase hs) (by omega) (by omega) hz1 _ _)
    fun _ hs => ?_
  refine (Emits.ofFaulty (ofRatio_mirrorAngle (by omega) hlt k)).read ?_
  refine hs.fill_by (fun hz2 => emits_loadRotated hc (hbase hs) (by omega) (by omega) hz2 _ _)
    fun _ hs => ?_
  -- their sum and their difference take their place
  refine hs.allocComplex fun s _ hs => hs.allocComplex fun d _ hs => ?_
  refine hs.assign_blank (.add (.sym (hs.fact 0 rfl)) (.sym (hs.fact 2 rfl))) fun _ hs => ?_
  refine hs.assign_blank (.sub (.sym (hs.fact 1 rfl)) (.sym (hs.fact 3 rfl))) fun _ hs => ?_
  refine hs.assign_blank (.neg (.add (.sym (hs.fact 1 rfl)) (.sym (hs.fact 3 rfl)))) fun _ hs => ?_
  refine hs.assign_blank (.sub (.sym (hs.fact 0 rfl)) (.sym (hs.fact 2 rfl))) fun _ hs => ?_
  refine (hs.release_first.bind fun _ _ hs => hs.release_first).bind fun _ _ hs => ?_
  refine (hs.release_first.bind fun _ _ hs => hs.release_first).bind fun _ _ hs => ?_
  refine (Emits.ofFaulty (ofRatio_splitAngle (by omega) hlt hk.le)).read ?_
  refine Scratch.rotate [_, _] [] ⟨_, _⟩ hs _ none fun _ hs => ?_
  refine hs.put hzk (z := (foldedPair n weight x k).1)
    (.add (.sym (hs.fact 0 rfl)) (.sym (hs.fact 2 rfl)))
    (fun _ hs => .add (.sym (hs.fact 1 rfl)) (.sym (hs.fact 3 rfl))) fun _ hs => ?_
  refine hs.put (hzmk.put _ _) (z := (foldedPair n weight x k).2)
    (.sub (.sym (hs.fact 0 rfl)) (.sym (hs.fact 2 rfl)))
    (fun _ hs => .sub (.sym (hs.fact 3 rfl)) (.sym (hs.fact 1 rfl))) fun _ hs => ?_
  refine (hs.release_first.bind fun _ _ hs => hs.release_first).bind fun _ _ hs => ?_
  exact hs.release_first.bind fun _ _ hs => hs.release_last

end Fold

/-! ### The loop over bins -/

/-- The values that are known when the bins below `k`, and as far from the end, have been folded. -/
def foldedUpTo (n : ℕ) (weight x : ℕ → R) (k i : ℕ) : Option (ComplexPair R) :=
  if i < k ∨ n / 2 - i < k then some (foldedValues n weight x i) else none

/-- What is known behind a round that changes the value at `i` is known before it elsewhere. -/
lemma foldedUpTo_succ {k i : ℕ} {y : ComplexPair R} (hik : i ≠ k) (hik' : n / 2 - i ≠ k)
    (h : foldedUpTo n weight x (k + 1) i = some y) : foldedUpTo n weight x k i = some y := by
  have hiff : (i < k + 1 ∨ n / 2 - i < k + 1) ↔ (i < k ∨ n / 2 - i < k) := by omega
  simpa only [foldedUpTo, hiff] using h

lemma eq_of_foldedUpTo {k i : ℕ} {y : ComplexPair R} (h : foldedUpTo n weight x k i = some y) :
    foldedValues n weight x i = y := by
  unfold foldedUpTo at h
  split at h
  · exact Option.some.inj h
  · cases h

/-- One round folds the bin at `k` and the one as far from the end. -/
lemma emits_foldRound {folded : List ComplexSymbol} (hlt : 2 * n < 2 ^ 62)
    (hlength : folded.length = n / 2) (hc : ∀ k < n, coeffs[k]? = some (weight k))
    (hx : ∀ i < n, S.value (.input i) = some (x i)) {k : ℕ} (hn : 0 < n / 2) (hk : 2 * k ≤ n / 2)
    (h : Bundle S folded (foldedUpTo n weight x k) S₁) :
    Emits S₁ (do
      if k = 0 then foldFirst coeffs (n / 2) (← Build.entry folded.toArray 0)
      else if 2 * k = n / 2 then
        let angle ← Build.ofFaulty (Angle.ofRatio (-Int.ofNat k) (2 * Int.ofNat n))
        loadRotated coeffs (← Build.entry folded.toArray k) 1.0 k (n - k) angle
      else
        foldPair n coeffs k (← Build.entry folded.toArray k)
          (← Build.entry folded.toArray (n / 2 - k))) fun _ S₂ =>
      Bundle S folded (foldedUpTo n weight x (k + 1)) S₂ := by
  have hx₁ (i : ℕ) (hi : i < n) : S₁.value (.input i) = some (x i) := h.base (hx i hi)
  have hget := List.getElem?_eq_getElem (l := folded) (i := k) (by omega)
  split
  · -- the first bin is real and goes together with the one in the middle of the spectrum
    rename_i hzero
    subst hzero
    refine (emits_entry hget).read ?_
    refine (emits_foldFirst hc hx₁ (by omega) (h.writablePair hget)).mono fun _ S₂ hS => ?_
    rw [hS]
    refine (h.put hget _).congr fun i hi y hy => ?_
    by_cases hi0 : i = 0
    · subst hi0
      rw [Function.update_self, ← eq_of_foldedUpTo hy, foldedValues, if_pos rfl]
    · rw [Function.update_of_ne hi0]
      exact foldedUpTo_succ hi0 (by omega) hy
  split
  · -- the bin in the middle is its own partner, and is left where it was loaded
    rename_i hpos hmiddle
    refine (Emits.ofFaulty (ofRatio_binAngle (by omega) hlt (by omega))).read ?_
    refine (emits_entry hget).read ?_
    refine (emits_loadRotated hc hx₁ (by omega) (by omega) (h.writablePair hget) _ _).mono ?_
    rintro _ S₂ ⟨hoff, hpair⟩
    refine (h.update hget hoff hpair).congr fun i hi y hy => ?_
    by_cases hik : i = k
    · subst hik
      rw [Function.update_self, ← eq_of_foldedUpTo hy, foldedValues, if_neg hpos, if_pos hmiddle]
    · rw [Function.update_of_ne hik]
      exact foldedUpTo_succ hik (by omega) hy
  · -- two bins that are as far from either end are folded into each other
    rename_i hpos hmiddle
    have hget' := List.getElem?_eq_getElem (l := folded) (i := n / 2 - k) (by omega)
    refine (emits_entry hget).read ((emits_entry hget').read ?_)
    refine (emits_foldPair hc hx₁ hlt (by omega) (by omega) (h.writablePair hget)
      (h.writablePair hget')).mono fun _ S₂ hS => ?_
    rw [hS]
    refine ((h.put hget _).put hget' _).congr fun i hi y hy => ?_
    by_cases himk : i = n / 2 - k
    · have hback : n / 2 - (n / 2 - k) = k := by omega
      rw [himk, Function.update_self, ← eq_of_foldedUpTo hy, himk, foldedValues,
        if_neg (by omega), if_neg (by omega), if_neg (by omega), hback]
    · rw [Function.update_of_ne himk]
      by_cases hik : i = k
      · rw [hik, Function.update_self, ← eq_of_foldedUpTo hy, hik, foldedValues, if_neg hpos,
          if_neg hmiddle, if_pos (by omega)]
      · rw [Function.update_of_ne hik]
        exact foldedUpTo_succ hik (by omega) hy

lemma emits_foldAll {folded : List ComplexSymbol} (hn : 0 < n / 2) (hlt : 2 * n < 2 ^ 62)
    (hlength : folded.length = n / 2) (hc : ∀ k < n, coeffs[k]? = some (weight k))
    (hx : ∀ i < n, S.value (.input i) = some (x i)) (h : Bundle S folded (fun _ => none) S₁) :
    Emits S₁ (foldAll n coeffs folded.toArray) fun _ S₂ =>
      Bundle S folded (known (foldedValues n weight x)) S₂ := by
  refine (Emits.forM (I := fun k S₂ => Bundle S folded (foldedUpTo n weight x k) S₂) ?_ ?_).mono ?_
  · exact h.congr fun i _ y hy => by simp [foldedUpTo] at hy
  · intro k hk S₂ h₂
    rw [List.length_range] at hk
    rw [List.getElem_range]
    exact emits_foldRound hlt hlength hc hx hn (by omega) h₂
  · intro _ S₂ h₂
    rw [List.length_range] at h₂
    exact h₂.congr fun i hi y hy => (if_pos (by omega)).trans hy

/-! ### Both parts -/

/-- The part of the code that reads the bins. Gives the values, and where the pairs of results are
among them. -/
def inverseFront (n : ℕ) (coeffs : Array R) : Build R (List ComplexSymbol × Permutation) := do
  Build.ofSized (checkSize n)
  let folded ← Build.allocComplexes (n / 2)
  Build.comment "pre-rotation"
  foldAll n coeffs folded.toArray
  Build.comment s!"{n / 2}-point FFT"
  let order ← Fourier.unroll folded.toArray
  return (folded, order)

/-- The part of the code that stores the results. -/
def inverseBack (n : ℕ) (values : List ComplexSymbol × Permutation) : Build R Unit := do
  Build.comment "unpack"
  storeSamples n values.1.toArray values.2
  values.1.forM Build.releaseComplex

lemma emitInverse_eq (n : ℕ) (coeffs : Array R) :
    emitInverse n coeffs = inverseFront n coeffs >>= inverseBack n := by
  simp only [emitInverse, inverseFront, inverseBack, bind_assoc, pure_bind]

/-- Behind the first part, the pairs of results are in temporaries, and no others were taken. -/
def KeepsPairs (n : ℕ) (f : ℕ → ComplexPair R) (S : Scene R)
    (values : List ComplexSymbol × Permutation) (S₁ : Scene R) : Prop :=
  values.1.length = n / 2 ∧ Permutation.IsBijective values.2.map ∧ values.2.size = n / 2 ∧
    ∃ g, Bundle S values.1 (known g) S₁ ∧ ∀ p < n / 2, g (values.2.image p) = f p

/-- The first part keeps the pairs of results in temporaries. -/
theorem emits_inverseFront (hn : n % 2 = 0) (hsmooth : n / 2 ∈ Nat.smoothNumbers 6)
    (hlt : 2 * n < 2 ^ 62) (hc : ∀ k < n, coeffs[k]? = some (weight k))
    (hx : ∀ i < n, S.value (.input i) = some (x i)) :
    Emits S (inverseFront n coeffs)
      (KeepsPairs n (transformed unrolledTurn (n / 2) (foldedValues n weight x)) S) := by
  have hpos : 0 < n / 2 := Nat.pos_of_ne_zero (Nat.ne_zero_of_mem_smoothNumbers hsmooth)
  refine (Emits.ofSized (checkSize_eq_ok hn hsmooth)).read ?_
  refine ((Bundle.nil S _).allocComplexes (n / 2)).bind ?_
  rintro folded S₁ ⟨hlength, h₁⟩
  rw [List.nil_append] at h₁
  refine (Emits.comment _).then_ fun _ => ?_
  refine (emits_foldAll hpos hlt hlength hc hx h₁).bind fun _ S₂ h₂ => ?_
  refine (Emits.comment _).then_ fun _ => ?_
  refine (Fourier.emits_unroll h₂
    (hasPlan_of_mem_smoothNumbers (hlength ▸ hsmooth) (by omega))).bind ?_
  rintro order S₃ ⟨hbijective, hsize, g, h₃, hg⟩
  rw [hlength] at hsize hg
  exact Emits.pure ⟨hlength, hbijective, hsize, g, h₃, hg⟩

/-- The second part stores the results and keeps no temporary. -/
theorem emits_inverseBack {values : List ComplexSymbol × Permutation} {f : ℕ → ComplexPair R}
    (hn : n % 2 = 0) (hvalues : KeepsPairs n f S values S₁)
    (hout : ∀ k < n, S.Writable (.output k)) :
    Emits S₁ (inverseBack n values) fun _ S' =>
      S' = S.storeAll (outputsOf (resultOfPairs n f) n) := by
  obtain ⟨hlength, hbijective, hsize, g, h, hg⟩ := hvalues
  refine (Emits.comment _).then_ fun _ => ?_
  refine (Emits.forM (I := fun k S' => Bundle (S.storeAll (outputsOf (resultOfPairs n f) k))
    values.1 (known g) S') h ?_).bind fun _ S₂ h₂ => ?_
  · intro k hk S' h'
    rw [List.length_range] at hk
    have hplace : packedPlace n k / 2 < n / 2 := by
      have := packedPlace_lt hk
      omega
    have himage : values.2.image (packedPlace n k / 2) < values.1.length := by
      rw [hlength, ← hsize]
      exact Permutation.image_lt hbijective (hsize ▸ hplace)
    have hget := List.getElem?_eq_getElem himage
    have hwritable : (S.storeAll (outputsOf (resultOfPairs n f) k)).Writable (.output k) :=
      (hout k hk).storeAll _
    rw [List.getElem_range, outputsOf_succ, Scene.storeAll_concat]
    refine (Emits.entry (Permutation.getElem?_map (hsize ▸ hplace))).read
      ((emits_entry hget).read ?_)
    have hpair := h'.hasPair hget rfl
    rw [hg _ hplace] at hpair
    unfold resultOfPairs at hwritable ⊢
    -- the two samples of a pair are its parts
    split
    · exact h'.emits_store hwritable rfl (.sym hpair.1)
    · exact h'.emits_store hwritable rfl (.sym hpair.2)
  · rw [List.length_range] at h₂
    exact h₂.releaseAll

/-- The code of an inverse transform stores its results. -/
theorem emits_emitInverse (hn : n % 2 = 0) (hsmooth : n / 2 ∈ Nat.smoothNumbers 6)
    (hlt : 2 * n < 2 ^ 62) (hc : ∀ k < n, coeffs[k]? = some (weight k))
    (hx : ∀ i < n, S.value (.input i) = some (x i)) (hout : ∀ k < n, S.Writable (.output k)) :
    Emits S (emitInverse n coeffs) fun _ S' =>
      S' = S.storeAll (outputsOf (inverse n weight x) n) := by
  rw [emitInverse_eq]
  exact (emits_inverseFront hn hsmooth hlt hc hx).bind fun values S₁ hvalues =>
    emits_inverseBack hn hvalues hout

end MixedRadix.Cosine
