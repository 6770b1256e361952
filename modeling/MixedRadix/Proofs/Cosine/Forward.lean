import MixedRadix.Proofs.Cosine.Algorithm
import MixedRadix.Proofs.Cosine.Results

/-!
# Code of forward cosine transforms

The code of a forward cosine transform computes what `Cosine.forward` says, operation by operation
and for every arithmetic (`emits_emitForward`). It comes in two parts: the first one reads the
samples and keeps the bins in temporaries (`forwardFront`), the second one stores the results
(`forwardBack`).
-/

namespace MixedRadix.Cosine

open Fourier (transformed unrolledTurn known emits_entry emits_rotate congr_known put_known)

variable {R : Type} [Scalar R] {S S₁ : Scene R}

/-! ### Splitting bins -/

section Split

variable {x1 x2 first last : ComplexSymbol} {a b z : ComplexPair R}

lemma emits_splitFirst (hz : S.HasPair first z) (hfirst : S.WritablePair first)
    (hlast : S.WritablePair last) :
    Emits S (splitFirst first last) fun _ S' =>
      S' = (S.put first (firstSplit z).1).put last (firstSplit z).2 := by
  refine (Scratch.refl S).allocTemp fun t0 _ hs => hs.allocTemp fun t1 _ hs => ?_
  refine hs.assign_blank (.add (.sym (hs.base hz.1)) (.sym (hs.base hz.2))) fun _ hs => ?_
  refine hs.assign_blank (.sub (.sym (hs.base hz.1)) (.sym (hs.base hz.2))) fun _ hs => ?_
  refine hs.put hfirst (z := (firstSplit z).1) (.sym (hs.fact 0 rfl)) (fun _ hs => .lit _)
    fun _ hs => ?_
  refine hs.put (hlast.put _ _) (z := (firstSplit z).2) (.sym (hs.fact 1 rfl)) (fun _ hs => .lit _)
    fun _ hs => ?_
  exact hs.release_first.bind fun _ _ hs => hs.release_last

lemma emits_splitPair (ha : S.HasPair x1 a) (hb : S.HasPair x2 b) (h1 : S.WritablePair x1)
    (h2 : S.WritablePair x2) (angle : Angle) :
    Emits S (splitPair x1 x2 angle) fun _ S' =>
      S' = (S.put x1 (pairSplit angle a b).1).put x2 (pairSplit angle a b).2 := by
  refine (Scratch.refl S).allocTemp fun t1 _ hs => hs.allocTemp fun t2 _ hs =>
    hs.allocTemp fun t3 _ hs => hs.allocTemp fun t4 _ hs => ?_
  refine hs.assign_blank (.add (.sym (hs.base ha.1)) (.sym (hs.base hb.1))) fun _ hs => ?_
  refine hs.assign_blank (.sub (.sym (hs.base ha.2)) (.sym (hs.base hb.2))) fun _ hs => ?_
  refine hs.assign_blank (.add (.sym (hs.base ha.2)) (.sym (hs.base hb.2))) fun _ hs => ?_
  refine hs.assign_blank (.sub (.sym (hs.base hb.1)) (.sym (hs.base ha.1))) fun _ hs => ?_
  refine Scratch.rotate [(t1, a.re + b.re), (t2, a.im - b.im)] [] ⟨a.im + b.im, b.re - a.re⟩ hs
    angle none fun _ hs => ?_
  refine hs.put h1 (z := (pairSplit angle a b).1)
    (.add (.sym (hs.fact 0 rfl)) (.sym (hs.fact 2 rfl)))
    (fun _ hs => .add (.sym (hs.fact 1 rfl)) (.sym (hs.fact 3 rfl))) fun _ hs => ?_
  refine hs.put (h2.put _ _) (z := (pairSplit angle a b).2)
    (.sub (.sym (hs.fact 0 rfl)) (.sym (hs.fact 2 rfl)))
    (fun _ hs => .sub (.sym (hs.fact 3 rfl)) (.sym (hs.fact 1 rfl))) fun _ hs => ?_
  exact hs.release_all rfl

lemma emits_splitMiddle (ha : S.HasPair x1 a) (h1 : S.WritablePair x1) (angle : Angle) :
    Emits S (splitMiddle x1 angle) fun _ S' => S' = S.put x1 (middleSplit angle a) := by
  refine (Scratch.refl S).allocTemp fun t1 _ hs => hs.allocTemp fun t3 _ hs =>
    hs.allocTemp fun t4 _ hs => ?_
  refine hs.assign_blank (.add (.sym (hs.base ha.1)) (.sym (hs.base ha.1))) fun _ hs => ?_
  refine hs.assign_blank (.add (.sym (hs.base ha.2)) (.sym (hs.base ha.2))) fun _ hs => ?_
  refine hs.assign_blank (.sub (.sym (hs.base ha.1)) (.sym (hs.base ha.1))) fun _ hs => ?_
  refine Scratch.rotate [(t1, a.re + a.re)] [] ⟨a.im + a.im, a.re - a.re⟩ hs angle none
    fun _ hs => ?_
  refine hs.put h1 (z := middleSplit angle a) (.add (.sym (hs.fact 0 rfl)) (.sym (hs.fact 1 rfl)))
    (fun _ hs => .sym (hs.fact 2 rfl)) fun _ hs => ?_
  exact hs.release_all rfl

end Split

/-! ### Loops over bins -/

variable {n : ℕ} {bins : List ComplexSymbol} {g : ℕ → ComplexPair R}

/-- The bins when those up to `c`, and as far from the end, have been split. -/
def splitUpTo (n : ℕ) (g : ℕ → ComplexPair R) (c i : ℕ) : ComplexPair R :=
  if i = 0 ∨ n / 2 ≤ i ∨ i ≤ c ∨ n / 2 - i ≤ c then splitBins n g i else g i

lemma splitUpTo_done {c i : ℕ} (h : i = 0 ∨ n / 2 ≤ i ∨ i ≤ c ∨ n / 2 - i ≤ c) :
    splitUpTo n g c i = splitBins n g i :=
  if_pos h

lemma splitUpTo_open {c i : ℕ} (h : ¬(i = 0 ∨ n / 2 ≤ i ∨ i ≤ c ∨ n / 2 - i ≤ c)) :
    splitUpTo n g c i = g i :=
  if_neg h

/-- A round splits the bin behind `c` and its partner, if they are not split yet, and no other. -/
lemma splitUpTo_succ {c i : ℕ} (h : i = c + 1 ∨ n / 2 - i = c + 1 →
    i = 0 ∨ n / 2 ≤ i ∨ i ≤ c ∨ n / 2 - i ≤ c) : splitUpTo n g (c + 1) i = splitUpTo n g c i := by
  have hiff : (i = 0 ∨ n / 2 ≤ i ∨ i ≤ c + 1 ∨ n / 2 - i ≤ c + 1) ↔
      (i = 0 ∨ n / 2 ≤ i ∨ i ≤ c ∨ n / 2 - i ≤ c) := by omega
  simp only [splitUpTo, hiff]

/-- One round splits the bins at `c + 1` and as far from the end. -/
lemma emits_splitRound (hn : 0 < n) (hlt : 2 * n < 2 ^ 62) (hlength : bins.length = n / 2 + 1)
    {c : ℕ} (hc : c + 1 < n / 2) (h : Bundle S bins (known (splitUpTo n g c)) S₁) :
    Emits S₁ (do
      let angle ← Build.ofFaulty (Angle.ofRatio (-2 * Int.ofNat (c + 1)) (Int.ofNat n))
      if c + 1 < n / 2 - (c + 1) then
        splitPair (← Build.entry bins.toArray (c + 1))
          (← Build.entry bins.toArray (n / 2 - (c + 1))) angle
      else if c + 1 = n / 2 - (c + 1) then
        splitMiddle (← Build.entry bins.toArray (c + 1)) angle) fun _ S₂ =>
      Bundle S bins (known (splitUpTo n g (c + 1))) S₂ := by
  refine (Emits.ofFaulty (ofRatio_splitAngle hn hlt hc.le)).read ?_
  have hget := List.getElem?_eq_getElem (l := bins) (i := c + 1) (by omega)
  have hget' := List.getElem?_eq_getElem (l := bins) (i := n / 2 - (c + 1)) (by omega)
  split
  · -- two bins that no round before has split
    rename_i hpair
    have hk : splitUpTo n g c (c + 1) = g (c + 1) := splitUpTo_open (by omega)
    have hmk : splitUpTo n g c (n / 2 - (c + 1)) = g (n / 2 - (c + 1)) := splitUpTo_open (by omega)
    refine (emits_entry hget).read ((emits_entry hget').read ?_)
    refine (emits_splitPair (h.hasPair hget rfl) (h.hasPair hget' rfl) (h.writablePair hget)
      (h.writablePair hget') _).mono fun _ S₂ hS => ?_
    rw [hS, hk, hmk]
    refine congr_known (put_known (put_known h hget _) hget' _) fun i hi => ?_
    by_cases hilast : i = n / 2 - (c + 1)
    · have hback : n / 2 - (n / 2 - (c + 1)) = c + 1 := by omega
      rw [hilast, Function.update_self, splitUpTo_done (by omega), splitBins, if_neg (by omega),
        if_neg (by omega), if_neg (by omega), if_neg (by omega), hback]
    · rw [Function.update_of_ne hilast]
      by_cases hifirst : i = c + 1
      · rw [hifirst, Function.update_self, splitUpTo_done (by omega), splitBins, if_neg (by omega),
          if_neg (by omega), if_pos hpair]
      · rw [Function.update_of_ne hifirst]
        exact splitUpTo_succ (by omega)
  · rename_i hpair
    split
    · -- the bin in the middle is its own partner
      rename_i hmiddle
      have hk : splitUpTo n g c (c + 1) = g (c + 1) := splitUpTo_open (by omega)
      refine (emits_entry hget).read ?_
      refine (emits_splitMiddle (h.hasPair hget rfl) (h.writablePair hget) _).mono fun _ S₂ hS => ?_
      rw [hS, hk]
      refine congr_known (put_known h hget _) fun i hi => ?_
      by_cases hifirst : i = c + 1
      · rw [hifirst, Function.update_self, splitUpTo_done (by omega), splitBins, if_neg (by omega),
          if_neg (by omega), if_neg hpair, if_pos hmiddle]
      · rw [Function.update_of_ne hifirst]
        exact splitUpTo_succ (by omega)
    · -- the pair was split in an earlier round
      exact Emits.pure (congr_known h fun i hi => splitUpTo_succ (by omega))

lemma emits_splitRest (hn : 0 < n) (hlt : 2 * n < 2 ^ 62) (hlength : bins.length = n / 2 + 1)
    (h : Bundle S bins (known (splitUpTo n g 0)) S₁) :
    Emits S₁ (splitRest n bins.toArray) fun _ S₂ => Bundle S bins (known (splitBins n g)) S₂ := by
  refine (Emits.forM (I := fun c S₂ => Bundle S bins (known (splitUpTo n g c)) S₂) h ?_).mono ?_
  · intro c hc S₂ h₂
    rw [List.length_range'] at hc
    rw [List.getElem_range', one_mul, add_comm 1 c]
    exact emits_splitRound hn hlt hlength (by omega) h₂
  · intro _ S₂ h₂
    rw [List.length_range'] at h₂
    exact congr_known h₂ fun i hi => (splitUpTo_done (by omega)).symm

/-- The bins when those up to `c` have been rotated. -/
def rotatedUpTo (n : ℕ) (g : ℕ → ComplexPair R) (c i : ℕ) : ComplexPair R :=
  if i ≤ c then rotatedBins n g i else g i

lemma emits_rotateBins (hn : 0 < n) (hlt : 2 * n < 2 ^ 62) (hlength : bins.length = n / 2 + 1)
    (h : Bundle S bins (known g) S₁) :
    Emits S₁ (rotateBins n bins.toArray) fun _ S₂ =>
      Bundle S bins (known (rotatedBins n g)) S₂ := by
  refine (Emits.forM (I := fun c S₂ => Bundle S bins (known (rotatedUpTo n g c)) S₂) ?_ ?_).mono ?_
  · -- the loop starts behind the first bin, which is not rotated
    refine congr_known h fun i _ => ?_
    unfold rotatedUpTo
    split
    · rename_i hi
      rw [Nat.le_zero.1 hi, rotatedBins, if_pos rfl]
    · rfl
  · intro c hc S₂ h₂
    rw [List.length_range'] at hc
    rw [List.getElem_range', one_mul, add_comm 1 c]
    have hget := List.getElem?_eq_getElem (l := bins) (i := c + 1) (by omega)
    have hopen : rotatedUpTo n g c (c + 1) = g (c + 1) := if_neg (by omega)
    refine (Emits.ofFaulty (ofRatio_binAngle hn hlt (by omega))).read ((emits_entry hget).read ?_)
    refine (emits_rotate h₂ hget _ _).mono fun _ S₃ h₃ => ?_
    rw [hopen] at h₃
    refine congr_known h₃ fun i _ => ?_
    by_cases hi : i = c + 1
    · rw [hi, Function.update_self, rotatedUpTo, if_pos le_rfl, rotatedBins,
        if_neg (Nat.succ_ne_zero c)]
      rfl
    · have hiff : i ≤ c + 1 ↔ i ≤ c := by omega
      simp only [Function.update_of_ne hi, rotatedUpTo, hiff]
  · intro _ S₂ h₂
    rw [List.length_range'] at h₂
    exact congr_known h₂ fun i hi => (if_pos (by omega)).symm

/-! ### Both parts -/

/-- The part of the code that reads the samples. Gives the values in the order in which they were
taken, and as bins. -/
def forwardFront (n : ℕ) : Build R (List ComplexSymbol × List ComplexSymbol) := do
  Build.ofSized (checkSize n)
  Build.comment "pack"
  let packed ← Build.allocComplexes (n / 2)
  packed.zipIdx.forM fun (value, i) => do
    Build.assign value.re (Symbol.input (evenOdd n (2 * i)))
    Build.assign value.im (Symbol.input (evenOdd n (2 * i + 1)))
  Build.comment s!"{n / 2}-point FFT"
  let order ← Fourier.unroll packed.toArray
  let found ← (List.range (n / 2)).mapM fun k => do
    Build.entry packed.toArray (← Build.entry order.map k)
  let last ← Build.allocComplex
  Build.comment "split"
  splitFirst (← Build.entry (found ++ [last]).toArray 0) last
  splitRest n (found ++ [last]).toArray
  Build.comment "post-rotation"
  rotateBins n (found ++ [last]).toArray
  return (packed ++ [last], found ++ [last])

/-- The part of the code that stores the results. -/
def forwardBack (n : ℕ) (coeffs : Array R) (values : List ComplexSymbol × List ComplexSymbol) :
    Build R Unit := do
  Build.comment "store"
  storeBins n coeffs values.2.toArray
  values.1.forM Build.releaseComplex

lemma emitForward_eq (n : ℕ) (coeffs : Array R) :
    emitForward n coeffs = forwardFront n >>= forwardBack n coeffs := by
  have hrelease (packed : List ComplexSymbol) (last : ComplexSymbol) :
      ((packed ++ [last]).forM Build.releaseComplex : Build R Unit) =
        packed.forM Build.releaseComplex >>= fun _ => Build.releaseComplex last := by
    change (forM (packed ++ [last]) Build.releaseComplex : Build R Unit) = _
    rw [List.forM_append]
    simp
  simp only [emitForward, forwardFront, forwardBack, bind_assoc, pure_bind, hrelease]

/-- Behind the first part, the bins are in temporaries, which are all that were taken. -/
def KeepsBins (n : ℕ) (f : ℕ → ComplexPair R) (S : Scene R)
    (values : List ComplexSymbol × List ComplexSymbol) (S₁ : Scene R) : Prop :=
  values.1.Perm values.2 ∧ values.2.length = n / 2 + 1 ∧ Bundle S values.2 (known f) S₁

/-- The results of the transform of pairs are picked by their places. -/
lemma emits_pick {packed : List ComplexSymbol} {order : Permutation} {f : ℕ → ComplexPair R}
    (hlength : packed.length = n / 2) (hbijective : Permutation.IsBijective order.map)
    (hsize : order.size = n / 2) (h : Bundle S packed (known g) S₁)
    (hg : ∀ k < n / 2, g (order.image k) = f k) :
    Emits S₁ ((List.range (n / 2)).mapM fun k => do
      Build.entry packed.toArray (← Build.entry order.map k) : Build R (List ComplexSymbol))
      fun found S₂ => found.Perm packed ∧
        Bundle S found (fun i => if i < n / 2 then some (f i) else none) S₂ := by
  refine (Emits.mapM (P := fun k v => packed[order.image k]? = some v) fun k hk => ?_).mono ?_
  · have hk' : k < order.size := hsize ▸ List.mem_range.1 hk
    have himage : order.image k < packed.length := by
      rw [hlength, ← hsize]
      exact Permutation.image_lt hbijective hk'
    have hget := List.getElem?_eq_getElem himage
    refine (Emits.entry (Permutation.getElem?_map hk')).read ((emits_entry hget).mono ?_)
    rintro _ _ ⟨rfl, rfl⟩
    exact ⟨hget, rfl⟩
  · rintro found S₂ ⟨hfound, hS⟩
    rw [hS]
    rw [← hlength] at hfound
    have hperm := Permutation.perm_of_picked hbijective (hsize.trans hlength.symm) hfound
    refine ⟨hperm, h.reorder hperm fun i v y hi hy => ?_⟩
    have hilt := (List.getElem?_eq_some_iff.1 hi).1
    have hilt' : i < n / 2 := hlength ▸ hperm.length_eq ▸ hilt
    rw [if_pos hilt', Option.some.injEq] at hy
    have hpicked := (List.forall₂_iff_get.1 hfound).2 i (by simpa [hlength] using hilt') hilt
    obtain ⟨_, rfl⟩ := List.getElem?_eq_some_iff.1 hi
    refine ⟨order.image i, by simpa using hpicked, ?_⟩
    rw [known, hg i hilt', hy]

/-- Splitting the first value starts the splitting of all bins. -/
lemma splitUpTo_zero (hn : 0 < n / 2) {i : ℕ} (hi : i ≤ n / 2) :
    some (splitUpTo n g 0 i) = Function.update (Function.update
      (fun i => if i < n / 2 then some (g i) else none) 0 (some (firstSplit (g 0)).1)) (n / 2)
      (some (firstSplit (g 0)).2) i := by
  rcases hi.eq_or_lt with rfl | hlt
  · rw [Function.update_self, splitUpTo_done (by omega), splitBins, if_neg hn.ne', if_pos le_rfl]
  · rw [Function.update_of_ne hlt.ne]
    by_cases hzero : i = 0
    · rw [hzero, Function.update_self, splitUpTo_done (Or.inl rfl), splitBins, if_pos rfl]
    · rw [Function.update_of_ne hzero, if_pos hlt, splitUpTo_open (by omega)]

/-- The first part keeps the bins in temporaries. -/
theorem emits_forwardFront (hn : n % 2 = 0) (hsmooth : n / 2 ∈ Nat.smoothNumbers 6)
    (hlt : 2 * n < 2 ^ 62) {x : ℕ → R} (hx : ∀ i < n, S.value (.input i) = some (x i)) :
    Emits S (forwardFront n) (KeepsBins n (forwardBins n x) S) := by
  have hpos : 0 < n / 2 := Nat.pos_of_ne_zero (Nat.ne_zero_of_mem_smoothNumbers hsmooth)
  refine (Emits.ofSized (checkSize_eq_ok hn hsmooth)).read ?_
  -- the samples are loaded in pairs, and transformed
  refine (Emits.comment _).then_ fun _ => ?_
  refine ((Bundle.nil S _).allocComplexes (n / 2)).bind ?_
  rintro values S₁ ⟨hlength, h₁⟩
  rw [List.nil_append] at h₁
  refine (h₁.load (g := fun i => (.input (evenOdd n (2 * i)), .input (evenOdd n (2 * i + 1))))
    (y := packed n x) fun i hi => ?_).bind fun _ S₂ h₂ => ?_
  · exact ⟨hx _ (evenOdd_lt (i := 2 * i) hn (by omega)),
      hx _ (evenOdd_lt (i := 2 * i + 1) hn (by omega))⟩
  refine (Emits.comment _).then_ fun _ => ?_
  refine (Fourier.emits_unroll (f := packed n x) h₂
    (hasPlan_of_mem_smoothNumbers (hlength ▸ hsmooth) (by omega))).bind ?_
  rintro order S₃ ⟨hbijective, hsize, g, h₃, hg⟩
  rw [hlength] at hsize hg
  -- their bins are found in the natural order, with room for one more at the end
  refine (emits_pick hlength hbijective hsize h₃ hg).bind ?_
  rintro found S₄ ⟨hperm, h₄⟩
  have hfound : found.length = n / 2 := hperm.length_eq.trans hlength
  refine (h₄.allocComplex (if_neg (by omega))).bind fun last S₅ h₅ => ?_
  have hbins : (found ++ [last]).length = n / 2 + 1 := by simp [hfound]
  have hfirst := List.getElem?_eq_getElem (l := found ++ [last]) (i := 0) (by simp)
  have hlast : (found ++ [last])[n / 2]? = some last := by simp [← hfound]
  -- the first one gives both ends of the spectrum, the others are split two by two
  refine (Emits.comment _).then_ fun _ => (emits_entry hfirst).read ?_
  refine (emits_splitFirst (h₅.hasPair hfirst (if_pos hpos)) (h₅.writablePair hfirst)
    (h₅.writablePair hlast)).then_ fun _ => ?_
  have h₆ : Bundle S (found ++ [last])
      (known (splitUpTo n (transformed unrolledTurn (n / 2) (packed n x)) 0)) _ :=
    ((h₅.put hfirst _).put hlast _).congr fun i hi y hy =>
      (splitUpTo_zero hpos (by omega)).symm.trans hy
  refine (emits_splitRest (by omega) hlt hbins h₆).bind fun _ S₇ h₇ => ?_
  refine (Emits.comment _).then_ fun _ => ?_
  refine (emits_rotateBins (by omega) hlt hbins h₇).bind fun _ S₈ h₈ => ?_
  exact Emits.pure ⟨hperm.symm.append_right [last], hbins, h₈⟩

/-- The second part stores the results and keeps no temporary. -/
theorem emits_forwardBack {coeffs : Array R} {weight : ℕ → R}
    (hc : ∀ k < n, coeffs[k]? = some (weight k))
    {values : List ComplexSymbol × List ComplexSymbol} {f : ℕ → ComplexPair R}
    (hvalues : KeepsBins n f S values S₁) (hout : ∀ k < n, S.Writable (.output k)) :
    Emits S₁ (forwardBack n coeffs values) fun _ S' =>
      S' = S.storeAll (outputsOf (resultOfBins n weight f) n) := by
  obtain ⟨hperm, hlength, h⟩ := hvalues
  refine (Emits.comment _).then_ fun _ => ?_
  refine (Emits.forM (I := fun k S' => Bundle (S.storeAll (outputsOf (resultOfBins n weight f) k))
    values.2 (known f) S') h ?_).bind fun _ S₂ h₂ => ?_
  · intro k hk S' h'
    rw [List.length_range] at hk
    have hwritable : (S.storeAll (outputsOf (resultOfBins n weight f) k)).Writable (.output k) :=
      (hout k hk).storeAll _
    rw [List.getElem_range, outputsOf_succ, Scene.storeAll_concat]
    unfold resultOfBins at hwritable ⊢
    -- a bin up to the middle gives its real part, and one behind it is the other part of the bin
    -- as far from the end
    split
    · have hget := List.getElem?_eq_getElem (l := values.2) (i := k) (by omega)
      refine (emits_entry hget).read ((Emits.entry (hc k hk)).read ?_)
      exact h'.emits_store hwritable rfl (yields_binAsIs (h'.hasPair hget rfl).1 _)
    · have hget := List.getElem?_eq_getElem (l := values.2) (i := n - k) (by omega)
      refine (emits_entry hget).read ((Emits.entry (hc k hk)).read ?_)
      exact h'.emits_store hwritable rfl (yields_binNegated (h'.hasPair hget rfl).2 _)
  · rw [List.length_range] at h₂
    have hall : Bundle _ values.1 (fun _ => none) S₂ := h₂.reorder hperm (by simp)
    exact hall.releaseAll

/-- The code of a forward transform stores its results. -/
theorem emits_emitForward (hn : n % 2 = 0) (hsmooth : n / 2 ∈ Nat.smoothNumbers 6)
    (hlt : 2 * n < 2 ^ 62) {coeffs : Array R} {weight x : ℕ → R}
    (hc : ∀ k < n, coeffs[k]? = some (weight k))
    (hx : ∀ i < n, S.value (.input i) = some (x i)) (hout : ∀ k < n, S.Writable (.output k)) :
    Emits S (emitForward n coeffs) fun _ S' =>
      S' = S.storeAll (outputsOf (forward n weight x) n) := by
  rw [emitForward_eq]
  exact (emits_forwardFront hn hsmooth hlt hx).bind fun values S₁ hvalues =>
    emits_forwardBack hc hvalues hout

end MixedRadix.Cosine
