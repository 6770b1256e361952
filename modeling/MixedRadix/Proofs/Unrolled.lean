import MixedRadix.Fourier.Unrolled
import MixedRadix.Proofs.Bundle
import MixedRadix.Proofs.Requests
import MixedRadix.Proofs.Rotation

/-!
# Unrolled transforms

The code of a request does to a bundle of complex values what the request says, operation by
operation, so that the code of a plan leaves the results of the transform (`Fourier.emits_unroll`).
Over exact scalars these are the spectrum of the values.
-/

namespace MixedRadix.Fourier

variable {R : Type} [Scalar R]

/-- Unrolled code rotates as its shape says, and without a gain. -/
def unrolledTurn (angle : Angle) (z : ComplexPair R) : ComplexPair R :=
  Rotation.turned angle none z

lemma isExactTurn_unrolledTurn : IsExactTurn unrolledTurn := fun angle z _ => by
  rw [unrolledTurn, Rotation.turned_ofComplex, Rotation.factor_none]

/-! ### Requests -/

variable {S S₁ : Scene R} {values : List ComplexSymbol} {f : ℕ → ComplexPair R}

/-- The contents of a bundle whose complex values are all known. -/
def known (f : ℕ → ComplexPair R) (i : ℕ) : Option (ComplexPair R) :=
  some (f i)

omit [Scalar R] in
lemma update_known (f : ℕ → ComplexPair R) (i : ℕ) (z : ComplexPair R) :
    Function.update (known f) i (some z) = known (Function.update f i z) := by
  funext j
  by_cases hj : j = i <;> simp [known, hj]

omit [Scalar R] in
lemma foldl_update_known (f : ℕ → ComplexPair R) (listed : List ℕ) (zs : List (ComplexPair R)) :
    (listed.zip (zs.map some)).foldl (fun z p => Function.update z p.1 p.2) (known f) =
      known ((listed.zip zs).foldl (fun f p => Function.update f p.1 p.2) f) := by
  induction listed generalizing f zs with
  | nil => rfl
  | cons i listed ih =>
    cases zs with
    | nil => rfl
    | cons z zs =>
      rw [List.map_cons, List.zip_cons_cons, List.foldl_cons, update_known, ih]
      rfl

omit [Scalar R] in
lemma congr_known (h : Bundle S values (known f) S₁) {g : ℕ → ComplexPair R}
    (hg : ∀ i < values.length, g i = f i) : Bundle S values (known g) S₁ :=
  h.congr fun i hi y hy => by rwa [known, hg i hi] at hy

omit [Scalar R] in
lemma put_known (h : Bundle S values (known f) S₁) {i : ℕ} {v : ComplexSymbol}
    (hi : values[i]? = some v) (z : ComplexPair R) :
    Bundle S values (known (Function.update f i z)) (S₁.put v z) :=
  update_known f i z ▸ h.put hi z

lemma emits_entry {i : ℕ} {v : ComplexSymbol} (hi : values[i]? = some v) :
    Emits S₁ (Build.entry values.toArray i : Build R ComplexSymbol) fun a S' => a = v ∧ S' = S₁ :=
  Emits.entry (by simpa using hi)

/-- One of the values is rotated. -/
lemma emits_rotate (h : Bundle S values (known f) S₁) {i : ℕ} {v : ComplexSymbol}
    (hi : values[i]? = some v) (angle : Angle) (gain : Option R) :
    Emits S₁ (Rotation.emit v angle gain) fun _ S₂ => Bundle S values
      (known (Function.update f i (Rotation.turned angle gain (f i)))) S₂ := by
  refine (Rotation.emits_emit (h.hasPair hi rfl) (h.writablePair hi) angle gain).mono ?_
  rintro _ S₂ ⟨hoff, hpair⟩
  rw [← update_known]
  exact h.update hi hoff hpair

lemma emits_unrollRequest (h : Bundle S values (known f) S₁) {r : Request}
    (hr : r.Fits {slot | slot < values.length}) :
    Emits S₁ (unrollRequest values.toArray r) fun _ S₂ =>
      Bundle S values (known (r.carryOut unrolledTurn f)) S₂ := by
  cases r with
  | butterfly radix listed =>
    obtain ⟨hnodup, hlength, hlt⟩ := hr
    refine (Emits.mapM (P := fun i v => values[i]? = some v) fun i hi => ?_).bind ?_
    · have hget := List.getElem?_eq_getElem (hlt i hi)
      exact (emits_entry hget).mono fun _ _ ⟨ha, hS⟩ => ⟨ha ▸ hget, hS⟩
    rintro group S₂ ⟨hgroup, hS⟩
    rw [hS]
    have hpairs : List.Forall₂ S₁.HasPair group (listed.map f) := by
      rw [List.forall₂_map_right_iff]
      exact hgroup.flip.imp fun v i hi => h.hasPair hi rfl
    have hwritable : ∀ v ∈ group, S₁.WritablePair v := fun v hv => by
      obtain ⟨k, hk, rfl⟩ := List.getElem_of_mem hv
      exact h.writablePair ((List.forall₂_iff_get.1 hgroup).2 k (hgroup.length_eq ▸ hk) hk)
    refine (Butterfly.emits_emit (hgroup.length_eq ▸ hlength) hpairs hwritable).mono
      fun _ S₂ hS => ?_
    rw [hS, Request.carryOut, ← foldl_update_known]
    exact h.putAll hgroup (ComplexPair.dft (listed.map f))
  | twiddle slot angle =>
    have hslot : slot < values.length := hr.1
    have hget := List.getElem?_eq_getElem hslot
    exact (emits_entry hget).read (emits_rotate h hget angle none)

/-- The code of a plan transforms the values, and the permutation tells where each result is. -/
theorem emits_unroll (h : Bundle S values (known f) S₁) (hplan : HasPlan values.length) :
    Emits S₁ (unroll values.toArray) fun order S₂ =>
      Permutation.IsBijective order.map ∧ order.size = values.length ∧
        ∃ g, Bundle S values (known g) S₂ ∧
          ∀ k < values.length, g (order.image k) = transformed unrolledTurn values.length f k := by
  obtain ⟨plan, order, hplan, horder, hbijective, hsize, hfits⟩ := hplan
  refine (Emits.ofSized (by simpa using hplan)).read ?_
  refine (Emits.forM (I := fun c S₂ => Bundle S values
    (known (Request.carryOutAll unrolledTurn (plan.requests.take c) f)) S₂) h ?_).bind ?_
  · intro c hc S₂ h₂
    rw [Request.carryOutAll_take_succ unrolledTurn hc]
    exact emits_unrollRequest h₂ (hfits _ (List.getElem_mem hc))
  · intro _ S₂ h₂
    rw [List.take_length] at h₂
    refine (Emits.ofFaulty horder).mono ?_
    rintro _ _ ⟨rfl, rfl⟩
    exact ⟨hbijective, hsize, _, h₂, fun k _ => (transformed_eq unrolledTurn hplan horder f k).symm⟩

/-! ### Kernels -/

/-- The first complex values, as results that are stored. -/
def resultsOf (x : ℕ → ComplexPair R) (count : ℕ) : List (Symbol × R) :=
  (List.range count).flatMap fun k => [(.real k, (x k).re), (.imag k, (x k).im)]

section ResultsOf

omit [Scalar R]

lemma resultsOf_succ (x : ℕ → ComplexPair R) (count : ℕ) :
    resultsOf x (count + 1) =
      (resultsOf x count ++ [(.real count, (x count).re)]) ++ [(.imag count, (x count).im)] := by
  simp [resultsOf, List.range_succ]

lemma mem_resultsOf {x : ℕ → ComplexPair R} {count k : ℕ} (hk : k < count) :
    (.real k, (x k).re) ∈ resultsOf x count ∧ (.imag k, (x k).im) ∈ resultsOf x count := by
  simp [resultsOf, hk]

lemma isTemp_of_mem_resultsOf {x : ℕ → ComplexPair R} {count : ℕ} :
    ∀ p ∈ resultsOf x count, p.1.isTemp = false := by
  simp only [resultsOf, List.mem_flatMap, List.mem_pair]
  rintro p ⟨k, -, rfl | rfl⟩ <;> rfl

lemma nodup_resultsOf (x : ℕ → ComplexPair R) (count : ℕ) :
    ((resultsOf x count).map Prod.fst).Nodup := by
  rw [resultsOf, List.map_flatMap, List.nodup_flatMap]
  refine ⟨by simp, List.nodup_range.imp fun {i j} hij => ?_⟩
  simp [Function.onFun, Ne.symm hij]

end ResultsOf

/-- Unrolled code of a transform stores the results in their natural order. -/
theorem emits_emitUnrolled {n : ℕ} (hplan : HasPlan n) {x : ℕ → ComplexPair R}
    (hx : ∀ i < n, S.value (.real i) = some (x i).re ∧ S.value (.imag i) = some (x i).im) :
    Emits S (emitUnrolled n) fun _ S' =>
      S' = S.storeAll (resultsOf (transformed unrolledTurn n x) n) := by
  refine ((Bundle.nil S _).allocComplexes n).bind ?_
  rintro loaded S₁ ⟨hlength, h₁⟩
  rw [List.nil_append] at h₁
  refine (Emits.comment _).then_ fun _ => ?_
  refine (h₁.load (g := fun i => (.real i, .imag i)) (y := x)
    fun i hi => hx i (hlength ▸ hi)).bind fun _ S₂ h₂ => ?_
  refine (Emits.comment _).then_ fun _ => ?_
  refine (emits_unroll (f := x) h₂ (hlength ▸ hplan)).bind ?_
  rintro order S₃ ⟨hbijective, hsize, g, h₃, hg⟩
  rw [hlength] at hsize hg
  refine (Emits.comment _).then_ fun _ => ?_
  refine (Emits.forM (I := fun c S' =>
    Bundle (S.storeAll (resultsOf (transformed unrolledTurn n x) c)) loaded (known g) S')
    h₃ ?_).bind fun _ S₄ h₄ => ?_
  · intro k hk S' h'
    have hk' : k < n := by simpa using hk
    have himage : order.image k < loaded.length :=
      hlength ▸ hsize ▸ Permutation.image_lt hbijective (hsize ▸ hk')
    have hget := List.getElem?_eq_getElem himage
    obtain ⟨hre, him⟩ := hx k hk'
    rw [List.getElem_range, resultsOf_succ, Scene.storeAll_concat, Scene.storeAll_concat]
    refine (Emits.entry (Permutation.getElem?_map (hsize ▸ hk'))).read ((emits_entry hget).read ?_)
    have hreal : (S.storeAll (resultsOf (transformed unrolledTurn n x) k)).Writable (.real k) :=
      Scene.Writable.storeAll (by simp [Scene.Writable, hre]) _
    have himag : (S.storeAll (resultsOf (transformed unrolledTurn n x) k)).Writable (.imag k) :=
      Scene.Writable.storeAll (by simp [Scene.Writable, him]) _
    rw [← hg k hk']
    refine (h'.emits_store hreal rfl (.sym (h'.hasPair hget rfl).1)).bind fun _ S'' h'' => ?_
    exact h''.emits_store ((himag.assign _).settle _) rfl (.sym (h''.hasPair hget rfl).2)
  · rw [List.length_range] at h₄
    exact h₄.releaseAll.then_ fun _ => Emits.pure rfl

end MixedRadix.Fourier
