import MixedRadix.Proofs.Butterfly

/-!
# Bundles of complex temporaries

A kernel keeps the values that it transforms in pairs of temporaries, which it takes at the start
and releases at the end. In between, its scene is one without them and a bundle on top (`Bundle`):
the pairs, of some of which the contents are known. Code that works on a pair changes the bundle at
its index alone.
-/

namespace MixedRadix

variable {R : Type}

/-- The symbols of some complex values. -/
def symbolsOf (values : List ComplexSymbol) : List Symbol :=
  values.flatMap fun v => [v.re, v.im]

section SymbolsOf

variable {values : List ComplexSymbol} {v w : ComplexSymbol} {i j : ℕ}

lemma mem_symbolsOf {s : Symbol} : s ∈ symbolsOf values ↔ ∃ v ∈ values, s = v.re ∨ s = v.im := by
  simp [symbolsOf]

lemma re_mem_symbolsOf (hv : v ∈ values) : v.re ∈ symbolsOf values :=
  mem_symbolsOf.2 ⟨v, hv, Or.inl rfl⟩

lemma im_mem_symbolsOf (hv : v ∈ values) : v.im ∈ symbolsOf values :=
  mem_symbolsOf.2 ⟨v, hv, Or.inr rfl⟩

lemma symbolsOf_append (values values' : List ComplexSymbol) :
    symbolsOf (values ++ values') = symbolsOf values ++ symbolsOf values' :=
  List.flatMap_append

/-- Different values of a list have no symbol in common. -/
lemma disjoint_of_nodup_symbolsOf (h : (symbolsOf values).Nodup) (hi : values[i]? = some v)
    (hj : values[j]? = some w) (hne : i ≠ j) : List.Disjoint [v.re, v.im] [w.re, w.im] := by
  have hpair := (List.nodup_flatMap.1 h).2
  rw [List.pairwise_iff_getElem] at hpair
  obtain ⟨hilt, rfl⟩ := List.getElem?_eq_some_iff.1 hi
  obtain ⟨hjlt, rfl⟩ := List.getElem?_eq_some_iff.1 hj
  rcases Nat.lt_or_gt_of_ne hne with hlt | hlt
  · exact hpair i j hilt hjlt hlt
  · exact (hpair j i hjlt hilt hlt).symm

lemma re_ne_im_of_nodup_symbolsOf (h : (symbolsOf values).Nodup) (hv : v ∈ values) :
    v.re ≠ v.im := by
  simpa using (List.nodup_flatMap.1 h).1 v hv

end SymbolsOf

/-- The second scene is the first one with pairs of temporaries on top. Where `z` gives a value, it
is the contents of the pair at that index. -/
structure Bundle (S : Scene R) (values : List ComplexSymbol) (z : ℕ → Option (ComplexPair R))
    (S₁ : Scene R) : Prop where
  nodup : (symbolsOf values).Nodup
  fresh : ∀ s ∈ symbolsOf values, ∃ id, s = .temp id ∧ id ∉ S.held
  mem_held : ∀ id, id ∈ S₁.held ↔ id ∈ S.held ∨ .temp id ∈ symbolsOf values
  settled_eq : S₁.settled = S.settled
  value_base : ∀ s ∉ symbolsOf values, S₁.value s = S.value s
  hasPair : ∀ {i v y}, values[i]? = some v → z i = some y → S₁.HasPair v y

namespace Bundle

variable {S S₁ S₂ : Scene R} {values : List ComplexSymbol} {z z' : ℕ → Option (ComplexPair R)}
  {v : ComplexSymbol} {i : ℕ} {y : ComplexPair R}

lemma nil (S : Scene R) (z : ℕ → Option (ComplexPair R)) : Bundle S [] z S :=
  ⟨by simp [symbolsOf], by simp [symbolsOf], by simp [symbolsOf], rfl, fun _ _ => rfl, by simp⟩

lemma eq (h : Bundle S [] z S₁) : S₁ = S :=
  Scene.ext (Set.ext fun id => by simp [h.mem_held, symbolsOf])
    (funext fun s => h.value_base s (by simp [symbolsOf])) h.settled_eq

lemma congr (h : Bundle S values z S₁)
    (hz : ∀ i < values.length, ∀ y, z' i = some y → z i = some y) : Bundle S values z' S₁ where
  nodup := h.nodup
  fresh := h.fresh
  mem_held := h.mem_held
  settled_eq := h.settled_eq
  value_base := h.value_base
  hasPair hi hy := h.hasPair hi (hz _ (List.getElem?_eq_some_iff.1 hi).1 _ hy)

/-- What the caller owns is none of the temporaries. -/
lemma notMem_of_owns (h : Bundle S values z S₁) {s : Symbol} (hs : S.Owns s) :
    s ∉ symbolsOf values := by
  intro hmem
  obtain ⟨id, rfl, hid⟩ := h.fresh s hmem
  exact hid (hs id rfl)

lemma base (h : Bundle S values z S₁) {s : Symbol} {x : R} (hs : S.value s = some x) :
    S₁.value s = some x := by
  rw [h.value_base s (h.notMem_of_owns (Scene.owns_of_value hs)), hs]

lemma writable (h : Bundle S values z S₁) {s : Symbol} (hs : S.Writable s) : S₁.Writable s := by
  cases s with
  | temp id => exact (h.mem_held id).2 (Or.inl hs)
  | input i => exact hs
  | output i | real i | imag i =>
    simp only [Scene.Writable] at hs ⊢
    rw [h.value_base _ (h.notMem_of_owns (by rintro id ⟨⟩))]
    exact hs

lemma writable_of_mem (h : Bundle S values z S₁) {s : Symbol} (hs : s ∈ symbolsOf values) :
    S₁.Writable s := by
  obtain ⟨id, rfl, -⟩ := h.fresh s hs
  exact (h.mem_held id).2 (Or.inr hs)

lemma writablePair (h : Bundle S values z S₁) (hi : values[i]? = some v) : S₁.WritablePair v :=
  have hv := List.mem_of_getElem? hi
  ⟨h.writable_of_mem (re_mem_symbolsOf hv), h.writable_of_mem (im_mem_symbolsOf hv),
    re_ne_im_of_nodup_symbolsOf h.nodup hv⟩

/-- The pairs are changed, and nothing else. -/
lemma change (h : Bundle S values z S₁) (hoff : Scene.SameOff (symbolsOf values) S₁ S₂)
    (hpair : ∀ i v y, values[i]? = some v → z' i = some y → S₂.HasPair v y) :
    Bundle S values z' S₂ where
  nodup := h.nodup
  fresh := h.fresh
  mem_held id := by rw [hoff.held_eq, h.mem_held]
  settled_eq := by
    rw [← h.settled_eq]
    ext s
    by_cases hs : s ∈ symbolsOf values
    · -- a temporary is never settled
      obtain ⟨id, rfl, -⟩ := h.fresh s hs
      exact ⟨fun hmem => Bool.noConfusion (S₂.isTemp_of_settled hmem),
        fun hmem => Bool.noConfusion (S₁.isTemp_of_settled hmem)⟩
    · exact hoff.settled_iff s hs
  value_base s hs := by rw [hoff.value_eq s hs, h.value_base s hs]
  hasPair hi hy := hpair _ _ _ hi hy

/-- One of the pairs gets new contents. -/
lemma update (h : Bundle S values z S₁) (hi : values[i]? = some v)
    (hoff : Scene.SameOff [v.re, v.im] S₁ S₂) (hy : S₂.HasPair v y) :
    Bundle S values (Function.update z i (some y)) S₂ := by
  have hv := List.mem_of_getElem? hi
  refine h.change (hoff.mono ?_) fun j w y' hj hy' => ?_
  · simp [List.cons_subset, re_mem_symbolsOf hv, im_mem_symbolsOf hv]
  · by_cases hji : j = i
    · subst hji
      obtain rfl : v = w := by simpa [hi] using hj
      obtain rfl : y = y' := by simpa using hy'
      exact hy
    · rw [Function.update_of_ne hji] at hy'
      have hdisjoint := disjoint_of_nodup_symbolsOf h.nodup hj hi hji
      obtain ⟨hre, him⟩ := h.hasPair hj hy'
      exact ⟨by rw [hoff.value_eq _ (hdisjoint (by simp)), hre],
        by rw [hoff.value_eq _ (hdisjoint (by simp)), him]⟩

lemma put (h : Bundle S values z S₁) (hi : values[i]? = some v) (y : ComplexPair R) :
    Bundle S values (Function.update z i (some y)) (S₁.put v y) :=
  h.update hi (Scene.sameOff_put S₁ v y) ((h.writablePair hi).hasPair_put y)

/-- Some of the pairs, listed by their indices, get new contents. -/
lemma putAll (h : Bundle S values z S₁) {listed : List ℕ} {group : List ComplexSymbol}
    (hgroup : List.Forall₂ (fun i v => values[i]? = some v) listed group)
    (ys : List (ComplexPair R)) :
    Bundle S values
      ((listed.zip (ys.map some)).foldl (fun z p => Function.update z p.1 p.2) z)
      (S₁.putAll group ys) := by
  induction hgroup generalizing z S₁ ys with
  | nil => exact h
  | cons hi _ ih =>
    cases ys with
    | nil => exact h
    | cons y ys => exact ih (h.put hi y) ys

/-- The pairs in another order. -/
lemma reorder (h : Bundle S values z S₁) {values' : List ComplexSymbol}
    (hperm : values'.Perm values)
    (hz : ∀ i v y, values'[i]? = some v → z' i = some y → ∃ j, values[j]? = some v ∧ z j = some y) :
    Bundle S values' z' S₁ := by
  have hsymbols : (symbolsOf values').Perm (symbolsOf values) := hperm.flatMap_right _
  refine ⟨hsymbols.nodup_iff.2 h.nodup, fun s hs => h.fresh s (hsymbols.mem_iff.1 hs), fun id => ?_,
    h.settled_eq, fun s hs => h.value_base s fun hmem => hs (hsymbols.mem_iff.2 hmem), ?_⟩
  · rw [h.mem_held, hsymbols.mem_iff]
  · intro i v y hi hy
    obtain ⟨j, hj, hzj⟩ := hz i v y hi hy
    exact h.hasPair hj hzj

/-- A pair of temporaries is taken. -/
lemma hold (h : Bundle S values z S₁) {re im : ℕ} (hre : re ∉ S₁.held)
    (him : im ∉ (S₁.hold re).held) (hz : z values.length = none) :
    Bundle S (values ++ [⟨.temp re, .temp im⟩]) z ((S₁.hold re).hold im) := by
  rw [Scene.hold_held, Set.mem_insert_iff, not_or] at him
  rw [h.mem_held, not_or] at hre
  rw [h.mem_held, not_or] at him
  have hsymbols : symbolsOf (values ++ [⟨.temp re, .temp im⟩]) =
      symbolsOf values ++ [.temp re, .temp im] := symbolsOf_append _ _
  refine ⟨?_, ?_, ?_, h.settled_eq, ?_, ?_⟩
  · rw [hsymbols]
    refine h.nodup.append (by simpa using Ne.symm him.1) ?_
    simp [hre.2, him.2.2]
  · intro s hs
    rw [hsymbols, List.mem_append, List.mem_pair] at hs
    rcases hs with hs | rfl | rfl
    · exact h.fresh s hs
    · exact ⟨re, rfl, hre.1⟩
    · exact ⟨im, rfl, him.2.1⟩
  · intro id
    simp only [hsymbols, Scene.hold_held, Set.mem_insert_iff, h.mem_held, List.mem_append,
      List.mem_pair, Symbol.temp.injEq]
    tauto
  · intro s hs
    rw [hsymbols, List.mem_append, not_or] at hs
    exact h.value_base s hs.1
  · intro i v y hi hy
    rcases lt_or_ge i values.length with hlt | hge
    · rw [List.getElem?_append_left hlt] at hi
      exact h.hasPair hi hy
    · obtain rfl : i = values.length := by
        have := (List.getElem?_eq_some_iff.1 hi).1
        simp at this
        omega
      simp [hz] at hy

/-- The first pair is released. -/
lemma drop {re im : ℕ} (h : Bundle S (⟨.temp re, .temp im⟩ :: values) z S₁) :
    Bundle S values (fun i => z (i + 1)) ((S₁.drop re).drop im) := by
  have hsymbols : symbolsOf (⟨.temp re, .temp im⟩ :: values) =
      .temp re :: .temp im :: symbolsOf values := rfl
  obtain ⟨hnodup, hfresh, hheld, hsettled, hbase, hpair⟩ := h
  rw [hsymbols] at hnodup hfresh hheld hbase
  simp only [List.nodup_cons, List.mem_cons, not_or] at hnodup hfresh hheld hbase
  obtain ⟨⟨hne, hre⟩, him, hrest⟩ := hnodup
  have hreheld : re ∉ S.held := by
    obtain ⟨_, ⟨⟩, hid⟩ := hfresh (.temp re) (Or.inl rfl)
    exact hid
  have himheld : im ∉ S.held := by
    obtain ⟨_, ⟨⟩, hid⟩ := hfresh (.temp im) (Or.inr (Or.inl rfl))
    exact hid
  have hkeep {s : Symbol} (hs : s ∈ symbolsOf values) :
      ((S₁.drop re).drop im).value s = S₁.value s := by
    rw [Scene.drop_value_of_ne (ne_of_mem_of_not_mem hs him),
      Scene.drop_value_of_ne (ne_of_mem_of_not_mem hs hre)]
  refine ⟨hrest, fun s hs => hfresh s (Or.inr (Or.inr hs)), fun id => ?_, hsettled, fun s hs => ?_,
    fun {i v y} hi hy => ?_⟩
  · simp only [Scene.drop_held, Set.mem_sdiff, hheld, Set.mem_singleton_iff, Symbol.temp.injEq]
    by_cases hidre : id = re
    · subst hidre
      simp [hreheld, hre]
    · by_cases hidim : id = im
      · subst hidim
        simp [himheld, him]
      · simp [hidre, hidim]
  · by_cases hsre : s = .temp re
    · subst hsre
      simp [Scene.drop, Scene.value_eq_none hreheld]
    · by_cases hsim : s = .temp im
      · subst hsim
        simp [Scene.drop, Scene.value_eq_none himheld]
      · rw [Scene.drop_value_of_ne hsim, Scene.drop_value_of_ne hsre, hbase s ⟨hsre, hsim, hs⟩]
  · have hv := List.mem_of_getElem? hi
    obtain ⟨hvre, hvim⟩ := hpair (i := i + 1) (by simpa using hi) hy
    exact ⟨by rw [hkeep (re_mem_symbolsOf hv), hvre], by rw [hkeep (im_mem_symbolsOf hv), hvim]⟩

/-- A result is stored. -/
lemma store (h : Bundle S values z S₁) {s : Symbol} (hs : s.isTemp = false) (x : R) :
    Bundle ((S.assign s x).settle s) values z ((S₁.assign s x).settle s) := by
  have howns (S : Scene R) : S.Owns s := by
    rintro id rfl
    exact Bool.noConfusion hs
  have hnot : s ∉ symbolsOf values := h.notMem_of_owns (howns S)
  have hkeep {t : Symbol} (ht : t ∈ symbolsOf values) : (S₁.assign s x).value t = S₁.value t :=
    Scene.assign_value_of_ne (ne_of_mem_of_not_mem ht hnot) x
  refine ⟨h.nodup, h.fresh, h.mem_held, ?_, fun t ht => ?_, fun {i v y} hi hy => ?_⟩
  · simp only [Scene.settle, Scene.assign_settled, h.settled_eq]
  · by_cases hts : t = s
    · subst hts
      rw [Scene.settle_value, Scene.settle_value, Scene.assign_value_self (howns S₁),
        Scene.assign_value_self (howns S)]
    · rw [Scene.settle_value, Scene.settle_value, Scene.assign_value_of_ne hts,
        Scene.assign_value_of_ne hts, h.value_base t ht]
  · have hv := List.mem_of_getElem? hi
    obtain ⟨hre, him⟩ := h.hasPair hi hy
    exact ⟨by rw [Scene.settle_value, hkeep (re_mem_symbolsOf hv), hre],
      by rw [Scene.settle_value, hkeep (im_mem_symbolsOf hv), him]⟩

/-! ### Operations on bundles -/

section Rules

variable [Scalar R]

lemma allocComplex (h : Bundle S values z S₁) (hz : z values.length = none) :
    Emits S₁ (Build.allocComplex : Build R ComplexSymbol) fun v S₂ =>
      Bundle S (values ++ [v]) z S₂ := by
  refine Emits.allocTemp.bind ?_
  rintro _ _ ⟨re, rfl, hre, rfl⟩
  refine Emits.allocTemp.bind ?_
  rintro _ _ ⟨im, rfl, him, rfl⟩
  exact Emits.pure (h.hold hre him hz)

lemma allocComplexes (h : Bundle S values (fun _ => none) S₁) (n : ℕ) :
    Emits S₁ (Build.allocComplexes n : Build R (List ComplexSymbol)) fun vs S₂ =>
      vs.length = n ∧ Bundle S (values ++ vs) (fun _ => none) S₂ := by
  induction n generalizing values S₁ with
  | zero => exact Emits.pure ⟨rfl, by simpa using h⟩
  | succ n ih =>
    refine (h.allocComplex rfl).bind fun v S₂ h₂ => (ih h₂).bind ?_
    rintro vs S₃ ⟨hlength, h₃⟩
    exact Emits.pure ⟨by simp [hlength], by simpa using h₃⟩

/-- All pairs are released, in the order in which they were taken. -/
lemma releaseAll (h : Bundle S values z S₁) :
    Emits S₁ (values.forM Build.releaseComplex : Build R Unit) fun _ S₂ => S₂ = S := by
  induction values generalizing S₁ z with
  | nil => exact Emits.pure h.eq
  | cons v values ih =>
    obtain ⟨re, hre, -⟩ := h.fresh v.re (re_mem_symbolsOf (by simp))
    obtain ⟨im, him, -⟩ := h.fresh v.im (im_mem_symbolsOf (by simp))
    obtain rfl : v = ⟨.temp re, .temp im⟩ := by rw [← hre, ← him]
    have hw := h.writablePair (i := 0) rfl
    refine Emits.bind (Q := fun _ S₂ => Bundle S values (fun i => z (i + 1)) S₂) ?_
      fun _ _ h₂ => ih h₂
    refine (Emits.release hw.re).then_ fun _ => (Emits.release ?_).mono fun _ _ hS => hS ▸ h.drop
    exact ⟨hw.im, fun e => hw.ne (congrArg Symbol.temp e).symm⟩

/-- Pair after pair is assigned the contents of symbols `g`. -/
lemma load (h : Bundle S values (fun _ => none) S₁) {g : ℕ → Symbol × Symbol}
    {y : ℕ → ComplexPair R}
    (hy : ∀ i < values.length, S.value (g i).1 = some (y i).re ∧
      S.value (g i).2 = some (y i).im) :
    Emits S₁ (values.zipIdx.forM fun (v, i) => do
      Build.assign v.re (g i).1
      Build.assign v.im (g i).2) fun _ S₂ => Bundle S values (fun i => some (y i)) S₂ := by
  refine (Emits.forM (I := fun c S₂ =>
    Bundle S values (fun i => if i < c then some (y i) else none) S₂) ?_ ?_).mono ?_
  · exact h.congr fun i _ y hy => by simp at hy
  · intro c hc S₂ h₂
    have hc' : c < values.length := by simpa using hc
    have hget : values[c]? = some values[c] := List.getElem?_eq_getElem hc'
    have hw := h₂.writablePair hget
    obtain ⟨hre, him⟩ := hy c hc'
    have hne : (g c).2 ≠ values[c].re :=
      (ne_of_mem_of_not_mem (re_mem_symbolsOf (List.mem_of_getElem? hget))
        (h.notMem_of_owns (Scene.owns_of_value him))).symm
    rw [List.getElem_zipIdx, Nat.zero_add]
    have himag : (S₂.assign values[c].re (y c).re).value (g c).2 = some (y c).im := by
      rw [Scene.assign_value_of_ne hne, h₂.base him]
    refine (hw.emits_put (.sym (h₂.base hre)) (.sym himag)).mono fun _ S₃ hS => ?_
    rw [hS]
    refine (h₂.put hget (y c)).congr fun i _ y' hy' => ?_
    by_cases hic : i = c
    · subst hic
      simpa using hy'
    · have hlt : i < c ↔ i < c + 1 := by omega
      rw [Function.update_of_ne hic]
      simp only [hlt]
      exact hy'
  · intro _ S₂ h₂
    refine h₂.congr fun i hi y' hy' => ?_
    rw [if_pos (by simpa using hi)]
    exact hy'

lemma emits_store (h : Bundle S values z S₁) {s : Symbol} (hs : S.Writable s)
    (htemp : s.isTemp = false) {e : Expr R} {x : R} (he : e.Yields S₁.value x) :
    Emits S₁ (Build.store s e) fun _ S₂ => Bundle ((S.assign s x).settle s) values z S₂ :=
  (Emits.store (h.writable hs) he).mono fun _ _ hS => hS ▸ h.store htemp x

end Rules

end Bundle

/-! ### Results -/

namespace Scene

/-- Results are stored, in this order. -/
noncomputable def storeAll (S : Scene R) (writes : List (Symbol × R)) : Scene R :=
  writes.foldl (fun S p => (S.assign p.1 p.2).settle p.1) S

variable {S : Scene R} {writes : List (Symbol × R)}

lemma storeAll_concat (S : Scene R) (writes : List (Symbol × R)) (p : Symbol × R) :
    S.storeAll (writes ++ [p]) = ((S.storeAll writes).assign p.1 p.2).settle p.1 := by
  simp [storeAll]

@[simp]
lemma storeAll_held (S : Scene R) (writes : List (Symbol × R)) :
    (S.storeAll writes).held = S.held := by
  induction writes using List.reverseRecOn with
  | nil => rfl
  | append_singleton writes p ih => rw [storeAll_concat, settle_held, assign_held, ih]

/-- Every result that is stored is there at the end, if none is stored twice. -/
lemma storeAll_mem (hnodup : (writes.map Prod.fst).Nodup)
    (htemp : ∀ p ∈ writes, p.1.isTemp = false) {p : Symbol × R} (hp : p ∈ writes) :
    (S.storeAll writes).value p.1 = some p.2 ∧ p.1 ∈ (S.storeAll writes).settled := by
  induction writes using List.reverseRecOn with
  | nil => simp at hp
  | append_singleton writes q ih =>
    rw [List.map_append, List.nodup_append] at hnodup
    rw [storeAll_concat]
    rcases List.mem_append.1 hp with hp | hp
    · have hne : p.1 ≠ q.1 := hnodup.2.2 _ (List.mem_map_of_mem hp) _ (by simp)
      obtain ⟨hvalue, hsettled⟩ := ih hnodup.1 (fun p hp => htemp p (by simp [hp])) hp
      refine ⟨?_, Or.inr ⟨hsettled, hne⟩, htemp p (by simp [hp])⟩
      rw [settle_value, assign_value_of_ne hne, hvalue]
    · obtain rfl := List.mem_singleton.1 hp
      have howns : (S.storeAll writes).Owns p.1 := by
        intro id hid
        have := htemp p (by simp)
        rw [hid] at this
        exact Bool.noConfusion this
      exact ⟨assign_value_self howns p.2, Or.inl rfl, htemp p (by simp)⟩

lemma Writable.storeAll {s : Symbol} (h : S.Writable s) (writes : List (Symbol × R)) :
    (S.storeAll writes).Writable s := by
  induction writes using List.reverseRecOn with
  | nil => exact h
  | append_singleton writes p ih =>
    rw [storeAll_concat]
    exact ih.assign p.2

end Scene

end MixedRadix
