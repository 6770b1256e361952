import MixedRadix.Butterfly
import MixedRadix.Proofs.Emission

/-!
# Scratch temporaries

A fragment of code takes temporaries, assigns to each of them once and in the order in which they
were taken, works on them and releases them. While it runs, its scene is one that its caller knows
with scratch temporaries on top (`Scratch`); when all of them are released, only what the fragment
assigned to its caller's symbols is left.
-/

namespace MixedRadix

variable {R : Type}

/-- The second scene is the first one with temporaries on top: those of `facts`, of which the
contents are known, and those of `blank`, to which nothing was assigned yet. -/
structure Scratch (S : Scene R) (facts : List (Symbol × R)) (blank : List Symbol) (S₁ : Scene R) :
    Prop where
  nodup : (facts.map Prod.fst ++ blank).Nodup
  fresh : ∀ s ∈ facts.map Prod.fst ++ blank, ∃ id, s = .temp id ∧ id ∉ S.held
  mem_held : ∀ id, id ∈ S₁.held ↔ id ∈ S.held ∨ .temp id ∈ facts.map Prod.fst ++ blank
  settled_eq : S₁.settled = S.settled
  value_base : ∀ s ∉ facts.map Prod.fst ++ blank, S₁.value s = S.value s
  value_fact : ∀ p ∈ facts, S₁.value p.1 = some p.2
  value_blank : ∀ s ∈ blank, S₁.value s = none

namespace Scratch

variable {S S₁ : Scene R} {facts : List (Symbol × R)} {blank : List Symbol}

lemma refl (S : Scene R) : Scratch S [] [] S :=
  ⟨by simp, by simp, by simp, rfl, fun _ _ => rfl, by simp, by simp⟩

lemma eq (h : Scratch S [] [] S₁) : S₁ = S :=
  Scene.ext (Set.ext fun id => by simp [h.mem_held]) (funext fun s => h.value_base s (by simp))
    h.settled_eq

/-- What the caller owns is no scratch temporary. -/
lemma notMem_of_owns (h : Scratch S facts blank S₁) {s : Symbol} (hs : S.Owns s) :
    s ∉ facts.map Prod.fst ++ blank := by
  intro hmem
  obtain ⟨id, rfl, hid⟩ := h.fresh s hmem
  exact hid (hs id rfl)

lemma base (h : Scratch S facts blank S₁) {s : Symbol} {x : R} (hs : S.value s = some x) :
    S₁.value s = some x := by
  rw [h.value_base s (h.notMem_of_owns (Scene.owns_of_value hs)), hs]

lemma fact (h : Scratch S facts blank S₁) (i : ℕ) {s : Symbol} {x : R}
    (hi : facts[i]? = some (s, x)) : S₁.value s = some x :=
  h.value_fact (s, x) (List.mem_of_getElem? hi)

lemma writable (h : Scratch S facts blank S₁) {s : Symbol} (hs : S.Writable s) :
    S₁.Writable s := by
  cases s with
  | temp id => exact (h.mem_held id).2 (Or.inl hs)
  | input i => exact hs
  | output i | real i | imag i =>
    simp only [Scene.Writable] at hs ⊢
    rw [h.value_base _ (h.notMem_of_owns (by rintro id ⟨⟩))]
    exact hs

lemma writable_of_mem (h : Scratch S facts blank S₁) {s : Symbol}
    (hs : s ∈ facts.map Prod.fst ++ blank) : S₁.Writable s := by
  obtain ⟨id, rfl, -⟩ := h.fresh s hs
  exact (h.mem_held id).2 (Or.inr hs)

lemma hold (h : Scratch S facts blank S₁) {id : ℕ} (hid : id ∉ S₁.held) :
    Scratch S facts (blank ++ [.temp id]) (S₁.hold id) := by
  have hnot : Symbol.temp id ∉ facts.map Prod.fst ++ blank := fun hmem =>
    hid ((h.mem_held id).2 (Or.inr hmem))
  have hnone := Scene.value_eq_none hid
  refine ⟨?_, ?_, ?_, h.settled_eq, ?_, h.value_fact, ?_⟩
  · rw [← List.append_assoc]
    refine h.nodup.append (List.nodup_singleton _) ?_
    exact List.disjoint_singleton.2 hnot
  · intro s hs
    rw [← List.append_assoc, List.mem_append, List.mem_singleton] at hs
    rcases hs with hs | rfl
    · exact h.fresh s hs
    · exact ⟨id, rfl, fun hheld => hid ((h.mem_held id).2 (Or.inl hheld))⟩
  · intro id'
    rw [← List.append_assoc, List.mem_append, List.mem_singleton, Scene.hold_held,
      Set.mem_insert_iff, h.mem_held, Symbol.temp.injEq]
    tauto
  · intro s hs
    rw [← List.append_assoc, List.mem_append, not_or] at hs
    exact h.value_base s hs.1
  · intro s hs
    rw [List.mem_append, List.mem_singleton] at hs
    rcases hs with hs | rfl
    · exact h.value_blank s hs
    · exact hnone

/-- The oldest blank temporary is assigned to. -/
lemma fill {t : Symbol} (h : Scratch S facts (t :: blank) S₁) (x : R) :
    Scratch S (facts ++ [(t, x)]) blank (S₁.assign t x) := by
  have hlist : (facts ++ [(t, x)]).map Prod.fst ++ blank = facts.map Prod.fst ++ t :: blank := by
    simp
  have hmem : t ∈ facts.map Prod.fst ++ t :: blank := by simp
  have howns : S₁.Owns t := (h.writable_of_mem hmem).owns
  have hnodup := h.nodup
  rw [List.nodup_middle, List.nodup_cons, List.mem_append, not_or] at hnodup
  refine ⟨hlist ▸ h.nodup, hlist ▸ h.fresh, hlist ▸ h.mem_held, ?_, ?_, ?_, ?_⟩
  · obtain ⟨id, rfl, -⟩ := h.fresh t hmem
    rw [Scene.assign_settled_temp, h.settled_eq]
  · intro s hs
    rw [hlist] at hs
    have hne : s ≠ t := fun e => hs (e ▸ hmem)
    rw [Scene.assign_value_of_ne hne, h.value_base s hs]
  · intro p hp
    rw [List.mem_append, List.mem_singleton] at hp
    rcases hp with hp | rfl
    · have hne : p.1 ≠ t := fun e => hnodup.1.1 (e ▸ List.mem_map_of_mem hp)
      rw [Scene.assign_value_of_ne hne, h.value_fact p hp]
    · exact Scene.assign_value_self howns x
  · intro s hs
    have hne : s ≠ t := fun e => hnodup.1.2 (e ▸ hs)
    rw [Scene.assign_value_of_ne hne, h.value_blank s (List.mem_cons_of_mem _ hs)]

/-- Some of the temporaries, blank ones among them or not, are changed and nothing else. -/
lemma change {S₂ : Scene R} {facts' : List (Symbol × R)} {blank' symbols : List Symbol}
    (h : Scratch S facts blank S₁)
    (hlist : facts'.map Prod.fst ++ blank' = facts.map Prod.fst ++ blank)
    (hblank : blank' ⊆ blank) (hoff : Scene.SameOff symbols S₁ S₂)
    (hsymbols : symbols ⊆ facts'.map Prod.fst)
    (hvalue : ∀ p ∈ facts', S₂.value p.1 = some p.2) : Scratch S facts' blank' S₂ := by
  have hkeep {s : Symbol} (hs : s ∉ facts'.map Prod.fst) : S₂.value s = S₁.value s :=
    hoff.value_eq s fun hmem => hs (hsymbols hmem)
  have hnodup := hlist ▸ h.nodup
  refine ⟨hnodup, hlist ▸ h.fresh, ?_, ?_, ?_, hvalue, ?_⟩
  · intro id
    rw [hoff.held_eq, hlist, h.mem_held]
  · rw [← h.settled_eq]
    ext s
    by_cases hs : s ∈ symbols
    · -- a temporary is never settled
      obtain ⟨id, rfl, -⟩ := h.fresh s (hlist ▸ List.mem_append_left _ (hsymbols hs))
      exact ⟨fun hmem => Bool.noConfusion (S₂.isTemp_of_settled hmem),
        fun hmem => Bool.noConfusion (S₁.isTemp_of_settled hmem)⟩
    · exact hoff.settled_iff s hs
  · intro s hs
    rw [hkeep fun hmem => hs (List.mem_append_left _ hmem), h.value_base s (hlist ▸ hs)]
  · intro s hs
    rw [hkeep fun hmem => List.disjoint_of_nodup_append hnodup hmem hs,
      h.value_blank s (hblank hs)]

/-- Two temporaries next to each other are changed. -/
lemma change_pair {S₂ : Scene R} {before after : List (Symbol × R)} {t t' : Symbol} {x x' y y' : R}
    (h : Scratch S (before ++ (t, x) :: (t', x') :: after) blank S₁)
    (hoff : Scene.SameOff [t, t'] S₁ S₂) (ht : S₂.value t = some y) (ht' : S₂.value t' = some y') :
    Scratch S (before ++ (t, y) :: (t', y') :: after) blank S₂ := by
  have hother (p : Symbol × R) (hp : p ∈ before ++ after) : p.1 ∉ [t, t'] := by
    have hnodup := (List.nodup_append.1 h.nodup).1
    simp only [List.map_append, List.map_cons, List.nodup_middle, List.nodup_cons, List.mem_append,
      List.mem_cons, not_or] at hnodup
    have hmem := List.mem_map_of_mem hp (f := Prod.fst)
    rw [List.map_append, List.mem_append] at hmem
    rw [List.mem_pair]
    rintro (rfl | rfl)
    · tauto
    · tauto
  refine h.change (by simp) (List.Subset.refl _) hoff (by simp) fun p hp => ?_
  simp only [List.mem_append, List.mem_cons] at hp
  have hkeep (hp : p ∈ before ++ after) : S₂.value p.1 = some p.2 := by
    rw [hoff.value_eq p.1 (hother p hp), h.value_fact p]
    rcases List.mem_append.1 hp with hp | hp <;> simp [hp]
  rcases hp with hp | rfl | rfl | hp
  · exact hkeep (List.mem_append_left _ hp)
  · exact ht
  · exact ht'
  · exact hkeep (List.mem_append_right _ hp)

/-- The oldest two blank temporaries are changed. -/
lemma fill_pair {S₂ : Scene R} {t t' : Symbol} {y y' : R}
    (h : Scratch S facts (t :: t' :: blank) S₁) (hoff : Scene.SameOff [t, t'] S₁ S₂)
    (ht : S₂.value t = some y) (ht' : S₂.value t' = some y') :
    Scratch S (facts ++ [(t, y), (t', y')]) blank S₂ := by
  refine h.change (by simp) (by simp) hoff (by simp) fun p hp => ?_
  rw [List.mem_append, List.mem_pair] at hp
  rcases hp with hp | rfl | rfl
  · have hmem := List.mem_map_of_mem hp (f := Prod.fst)
    have hsub : [t, t'] ⊆ t :: t' :: blank := by simp
    have hne : p.1 ∉ [t, t'] := fun hmem' =>
      List.disjoint_of_nodup_append h.nodup hmem (hsub hmem')
    rw [hoff.value_eq p.1 hne, h.value_fact p hp]
  · exact ht
  · exact ht'

/-- A symbol of the caller is assigned to. -/
lemma write (h : Scratch S facts blank S₁) {s : Symbol} (hs : S.Owns s) (x : R) :
    Scratch (S.assign s x) facts blank (S₁.assign s x) := by
  have hnot := h.notMem_of_owns hs
  have howns : S₁.Owns s := fun id hid => (h.mem_held id).2 (Or.inl (hs id hid))
  have hkeep {t : Symbol} (ht : t ∈ facts.map Prod.fst ++ blank) : t ≠ s := fun e => hnot (e ▸ ht)
  refine ⟨h.nodup, h.fresh, h.mem_held, ?_, ?_, ?_, ?_⟩
  · simp only [Scene.assign, h.settled_eq]
  · intro t ht
    by_cases hts : t = s
    · subst hts
      rw [Scene.assign_value_self howns, Scene.assign_value_self hs]
    · rw [Scene.assign_value_of_ne hts, Scene.assign_value_of_ne hts, h.value_base t ht]
  · intro p hp
    have hmem : p.1 ∈ facts.map Prod.fst ++ blank :=
      List.mem_append_left _ (List.mem_map_of_mem hp)
    rw [Scene.assign_value_of_ne (hkeep hmem), h.value_fact p hp]
  · intro t ht
    rw [Scene.assign_value_of_ne (hkeep (List.mem_append_right _ ht)), h.value_blank t ht]

/-- The oldest temporary is released. -/
lemma drop {id : ℕ} {x : R} (h : Scratch S ((.temp id, x) :: facts) [] S₁) :
    Scratch S facts [] (S₁.drop id) := by
  have hnodup := h.nodup
  simp only [List.map_cons, List.append_nil, List.nodup_cons] at hnodup
  have hmem : Symbol.temp id ∈ ((Symbol.temp id, x) :: facts).map Prod.fst ++ [] := by simp
  obtain ⟨_, hid, hheld⟩ := h.fresh _ hmem
  obtain rfl := Symbol.temp.inj hid
  refine ⟨by simpa using hnodup.2, fun s hs => h.fresh s (by simp_all), ?_, h.settled_eq, ?_, ?_,
    by simp⟩
  · intro id'
    rw [Scene.drop_held, Set.mem_sdiff, h.mem_held, Set.mem_singleton_iff]
    by_cases hne : id' = id
    · subst hne
      simpa [hheld] using hnodup.1
    · simp [hne]
  · intro s hs
    by_cases hne : s = .temp id
    · subst hne
      simp [Scene.drop, Scene.value_eq_none hheld]
    · rw [Scene.drop_value_of_ne hne, h.value_base s (by simp_all)]
  · intro p hp
    have hne : p.1 ≠ .temp id := fun e => hnodup.1 (e ▸ List.mem_map_of_mem hp)
    rw [Scene.drop_value_of_ne hne, h.value_fact p (List.mem_cons_of_mem _ hp)]

/-! ### Operations on scratch temporaries -/

section Rules

variable [Scalar R] {β : Type} {Q : β → Scene R → Prop}

lemma allocTemp (h : Scratch S facts blank S₁) {k : Symbol → Build R β}
    (hk : ∀ t S₂, Scratch S facts (blank ++ [t]) S₂ → Emits S₂ (k t) Q) :
    Emits S₁ (Build.allocTemp >>= k) Q := by
  refine Emits.allocTemp.bind ?_
  rintro _ _ ⟨id, rfl, hid, rfl⟩
  exact hk _ _ (h.hold hid)

lemma assign_blank {t : Symbol} (h : Scratch S facts (t :: blank) S₁) {e : Expr R} {x : R}
    (he : e.Yields S₁.value x) {k : Unit → Build R β}
    (hk : ∀ S₂, Scratch S (facts ++ [(t, x)]) blank S₂ → Emits S₂ (k ()) Q) :
    Emits S₁ (Build.assign t e >>= k) Q :=
  (Emits.assign (h.writable_of_mem (by simp)) he).then_ fun _ => hk _ (h.fill x)

lemma assign_base (h : Scratch S facts blank S₁) {s : Symbol} (hs : S.Writable s) {e : Expr R}
    {x : R} (he : e.Yields S₁.value x) {k : Unit → Build R β}
    (hk : ∀ S₂, Scratch (S.assign s x) facts blank S₂ → Emits S₂ (k ()) Q) :
    Emits S₁ (Build.assign s e >>= k) Q :=
  (Emits.assign (h.writable hs) he).then_ fun _ => hk _ (h.write hs.owns x)

lemma release_first {t : Symbol} {x : R} (h : Scratch S ((t, x) :: facts) [] S₁) :
    Emits S₁ (Build.release t : Build R Unit) fun _ S' => Scratch S facts [] S' := by
  obtain ⟨id, rfl, -⟩ := h.fresh t (by simp)
  exact (Emits.release ((h.mem_held id).2 (by simp))).mono fun _ _ hS => hS ▸ h.drop

lemma release_last {t : Symbol} {x : R} (h : Scratch S [(t, x)] [] S₁) :
    Emits S₁ (Build.release t : Build R Unit) fun _ S' => S' = S :=
  h.release_first.mono fun _ _ h' => h'.eq

/-- All scratch temporaries are released, in the order in which they were taken. -/
lemma release_all {ts : List Symbol} (hts : ts = facts.map Prod.fst) (h : Scratch S facts [] S₁) :
    Emits S₁ (ts.forM Build.release) fun _ S' => S' = S := by
  subst hts
  induction facts generalizing S₁ with
  | nil => exact Emits.pure h.eq
  | cons p facts ih => exact (release_first h).bind fun _ S₂ h₂ => ih h₂

end Rules

end Scratch

/-! ### Complex values -/

namespace Scene

/-- The parts of a complex value are known. -/
def HasPair (S : Scene R) (v : ComplexSymbol) (z : ComplexPair R) : Prop :=
  S.value v.re = some z.re ∧ S.value v.im = some z.im

/-- Values can be assigned to both parts, which are different. -/
structure WritablePair (S : Scene R) (v : ComplexSymbol) : Prop where
  re : S.Writable v.re
  im : S.Writable v.im
  ne : v.re ≠ v.im

/-- A complex value is assigned to a pair of symbols. -/
noncomputable def put (S : Scene R) (v : ComplexSymbol) (z : ComplexPair R) : Scene R :=
  (S.assign v.re z.re).assign v.im z.im

lemma sameOff_put (S : Scene R) (v : ComplexSymbol) (z : ComplexPair R) :
    SameOff [v.re, v.im] S (S.put v z) :=
  (sameOff_assign (by simp) _).trans (sameOff_assign (by simp) _)

lemma WritablePair.assign {S : Scene R} {v : ComplexSymbol} (h : S.WritablePair v) (s : Symbol)
    (x : R) : (S.assign s x).WritablePair v :=
  ⟨h.re.assign x, h.im.assign x, h.ne⟩

lemma WritablePair.put {S : Scene R} {v : ComplexSymbol} (h : S.WritablePair v) (w : ComplexSymbol)
    (z : ComplexPair R) : (S.put w z).WritablePair v :=
  (h.assign w.re z.re).assign w.im z.im

lemma WritablePair.hasPair_put {S : Scene R} {v : ComplexSymbol} (h : S.WritablePair v)
    (z : ComplexPair R) : (S.put v z).HasPair v z := by
  constructor
  · rw [Scene.put, assign_value_of_ne h.ne, assign_value_self h.re.owns]
  · rw [Scene.put, assign_value_self (h.im.assign _).owns]

variable [Scalar R]

lemma WritablePair.emits_put {S : Scene R} {v : ComplexSymbol} (hv : S.WritablePair v)
    {z : ComplexPair R} {e₁ e₂ : Expr R} (hre : e₁.Yields S.value z.re)
    (him : e₂.Yields (S.assign v.re z.re).value z.im) :
    Emits S (do Build.assign v.re e₁; Build.assign v.im e₂) fun _ S' => S' = S.put v z :=
  (Emits.assign hv.re hre).then_ fun _ => Emits.assign (hv.im.assign _) him

/-- A formula gives the real part of a value where it is given real parts, and the imaginary part
where it is given imaginary parts. -/
structure Lanewise (S : Scene R) (formula : (ComplexSymbol → Expr R) → Expr R)
    (z : ComplexPair R) : Prop where
  re : (formula fun v => v.re).Yields S.value z.re
  im : (formula fun v => v.im).Yields S.value z.im

namespace Lanewise

variable {S : Scene R} {f g : (ComplexSymbol → Expr R) → Expr R} {z w : ComplexPair R}

lemma pair {v : ComplexSymbol} (h : S.HasPair v z) : S.Lanewise (fun p => p v) z :=
  ⟨.sym h.1, .sym h.2⟩

lemma add (hf : S.Lanewise f z) (hg : S.Lanewise g w) : S.Lanewise (fun p => f p + g p) (z + w) :=
  ⟨.add hf.re hg.re, .add hf.im hg.im⟩

lemma sub (hf : S.Lanewise f z) (hg : S.Lanewise g w) : S.Lanewise (fun p => f p - g p) (z - w) :=
  ⟨.sub hf.re hg.re, .sub hf.im hg.im⟩

lemma scale (c : R) (hf : S.Lanewise f z) :
    S.Lanewise (fun p => Expr.lit c * f p) (z.scale c) :=
  ⟨.mul (.lit c) hf.re, .mul (.lit c) hf.im⟩

end Lanewise

end Scene

namespace Scratch

variable [Scalar R] {S S₁ : Scene R} {facts : List (Symbol × R)} {blank : List Symbol} {β : Type}
  {Q : β → Scene R → Prop}

omit [Scalar R] in
lemma basePair (h : Scratch S facts blank S₁) {v : ComplexSymbol} {z : ComplexPair R}
    (hv : S.HasPair v z) : S₁.HasPair v z :=
  ⟨h.base hv.1, h.base hv.2⟩

omit [Scalar R] in
/-- The value of pair `i` of the scratch temporaries. -/
lemma pair (h : Scratch S facts blank S₁) (i : ℕ) {v : ComplexSymbol} {z : ComplexPair R}
    (hre : facts[2 * i]? = some (v.re, z.re)) (him : facts[2 * i + 1]? = some (v.im, z.im)) :
    S₁.HasPair v z :=
  ⟨h.fact _ hre, h.fact _ him⟩

lemma allocComplex (h : Scratch S facts blank S₁) {k : ComplexSymbol → Build R β}
    (hk : ∀ t S₂, Scratch S facts (blank ++ [t.re, t.im]) S₂ → Emits S₂ (k t) Q) :
    Emits S₁ (Build.allocComplex >>= k) Q := by
  simp only [Build.allocComplex, bind_assoc, pure_bind]
  refine h.allocTemp fun t S₂ h₂ => h₂.allocTemp fun t' S₃ h₃ => hk ⟨t, t'⟩ S₃ ?_
  simpa using h₃

/-- The oldest pair of blank temporaries is assigned to. -/
lemma lanewise_blank {t : ComplexSymbol} (h : Scratch S facts (t.re :: t.im :: blank) S₁)
    {formula : (ComplexSymbol → Expr R) → Expr R} {z : ComplexPair R}
    (hz : S₁.Lanewise formula z) {k : Unit → Build R β}
    (hk : ∀ S₂, Scratch S (facts ++ [(t.re, z.re), (t.im, z.im)]) blank S₂ → Emits S₂ (k ()) Q) :
    Emits S₁ (Butterfly.lanewise t formula >>= k) Q := by
  have hblank : S₁.value t.re = none := h.value_blank _ (by simp)
  simp only [Butterfly.lanewise, bind_assoc]
  refine (Emits.assign (h.writable_of_mem (by simp)) hz.re).then_ fun _ => ?_
  have him : (formula fun v => v.im).Yields (S₁.assign t.re z.re).value z.im := by
    refine hz.im.mono fun s y hs => ?_
    rw [Scene.assign_value_of_ne (by rintro rfl; simp [hblank] at hs), hs]
  refine (h.fill z.re).assign_blank him fun S₂ h₂ => hk S₂ ?_
  simpa using h₂

/-- The oldest pair of blank temporaries gets a value by code that changes nothing else. -/
lemma fill_by {t : ComplexSymbol} (h : Scratch S facts (t.re :: t.im :: blank) S₁)
    {e : Build R Unit} {z : ComplexPair R}
    (he : S₁.WritablePair t → Emits S₁ e fun _ S₂ =>
      Scene.SameOff [t.re, t.im] S₁ S₂ ∧ S₂.HasPair t z) {k : Unit → Build R β}
    (hk : ∀ S₂, Scratch S (facts ++ [(t.re, z.re), (t.im, z.im)]) blank S₂ → Emits S₂ (k ()) Q) :
    Emits S₁ (e >>= k) Q := by
  have hne : t.re ≠ t.im := by
    have hnodup := (List.nodup_append.1 h.nodup).2.1
    simp only [List.nodup_cons, List.mem_cons, not_or] at hnodup
    exact hnodup.1.1
  have hwritable : S₁.WritablePair t :=
    ⟨h.writable_of_mem (by simp), h.writable_of_mem (by simp), hne⟩
  refine (he hwritable).bind ?_
  rintro _ S₂ ⟨hoff, hre, him⟩
  exact hk S₂ (h.fill_pair hoff hre him)

/-- A pair of the caller is assigned to. -/
lemma put (h : Scratch S facts blank S₁) {v : ComplexSymbol} (hv : S.WritablePair v)
    {z : ComplexPair R} {e₁ e₂ : Expr R} (hre : e₁.Yields S₁.value z.re)
    (him : ∀ S₂, Scratch (S.assign v.re z.re) facts blank S₂ → e₂.Yields S₂.value z.im)
    {k : Unit → Build R β} (hk : ∀ S₂, Scratch (S.put v z) facts blank S₂ → Emits S₂ (k ()) Q) :
    Emits S₁ (Build.assign v.re e₁ >>= fun _ => Build.assign v.im e₂ >>= k) Q :=
  h.assign_base hv.re hre fun S₂ h₂ => h₂.assign_base (hv.im.assign _) (him S₂ h₂) hk

/-- A pair of the caller is assigned a value of scratch temporaries. -/
lemma lanewise_put (h : Scratch S facts blank S₁) {v : ComplexSymbol} (hv : S.WritablePair v)
    {formula : (ComplexSymbol → Expr R) → Expr R} {z : ComplexPair R}
    (hz : ∀ S' S₂, Scratch S' facts blank S₂ → S₂.Lanewise formula z) {k : Unit → Build R β}
    (hk : ∀ S₂, Scratch (S.put v z) facts blank S₂ → Emits S₂ (k ()) Q) :
    Emits S₁ (Butterfly.lanewise v formula >>= k) Q := by
  simp only [Butterfly.lanewise, bind_assoc]
  exact h.put hv (hz S S₁ h).re (fun S₂ h₂ => (hz _ S₂ h₂).im) hk

/-- A value of scratch temporaries is added to a pair of the caller. -/
lemma lanewise_accumulate (h : Scratch S facts blank S₁) {v : ComplexSymbol}
    (hv : S.WritablePair v) {y : ComplexPair R} (hy : S.HasPair v y)
    {formula : (ComplexSymbol → Expr R) → Expr R} {z : ComplexPair R}
    (hz : ∀ S' S₂, Scratch S' facts blank S₂ → S₂.Lanewise formula z) {k : Unit → Build R β}
    (hk : ∀ S₂, Scratch (S.put v (y + z)) facts blank S₂ → Emits S₂ (k ()) Q) :
    Emits S₁ (Butterfly.lanewise v (fun p => p v + formula p) >>= k) Q := by
  simp only [Butterfly.lanewise, bind_assoc]
  refine h.put hv (z := y + z) (.add (.sym (h.base hy.1)) (hz S S₁ h).re) (fun S₂ h₂ => ?_) hk
  have him : (S.assign v.re (y + z).re).value v.im = some y.im := by
    rw [Scene.assign_value_of_ne hv.ne.symm, hy.2]
  exact .add (.sym (h₂.base him)) (hz _ S₂ h₂).im

/-- A pair of the caller is assigned `a - i b` for two pairs of scratch temporaries. -/
lemma put_subI (h : Scratch S facts blank S₁) {v : ComplexSymbol} (hv : S.WritablePair v)
    {a b : ComplexSymbol} {y z : ComplexPair R}
    (ha : ∀ S' S₂, Scratch S' facts blank S₂ → S₂.HasPair a y)
    (hb : ∀ S' S₂, Scratch S' facts blank S₂ → S₂.HasPair b z) {k : Unit → Build R β}
    (hk : ∀ S₂, Scratch (S.put v (y.subI z)) facts blank S₂ → Emits S₂ (k ()) Q) :
    Emits S₁ (Build.assign v.re (a.re + b.im) >>= fun _ =>
      Build.assign v.im (a.im - b.re) >>= k) Q :=
  h.put hv (z := y.subI z) (.add (.sym (ha S S₁ h).1) (.sym (hb S S₁ h).2))
    (fun S₂ h₂ => .sub (.sym (ha _ S₂ h₂).2) (.sym (hb _ S₂ h₂).1)) hk

/-- A pair of the caller is assigned `a + i b` for two pairs of scratch temporaries. -/
lemma put_addI (h : Scratch S facts blank S₁) {v : ComplexSymbol} (hv : S.WritablePair v)
    {a b : ComplexSymbol} {y z : ComplexPair R}
    (ha : ∀ S' S₂, Scratch S' facts blank S₂ → S₂.HasPair a y)
    (hb : ∀ S' S₂, Scratch S' facts blank S₂ → S₂.HasPair b z) {k : Unit → Build R β}
    (hk : ∀ S₂, Scratch (S.put v (y.addI z)) facts blank S₂ → Emits S₂ (k ()) Q) :
    Emits S₁ (Build.assign v.re (a.re - b.im) >>= fun _ =>
      Build.assign v.im (a.im + b.re) >>= k) Q :=
  h.put hv (z := y.addI z) (.sub (.sym (ha S S₁ h).1) (.sym (hb S S₁ h).2))
    (fun S₂ h₂ => .add (.sym (ha _ S₂ h₂).2) (.sym (hb _ S₂ h₂).1)) hk

/-- All pairs of scratch temporaries are released, in the order in which they were taken. -/
lemma releaseComplex_all {ts : List ComplexSymbol}
    (hts : facts.map Prod.fst = ts.flatMap fun t => [t.re, t.im]) (h : Scratch S facts [] S₁) :
    Emits S₁ (ts.forM Build.releaseComplex) fun _ S' => S' = S := by
  induction ts generalizing facts S₁ with
  | nil =>
    obtain rfl := List.map_eq_nil_iff.1 hts
    exact Emits.pure h.eq
  | cons t ts ih =>
    match facts, hts with
    | ⟨_, x⟩ :: ⟨_, y⟩ :: facts, hts =>
      simp only [List.map_cons, List.flatMap_cons, List.cons_append, List.nil_append,
        List.cons.injEq] at hts
      obtain ⟨rfl, rfl, hts⟩ := hts
      refine Emits.bind (Q := fun _ S' => Scratch S facts [] S') ?_ fun _ S₂ h₂ => ih hts h₂
      exact (release_first h).bind fun _ S₂ h₂ => release_first h₂

end Scratch

end MixedRadix
