import MixedRadix.Compile
import MixedRadix.Proofs.Plan
import MixedRadix.Proofs.Recycling

/-!
# Sizes that are rejected

Four engines emit code for a size that the caller chooses: the two cosine transforms and the two
layouts of a Fourier transform. They reject a size exactly if it cannot be split, and none of them
rejects it later than by its check of the size. Three engines check before they emit anything. The
unrolled Fourier transform loads its values first, so a size that it rejects leaves the loads in the
stream and the temporaries in use (`Engine.emit_badSize`).
-/

namespace MixedRadix

/-! ### Invariants of computations that may fail -/

section Upholds

variable {ε σ α β : Type} {I : σ → Prop} {E : ε → Prop} {x : ExceptT ε (StateM σ) α} {P : α → Prop}
  {Q : β → Prop}

/-- From a state of which `I` holds, the computation leads to such a state, and of its result `P`
holds, or of its error `E`. -/
def Upholds (I : σ → Prop) (E : ε → Prop) (x : ExceptT ε (StateM σ) α) (P : α → Prop) : Prop :=
  ∀ s r s', x.run.run s = (r, s') → I s →
    I s' ∧ (∀ a, r = .ok a → P a) ∧ ∀ e, r = .error e → E e

namespace Upholds

lemma pure {a : α} (h : P a) : Upholds I E (Pure.pure a) P := by
  rintro s r s' hrun hs
  cases hrun
  exact ⟨hs, by rintro _ ⟨⟩; exact h, by rintro _ ⟨⟩⟩

lemma throw {e : ε} (h : E e) : Upholds I E (MonadExcept.throw e) P := by
  rintro s r s' hrun hs
  cases hrun
  exact ⟨hs, by rintro _ ⟨⟩, by rintro _ ⟨⟩; exact h⟩

lemma read : Upholds I E (get : ExceptT ε (StateM σ) σ) fun _ => True := by
  rintro s r s' hrun hs
  cases hrun
  exact ⟨hs, fun _ _ => trivial, by rintro _ ⟨⟩⟩

lemma update {f : σ → σ} (h : ∀ s, I s → I (f s)) :
    Upholds I E (modify f : ExceptT ε (StateM σ) PUnit) fun _ => True := by
  rintro s r s' hrun hs
  cases hrun
  exact ⟨h s hs, fun _ _ => trivial, by rintro _ ⟨⟩⟩

/-- The second of two computations needs to be known for results of the first one only. -/
lemma bind_of {f : α → ExceptT ε (StateM σ) β} (h : Upholds I E x P)
    (hf : ∀ a, P a → Upholds I E (f a) Q) : Upholds I E (x >>= f) Q := by
  intro s r s' hrun hs
  rcases hx : x.run.run s with ⟨r₁, s₁⟩
  obtain ⟨hs₁, hok, herror⟩ := h s r₁ s₁ hx hs
  cases r₁ with
  | ok a =>
    rw [run_bind_of_ok hx] at hrun
    exact hf a (hok a rfl) s₁ r s' hrun hs₁
  | error e =>
    rw [run_bind_of_error hx] at hrun
    cases hrun
    exact ⟨hs₁, by rintro _ ⟨⟩, by rintro _ ⟨⟩; exact herror e rfl⟩

lemma bind {f : α → ExceptT ε (StateM σ) β} (h : Upholds I E x P)
    (hf : ∀ a, Upholds I E (f a) Q) : Upholds I E (x >>= f) Q :=
  h.bind_of fun a _ => hf a

lemma forM {xs : List β} {f : β → ExceptT ε (StateM σ) PUnit}
    (h : ∀ y ∈ xs, Upholds I E (f y) fun _ => True) : Upholds I E (xs.forM f) fun _ => True := by
  induction xs with
  | nil => exact pure trivial
  | cons y xs ih => exact (h y (by simp)).bind fun _ => ih fun z hz => h z (by simp [hz])

/-- There is one result for each argument. -/
lemma mapM {xs : List β} {f : β → ExceptT ε (StateM σ) α} (h : ∀ y ∈ xs, Upholds I E (f y) P) :
    Upholds I E (xs.mapM f) fun zs => zs.length = xs.length := by
  induction xs with
  | nil => exact pure rfl
  | cons y xs ih =>
    rw [List.mapM_cons]
    refine (h y (by simp)).bind fun z => ?_
    exact (ih fun z hz => h z (by simp [hz])).bind_of fun zs hzs => pure (by simp [hzs])

end Upholds

end Upholds

/-! ### Butterflies of a plan -/

/-- A butterfly lists as many slots as its radix has points. -/
def Request.IsFull : Request → Prop
  | .butterfly radix slots => slots.length = radix.size
  | .twiddle _ _ => True

namespace Planner

variable {α : Type}

/-- Planning issues full butterflies only, even if it does not come to its end. -/
abbrev Fills (x : Planning α) (P : α → Prop) : Prop :=
  Upholds (fun s : Planner => ∀ r ∈ s.requests, r.IsFull) (fun _ => True) x P

lemma fills_ofExcept (r : Except Fault α) :
    Fills (MonadExcept.ofExcept r : Planning α) fun _ => True := by
  cases r with
  | ok a => exact .pure trivial
  | error f => exact .throw trivial

lemma fills_issue {r : Request} (hr : r.IsFull) : Fills (issue r) fun _ => True := by
  refine Upholds.read.bind fun s => ?_
  split
  · refine .update fun s hs r' hr' => ?_
    rcases Array.mem_push.1 hr' with hr' | rfl
    · exact hs r' hr'
    · exact hr
  · exact .throw trivial

lemma fills_address (position : ℕ) : Fills (address position) fun _ => True :=
  Upholds.read.bind fun _ => fills_ofExcept _

lemma fills_relabel (position target : ℕ) : Fills (relabel position target) fun _ => True :=
  Upholds.read.bind fun _ => (fills_ofExcept _).bind fun _ => .update fun _ hs => hs

lemma fills_pick (positions : Array ℕ) (k : ℕ) : Fills (pick positions k) fun _ => True :=
  fills_ofExcept _

lemma fills_butterfly {radix : Radix} {positions : List ℕ} (h : positions.length = radix.size) :
    Fills (butterfly radix positions) fun _ => True :=
  (Upholds.mapM fun p _ => fills_address p).bind_of fun _ hslots => fills_issue (hslots.trans h)

lemma fills_shiftAddresses (positions : Array ℕ) (first : ℕ) (cycle : List ℕ) :
    Fills (shiftAddresses positions first cycle) fun _ => True := by
  induction cycle with
  | nil => exact .pure trivial
  | cons a rest ih =>
    cases rest with
    | nil => exact (fills_pick positions a).bind fun p => fills_relabel p first
    | cons b rest =>
      refine (fills_pick positions b).bind fun q => (fills_address q).bind fun target => ?_
      exact (fills_pick positions a).bind fun p => (fills_relabel p target).bind fun _ => ih

lemma fills_shiftCycle (positions : Array ℕ) (cycle : List ℕ) :
    Fills (shiftCycle positions cycle) fun _ => True := by
  unfold shiftCycle
  split
  · exact (fills_pick positions _).bind fun p => (fills_address p).bind fun first =>
      fills_shiftAddresses positions first _
  · exact .pure trivial

lemma fills_column (n r1 : ℕ) (inner : Radix) (positions : Array ℕ) (i1 : ℕ) :
    Fills (column n r1 inner positions i1) fun _ => True := by
  refine (Upholds.mapM fun i2 _ => fills_pick positions _).bind_of fun group hgroup => ?_
  refine (fills_butterfly (by simpa using hgroup)).bind fun _ => .forM fun p _ => ?_
  exact (fills_ofExcept _).bind fun angle => (fills_address _).bind fun slot => fills_issue trivial

/-- A row has as many positions as it should. -/
lemma fills_row (r1 : ℕ) (positions : Array ℕ) (i2 : ℕ) :
    Fills (row r1 positions i2) fun part => part.size = r1 := by
  simp only [row]
  split
  · rename_i hstop
    refine .pure ?_
    rw [Array.size_extract, min_eq_left hstop, Nat.add_sub_cancel_left]
  · exact .throw trivial

/-- The transform of as many positions as the factorization has points. -/
lemma fills_compose {f : Factorization} (hf : f.Exact) {positions : Array ℕ}
    (hsize : positions.size = f.size) : Fills (compose f positions) fun _ => True := by
  induction f generalizing positions with
  | unit => exact .pure trivial
  | base radix => exact fills_butterfly (by simpa [Factorization.size] using hsize)
  | split n outer inner ih =>
    obtain ⟨rfl, houter⟩ := hf
    -- a row that is too short is a fault, so the outer transform always gets as many as it needs
    have hrow : outer.size * inner.size / inner.size = outer.size :=
      Nat.mul_div_cancel _ (by have := inner.two_le_size; omega)
    simp only [compose, forBelow_eq_forM, hrow]
    refine (Upholds.forM fun i1 _ => fills_column _ _ inner positions i1).bind fun _ => ?_
    refine (Upholds.forM fun i2 _ => ?_).bind fun _ => ?_
    · exact (fills_row _ positions i2).bind_of fun part hpart => ih houter hpart
    · exact (fills_ofExcept _).bind fun order =>
        .forM fun cycle _ => fills_shiftCycle positions cycle

end Planner

/-- All butterflies of a plan are full, however far planning comes. -/
lemma Plan.isFull_of_ofSize {n : ℕ} {plan : Plan} (h : Plan.ofSize n = .ok plan) :
    ∀ r ∈ plan.requests, r.IsFull := by
  obtain ⟨f, hf, -⟩ := bind_eq_ok.1 h
  obtain ⟨hsize, hexact⟩ := Factorization.exact_of_ofSize hf
  have hpositions : (Array.range n).size = f.size := by simp [hsize]
  rcases hrun : (Planner.compose f (Array.range n)).run.run (Planner.start n) with ⟨r, s⟩
  rw [Plan.ofSize_eq hf, hrun] at h
  cases h
  obtain ⟨hfull, -⟩ := Planner.fills_compose hexact hpositions _ r s hrun (by simp [Planner.start])
  simpa using hfull

/-! ### Computations that accept every size -/

namespace Build

variable {R α β : Type}

/-- The computation never rejects a size, and of its result `P` holds. -/
abbrev AcceptsWith (x : Build R α) (P : α → Prop) : Prop :=
  Upholds (fun _ => True) (fun e => ∀ s, e ≠ .badSize s) x P

/-- The computation never rejects a size. -/
abbrev Accepts (x : Build R α) : Prop :=
  AcceptsWith x fun _ => True

lemma Accepts.run_ne {x : Build R α} (h : Accepts x) {b b' : Builder R} {e : BadSize} :
    x.run.run b ≠ (.error (.badSize e), b') :=
  fun hrun => (h b _ b' hrun trivial).2.2 _ rfl e rfl

/-- A computation that always succeeds. -/
lemma accepts_of_run {x : Build R α} (f : Builder R → α × Builder R)
    (h : ∀ b, x.run.run b = (.ok (f b).1, (f b).2)) : Accepts x := by
  intro b r b' hrun _
  rw [h b] at hrun
  cases hrun
  exact ⟨trivial, fun _ _ => trivial, by rintro _ ⟨⟩⟩

lemma accepts_assign (s : Symbol) (e : Expr R) : Accepts (assign s e) :=
  .update fun _ _ => trivial

lemma accepts_store (s : Symbol) (e : Expr R) : Accepts (store s e) :=
  .update fun _ _ => trivial

lemma accepts_call (c : Call R) : Accepts (call c) :=
  .update fun _ _ => trivial

lemma accepts_comment (text : String) : Accepts (comment text : Build R Unit) :=
  .update fun _ _ => trivial

lemma accepts_recordButterfly : Accepts (recordButterfly : Build R Unit) :=
  .update fun _ _ => trivial

lemma accepts_recordRotation (turn : Turn) : Accepts (recordRotation turn : Build R Unit) :=
  .update fun _ _ => trivial

lemma accepts_addShiftTable (slots : List ℕ) : Accepts (addShiftTable slots : Build R ℕ) :=
  accepts_of_run (·.addShiftTable slots) fun _ => rfl

lemma accepts_allocTemp : Accepts (allocTemp : Build R Symbol) :=
  accepts_of_run (·.allocTemp) fun _ => rfl

lemma accepts_allocComplex : Accepts (allocComplex : Build R ComplexSymbol) :=
  accepts_allocTemp.bind fun _ => accepts_allocTemp.bind fun _ => .pure trivial

lemma accepts_allocComplexes (n : ℕ) :
    AcceptsWith (allocComplexes n : Build R (List ComplexSymbol)) fun values =>
      values.length = n := by
  induction n with
  | zero => exact .pure rfl
  | succ n ih =>
    exact accepts_allocComplex.bind fun _ =>
      ih.bind_of fun others hothers => .pure (by simp [hothers])

lemma accepts_release (s : Symbol) : Accepts (release s : Build R Unit) := by
  refine Upholds.read.bind fun b => ?_
  split
  · exact .update fun _ _ => trivial
  · exact .throw fun _ => by simp

lemma accepts_releaseAll (symbols : List Symbol) :
    Accepts (symbols.forM release : Build R Unit) :=
  .forM fun s _ => accepts_release s

lemma accepts_releaseComplex (v : ComplexSymbol) : Accepts (releaseComplex v : Build R Unit) :=
  (accepts_release _).bind fun _ => accepts_release _

lemma accepts_releaseComplexes (values : List ComplexSymbol) :
    Accepts (values.forM releaseComplex : Build R Unit) :=
  .forM fun v _ => accepts_releaseComplex v

lemma accepts_ofFaulty (r : Except Fault α) : Accepts (ofFaulty r : Build R α) := by
  cases r with
  | ok a => exact .pure trivial
  | error f => exact .throw fun _ => by simp

lemma accepts_entry (xs : Array α) (i : ℕ) : Accepts (entry xs i : Build R α) :=
  accepts_ofFaulty _

/-- A size that was accepted by its check. -/
lemma accepts_ofSized {r : Except BadSize α} {a : α} (h : r = .ok a) :
    AcceptsWith (ofSized r : Build R α) (· = a) := by
  subst h
  exact .pure rfl

end Build

open Build

variable {R : Type} [Scalar R]

namespace Rotation

variable (v : ComplexSymbol) (gain : Option R)

lemma accepts_half : Accepts (half v gain) := by
  cases gain <;> exact (accepts_assign _ _).bind fun _ => accepts_assign _ _

lemma accepts_quarter (positive : Bool) : Accepts (quarter v positive gain) := by
  refine accepts_allocTemp.bind fun t => ?_
  cases positive <;> cases gain <;>
    exact (accepts_assign _ _).bind fun _ => (accepts_assign _ _).bind fun _ =>
      (accepts_assign _ _).bind fun _ => accepts_release t

lemma accepts_diagonal (octant : ℕ) : Accepts (diagonal v octant gain) := by
  unfold diagonal
  iterate 2 refine accepts_allocTemp.bind fun _ => ?_
  iterate 4 refine (accepts_assign _ _).bind fun _ => ?_
  exact (accepts_release _).bind fun _ => accepts_release _

lemma accepts_general (angle : Angle) : Accepts (general v angle gain) := by
  unfold general
  iterate 3 refine accepts_allocTemp.bind fun _ => ?_
  iterate 5 refine (accepts_assign _ _).bind fun _ => ?_
  iterate 2 refine (accepts_release _).bind fun _ => ?_
  exact accepts_release _

lemma accepts_emit (angle : Angle) : Accepts (emit v angle gain) := by
  unfold emit
  split
  · exact .pure trivial
  · exact ((accepts_assign _ _).bind fun _ => accepts_assign _ _).bind fun _ =>
      accepts_recordRotation _
  · exact (accepts_half v _).bind fun _ => accepts_recordRotation _
  · exact (accepts_quarter v _ _).bind fun _ => accepts_recordRotation _
  · exact (accepts_diagonal v _ _).bind fun _ => accepts_recordRotation _
  · exact (accepts_general v _ angle).bind fun _ => accepts_recordRotation _

end Rotation

namespace Butterfly

variable (x0 x1 x2 x3 x4 : ComplexSymbol)

omit [Scalar R] in
lemma accepts_lanewise (dst : ComplexSymbol) (formula : (ComplexSymbol → Expr R) → Expr R) :
    Accepts (lanewise dst formula) :=
  (accepts_assign _ _).bind fun _ => accepts_assign _ _

omit [Scalar R] in
lemma accepts_two : Accepts (two x0 x1 : Build R Unit) := by
  unfold two
  iterate 2 refine accepts_allocComplex.bind fun _ => ?_
  iterate 4 refine (accepts_lanewise _ _).bind fun _ => ?_
  exact accepts_releaseComplexes _

lemma accepts_three : Accepts (three x0 x1 x2 : Build R Unit) := by
  unfold three
  iterate 3 refine accepts_allocComplex.bind fun _ => ?_
  iterate 4 refine (accepts_lanewise _ _).bind fun _ => ?_
  iterate 4 refine (accepts_assign _ _).bind fun _ => ?_
  exact accepts_releaseComplexes _

omit [Scalar R] in
lemma accepts_four : Accepts (four x0 x1 x2 x3 : Build R Unit) := by
  unfold four
  iterate 4 refine accepts_allocComplex.bind fun _ => ?_
  iterate 5 refine (accepts_lanewise _ _).bind fun _ => ?_
  iterate 2 refine (accepts_assign _ _).bind fun _ => ?_
  refine (accepts_lanewise _ _).bind fun _ => ?_
  iterate 2 refine (accepts_assign _ _).bind fun _ => ?_
  exact accepts_releaseComplexes _

lemma accepts_five : Accepts (five x0 x1 x2 x3 x4 : Build R Unit) := by
  unfold five
  iterate 11 refine accepts_allocComplex.bind fun _ => ?_
  iterate 12 refine (accepts_lanewise _ _).bind fun _ => ?_
  iterate 8 refine (accepts_assign _ _).bind fun _ => ?_
  exact accepts_releaseComplexes _

/-- The number of points of a radix is not rejected. -/
lemma accepts_emit {values : List ComplexSymbol} {radix : Radix}
    (h : values.length = radix.size) : Accepts (emit values : Build R Unit) := by
  cases radix with
  | two =>
    match values, h with
    | [x0, x1], _ => exact accepts_recordButterfly.bind fun _ => accepts_two _ _
  | three =>
    match values, h with
    | [x0, x1, x2], _ => exact accepts_recordButterfly.bind fun _ => accepts_three _ _ _
  | four =>
    match values, h with
    | [x0, x1, x2, x3], _ => exact accepts_recordButterfly.bind fun _ => accepts_four _ _ _ _
  | five =>
    match values, h with
    | [x0, x1, x2, x3, x4], _ => exact accepts_recordButterfly.bind fun _ => accepts_five _ _ _ _ _

end Butterfly

/-! ### Fourier transforms -/

namespace Fourier

lemma accepts_unrollRequest (values : Array ComplexSymbol) {r : Request} (hr : r.IsFull) :
    Accepts (unrollRequest values r : Build R Unit) := by
  cases r with
  | butterfly radix slots =>
    exact (Upholds.mapM fun i _ => accepts_entry values i).bind_of fun group hgroup =>
      Butterfly.accepts_emit (hgroup.trans hr)
  | twiddle slot angle =>
    exact (accepts_entry values slot).bind fun v => Rotation.accepts_emit v none angle

/-- A number of values that can be split is not rejected. -/
lemma accepts_unroll {values : Array ComplexSymbol} {f : Factorization}
    (hf : Factorization.ofSize values.size = .ok f) : Accepts (unroll values : Build R _) := by
  have hplan := Plan.ofSize_eq hf
  refine (accepts_ofSized hplan).bind_of ?_
  rintro _ rfl
  refine (Upholds.forM fun r hr => ?_).bind fun _ => accepts_ofFaulty _
  exact accepts_unrollRequest values (Plan.isFull_of_ofSize hplan r hr)

lemma accepts_emitUnrolled {n : ℕ} {f : Factorization} (hf : Factorization.ofSize n = .ok f) :
    Accepts (emitUnrolled n : Build R Permutation) := by
  refine (accepts_allocComplexes n).bind_of fun loaded hloaded => ?_
  refine (accepts_comment _).bind fun _ => ?_
  refine (Upholds.forM fun p _ => (accepts_assign _ _).bind fun _ => accepts_assign _ _).bind
    fun _ => ?_
  refine (accepts_comment _).bind fun _ => ?_
  have hsize : Factorization.ofSize loaded.toArray.size = .ok f := by simpa [hloaded] using hf
  refine (accepts_unroll hsize).bind fun order => (accepts_comment _).bind fun _ => ?_
  refine (Upholds.forM fun k _ => ?_).bind fun _ => ?_
  · exact (accepts_entry _ k).bind fun i => (accepts_entry _ i).bind fun v =>
      (accepts_store _ _).bind fun _ => accepts_store _ _
  · exact (accepts_releaseComplexes loaded).bind fun _ => .pure trivial

lemma accepts_callRequest (r : Request) : Accepts (callRequest r : Build R Unit) := by
  cases r with
  | butterfly radix slots => exact accepts_recordButterfly.bind fun _ => accepts_call _
  | twiddle slot angle =>
    simp only [callRequest]
    split
    · exact .pure trivial
    · exact (accepts_recordRotation _).bind fun _ => accepts_call _

omit [Scalar R] in
lemma accepts_callCycle (cycle : List ℕ) : Accepts (callCycle cycle : Build R Unit) := by
  unfold callCycle
  split
  · exact .pure trivial
  · exact .pure trivial
  · exact accepts_call _
  · exact (accepts_addShiftTable _).bind fun _ => accepts_call _

lemma accepts_emitCalled {n : ℕ} {f : Factorization} (hf : Factorization.ofSize n = .ok f) :
    Accepts (emitCalled n : Build R Permutation) := by
  refine (accepts_comment _).bind fun _ => (accepts_ofSized (Plan.ofSize_eq hf)).bind fun plan => ?_
  refine (Upholds.forM fun r _ => accepts_callRequest r).bind fun _ => ?_
  refine (accepts_ofFaulty _).bind fun order => (accepts_comment _).bind fun _ => ?_
  exact (Upholds.forM fun cycle _ => accepts_callCycle cycle).bind fun _ => .pure trivial

end Fourier

/-! ### Cosine transforms -/

namespace Cosine

lemma accepts_splitFirst (first last : ComplexSymbol) :
    Accepts (splitFirst first last : Build R Unit) := by
  unfold splitFirst
  iterate 2 refine accepts_allocTemp.bind fun _ => ?_
  iterate 6 refine (accepts_assign _ _).bind fun _ => ?_
  exact (accepts_release _).bind fun _ => accepts_release _

lemma accepts_splitPair (x1 x2 : ComplexSymbol) (angle : Angle) :
    Accepts (splitPair x1 x2 angle : Build R Unit) := by
  unfold splitPair
  iterate 4 refine accepts_allocTemp.bind fun _ => ?_
  iterate 4 refine (accepts_assign _ _).bind fun _ => ?_
  refine (Rotation.accepts_emit _ none angle).bind fun _ => ?_
  iterate 4 refine (accepts_assign _ _).bind fun _ => ?_
  exact accepts_releaseAll _

lemma accepts_splitMiddle (x : ComplexSymbol) (angle : Angle) :
    Accepts (splitMiddle x angle : Build R Unit) := by
  unfold splitMiddle
  iterate 3 refine accepts_allocTemp.bind fun _ => ?_
  iterate 3 refine (accepts_assign _ _).bind fun _ => ?_
  refine (Rotation.accepts_emit _ none angle).bind fun _ => ?_
  iterate 2 refine (accepts_assign _ _).bind fun _ => ?_
  exact accepts_releaseAll _

lemma accepts_splitRest (n : ℕ) (bins : Array ComplexSymbol) :
    Accepts (splitRest n bins : Build R Unit) := by
  refine .forM fun k _ => (accepts_ofFaulty _).bind fun angle => ?_
  split
  · exact (accepts_entry bins k).bind fun x1 => (accepts_entry bins _).bind fun x2 =>
      accepts_splitPair x1 x2 angle
  split
  · exact (accepts_entry bins k).bind fun x => accepts_splitMiddle x angle
  · exact .pure trivial

lemma accepts_rotateBins (n : ℕ) (bins : Array ComplexSymbol) :
    Accepts (rotateBins n bins : Build R Unit) :=
  .forM fun k _ => (accepts_ofFaulty _).bind fun angle =>
    (accepts_entry bins k).bind fun v => Rotation.accepts_emit v _ angle

lemma accepts_storeBins (n : ℕ) (c : Array R) (bins : Array ComplexSymbol) :
    Accepts (storeBins n c bins) := by
  refine .forM fun k _ => ?_
  split <;>
    exact (accepts_entry bins _).bind fun v => (accepts_entry c k).bind fun _ => accepts_store _ _

/-- A size that passes the check has a half that can be split. -/
lemma exists_half_of_checkSize {n : ℕ} (h : checkSize n = .ok ()) :
    ∃ f, Factorization.ofSize (n / 2) = .ok f := by
  unfold checkSize at h
  split at h
  · cases h
  · obtain ⟨f, hf, -⟩ := bind_eq_ok.1 h
    exact ⟨f, hf⟩

lemma accepts_emitForward {n : ℕ} (h : checkSize n = .ok ()) (c : Array R) :
    Accepts (emitForward n c) := by
  obtain ⟨f, hf⟩ := exists_half_of_checkSize h
  refine (accepts_ofSized h).bind fun _ => (accepts_comment _).bind fun _ => ?_
  refine (accepts_allocComplexes (n / 2)).bind_of fun packed hpacked => ?_
  have hsize : Factorization.ofSize packed.toArray.size = .ok f := by simpa [hpacked] using hf
  refine (Upholds.forM fun p _ => (accepts_assign _ _).bind fun _ => accepts_assign _ _).bind
    fun _ => ?_
  refine (accepts_comment _).bind fun _ => (Fourier.accepts_unroll hsize).bind fun order => ?_
  refine (Upholds.mapM fun k _ => (accepts_entry _ k).bind fun i => accepts_entry _ i).bind
    fun found => ?_
  refine accepts_allocComplex.bind fun last => (accepts_comment _).bind fun _ => ?_
  refine (accepts_entry _ 0).bind fun first => (accepts_splitFirst first last).bind fun _ => ?_
  refine (accepts_splitRest n _).bind fun _ => (accepts_comment _).bind fun _ => ?_
  refine (accepts_rotateBins n _).bind fun _ => (accepts_comment _).bind fun _ => ?_
  refine (accepts_storeBins n c _).bind fun _ => ?_
  exact (accepts_releaseComplexes packed).bind fun _ => accepts_releaseComplex last

lemma accepts_foldFirst (c : Array R) (m : ℕ) (z : ComplexSymbol) : Accepts (foldFirst c m z) := by
  unfold foldFirst
  iterate 2 refine accepts_allocTemp.bind fun _ => ?_
  iterate 2 refine (accepts_entry c _).bind fun _ => (accepts_assign _ _).bind fun _ => ?_
  iterate 2 refine (accepts_assign _ _).bind fun _ => ?_
  exact (accepts_release _).bind fun _ => accepts_release _

lemma accepts_loadRotated (c : Array R) (z : ComplexSymbol) (gain : R) (k1 k2 : ℕ)
    (angle : Angle) : Accepts (loadRotated c z gain k1 k2 angle) :=
  (accepts_entry c k1).bind fun _ => (accepts_entry c k2).bind fun _ =>
    (accepts_assign _ _).bind fun _ => (accepts_assign _ _).bind fun _ =>
      Rotation.accepts_emit z _ angle

lemma accepts_foldPair (n : ℕ) (c : Array R) (k : ℕ) (zk zmk : ComplexSymbol) :
    Accepts (foldPair n c k zk zmk) := by
  unfold foldPair
  iterate 2 refine accepts_allocComplex.bind fun _ => ?_
  iterate 2
    refine (accepts_ofFaulty _).bind fun angle =>
      (accepts_loadRotated c _ _ _ _ angle).bind fun _ => ?_
  iterate 2 refine accepts_allocComplex.bind fun _ => ?_
  iterate 4 refine (accepts_assign _ _).bind fun _ => ?_
  iterate 2 refine (accepts_releaseComplex _).bind fun _ => ?_
  refine (accepts_ofFaulty _).bind fun angle =>
    (Rotation.accepts_emit _ none angle).bind fun _ => ?_
  iterate 4 refine (accepts_assign _ _).bind fun _ => ?_
  exact (accepts_releaseComplex _).bind fun _ => accepts_releaseComplex _

lemma accepts_foldAll (n : ℕ) (c : Array R) (values : Array ComplexSymbol) :
    Accepts (foldAll n c values) := by
  refine .forM fun k _ => ?_
  split
  · exact (accepts_entry values 0).bind fun z => accepts_foldFirst c _ z
  split
  · exact (accepts_ofFaulty _).bind fun angle => (accepts_entry values k).bind fun z =>
      accepts_loadRotated c z _ _ _ angle
  · exact (accepts_entry values k).bind fun zk => (accepts_entry values _).bind fun zmk =>
      accepts_foldPair n c k zk zmk

omit [Scalar R] in
lemma accepts_storeSamples (n : ℕ) (values : Array ComplexSymbol) (order : Permutation) :
    Accepts (storeSamples n values order : Build R Unit) :=
  .forM fun _ _ => (accepts_entry _ _).bind fun i => (accepts_entry values i).bind fun _ =>
    accepts_store _ _

lemma accepts_emitInverse {n : ℕ} (h : checkSize n = .ok ()) (c : Array R) :
    Accepts (emitInverse n c) := by
  obtain ⟨f, hf⟩ := exists_half_of_checkSize h
  refine (accepts_ofSized h).bind fun _ => ?_
  refine (accepts_allocComplexes (n / 2)).bind_of fun folded hfolded => ?_
  have hsize : Factorization.ofSize folded.toArray.size = .ok f := by simpa [hfolded] using hf
  refine (accepts_comment _).bind fun _ => (accepts_foldAll n c _).bind fun _ => ?_
  refine (accepts_comment _).bind fun _ => (Fourier.accepts_unroll hsize).bind fun order => ?_
  refine (accepts_comment _).bind fun _ => (accepts_storeSamples n _ order).bind fun _ => ?_
  exact accepts_releaseComplexes folded

end Cosine

/-! ### What a rejected size leaves behind -/

/-- The builder has come to `b'` by `entries` operations and by taking `taken` temporaries. -/
structure Builder.Grown (b b' : Builder R) (entries taken : ℕ) : Prop where
  annotate : b'.annotate = b.annotate
  stream : b'.stream.size = b.stream.size + entries
  lifetimes : b'.lifetimes.size = b.lifetimes.size + taken
  temps : b.temps.Partitioned →
    b'.temps.Partitioned ∧ b'.temps.inUse.size = b.temps.inUse.size + taken

namespace Builder

omit [Scalar R]

variable {b b₁ b₂ : Builder R} {entries taken entries' taken' : ℕ}

lemma Grown.refl (b : Builder R) : b.Grown b 0 0 :=
  ⟨rfl, rfl, rfl, fun h => ⟨h, rfl⟩⟩

lemma Grown.trans (h : b.Grown b₁ entries taken) (h' : b₁.Grown b₂ entries' taken') :
    b.Grown b₂ (entries + entries') (taken + taken') := by
  refine ⟨h'.annotate.trans h.annotate, ?_, ?_, fun hb => ?_⟩
  · rw [h'.stream, h.stream, Nat.add_assoc]
  · rw [h'.lifetimes, h.lifetimes, Nat.add_assoc]
  · obtain ⟨hb₁, hsize₁⟩ := h.temps hb
    obtain ⟨hb₂, hsize₂⟩ := h'.temps hb₁
    exact ⟨hb₂, by rw [hsize₂, hsize₁, Nat.add_assoc]⟩

lemma grown_allocTemp (b : Builder R) : b.Grown b.allocTemp.2 0 1 :=
  ⟨rfl, rfl, Array.size_push _, fun h =>
    ⟨h.allocate.2, (b.temps.allocate_size h.allocate.1).1⟩⟩

lemma grown_assign (b : Builder R) (s : Symbol) (e : Expr R) : b.Grown (b.assign s e) 1 0 :=
  ⟨rfl, Array.size_push _, rfl, fun h => ⟨h, rfl⟩⟩

end Builder

namespace Build

omit [Scalar R]

lemma run_comment {b : Builder R} (hb : b.annotate = false) (text : String) :
    (comment text).run.run b = (.ok (), b) := by
  change (Except.ok (), b.comment text) = _
  rw [Builder.comment, hb]
  rfl

lemma run_ofSized_error {α : Type} {r : Except BadSize α} {e : BadSize} (h : r = .error e)
    (b : Builder R) : (ofSized r : Build R α).run.run b = (.error (.badSize e), b) := by
  rw [h]
  rfl

lemma exists_run_allocComplexes (n : ℕ) (b : Builder R) :
    ∃ values b', (allocComplexes n).run.run b = (.ok values, b') ∧ values.length = n ∧
      b.Grown b' 0 (2 * n) := by
  induction n generalizing b with
  | zero => exact ⟨[], b, rfl, rfl, .refl b⟩
  | succ n ih =>
    obtain ⟨others, b', hrun, hlength, hgrown⟩ := ih b.allocTemp.2.allocTemp.2
    refine ⟨⟨b.allocTemp.1, b.allocTemp.2.allocTemp.1⟩ :: others, b', ?_, by simp [hlength], ?_⟩
    · exact (run_bind_of_ok rfl).trans ((run_bind_of_ok hrun).trans rfl)
    · have hpair := b.grown_allocTemp.trans b.allocTemp.2.grown_allocTemp
      convert hpair.trans hgrown using 1
      omega

/-- Two assignments for each entry of a list. -/
lemma exists_run_assigns {α : Type} (xs : List α) (re im : α → Symbol) (e₁ e₂ : α → Expr R)
    (b : Builder R) :
    ∃ b', (xs.forM fun x => do assign (re x) (e₁ x); assign (im x) (e₂ x)).run.run b =
      (.ok (), b') ∧ b.Grown b' (2 * xs.length) 0 := by
  induction xs generalizing b with
  | nil => exact ⟨b, rfl, .refl b⟩
  | cons x xs ih =>
    obtain ⟨b', hrun, hgrown⟩ := ih ((b.assign (re x) (e₁ x)).assign (im x) (e₂ x))
    refine ⟨b', (run_bind_of_ok rfl).trans hrun, ?_⟩
    have hpair := (b.grown_assign (re x) (e₁ x)).trans (Builder.grown_assign _ (im x) (e₂ x))
    convert hpair.trans hgrown using 1
    simp only [List.length_cons]
    omega

end Build

/-- A size without a factorization has no plan. -/
lemma Plan.ofSize_eq_error {n : ℕ} {e : BadSize} (h : Factorization.ofSize n = .error e) :
    Plan.ofSize n = .error e := by
  rw [Plan.ofSize, h]
  rfl

namespace Fourier

/-- The values are loaded before their number is rejected. -/
lemma exists_run_emitUnrolled {n : ℕ} {e : BadSize} (h : Factorization.ofSize n = .error e)
    {b : Builder R} (hb : b.annotate = false) :
    ∃ b', (emitUnrolled n).run.run b = (.error (.badSize e), b') ∧ b.Grown b' (2 * n) (2 * n) := by
  obtain ⟨loaded, b₁, hloaded, hlength, hgrown₁⟩ := exists_run_allocComplexes n b
  obtain ⟨b₂, hload, hgrown₂⟩ := exists_run_assigns loaded.zipIdx
    (fun p => p.1.re) (fun p => p.1.im) (fun p => Symbol.real p.2) (fun p => Symbol.imag p.2) b₁
  have hb₁ : b₁.annotate = false := hgrown₁.annotate.trans hb
  have hb₂ : b₂.annotate = false := hgrown₂.annotate.trans hb₁
  have hplan : Plan.ofSize loaded.toArray.size = .error e := by
    simpa [hlength] using Plan.ofSize_eq_error h
  refine ⟨b₂, ?_, by simpa [hlength] using hgrown₁.trans hgrown₂⟩
  refine (run_bind_of_ok hloaded).trans ((run_bind_of_ok (run_comment hb₁ _)).trans ?_)
  refine (run_bind_of_ok hload).trans ((run_bind_of_ok (run_comment hb₂ _)).trans ?_)
  exact run_bind_of_error (run_bind_of_error (run_ofSized_error hplan b₂))

/-- There is nothing to load for no values. -/
lemma run_emitUnrolled_zero {b : Builder R} (hb : b.annotate = false) :
    (emitUnrolled 0).run.run b = (.error (.badSize ⟨0⟩), b) := by
  have hloaded : (allocComplexes 0).run.run b = (.ok [], b) := rfl
  have hsize : Factorization.ofSize 0 = .error ⟨0⟩ := by simp [Factorization.ofSize]
  refine (run_bind_of_ok hloaded).trans ((run_bind_of_ok (run_comment hb _)).trans ?_)
  refine (run_bind_of_ok rfl).trans ((run_bind_of_ok (run_comment hb _)).trans ?_)
  exact run_bind_of_error (run_bind_of_error (run_ofSized_error (Plan.ofSize_eq_error hsize) b))

lemma run_emitCalled {n : ℕ} {e : BadSize} (h : Factorization.ofSize n = .error e)
    {b : Builder R} (hb : b.annotate = false) :
    (emitCalled n).run.run b = (.error (.badSize e), b) :=
  (run_bind_of_ok (run_comment hb _)).trans
    (run_bind_of_error (run_ofSized_error (Plan.ofSize_eq_error h) b))

end Fourier

/-! ### Engines -/

lemma Factorization.ofSize_seven : ofSize 7 = .error ⟨7⟩ := by
  simp [ofSize, Radix.ofSize?, Radix.priority, Radix.size]

/-- What emits code for a size that the caller chooses. -/
inductive Engine (R : Type) where
  | cosineForward (coefficients : Array R)
  | cosineInverse (coefficients : Array R)
  | unrolled
  | called

namespace Engine

/-- The transform that the code computes. -/
def transform : Engine R → Transform
  | cosineForward _ => .cosineForward
  | cosineInverse _ => .cosineInverse
  | unrolled | called => .fourier

/-- Emits the code for a size. -/
def emit (n : ℕ) : Engine R → Build R Unit
  | cosineForward coefficients => Cosine.emitForward n coefficients
  | cosineInverse coefficients => Cosine.emitInverse n coefficients
  | unrolled => do let _ ← Fourier.emitUnrolled n
  | called => do let _ ← Fourier.emitCalled n

variable {engine : Engine R} {n : ℕ} {e : BadSize} {b b' : Builder R}

lemma checkSize_fourier_eq_ok (h : Transform.fourier.checkSize n = .ok ()) :
    ∃ f, Factorization.ofSize n = .ok f := by
  obtain ⟨f, hf, -⟩ := bind_eq_ok.1 h
  exact ⟨f, hf⟩

lemma checkSize_fourier_eq_error (h : Transform.fourier.checkSize n = .error e) :
    Factorization.ofSize n = .error e := by
  cases hf : Factorization.ofSize n with
  | ok f =>
    rw [Transform.checkSize, hf] at h
    cases h
  | error e' =>
    rw [Transform.checkSize, hf] at h
    cases h
    rfl

/-- A size that passes its check is not rejected. -/
lemma accepts_emit (h : engine.transform.checkSize n = .ok ()) : Accepts (engine.emit n) := by
  cases engine with
  | cosineForward c => exact Cosine.accepts_emitForward h c
  | cosineInverse c => exact Cosine.accepts_emitInverse h c
  | unrolled =>
    obtain ⟨f, hf⟩ := checkSize_fourier_eq_ok h
    exact (Fourier.accepts_emitUnrolled hf).bind fun _ => .pure trivial
  | called =>
    obtain ⟨f, hf⟩ := checkSize_fourier_eq_ok h
    exact (Fourier.accepts_emitCalled hf).bind fun _ => .pure trivial

/-- A size that does not pass its check is rejected. -/
lemma exists_run_emit (hb : b.annotate = false) (h : engine.transform.checkSize n = .error e) :
    ∃ b', (engine.emit n).run.run b = (.error (.badSize e), b') ∧
      (engine ≠ .unrolled ∨ n = 0 → b' = b) ∧
      (engine = .unrolled → b.Grown b' (2 * n) (2 * n)) := by
  cases engine with
  | cosineForward c =>
    exact ⟨b, run_bind_of_error (run_ofSized_error h b), fun _ => rfl, by rintro ⟨⟩⟩
  | cosineInverse c =>
    exact ⟨b, run_bind_of_error (run_ofSized_error h b), fun _ => rfl, by rintro ⟨⟩⟩
  | unrolled =>
    have hsize := checkSize_fourier_eq_error h
    obtain ⟨b', hrun, hgrown⟩ := Fourier.exists_run_emitUnrolled hsize hb
    refine ⟨b', run_bind_of_error hrun, ?_, fun _ => hgrown⟩
    rintro (hne | rfl)
    · exact absurd rfl hne
    · rw [Fourier.run_emitUnrolled_zero hb] at hrun
      exact (congrArg Prod.snd hrun).symm
  | called =>
    exact ⟨b, run_bind_of_error (Fourier.run_emitCalled (checkSize_fourier_eq_error h) hb),
      fun _ => rfl, by rintro ⟨⟩⟩

/-- An engine rejects a size by its check and nowhere else. If comments are not kept, the builder is
then as it was, except that the unrolled Fourier transform of `n` values has appended `2n` loads and
has taken `2n` temporaries, whose lifetimes are open. -/
theorem emit_badSize (hb : b.annotate = false)
    (h : (engine.emit n).run.run b = (.error (.badSize e), b')) :
    engine.transform.checkSize n = .error e ∧
    (engine ≠ .unrolled ∨ n = 0 → b' = b) ∧
    (engine = .unrolled → b.Grown b' (2 * n) (2 * n)) := by
  -- behind a check that is passed nothing can reject the size, so this one has failed
  cases hcheck : engine.transform.checkSize n with
  | ok _ => exact absurd h (accepts_emit hcheck).run_ne
  | error e₁ =>
    obtain ⟨b₁, hrun, hkept⟩ := exists_run_emit hb hcheck
    cases hrun.symm.trans h
    exact ⟨rfl, hkept⟩

/-- A cosine transform of fourteen points, in a session that holds a temporary. -/
theorem emit_badSize_fourteen : ∃ b', ((cosineForward #[]).emit 14).run.run
      ({} : Builder Float).allocTemp.2 = (.error (.badSize ⟨7⟩), b') ∧
    b' = ({} : Builder Float).allocTemp.2 := by
  have hcheck : Cosine.checkSize 14 = .error ⟨7⟩ := by
    simp [Cosine.checkSize, Factorization.ofSize_seven]
  obtain ⟨b', hrun, -⟩ := @exists_run_emit Float _ (cosineForward #[]) 14 ⟨7⟩
    ({} : Builder Float).allocTemp.2 rfl hcheck
  exact ⟨b', hrun, (emit_badSize rfl hrun).2.1 (Or.inl (by simp))⟩

/-- Seven values are loaded into fourteen temporaries before their number is rejected. -/
theorem emit_unrolled_seven : ∃ b', (unrolled.emit 7).run.run ({} : Builder Float) =
      (.error (.badSize ⟨7⟩), b') ∧
    b'.stream.size = 14 ∧ b'.lifetimes.size = 14 ∧ b'.temps.inUse.size = 14 := by
  have hcheck : Transform.fourier.checkSize 7 = .error ⟨7⟩ := by
    rw [Transform.checkSize, Factorization.ofSize_seven]
    rfl
  obtain ⟨b', hrun, -, hgrown⟩ := @exists_run_emit Float _ unrolled 7 ⟨7⟩ {} rfl hcheck
  obtain ⟨-, hstream, hlifetimes, htemps⟩ := hgrown rfl
  exact ⟨b', hrun, hstream, hlifetimes, (htemps TempPool.Reachable.empty.partitioned).2⟩

end Engine

end MixedRadix
