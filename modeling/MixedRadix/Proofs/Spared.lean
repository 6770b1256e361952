import MixedRadix.Proofs.Unrolled
import MixedRadix.Proofs.Written

/-!
# Code that wastes nothing

Every operation of a rotation and of a butterfly is needed if the values on which it works are
needed behind it, and these are needed before it (`Rotation.spared_emit`, `Butterfly.spared_emit`).
So the code of a whole plan is needed as soon as its results are (`Fourier.spared_unroll`), and as
all results are stored, nothing of an unrolled Fourier transform is dead
(`Fourier.writes_emitUnrolled`).
-/

namespace MixedRadix

open Build

variable {R : Type} [Scalar R] {D : Outlook} {taken : Set Symbol}

/-! ### What an operation reads and writes -/

section Reads

variable (a b : Expr R)

omit [Scalar R] in
@[simp] lemma Expr.occurrences_hAdd : (a + b).occurrences = a.occurrences ++ b.occurrences :=
  occurrences_add a b

omit [Scalar R] in
@[simp] lemma Expr.occurrences_hSub : (a - b).occurrences = a.occurrences ++ b.occurrences :=
  occurrences_sub a b

omit [Scalar R] in
@[simp] lemma Expr.occurrences_hMul : (a * b).occurrences = a.occurrences ++ b.occurrences :=
  occurrences_mul a b

omit [Scalar R] in
@[simp] lemma Expr.occurrences_hNeg : (-a).occurrences = a.occurrences :=
  occurrences_neg a

omit [Scalar R] in
@[simp] lemma Op.mem_inputs_assign {dst s : Symbol} {mandatory pruned : Bool} :
    s ∈ Op.inputs ⟨.assign dst a, mandatory, pruned⟩ ↔ s ∈ a.occurrences :=
  Expr.mem_symbols

omit [Scalar R] in
@[simp] lemma Op.outputs_assign {dst : Symbol} {mandatory pruned : Bool} :
    Op.outputs ⟨.assign dst a, mandatory, pruned⟩ = [dst] :=
  rfl

end Reads

/-! ### Rotations -/

/-- Both parts of a complex value are needed. -/
structure Outlook.NeedsPair (D : Outlook) (v : ComplexSymbol) : Prop where
  re : v.re ∈ D.needed
  im : v.im ∈ D.needed
  ne : v.re ≠ v.im

namespace Outlook.NeedsPair

variable {v : ComplexSymbol}

lemma mem (hv : D.NeedsPair v) : ∀ s ∈ [v.re, v.im], s ∈ D.needed := by
  simp [hv.re, hv.im]

lemma nodup (hv : D.NeedsPair v) : [v.re, v.im].Nodup := by
  simp [hv.ne]

end Outlook.NeedsPair

namespace Rotation

variable {v : ComplexSymbol} {t t' t'' : Symbol} {e₁ e₂ e₃ e₄ e₅ : Expr R}

omit [Scalar R] in
/-- Each part is replaced on its own. -/
lemma marks_parts (hD : D.Within taken) (hv : D.NeedsPair v) (h₁ : e₁.occurrences = [v.re])
    (h₂ : e₂.occurrences = [v.im]) : Marks D
      [({ stmt := .assign v.re e₁ } : Op R), { stmt := .assign v.im e₂ }] [] D := by
  refine marks_of_allWanted (by simp) ?_ (fun s hs => ?_) fun s hs => ⟨hs, ?_⟩
  · simp [AllWanted, IsWanted, h₂, hv.re, hv.im, hv.ne]
  · simp only [IsWanted, Op.mem_inputs_assign, Op.outputs_assign, h₁, h₂, List.mem_singleton]
    tauto
  · have hnone : Fresh taken [] := ⟨List.nodup_nil, by simp⟩
    exact hD.notMem_inputs hv.mem hnone (by simp [h₁, h₂]) s hs

omit [Scalar R] in
/-- The parts are exchanged. -/
lemma marks_exchange (hD : D.Within taken) (hv : D.NeedsPair v) (ht : Fresh taken [t])
    (h₁ : e₁.occurrences = [v.re]) (h₂ : e₂.occurrences = [v.im]) (h₃ : e₃.occurrences = [t]) :
    Marks D [({ stmt := .assign t e₁ } : Op R), { stmt := .assign v.re e₂ },
      { stmt := .assign v.im e₃ }] [] D := by
  have htre : t ≠ v.re := fun e => ht.notMem t (by simp) (e ▸ hD.needed hv.re)
  have htim : t ≠ v.im := fun e => ht.notMem t (by simp) (e ▸ hD.needed hv.im)
  refine marks_of_allWanted (by simp) ?_ (fun s hs => ?_) fun s hs => ⟨hs, ?_⟩
  · simp [AllWanted, IsWanted, h₂, h₃, hv.re, hv.im, hv.ne, htre, htim]
  · have hst : s ≠ t := fun e => ht.notMem t (by simp) (e ▸ hD.needed hs)
    simp only [IsWanted, Op.mem_inputs_assign, Op.outputs_assign, h₁, h₂, h₃, List.mem_singleton]
    tauto
  · exact hD.notMem_inputs hv.mem ht (by simp [h₁, h₂, h₃]) s hs

lemma spared_quarter (hD : D.Within taken) (hv : D.NeedsPair v) (positive : Bool)
    (gain : Option R) : Spared taken D (quarter v positive gain) D := by
  refine Writes.fresh fun h => h.allocTemp fun t h => ?_
  cases positive <;> cases gain <;>
    refine Writes.assign (Writes.assign (Writes.assign
      (Writes.release_last Set.subset_union_left (h.notMem t (by simp)) ⟨rfl, ?_⟩))) <;>
    exact marks_exchange hD hv h (by simp) (by simp) (by simp)

lemma spared_diagonal (hD : D.Within taken) (hv : D.NeedsPair v) (octant : ℕ) (gain : Option R) :
    Spared taken D (diagonal v octant gain) D := by
  refine Writes.fresh fun h => h.allocTemp fun t0 h => h.allocTemp fun t1 h => ?_
  iterate 4 refine Writes.assign ?_
  refine Writes.release Set.subset_union_left (h.notMem t0 (by simp))
    (Writes.release_last subset_rfl (h.notMem t1 (by simp)) ⟨rfl, ?_⟩)
  have hreads (s : Symbol) :
      (s ∈ (diagonalParts (R := R) v octant).1.occurrences ↔ s = v.re ∨ s = v.im) ∧
      (s ∈ (diagonalParts (R := R) v octant).2.occurrences ↔ s = v.re ∨ s = v.im) := by
    unfold diagonalParts
    split <;> simp [or_comm]
  refine marks_inPlace 2 [t0, t1] hD h hv.mem hv.nodup
    (hD.notMem_inputs hv.mem h ?_) ?_ ?_ ?_ ?_ ?_ ?_ ?_
  · simp [hreads]
  all_goals simp [AllUseful, hreads]

lemma spared_general (hD : D.Within taken) (hv : D.NeedsPair v) (angle : Angle) (gain : Option R) :
    Spared taken D (general v angle gain) D := by
  refine Writes.fresh fun h => h.allocTemp fun t0 h => h.allocTemp fun t1 h =>
    h.allocTemp fun t2 h => ?_
  iterate 5 refine Writes.assign ?_
  refine Writes.release Set.subset_union_left (h.notMem t0 (by simp))
    (Writes.release subset_rfl (h.notMem t1 (by simp))
      (Writes.release_last subset_rfl (h.notMem t2 (by simp)) ⟨rfl, ?_⟩))
  refine marks_inPlace 3 [t0, t1, t2] hD h hv.mem hv.nodup
    (hD.notMem_inputs hv.mem h ?_) ?_ ?_ ?_ ?_ ?_ ?_ ?_
  all_goals simp [AllUseful]

/-- A rotation wastes nothing if both parts of its value are needed behind it. -/
lemma spared_emit (hD : D.Within taken) (hv : D.NeedsPair v) (angle : Angle) (gain : Option R) :
    Spared taken D (emit v angle gain) D := by
  have hcount {x : Build R Unit} {turn : Turn} (h : Spared taken D x D) :
      Spared taken D (do x; Build.recordRotation turn) D :=
    h.seq fun _ => .of_nothing (.recordRotation turn)
  have hparts {e₁ e₂ : Expr R} (h₁ : e₁.occurrences = [v.re]) (h₂ : e₂.occurrences = [v.im]) :
      Spared taken D (do assign v.re e₁; assign v.im e₂) D :=
    Writes.assign (Writes.assign_last ⟨rfl, marks_parts hD hv h₁ h₂⟩)
  unfold emit
  cases angle.turn with
  | identity =>
    cases gain with
    | none => exact Spared.pure ()
    | some c => exact hcount (hparts (by simp) (by simp))
  | half => cases gain <;> exact hcount (hparts (by simp) (by simp))
  | quarter positive => cases positive <;> cases gain <;> exact hcount (spared_quarter hD hv _ _)
  | diagonal octant => exact hcount (spared_diagonal hD hv octant gain)
  | general => exact hcount (spared_general hD hv angle gain)

end Rotation

/-! ### Butterflies -/

variable {N : Set Symbol}

/-- The parts of some values are needed, and they are all different. -/
structure NeedsAll (N : Set Symbol) (values : List ComplexSymbol) : Prop where
  mem : ∀ s ∈ symbolsOf values, s ∈ N
  nodup : (symbolsOf values).Nodup

namespace Butterfly

variable {x0 x1 x2 x3 x4 : ComplexSymbol}

omit [Scalar R] in
lemma spared_two (hN : N ⊆ taken) (h : NeedsAll N [x0, x1]) :
    Spared taken ⟨N, ∅⟩ (two x0 x1 : Build R Unit) ⟨N, ∅⟩ := by
  refine Writes.fresh fun ht => ht.allocComplex fun t1 ht => ht.allocComplex fun t2 ht => ?_
  simp only [lanewise, bind_assoc]
  iterate 8 refine Writes.assign ?_
  refine Writes.releaseComplexAll Set.subset_union_left ht.notMem ⟨rfl, ?_⟩
  refine marks_inPlace 4 (symbolsOf [t1, t2]) ⟨hN, by simp, by simp⟩ ht h.mem h.nodup (by simp)
    ?_ ?_ ?_ ?_ ?_ ?_ ?_
  all_goals simp [AllUseful, symbolsOf]

lemma spared_three (hN : N ⊆ taken) (h : NeedsAll N [x0, x1, x2]) :
    Spared taken ⟨N, ∅⟩ (three x0 x1 x2 : Build R Unit) ⟨N, ∅⟩ := by
  refine Writes.fresh fun ht => ht.allocComplex fun t1 ht => ht.allocComplex fun t2 ht =>
    ht.allocComplex fun t3 ht => ?_
  simp only [lanewise, bind_assoc]
  iterate 12 refine Writes.assign ?_
  refine Writes.releaseComplexAll Set.subset_union_left ht.notMem ⟨rfl, ?_⟩
  refine marks_inPlace 6 (symbolsOf [t1, t2, t3]) ⟨hN, by simp, by simp⟩ ht h.mem h.nodup (by simp)
    ?_ ?_ ?_ ?_ ?_ ?_ ?_
  all_goals simp [AllUseful, symbolsOf]

omit [Scalar R] in
lemma spared_four (hN : N ⊆ taken) (h : NeedsAll N [x0, x1, x2, x3]) :
    Spared taken ⟨N, ∅⟩ (four x0 x1 x2 x3 : Build R Unit) ⟨N, ∅⟩ := by
  refine Writes.fresh fun ht => ht.allocComplex fun t1 ht => ht.allocComplex fun t2 ht =>
    ht.allocComplex fun t3 ht => ht.allocComplex fun t4 ht => ?_
  simp only [lanewise, bind_assoc]
  iterate 16 refine Writes.assign ?_
  refine Writes.releaseComplexAll Set.subset_union_left ht.notMem ⟨rfl, ?_⟩
  refine marks_inPlace 8 (symbolsOf [t1, t2, t3, t4]) ⟨hN, by simp, by simp⟩ ht h.mem h.nodup
    (by simp) ?_ ?_ ?_ ?_ ?_ ?_ ?_
  all_goals simp [AllUseful, symbolsOf]

lemma spared_five (hN : N ⊆ taken) (h : NeedsAll N [x0, x1, x2, x3, x4]) :
    Spared taken ⟨N, ∅⟩ (five x0 x1 x2 x3 x4 : Build R Unit) ⟨N, ∅⟩ := by
  refine Writes.fresh fun ht => ht.allocComplex fun t1 ht => ht.allocComplex fun t2 ht =>
    ht.allocComplex fun t3 ht => ht.allocComplex fun t4 ht => ht.allocComplex fun t5 ht =>
    ht.allocComplex fun t6 ht => ht.allocComplex fun t7 ht => ht.allocComplex fun t8 ht =>
    ht.allocComplex fun t9 ht => ht.allocComplex fun t10 ht => ht.allocComplex fun t11 ht => ?_
  simp only [lanewise, bind_assoc]
  iterate 32 refine Writes.assign ?_
  refine Writes.releaseComplexAll Set.subset_union_left ht.notMem ⟨rfl, ?_⟩
  refine marks_inPlace 22 (symbolsOf [t5, t8, t9, t10, t11]) ⟨hN, by simp, by simp⟩ ht h.mem h.nodup
    (by simp) ?_ ?_ ?_ ?_ ?_ ?_ ?_
  all_goals simp [AllUseful, symbolsOf]

/-- A butterfly wastes nothing if all its values are needed behind it. -/
lemma spared_emit {values : List ComplexSymbol} (hN : N ⊆ taken) (h : NeedsAll N values)
    (hlength : values.length ∈ [2, 3, 4, 5]) :
    Spared taken ⟨N, ∅⟩ (emit values : Build R Unit) ⟨N, ∅⟩ := by
  have hcount {x : Build R Unit} (hx : Spared taken ⟨N, ∅⟩ x ⟨N, ∅⟩) :
      Spared taken ⟨N, ∅⟩ (do Build.recordButterfly; x) ⟨N, ∅⟩ :=
    (Spared.of_nothing .recordButterfly).seq fun _ => hx
  match values, hlength with
  | [x0, x1], _ => exact hcount (spared_two hN h)
  | [x0, x1, x2], _ => exact hcount (spared_three hN h)
  | [x0, x1, x2, x3], _ => exact hcount (spared_four hN h)
  | [x0, x1, x2, x3, x4], _ => exact hcount (spared_five hN h)

end Butterfly

/-! ### Plans -/

namespace NeedsAll

variable {values : List ComplexSymbol} {i : ℕ} {v : ComplexSymbol}

lemma needsPair (h : NeedsAll N values) (hv : v ∈ values) (U : Set Symbol) :
    (⟨N, U⟩ : Outlook).NeedsPair v :=
  ⟨h.mem _ (re_mem_symbolsOf hv), h.mem _ (im_mem_symbolsOf hv),
    re_ne_im_of_nodup_symbolsOf h.nodup hv⟩

/-- Some of the values, each of them once. -/
lemma pick (h : NeedsAll N values) {listed : List ℕ} {group : List ComplexSymbol}
    (hlisted : listed.Nodup) (hgroup : List.Forall₂ (fun i v => values[i]? = some v) listed group) :
    NeedsAll N group := by
  have hget (k : ℕ) (hk : k < group.length) :
      ∃ i, listed[k]? = some i ∧ values[i]? = some group[k] := by
    have hk' : k < listed.length := hgroup.length_eq ▸ hk
    exact ⟨listed[k], List.getElem?_eq_getElem hk', (List.forall₂_iff_get.1 hgroup).2 k hk' hk⟩
  refine ⟨fun s hs => ?_, List.nodup_flatMap.2 ⟨fun v hv => ?_, List.pairwise_iff_getElem.2 ?_⟩⟩
  · obtain ⟨v, hv, hs⟩ := mem_symbolsOf.1 hs
    obtain ⟨k, hk, rfl⟩ := List.getElem_of_mem hv
    obtain ⟨i, -, hi⟩ := hget k hk
    exact h.mem s (mem_symbolsOf.2 ⟨_, List.mem_of_getElem? hi, hs⟩)
  · obtain ⟨k, hk, rfl⟩ := List.getElem_of_mem hv
    obtain ⟨i, -, hi⟩ := hget k hk
    simpa using re_ne_im_of_nodup_symbolsOf h.nodup (List.mem_of_getElem? hi)
  · intro k l hk hl hkl
    obtain ⟨i, hi, hvi⟩ := hget k hk
    obtain ⟨j, hj, hvj⟩ := hget l hl
    refine disjoint_of_nodup_symbolsOf h.nodup hvi hvj fun hij => ?_
    have hk' : k < listed.length := hgroup.length_eq ▸ hk
    exact hkl.ne ((List.getElem?_inj hk' hlisted).1 (hi.trans (hij ▸ hj.symm)))

end NeedsAll

namespace Fourier

variable {values : List ComplexSymbol}

lemma spared_unrollRequest (hN : N ⊆ taken) (h : NeedsAll N values) {r : Request}
    (hr : r.Fits {slot | slot < values.length}) :
    Spared taken ⟨N, ∅⟩ (unrollRequest values.toArray r : Build R Unit) ⟨N, ∅⟩ := by
  cases r with
  | butterfly radix listed =>
    obtain ⟨hnodup, hlength, -⟩ := hr
    refine (Writes.mapM (P := fun i v => values[i]? = some v) fun i _ => ?_).read
      fun group hgroup => ?_
    · exact Writes.entry_last fun v hv => ⟨by simpa using hv, rfl, rfl⟩
    · refine Butterfly.spared_emit hN (h.pick hnodup hgroup) ?_
      rw [← hgroup.length_eq, hlength]
      cases radix <;> simp [Radix.size]
  | twiddle slot angle =>
    refine Writes.entry fun v hv => Rotation.spared_emit ⟨hN, by simp, by simp⟩ ?_ angle none
    exact h.needsPair (List.mem_of_getElem? (by simpa using hv)) ∅

/-- The code of a plan wastes nothing if all values are needed behind it. -/
theorem spared_unroll (hN : N ⊆ taken) (h : NeedsAll N values) :
    Writes taken (unroll values.toArray : Build R Permutation) fun order taken' ops =>
      (Permutation.IsBijective order.map ∧ order.size = values.length) ∧
        taken' = taken ∧ Marks ⟨N, ∅⟩ ops [] ⟨N, ∅⟩ := by
  refine Writes.of_succeeds fun hsucceeds => ?_
  -- code that is emitted to the end has a plan
  have hplan : HasPlan values.length := by
    obtain ⟨_, _, _, hrun⟩ := hsucceeds
    obtain ⟨plan, _, hplan, hrun⟩ := run_bind_eq_ok.1 hrun
    obtain ⟨_, _, -, houtcome⟩ := run_bind_eq_ok.1 hrun
    exact hasPlan_of_outcome (by simpa using (run_ofSized_eq_ok.1 hplan).1)
      (run_ofFaulty_eq_ok.1 houtcome).1
  obtain ⟨plan, order, hplan, horder, hbijective, hsize, hfits⟩ := hplan
  refine Writes.ofSized fun plan' hplan' => ?_
  obtain rfl : plan = plan' := by simpa [hplan] using hplan'
  have hrequests : Spared taken ⟨N, ∅⟩ (plan.requests.forM (unrollRequest values.toArray))
      ⟨N, ∅⟩ :=
    Spared.forM (R := R) (fun _ => ⟨N, ∅⟩) rfl rfl fun _ r hr =>
      spared_unrollRequest hN h (hfits r (List.mem_of_getElem? hr))
  refine hrequests.bind ?_
  rintro _ _ ops ⟨rfl, hops⟩
  refine Writes.ofFaulty_last fun order' horder' => ?_
  obtain rfl : order = order' := by simpa [horder] using horder'
  exact ⟨⟨hbijective, hsize⟩, rfl, by simpa using hops⟩

end Fourier

/-! ### Loading and storing -/

/-- The symbols of slots, which are no temporaries. -/
def slotSymbols : Set Symbol :=
  {s | s.isTemp = false}

lemma Fresh.notMem_of_slot {ts : List Symbol} (h : Fresh slotSymbols ts) {s : Symbol}
    (hs : s.isTemp = false) : s ∉ ts :=
  fun hmem => h.notMem s hmem hs

omit [Scalar R] in
/-- Values are loaded from slots, one after the other. -/
lemma spared_load {values : List ComplexSymbol} (hnodup : (symbolsOf values).Nodup)
    (g : ℕ → Symbol × Symbol) : Spared taken ⟨∅, ∅⟩ (values.zipIdx.forM fun (v, i) => do
      Build.assign v.re (g i).1
      Build.assign v.im (g i).2 : Build R Unit) ⟨{s | s ∈ symbolsOf values}, ∅⟩ := by
  refine Spared.forM (fun i => ⟨{s | s ∈ symbolsOf (values.take i)}, ∅⟩) (by simp [symbolsOf])
    (by simp) fun i p hp => ?_
  obtain ⟨v, j⟩ := p
  obtain ⟨hv, rfl⟩ : values[i]? = some v ∧ i = j := by simpa using hp
  have htake : values.take (i + 1) = values.take i ++ [v] := by
    rw [List.take_add_one, hv, Option.toList_some]
  have hsplit : (symbolsOf (values.take i) ++ [v.re, v.im]).Nodup := by
    have hsub := (List.take_sublist (i + 1) values).flatMap fun v => [v.re, v.im]
    rw [htake] at hsub
    simpa [symbolsOf] using hnodup.sublist hsub
  refine Writes.assign (Writes.assign_last
    ⟨rfl, marks_of_useful (by simp) ?_ ?_ (fun s hs => ?_) (by simp)⟩)
  · exact (List.nodup_append.1 hsplit).2.1
  · simp [AllUseful, htake, symbolsOf]
  · refine ⟨fun hmem => List.disjoint_of_nodup_append hsplit hs hmem, .inl ?_⟩
    rw [htake, symbolsOf_append]
    exact List.mem_append_left _ hs

/-- The operations store results that are made of symbols of which none is unneeded, and change
none that is needed. -/
structure Stores (N U : Set Symbol) (ops : List (Op R)) : Prop where
  store : ∀ o ∈ ops, o.pruned = false ∧ o.mandatory = true
  outputs : ∀ o ∈ ops, ∀ s ∈ o.outputs, s ∉ N
  inputs : ∀ o ∈ ops, ∀ s ∈ o.inputs, s ∉ U

omit [Scalar R] in
/-- Results are stored round by round. -/
lemma writes_storeLoop {α : Type} {N U : Set Symbol} {xs : List α} {f : α → Build R Unit}
    {P : α → List (Op R) → Prop}
    (hround : ∀ y ∈ xs, Writes taken (f y) fun _ taken' ops => taken' = taken ∧ P y ops)
    (hstores : ∀ y ∈ xs, ∀ round, P y round → Stores N U round)
    (hread : ∀ s ∈ N, ∃ y ∈ xs, ∀ round, P y round → ∃ o ∈ round, s ∈ o.inputs) :
    Writes taken (xs.forM f) fun _ taken' ops => (taken' = taken ∧ Marks ⟨N, U⟩ ops [] ⟨∅, U⟩) ∧
      ∀ y ∈ xs, ∃ round, P y round ∧ round ⊆ ops := by
  refine (Writes.forM hround).mono ?_
  rintro _ _ ops ⟨htaken, hops, hrounds⟩
  have hall (o : Op R) (ho : o ∈ ops) : ∃ round, Stores N U round ∧ o ∈ round := by
    obtain ⟨y, hy, round, hP, ho⟩ := hops o ho
    exact ⟨round, hstores y hy round hP, ho⟩
  refine ⟨⟨htaken, marks_stores (fun o ho => ?_) (fun o ho => ?_) (fun s hs => ?_)
    fun s hs o ho => ?_⟩, hrounds⟩
  · obtain ⟨round, hround, ho⟩ := hall o ho
    exact hround.store o ho
  · obtain ⟨round, hround, ho⟩ := hall o ho
    exact hround.outputs o ho
  · obtain ⟨y, hy, hreads⟩ := hread s hs
    obtain ⟨round, hP, hsub⟩ := hrounds y hy
    obtain ⟨o, ho, hs⟩ := hreads round hP
    exact ⟨o, hsub ho, hs⟩
  · obtain ⟨round, hround, ho⟩ := hall o ho
    exact fun hinput => hround.inputs o ho s hinput hs

omit [Scalar R] in
lemma spared_storeLoop {α : Type} {N U : Set Symbol} {xs : List α} {f : α → Build R Unit}
    {P : α → List (Op R) → Prop}
    (hround : ∀ y ∈ xs, Writes taken (f y) fun _ taken' ops => taken' = taken ∧ P y ops)
    (hstores : ∀ y ∈ xs, ∀ round, P y round → Stores N U round)
    (hread : ∀ s ∈ N, ∃ y ∈ xs, ∀ round, P y round → ∃ o ∈ round, s ∈ o.inputs) :
    Spared taken ⟨N, U⟩ (xs.forM f) ⟨∅, U⟩ :=
  (writes_storeLoop hround hstores hread).mono fun _ _ _ h => h.1

/-! ### Unrolled Fourier transforms -/

namespace Fourier

variable {n : ℕ}

omit [Scalar R] in
/-- The results are stored, each of which is in one of the values. -/
lemma spared_stores {values : List ComplexSymbol} {order : Permutation}
    (hlength : values.length = n) (hfresh : Fresh slotSymbols (symbolsOf values))
    (hbijective : Permutation.IsBijective order.map) (hsize : order.size = n) :
    Spared taken ⟨{s | s ∈ symbolsOf values}, ∅⟩ ((List.range n).forM fun k => do
      let value ← entry values.toArray (← entry order.map k)
      store (.real k) value.re
      store (.imag k) value.im : Build R Unit) ⟨∅, ∅⟩ := by
  refine spared_storeLoop (P := fun k round => ∃ v, values[order.image k]? = some v ∧
    round = [{ stmt := .assign (.real k) v.re, mandatory := true },
      { stmt := .assign (.imag k) v.im, mandatory := true }]) (fun k hk => ?_) ?_ fun s hs => ?_
  · refine Writes.entry fun j hj => Writes.entry fun v hv => ?_
    rw [Permutation.getElem?_map (hsize ▸ List.mem_range.1 hk), Option.some.injEq] at hj
    subst hj
    exact Writes.store (Writes.store_last ⟨rfl, v, by simpa using hv, rfl⟩)
  · rintro k - _ ⟨v, -, rfl⟩
    have hre : Symbol.real k ∉ symbolsOf values := hfresh.notMem_of_slot rfl
    have him : Symbol.imag k ∉ symbolsOf values := hfresh.notMem_of_slot rfl
    exact ⟨by simp, by simp [hre, him], by simp⟩
  · obtain ⟨v, hv, hs⟩ := mem_symbolsOf.1 hs
    obtain ⟨j, hj, rfl⟩ := List.getElem_of_mem hv
    obtain ⟨k, hk, rfl⟩ := Permutation.exists_image_eq hbijective (hsize ▸ hlength ▸ hj)
    refine ⟨k, List.mem_range.2 (hsize ▸ hk), ?_⟩
    rintro _ ⟨v, hv', rfl⟩
    obtain rfl : values[order.image k] = v := by simpa [List.getElem?_eq_getElem hj] using hv'
    simpa using hs

/-- Nothing that is emitted for a Fourier transform is dead. -/
lemma writes_emitUnrolled (n : ℕ) :
    Writes slotSymbols (emitUnrolled n : Build R Permutation)
      fun _ _ ops => Marks ⟨∅, ∅⟩ ops [] ⟨∅, ∅⟩ := by
  refine Writes.fresh fun h => (h.allocComplexes n).bind ?_
  rintro loaded _ _ ⟨⟨hlength, hfresh⟩, rfl, rfl⟩
  rw [List.nil_append] at hfresh ⊢
  have hneeds : NeedsAll {s | s ∈ symbolsOf loaded} loaded := ⟨fun s hs => hs, hfresh.nodup⟩
  refine Writes.comment ((spared_load hfresh.nodup fun i => (.real i, .imag i)).bind ?_)
  rintro _ _ load ⟨rfl, hload⟩
  refine Writes.comment ((spared_unroll Set.subset_union_right hneeds).bind ?_)
  rintro order _ ops ⟨⟨hbijective, hsize⟩, rfl, hops⟩
  refine Writes.comment ((spared_stores hlength hfresh hbijective (hsize.trans hlength)).bind ?_)
  rintro _ _ stores ⟨rfl, hstores⟩
  refine (Writes.releaseComplexAll (P := fun _ _ ops => ops = []) Set.subset_union_left
    hfresh.notMem rfl).bind ?_
  rintro _ _ _ rfl
  exact Writes.pure (hload.append (hops.append (hstores.append (.nil subset_rfl subset_rfl))))

end Fourier

end MixedRadix
