import MixedRadix.Compile
import MixedRadix.Proofs.Called
import MixedRadix.Proofs.Cosine.Forward
import MixedRadix.Proofs.Cosine.Inverse
import MixedRadix.Proofs.Lines
import MixedRadix.Proofs.Rendering
import MixedRadix.Proofs.Success

/-!
# What is emitted

`Build.Appends P results x` says of which operations of a builder the computation `x` is made, and
so what it appends: operations of which `P` holds, and among them those that store to `results`, in
this order. Nothing is said about values, so that no size is too large. Every engine without calls
appends plain assignments (`Op.IsPlain`) and stores each of its results once
(`Config.appends_emit_of_isCosine`, `Config.appends_emit_of_unrolled`); the engine with calls
appends nothing but calls (`Config.appends_emit_of_calls`).
-/

namespace MixedRadix

variable {R : Type}

/-! ### Plain assignments -/

/-- An assignment of a plain expression. -/
def Op.IsPlain (o : Op R) : Prop :=
  o.pruned = false ∧ ∃ dst e, o.stmt = .assign dst e ∧ e.isPlain = true

/-- The symbol to which an entry stores a result. -/
def Instruction.result? : Instruction R → Option Symbol
  | op ⟨.assign dst _, true, _⟩ => some dst
  | _ => none

/-! ### Computations -/

namespace Build

variable {α β : Type} {P : Op R → Prop} {results results' : List Symbol} {x : Build R α}

/-- The computation is made of the operations of a builder. What it appends are comments of a single
line and operations of which `P` holds, and among them those that store to `results`. Calls of
cyclic shifts come with their tables. -/
inductive Appends (P : Op R → Prop) : {α : Type} → List Symbol → Build R α → Prop where
  | pure {α : Type} (a : α) : Appends P [] (Pure.pure a : Build R α)
  | throw {α : Type} {results : List Symbol} (e : BuildError) :
    Appends P results (MonadExcept.throw e : Build R α)
  | seq {α β : Type} {results results' : List Symbol} {x : Build R α} {f : α → Build R β}
    {Q : α → Prop} (hx : Appends P results x) (hQ : ∀ b a b', x.run.run b = (.ok a, b') → Q a)
    (hf : ∀ a, Q a → Appends P results' (f a)) : Appends P (results ++ results') (x >>= f)
  | assign {s : Symbol} {e : Expr R} (ho : P { stmt := .assign s e }) :
    Appends P [] (Build.assign s e)
  | store {s : Symbol} {e : Expr R} (ho : P { stmt := .assign s e, mandatory := true }) :
    Appends P [s] (Build.store s e)
  | call {c : Call R} (hc : c.routine ≠ .cyclicShift)
    (ho : P { stmt := .call c, mandatory := true }) : Appends P [] (Build.call c)
  | shift {slots : List ℕ}
    (ho : ∀ table, P { stmt := .call (.cyclicShift table slots), mandatory := true }) :
    Appends P [] (addShiftTable slots >>= fun table => Build.call (.cyclicShift table slots))
  | comment {text : String} (htext : IsLine text) : Appends P [] (Build.comment text)
  | allocTemp : Appends P [] Build.allocTemp
  | release (s : Symbol) : Appends P [] (Build.release s)
  | recordButterfly : Appends P [] Build.recordButterfly
  | recordRotation (turn : Turn) : Appends P [] (Build.recordRotation turn)

namespace Appends

lemma bind {f : α → Build R β} (h : Appends P results x) (hf : ∀ a, Appends P results' (f a)) :
    Appends P (results ++ results') (x >>= f) :=
  h.seq (Q := fun _ => True) (fun _ _ _ _ => trivial) fun a _ => hf a

/-- Behind the last result, nothing is stored. -/
lemma bind_nil {f : α → Build R β} (h : Appends P results x) (hf : ∀ a, Appends P [] (f a)) :
    Appends P results (x >>= f) := by
  simpa using h.bind hf

lemma mono {Q : Op R → Prop} (h : Appends P results x) (hPQ : ∀ o, P o → Q o) :
    Appends Q results x := by
  induction h with
  | pure a => exact pure a
  | throw e => exact throw e
  | seq _ hQ _ ihx ihf => exact ihx.seq hQ ihf
  | assign ho => exact assign (hPQ _ ho)
  | store ho => exact store (hPQ _ ho)
  | call hc ho => exact call hc (hPQ _ ho)
  | shift ho => exact shift fun table => hPQ _ (ho table)
  | comment htext => exact comment htext
  | allocTemp => exact allocTemp
  | release s => exact release s
  | recordButterfly => exact recordButterfly
  | recordRotation turn => exact recordRotation turn

/-- If the computation succeeds, it has appended operations of which `P` holds, and among them those
that store to `results`. -/
lemma exists_code (h : Appends P results x) {b b' : Builder R} {a : α}
    (hrun : x.run.run b = (.ok a, b')) : ∃ code, b'.stream.toList = b.stream.toList ++ code ∧
      (∀ o, .op o ∈ code → P o) ∧ code.filterMap Instruction.result? = results := by
  have hnone {b b' : Builder R} (hstream : b'.stream = b.stream) :
      ∃ code, b'.stream.toList = b.stream.toList ++ code ∧ (∀ o, .op o ∈ code → P o) ∧
        code.filterMap Instruction.result? = [] :=
    ⟨[], by simp [hstream], by simp, rfl⟩
  have hpush {b : Builder R} {o : Op R} (ho : P o) :
      ∃ code, (b.push o).stream.toList = b.stream.toList ++ code ∧ (∀ o, .op o ∈ code → P o) ∧
        code.filterMap Instruction.result? = (Instruction.op o).result?.toList := by
    refine ⟨[.op o], by simp [Builder.push], fun o' ho' => ?_, ?_⟩
    · obtain rfl : o' = o := by simpa using ho'
      exact ho
    · cases h : (Instruction.op o).result? <;> simp [h]
  induction h generalizing b b' with
  | pure _ | allocTemp | recordButterfly | recordRotation _ =>
    exact hnone (congrArg (·.2.stream) hrun).symm
  | throw e => cases congrArg Prod.fst hrun
  | seq _ hQ _ ihx ihf =>
    obtain ⟨a, b₁, hx, hrun⟩ := run_bind_eq_ok.1 hrun
    obtain ⟨code, hcode, hops, hresults⟩ := ihx hx
    obtain ⟨code', hcode', hops', hresults'⟩ := ihf a (hQ _ _ _ hx) hrun
    refine ⟨code ++ code', by rw [hcode', hcode, List.append_assoc], fun o ho => ?_, ?_⟩
    · exact (List.mem_append.1 ho).elim (hops o) (hops' o)
    · rw [List.filterMap_append, hresults, hresults']
  | assign ho | store ho | call _ ho =>
    cases congrArg Prod.snd hrun
    exact hpush ho
  | shift ho =>
    cases congrArg Prod.snd hrun
    exact hpush (ho _)
  | @comment text _ =>
    cases congrArg Prod.snd hrun
    change ∃ code, (b.comment text).stream.toList = _ ∧ _
    unfold Builder.comment
    split
    · exact ⟨[.comment text], by simp, by simp, rfl⟩
    · exact hnone rfl
  | release s =>
    rw [run_release] at hrun
    cases hrelease : b.temps.release s with
    | error e =>
      rw [hrelease] at hrun
      cases hrun
    | ok temps =>
      rw [hrelease] at hrun
      obtain ⟨lifetimes, openLifetimes, hframe⟩ := b.afterRelease_frame s temps
      obtain rfl : b.afterRelease s temps = b' := congrArg Prod.snd hrun
      exact hnone (by rw [hframe])

/-- A loop stores what its rounds do. -/
lemma forM {xs : List α} {f : α → Build R Unit} {g : α → List Symbol}
    (h : ∀ y ∈ xs, Appends P (g y) (f y)) : Appends P (xs.flatMap g) (xs.forM f) := by
  induction xs with
  | nil => exact pure ()
  | cons y xs ih => exact (h y (by simp)).bind fun _ => ih fun z hz => h z (by simp [hz])

/-- A loop that stores nothing. -/
lemma loop {xs : List α} {f : α → Build R Unit} (h : ∀ y ∈ xs, Appends P [] (f y)) :
    Appends P [] (xs.forM f) := by
  have hnone : xs.flatMap (fun _ => ([] : List Symbol)) = [] := by simp
  exact hnone ▸ forM h

lemma mapM {xs : List α} {f : α → Build R β} (h : ∀ y ∈ xs, Appends P [] (f y)) :
    Appends P [] (xs.mapM f) := by
  induction xs with
  | nil => exact pure []
  | cons y xs ih =>
    rw [List.mapM_cons]
    exact (h y (by simp)).bind fun _ => (ih fun z hz => h z (by simp [hz])).bind fun _ => pure _

lemma allocComplex : Appends P [] (Build.allocComplex : Build R ComplexSymbol) :=
  allocTemp.bind fun _ => allocTemp.bind fun _ => pure _

lemma allocComplexes (n : ℕ) : Appends P [] (Build.allocComplexes n : Build R _) := by
  induction n with
  | zero => exact pure []
  | succ n ih => exact allocComplex.bind fun _ => ih.bind fun _ => pure _

lemma releaseComplex (v : ComplexSymbol) : Appends P [] (Build.releaseComplex v : Build R Unit) :=
  (release _).bind fun _ => release _

lemma ofFaulty (r : Except Fault α) : Appends P [] (Build.ofFaulty r : Build R α) := by
  cases r with
  | ok a => exact pure a
  | error f => exact throw (.fault f)

lemma ofSized (r : Except BadSize α) : Appends P [] (Build.ofSized r : Build R α) := by
  cases r with
  | ok a => exact pure a
  | error e => exact throw (.badSize e)

lemma entry (xs : Array α) (i : ℕ) : Appends P [] (Build.entry xs i : Build R α) :=
  ofFaulty _

/-- What is done with an entry of a list needs to be known of its members only. -/
lemma entry_bind {xs : List α} {i : ℕ} {f : α → Build R β}
    (hf : ∀ y ∈ xs, Appends P results (f y)) :
    Appends P results (Build.entry xs.toArray i >>= f) := by
  refine (entry xs.toArray i).seq (Q := (· ∈ xs)) (fun b y b' hrun => ?_) hf
  obtain ⟨hget, -⟩ := run_ofFaulty_eq_ok.1 hrun
  exact List.mem_of_getElem? (by simpa using getOrFault_eq_ok.1 hget)

end Appends

/-- The computation appends plain assignments, none of which stores a result. -/
abbrev Works (x : Build R α) : Prop :=
  Appends Op.IsPlain [] x

/-- An assignment of an expression whose shape is plain. -/
lemma works_assign {s : Symbol} {e : Expr R} (he : e.isPlain = true) : Works (Build.assign s e) :=
  .assign ⟨rfl, s, e, rfl, he⟩

lemma works_releaseAll (values : List ComplexSymbol) :
    Works (values.forM releaseComplex : Build R Unit) :=
  .loop fun v _ => .releaseComplex v

end Build

open Build

variable [Scalar R]

/-! ### Rotations -/

namespace Rotation

variable (v : ComplexSymbol) (gain : Option R)

lemma works_half : Works (half v gain) := by
  cases gain with
  | none => exact (works_assign rfl).bind fun _ => works_assign rfl
  | some c => exact (works_assign rfl).bind fun _ => works_assign rfl

lemma works_quarter (positive : Bool) : Works (quarter v positive gain) := by
  refine Appends.allocTemp.bind fun t => ?_
  cases positive <;> cases gain <;>
    exact (works_assign rfl).bind fun _ => (works_assign rfl).bind fun _ =>
      (works_assign rfl).bind fun _ => .release t

omit [Scalar R] in
lemma isPlain_diagonalParts (octant : ℕ) :
    (diagonalParts v octant : Expr R × Expr R).1.isPlain = true ∧
      (diagonalParts v octant : Expr R × Expr R).2.isPlain = true := by
  unfold diagonalParts
  split <;> exact ⟨rfl, rfl⟩

lemma works_diagonal (octant : ℕ) : Works (diagonal v octant gain) := by
  obtain ⟨hre, him⟩ := isPlain_diagonalParts (R := R) v octant
  refine Appends.allocTemp.bind fun t0 => Appends.allocTemp.bind fun t1 => ?_
  refine (works_assign hre).bind fun _ => (works_assign him).bind fun _ => ?_
  refine (works_assign rfl).bind fun _ => (works_assign rfl).bind fun _ => ?_
  exact (Appends.release t0).bind fun _ => .release t1

lemma works_general (angle : Angle) : Works (general v angle gain) := by
  unfold general
  refine Appends.allocTemp.bind fun t0 => Appends.allocTemp.bind fun t1 =>
    Appends.allocTemp.bind fun t2 => ?_
  iterate 5 refine (works_assign rfl).bind fun _ => ?_
  exact (Appends.release t0).bind fun _ => (Appends.release t1).bind fun _ => .release t2

lemma works_emit (angle : Angle) : Works (emit v angle gain) := by
  unfold emit
  split
  · exact .pure ()
  · exact ((works_assign rfl).bind fun _ => works_assign rfl).bind fun _ => .recordRotation _
  · exact (works_half v _).bind fun _ => .recordRotation _
  · exact (works_quarter v _ _).bind fun _ => .recordRotation _
  · exact (works_diagonal v _ _).bind fun _ => .recordRotation _
  · exact (works_general v _ angle).bind fun _ => .recordRotation _

end Rotation

/-! ### Butterflies -/

namespace Butterfly

variable (x0 x1 x2 x3 x4 : ComplexSymbol)

omit [Scalar R] in
lemma works_lanewise {dst : ComplexSymbol} {formula : (ComplexSymbol → Expr R) → Expr R}
    (hre : (formula fun v => v.re).isPlain = true) (him : (formula fun v => v.im).isPlain = true) :
    Works (lanewise dst formula) :=
  (works_assign hre).bind fun _ => works_assign him

omit [Scalar R] in
lemma works_two : Works (two x0 x1 : Build R Unit) := by
  unfold two
  iterate 2 refine Appends.allocComplex.bind fun _ => ?_
  iterate 4 refine (works_lanewise rfl rfl).bind fun _ => ?_
  exact works_releaseAll _

lemma works_three : Works (three x0 x1 x2 : Build R Unit) := by
  unfold three
  iterate 3 refine Appends.allocComplex.bind fun _ => ?_
  iterate 4 refine (works_lanewise rfl rfl).bind fun _ => ?_
  iterate 4 refine (works_assign rfl).bind fun _ => ?_
  exact works_releaseAll _

omit [Scalar R] in
lemma works_four : Works (four x0 x1 x2 x3 : Build R Unit) := by
  unfold four
  iterate 4 refine Appends.allocComplex.bind fun _ => ?_
  iterate 5 refine (works_lanewise rfl rfl).bind fun _ => ?_
  iterate 2 refine (works_assign rfl).bind fun _ => ?_
  refine (works_lanewise rfl rfl).bind fun _ => ?_
  iterate 2 refine (works_assign rfl).bind fun _ => ?_
  exact works_releaseAll _

lemma works_five : Works (five x0 x1 x2 x3 x4 : Build R Unit) := by
  unfold five
  iterate 11 refine Appends.allocComplex.bind fun _ => ?_
  iterate 12 refine (works_lanewise rfl rfl).bind fun _ => ?_
  iterate 8 refine (works_assign rfl).bind fun _ => ?_
  exact works_releaseAll _

lemma works_emit (values : List ComplexSymbol) : Works (emit values : Build R Unit) := by
  unfold emit
  split
  · exact Appends.recordButterfly.bind fun _ => works_two _ _
  · exact Appends.recordButterfly.bind fun _ => works_three _ _ _
  · exact Appends.recordButterfly.bind fun _ => works_four _ _ _ _
  · exact Appends.recordButterfly.bind fun _ => works_five _ _ _ _ _
  · exact .throw _

end Butterfly

/-! ### Fourier transforms -/

namespace Fourier

lemma works_unrollRequest (values : Array ComplexSymbol) (r : Request) :
    Works (unrollRequest values r : Build R Unit) := by
  cases r with
  | butterfly radix slots =>
    exact (Appends.mapM fun i _ => .entry values i).bind fun group => Butterfly.works_emit group
  | twiddle slot angle =>
    exact (Appends.entry values slot).bind fun v => Rotation.works_emit v none angle

lemma works_unroll (values : Array ComplexSymbol) : Works (unroll values : Build R _) :=
  (Appends.ofSized _).bind fun _ =>
    (Appends.loop fun r _ => works_unrollRequest values r).bind fun _ => .ofFaulty _

/-- Both parts of every complex slot are stored, slot by slot. -/
theorem appends_emitUnrolled (n : ℕ) :
    Appends Op.IsPlain ((List.range n).flatMap fun k => [.real k, .imag k])
      (emitUnrolled n : Build R Permutation) := by
  refine (Appends.allocComplexes n).bind fun loaded =>
    (Appends.comment (by simp [IsLine])).bind fun _ => ?_
  refine (Appends.loop fun p _ => (works_assign rfl).bind fun _ => works_assign rfl).bind
    fun _ => ?_
  refine (Appends.comment (by simp [IsLine])).bind fun _ => ?_
  refine (works_unroll _).bind fun order => (Appends.comment (by simp [IsLine])).bind fun _ => ?_
  refine (Appends.forM fun k _ => ?_).bind_nil fun _ =>
    (works_releaseAll loaded).bind fun _ => .pure order
  refine (Appends.entry _ k).bind fun i => (Appends.entry _ i).bind fun v => ?_
  exact (Appends.store ⟨rfl, .real k, v.re, rfl, rfl⟩).bind fun _ =>
    .store ⟨rfl, .imag k, v.im, rfl, rfl⟩

lemma appends_callRequest (r : Request) : Appends Op.IsCall [] (callRequest r : Build R Unit) := by
  cases r with
  | butterfly radix slots =>
    exact Appends.recordButterfly.bind fun _ => .call (by simp [Call.routine]) ⟨rfl, rfl, _, rfl⟩
  | twiddle slot angle =>
    simp only [callRequest]
    split
    · exact .pure ()
    · exact (Appends.recordRotation _).bind fun _ =>
        .call (by simp [Call.routine]) ⟨rfl, rfl, _, rfl⟩

omit [Scalar R] in
lemma appends_callCycle (cycle : List ℕ) :
    Appends Op.IsCall [] (callCycle cycle : Build R Unit) := by
  unfold callCycle
  split
  · exact .pure ()
  · exact .pure ()
  · exact .call (by simp [Call.routine]) ⟨rfl, rfl, _, rfl⟩
  · exact .shift fun _ => ⟨rfl, rfl, _, rfl⟩

/-- Nothing but calls. -/
theorem appends_emitCalled (n : ℕ) : Appends Op.IsCall [] (emitCalled n : Build R Permutation) := by
  refine (Appends.comment (by simp [IsLine])).bind fun _ => ?_
  refine (Appends.ofSized _).bind fun plan => ?_
  refine (Appends.loop fun r _ => appends_callRequest r).bind fun _ => ?_
  refine (Appends.ofFaulty _).bind fun order =>
    (Appends.comment (by simp [IsLine])).bind fun _ => ?_
  exact (Appends.loop fun cycle _ => appends_callCycle cycle).bind fun _ => .pure order

end Fourier

/-! ### Cosine transforms -/

namespace Cosine

lemma works_splitFirst (first last : ComplexSymbol) :
    Works (splitFirst first last : Build R Unit) := by
  refine Appends.allocTemp.bind fun t0 => Appends.allocTemp.bind fun t1 => ?_
  iterate 6 refine (works_assign rfl).bind fun _ => ?_
  exact (Appends.release t0).bind fun _ => .release t1

lemma works_splitPair (x1 x2 : ComplexSymbol) (angle : Angle) :
    Works (splitPair x1 x2 angle : Build R Unit) := by
  unfold splitPair
  iterate 4 refine Appends.allocTemp.bind fun _ => ?_
  iterate 4 refine (works_assign rfl).bind fun _ => ?_
  refine (Rotation.works_emit _ none angle).bind fun _ => ?_
  iterate 4 refine (works_assign rfl).bind fun _ => ?_
  exact .loop fun t _ => .release t

lemma works_splitMiddle (x : ComplexSymbol) (angle : Angle) :
    Works (splitMiddle x angle : Build R Unit) := by
  unfold splitMiddle
  iterate 3 refine Appends.allocTemp.bind fun _ => ?_
  iterate 3 refine (works_assign rfl).bind fun _ => ?_
  refine (Rotation.works_emit _ none angle).bind fun _ => ?_
  iterate 2 refine (works_assign rfl).bind fun _ => ?_
  exact .loop fun t _ => .release t

lemma works_splitRest (n : ℕ) (bins : Array ComplexSymbol) :
    Works (splitRest n bins : Build R Unit) := by
  refine .loop fun k _ => (Appends.ofFaulty _).bind fun angle => ?_
  split
  · exact (Appends.entry bins k).bind fun x1 => (Appends.entry bins _).bind fun x2 =>
      works_splitPair x1 x2 angle
  split
  · exact (Appends.entry bins k).bind fun x => works_splitMiddle x angle
  · exact .pure ()

lemma works_rotateBins (n : ℕ) (bins : Array ComplexSymbol) :
    Works (rotateBins n bins : Build R Unit) :=
  .loop fun k _ => (Appends.ofFaulty _).bind fun angle =>
    (Appends.entry bins k).bind fun v => Rotation.works_emit v _ angle

lemma works_forwardFront (n : ℕ) : Works (forwardFront n : Build R _) := by
  refine (Appends.ofSized _).bind fun _ => (Appends.comment (by simp [IsLine])).bind fun _ => ?_
  refine (Appends.allocComplexes _).bind fun packed => ?_
  refine (Appends.loop fun p _ => (works_assign rfl).bind fun _ => works_assign rfl).bind
    fun _ => ?_
  refine (Appends.comment (by simp [IsLine])).bind fun _ => ?_
  refine (Fourier.works_unroll _).bind fun order => ?_
  refine (Appends.mapM fun k _ => (Appends.entry _ k).bind fun i => .entry _ i).bind fun found => ?_
  refine Appends.allocComplex.bind fun last => ?_
  refine (Appends.comment (by simp [IsLine])).bind fun _ => ?_
  refine (Appends.entry _ 0).bind fun first => (works_splitFirst first last).bind fun _ => ?_
  refine (works_splitRest n _).bind fun _ => ?_
  refine (Appends.comment (by simp [IsLine])).bind fun _ => ?_
  exact (works_rotateBins n _).bind fun _ => .pure _

/-- A plain assignment that reads nothing but some complex values. -/
def TakesFrom (values : List ComplexSymbol) (o : Op R) : Prop :=
  o.IsPlain ∧ ∀ s ∈ o.inputs, s ∈ symbolsOf values

section TakesFrom

variable {values : List ComplexSymbol} {s dst : Symbol} (hs : s ∈ symbolsOf values) (c : R)

include hs

omit [Scalar R] in
lemma takesFrom_of {e : Expr R} (hplain : e.isPlain = true) (hreads : e.occurrences = [s]) :
    TakesFrom values ⟨.assign dst e, true, false⟩ := by
  refine ⟨⟨rfl, dst, e, rfl, hplain⟩, fun t ht => ?_⟩
  obtain rfl : t = s := by simpa [hreads] using Expr.mem_symbols.1 ht
  exact hs

lemma takesFrom_binAsIs : TakesFrom values ⟨.assign dst (binAsIs c s), true, false⟩ := by
  unfold binAsIs
  split
  · exact takesFrom_of hs rfl rfl
  split <;> exact takesFrom_of hs rfl rfl

lemma takesFrom_binNegated : TakesFrom values ⟨.assign dst (binNegated c s), true, false⟩ := by
  unfold binNegated
  split
  · exact takesFrom_of hs rfl rfl
  split <;> exact takesFrom_of hs rfl rfl

end TakesFrom

/-- The second part of a forward transform stores every bin once. -/
lemma appends_forwardBack (n : ℕ) (coeffs : Array R)
    (values : List ComplexSymbol × List ComplexSymbol) :
    Appends (TakesFrom values.2) ((List.range n).flatMap fun k => [.output k])
      (forwardBack n coeffs values) := by
  refine (Appends.comment (by simp [IsLine])).bind fun _ => ?_
  refine (Appends.forM fun k _ => ?_).bind_nil fun _ => .loop fun v _ => .releaseComplex v
  split
  · refine .entry_bind fun v hv => (Appends.entry _ _).bind fun c => ?_
    exact .store (takesFrom_binAsIs (re_mem_symbolsOf hv) c)
  · refine .entry_bind fun v hv => (Appends.entry _ _).bind fun c => ?_
    exact .store (takesFrom_binNegated (im_mem_symbolsOf hv) c)

theorem appends_emitForward (n : ℕ) (coeffs : Array R) :
    Appends Op.IsPlain ((List.range n).flatMap fun k => [.output k]) (emitForward n coeffs) := by
  rw [emitForward_eq]
  exact (works_forwardFront n).bind fun values =>
    (appends_forwardBack n coeffs values).mono fun _ ho => ho.1

lemma isPlain_scaled (c : R) (s : Symbol) : (scaled c s).isPlain = true := by
  unfold scaled
  split <;> rfl

lemma works_foldFirst (coeffs : Array R) (m : ℕ) (z : ComplexSymbol) :
    Works (foldFirst coeffs m z) := by
  refine Appends.allocTemp.bind fun t1 => Appends.allocTemp.bind fun t2 => ?_
  refine (Appends.entry coeffs 0).bind fun c => (works_assign (isPlain_scaled c _)).bind fun _ => ?_
  refine (Appends.entry coeffs m).bind fun c => (works_assign (isPlain_scaled _ _)).bind fun _ => ?_
  refine (works_assign rfl).bind fun _ => (works_assign rfl).bind fun _ => ?_
  exact (Appends.release t1).bind fun _ => .release t2

lemma works_loadRotated (coeffs : Array R) (z : ComplexSymbol) (gain : R) (k1 k2 : ℕ)
    (angle : Angle) : Works (loadRotated coeffs z gain k1 k2 angle) := by
  refine (Appends.entry coeffs k1).bind fun c1 => (Appends.entry coeffs k2).bind fun c2 => ?_
  refine (works_assign (isPlain_scaled _ _)).bind fun _ => ?_
  exact (works_assign (isPlain_scaled _ _)).bind fun _ => Rotation.works_emit z _ angle

lemma works_foldPair (n : ℕ) (coeffs : Array R) (k : ℕ) (zk zmk : ComplexSymbol) :
    Works (foldPair n coeffs k zk zmk) := by
  refine Appends.allocComplex.bind fun z1 => Appends.allocComplex.bind fun z2 => ?_
  refine (Appends.ofFaulty _).bind fun angle1 =>
    (works_loadRotated coeffs z1 _ _ _ angle1).bind fun _ => ?_
  refine (Appends.ofFaulty _).bind fun angle2 =>
    (works_loadRotated coeffs z2 _ _ _ angle2).bind fun _ => ?_
  refine Appends.allocComplex.bind fun s => Appends.allocComplex.bind fun d => ?_
  iterate 4 refine (works_assign rfl).bind fun _ => ?_
  refine (Appends.releaseComplex z1).bind fun _ => (Appends.releaseComplex z2).bind fun _ => ?_
  refine (Appends.ofFaulty _).bind fun angle => (Rotation.works_emit d none angle).bind fun _ => ?_
  iterate 4 refine (works_assign rfl).bind fun _ => ?_
  exact (Appends.releaseComplex s).bind fun _ => .releaseComplex d

lemma works_foldAll (n : ℕ) (coeffs : Array R) (values : Array ComplexSymbol) :
    Works (foldAll n coeffs values) := by
  refine .loop fun k _ => ?_
  split
  · exact (Appends.entry values 0).bind fun z => works_foldFirst coeffs _ z
  split
  · exact (Appends.ofFaulty _).bind fun angle => (Appends.entry values k).bind fun z =>
      works_loadRotated coeffs z _ _ _ angle
  · exact (Appends.entry values k).bind fun zk => (Appends.entry values _).bind fun zmk =>
      works_foldPair n coeffs k zk zmk

lemma works_inverseFront (n : ℕ) (coeffs : Array R) : Works (inverseFront n coeffs) := by
  refine (Appends.ofSized _).bind fun _ => (Appends.allocComplexes _).bind fun folded => ?_
  refine (Appends.comment (by simp [IsLine])).bind fun _ => ?_
  refine (works_foldAll n coeffs _).bind fun _ => ?_
  refine (Appends.comment (by simp [IsLine])).bind fun _ => ?_
  exact (Fourier.works_unroll _).bind fun order => .pure _

omit [Scalar R] in
/-- The second part of an inverse transform stores every sample once. -/
lemma appends_inverseBack (n : ℕ) (values : List ComplexSymbol × Permutation) :
    Appends (TakesFrom values.1) ((List.range n).flatMap fun k => [.output k])
      (inverseBack n values : Build R Unit) := by
  refine (Appends.comment (by simp [IsLine])).bind fun _ => ?_
  refine (Appends.forM fun k _ => ?_).bind_nil fun _ => .loop fun v _ => .releaseComplex v
  refine (Appends.entry _ _).bind fun i => .entry_bind fun v hv => .store ?_
  split
  · exact takesFrom_of (re_mem_symbolsOf hv) rfl rfl
  · exact takesFrom_of (im_mem_symbolsOf hv) rfl rfl

theorem appends_emitInverse (n : ℕ) (coeffs : Array R) :
    Appends Op.IsPlain ((List.range n).flatMap fun k => [.output k]) (emitInverse n coeffs) := by
  rw [emitInverse_eq]
  exact (works_inverseFront n coeffs).bind fun values =>
    (appends_inverseBack n values).mono fun _ ho => ho.1

end Cosine

/-! ### Configurations -/

namespace Config

variable {c : Config}

theorem appends_emit_of_isCosine (hcosine : c.transform.isCosine = true) :
    Appends Op.IsPlain ((List.range c.size).flatMap fun k => [.output k])
      (c.emit : Build R (Option Permutation)) := by
  unfold emit
  cases htransform : c.transform with
  | cosineForward => exact (Cosine.appends_emitForward _ _).bind_nil fun _ => .pure _
  | cosineInverse => exact (Cosine.appends_emitInverse _ _).bind_nil fun _ => .pure _
  | fourier =>
    rw [htransform] at hcosine
    cases hcosine

theorem appends_emit_of_unrolled (htransform : c.transform = .fourier)
    (hstrategy : c.strategy = .unrolled) :
    Appends Op.IsPlain ((List.range c.size).flatMap fun k => [.real k, .imag k])
      (c.emit : Build R (Option Permutation)) := by
  unfold emit
  rw [htransform, hstrategy]
  exact (Fourier.appends_emitUnrolled c.size).bind_nil fun _ => .pure _

theorem appends_emit_of_calls (htransform : c.transform = .fourier)
    (hstrategy : c.strategy = .calls) :
    Appends Op.IsCall [] (c.emit : Build R (Option Permutation)) := by
  unfold emit
  rw [htransform, hstrategy]
  exact (Fourier.appends_emitCalled c.size).bind_nil fun _ => .pure _

/-- Every engine is made of the operations of a builder. -/
lemma exists_appends_emit (c : Config) :
    ∃ results, Appends (fun _ => True) results (c.emit : Build R (Option Permutation)) := by
  cases htransform : c.transform with
  | cosineForward | cosineInverse =>
    have hcosine : c.transform.isCosine = true := by rw [htransform]; rfl
    exact ⟨_, (appends_emit_of_isCosine hcosine).mono fun _ _ => trivial⟩
  | fourier =>
    cases hstrategy : c.strategy with
    | unrolled => exact ⟨_, (appends_emit_of_unrolled htransform hstrategy).mono fun _ _ => trivial⟩
    | calls => exact ⟨_, (appends_emit_of_calls htransform hstrategy).mono fun _ _ => trivial⟩

end Config

end MixedRadix
