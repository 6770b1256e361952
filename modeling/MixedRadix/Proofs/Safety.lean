import MixedRadix.Proofs.Emitted
import MixedRadix.Proofs.FourierKernel
import MixedRadix.Proofs.InPlace
import MixedRadix.Proofs.Renaming

/-!
# Kernels run safely

A kernel that was compiled runs to its end on every input of its size. Whatever its operations read
has been written before: a temporary by an operation that is run as well, and outputs are not read
at all. Each result is stored once (`Config.compile_runs`).

That temporaries are written first follows from the check of lifetimes, because an operation that is
left over after pruning keeps the operations whose results it reads.
-/

namespace MixedRadix

variable {R : Type} {stream : List (Instruction R)}

/-! ### Reading behind writing -/

/-- An operation that is run behind pruning was there before, at the same position. -/
lemma getElem?_of_getElem?_eliminateDeadCode {i : ℕ} {o : Op R}
    (hi : (eliminateDeadCode stream).1[i]? = some (.op o)) (hpruned : o.pruned = false) :
    stream[i]? = some (.op o) ∧ i ∉ deadPositions stream := by
  rw [eliminateDeadCode, getElem?_prune, Option.map_eq_some_iff] at hi
  obtain ⟨inst, hinst, heq⟩ := hi
  by_cases hdead : i ∈ deadPositions stream
  · have hnone := congrArg Instruction.liveOp? heq
    rw [if_pos hdead, liveOp?_setPruned, Instruction.liveOp?_eq_some.2 ⟨rfl, hpruned⟩] at hnone
    cases hnone
  · rw [if_neg hdead] at heq
    exact ⟨heq ▸ hinst, hdead⟩

/-- A temporary is read behind an operation that writes it, and is run too. -/
theorem exists_writer_of_check {lifetimes : List Lifetime}
    (hcheck : Lifetime.check lifetimes stream = .ok ()) {i : ℕ} {o : Op R}
    (hi : (eliminateDeadCode stream).1[i]? = some (.op o)) (hpruned : o.pruned = false) {id : ℕ}
    (hid : .temp id ∈ o.inputs) :
    ∃ j < i, ∃ o', (eliminateDeadCode stream).1[j]? = some (.op o') ∧ o'.pruned = false ∧
      .temp id ∈ o'.outputs := by
  obtain ⟨hop, hdead⟩ := getElem?_of_getElem?_eliminateDeadCode hi hpruned
  obtain ⟨hlt, hget⟩ := List.getElem?_eq_some_iff.1 hop
  obtain ⟨before, after, rfl, rfl⟩ : ∃ before after, stream = before ++ .op o :: after ∧
      before.length = i :=
    ⟨stream.take i, stream.drop (i + 1), by simp [← hget], by simp; omega⟩
  have hlive : (Instruction.op o).liveOp? = some o := Instruction.liveOp?_eq_some.2 ⟨rfl, hpruned⟩
  obtain ⟨w, hw⟩ := Lifetime.exists_lastWriter_of_read hcheck rfl hlive hid
  -- the last writer is not dead, because it is read by an operation that is not
  have hwdead : w ∉ deadPositions (before ++ .op o :: after) :=
    fun h => hdead (mem_deadPositions_of_reads hlive hid hw h)
  obtain ⟨before', inst, after', o', rfl, rfl, hlive', hout, -⟩ := lastWriter_eq_some hw
  obtain ⟨rfl, hpruned'⟩ := Instruction.liveOp?_eq_some.1 hlive'
  refine ⟨before'.length, by simp, o', ?_, hpruned', hout⟩
  rw [eliminateDeadCode, getElem?_prune]
  simp only [if_neg hwdead]
  simp

/-! ### Storing once -/

/-- Whether the entry is run and stores a result at the symbol. -/
def Instruction.stores (s : Symbol) (inst : Instruction R) : Bool :=
  inst.liveOp?.any fun o => o.mandatory && decide (s ∈ o.outputs)

/-- Operations that store a result are not pruned. -/
lemma countP_stores_eliminateDeadCode (stream : List (Instruction R)) (s : Symbol) :
    (eliminateDeadCode stream).1.countP (·.stores s) = stream.countP (·.stores s) := by
  have hsame : (eliminateDeadCode stream).1.map (·.stores s) = stream.map (·.stores s) := by
    refine List.ext_getElem? fun i => ?_
    rw [List.getElem?_map, List.getElem?_map, eliminateDeadCode, getElem?_prune, Option.map_map]
    cases hi : stream[i]? with
    | none => rfl
    | some inst =>
      by_cases hdead : i ∈ deadPositions stream
      · cases hlive : inst.liveOp? with
        | none => simp [hdead, Instruction.stores, hlive]
        | some o =>
          obtain ⟨rfl, hpruned⟩ := Instruction.liveOp?_eq_some.1 hlive
          have hmand : o.mandatory = false := by
            by_contra hmand
            exact notMem_deadPositions hi hpruned (by simpa using hmand) hdead
          simp [hdead, Instruction.stores, hlive, hmand]
      · simp [hdead]
  have hcount (xs : List (Instruction R)) :
      xs.countP (·.stores s) = (xs.map (·.stores s)).countP id := by
    rw [List.countP_map]
    rfl
  rw [hcount, hsame, ← hcount]

/-- A symbol that is listed once among the results of plain code is stored once. -/
lemma countP_stores_eq_one (hplain : ∀ o, .op o ∈ stream → o.IsPlain) {results : List Symbol}
    (hresults : stream.filterMap Instruction.result? = results) (hnodup : results.Nodup)
    {s : Symbol} (hs : s ∈ results) : (eliminateDeadCode stream).1.countP (·.stores s) = 1 := by
  have hstores : ∀ inst ∈ stream, inst.stores s = true ↔ (inst.result? == some s) = true := by
    intro inst hinst
    cases inst with
    | comment text => simp [Instruction.stores, Instruction.liveOp?, Instruction.result?]
    | op o =>
      obtain ⟨hpruned, dst, e, hstmt, -⟩ := hplain o hinst
      obtain ⟨stmt, mandatory, pruned⟩ := o
      subst hstmt hpruned
      cases mandatory with
      | false => simp [Instruction.stores, Instruction.liveOp?, Instruction.result?]
      | true =>
        simp only [Instruction.stores, Instruction.liveOp?, Instruction.result?, Op.outputs,
          Stmt.outputs]
        simpa using eq_comm
  rw [countP_stores_eliminateDeadCode, List.countP_congr hstores, ← List.count_filterMap, hresults]
  exact List.count_eq_one_of_mem hnodup hs

/-! ### Outputs are not read -/

/-- No operation reads an output. -/
def ReadsNoOutput (code : List (Instruction R)) : Prop :=
  ∀ o, .op o ∈ code → ∀ i, .output i ∉ o.inputs

lemma readsNoOutput_of_isCall (h : ∀ o, .op o ∈ stream → o.IsCall) : ReadsNoOutput stream := by
  intro o ho i
  obtain ⟨-, -, c, hc⟩ := h o ho
  simp [Op.inputs, hc, Stmt.inputs, Call.symbols]

variable [Scalar R]

/-- Code that is emitted where no outputs are known does not touch them. -/
lemma Emission.readsNoOutput {value : Symbol → Option R} (hvalue : ∀ i, value (.output i) = none)
    {b b' : Builder R} {S : Scene R} (h : Emission b (.start value) b' S)
    {code : List (Instruction R)} (hcode : b'.stream.toList = b.stream.toList ++ code) :
    ReadsNoOutput code := by
  obtain ⟨code', hcode', -, htouched⟩ := h.code
  obtain rfl : code = code' := List.append_cancel_left (hcode.symm.trans hcode')
  intro o ho i hi
  have hknown := htouched o ho _ (List.mem_append_left _ hi)
  simp [Scene.Knows, Scene.start, hvalue, Symbol.isTemp, Symbol.tempId?] at hknown

namespace Cosine

/-- Code in two parts, of which the first one knows no outputs, and the second one takes the results
from temporaries. -/
lemma readsNoOutput_of_parts {α : Type} {front : Build R α} {back : α → Build R Unit} {x : ℕ → R}
    {Q : α → Scene R → Prop} {values : α → List ComplexSymbol} {results : List Symbol}
    (hfront : Emits (.start (samplesOnly x)) front Q)
    (htemps : ∀ a S, Q a S → ∀ s ∈ symbolsOf (values a), ∃ id, s = .temp id)
    (hback : ∀ a, Build.Appends (TakesFrom (values a)) results (back a)) {annotate : Bool}
    {b : Builder R} (hrun : (front >>= back).run.run { annotate } = (.ok (), b)) :
    ReadsNoOutput b.stream.toList := by
  obtain ⟨a, b₁, S, hrun₁, hem, hQ⟩ := hfront { annotate } (Builder.holds_start _ _)
  obtain ⟨a', b₁', hrun₁', hrun⟩ := run_bind_eq_ok.1 hrun
  obtain ⟨ha, rfl⟩ := Prod.mk.inj (hrun₁.symm.trans hrun₁')
  obtain rfl : a = a' := Except.ok.inj ha
  obtain ⟨after, hafter, htakes, -⟩ := (hback a).exists_code hrun
  have hbefore : ReadsNoOutput b₁.stream.toList := hem.readsNoOutput (fun _ => rfl) (by simp)
  rw [hafter]
  intro o ho i hi
  rcases List.mem_append.1 ho with ho | ho
  · exact hbefore o ho i hi
  · obtain ⟨id, hid⟩ := htemps a S hQ _ ((htakes o ho).2 _ hi)
    cases hid

variable {n : ℕ} {coeffs : Array R} {weight : ℕ → R} (hn : n % 2 = 0)
  (hsmooth : n / 2 ∈ Nat.smoothNumbers 6) (hlt : n < 2 ^ 61)
  (hc : ∀ k < n, coeffs[k]? = some (weight k)) {annotate : Bool} {b : Builder R}

include hn hsmooth hlt

lemma readsNoOutput_emitForward
    (hrun : (emitForward n coeffs).run.run { annotate } = (.ok (), b)) :
    ReadsNoOutput b.stream.toList := by
  rw [emitForward_eq] at hrun
  refine readsNoOutput_of_parts (x := fun _ => Scalar.nan) (emits_forwardFront hn hsmooth (by omega)
    fun _ _ => rfl) ?_ (appends_forwardBack n coeffs) hrun
  rintro values S ⟨-, -, hbundle⟩ s hs
  obtain ⟨id, hid, -⟩ := hbundle.fresh s hs
  exact ⟨id, hid⟩

include hc

lemma readsNoOutput_emitInverse
    (hrun : (emitInverse n coeffs).run.run { annotate } = (.ok (), b)) :
    ReadsNoOutput b.stream.toList := by
  rw [emitInverse_eq] at hrun
  refine readsNoOutput_of_parts (x := fun _ => Scalar.nan) (emits_inverseFront hn hsmooth (by omega)
    hc fun _ _ => rfl) ?_ (appends_inverseBack n) hrun
  rintro values S ⟨-, -, -, g, hbundle, -⟩ s hs
  obtain ⟨id, hid, -⟩ := hbundle.fresh s hs
  exact ⟨id, hid⟩

end Cosine

/-! ### Fourier transforms of any size -/

namespace Fourier

variable {n : ℕ} {b b' : Builder R} {order : Permutation}

omit [Scalar R] in
lemma length_of_allocComplexes {values : List ComplexSymbol}
    (h : (Build.allocComplexes n).run.run b = (.ok values, b')) : values.length = n := by
  induction n generalizing b values with
  | zero =>
    obtain rfl : [] = values := Except.ok.inj (congrArg Prod.fst h)
    rfl
  | succ n ih =>
    obtain ⟨first, b₁, -, h⟩ := run_bind_eq_ok.1 h
    obtain ⟨others, b₂, hothers, h⟩ := run_bind_eq_ok.1 h
    obtain ⟨hvalues, rfl⟩ := Prod.mk.inj h
    obtain rfl : first :: others = values := Except.ok.inj hvalues
    simp [ih hothers]

/-- Code that is emitted to the end has a plan, however large the size is. -/
lemma hasPlan_of_emitUnrolled (h : (emitUnrolled n).run.run b = (.ok order, b')) : HasPlan n := by
  obtain ⟨loaded, _, hloaded, h⟩ := run_bind_eq_ok.1 h
  -- down to the transform itself
  iterate 3 obtain ⟨_, _, -, h⟩ := run_bind_eq_ok.1 h
  obtain ⟨_, _, hunroll, -⟩ := run_bind_eq_ok.1 h
  obtain ⟨plan, _, hplan, hunroll⟩ := run_bind_eq_ok.1 hunroll
  obtain ⟨_, _, -, houtcome⟩ := run_bind_eq_ok.1 hunroll
  have hlength : loaded.toArray.size = n := by simpa using length_of_allocComplexes hloaded
  rw [hlength] at hplan
  exact hasPlan_of_outcome (Build.run_ofSized_eq_ok.1 hplan).1
    (Build.run_ofFaulty_eq_ok.1 houtcome).1

lemma hasPlan_of_emitCalled (h : (emitCalled n).run.run b = (.ok order, b')) : HasPlan n := by
  obtain ⟨_, _, -, h⟩ := run_bind_eq_ok.1 h
  obtain ⟨plan, _, hplan, h⟩ := run_bind_eq_ok.1 h
  obtain ⟨_, _, -, h⟩ := run_bind_eq_ok.1 h
  obtain ⟨_, _, houtcome, -⟩ := run_bind_eq_ok.1 h
  exact hasPlan_of_outcome (Build.run_ofSized_eq_ok.1 hplan).1
    (Build.run_ofFaulty_eq_ok.1 houtcome).1

/-- Only the complex slots are known. -/
def lanesOnly (x : R) : Symbol → Option R
  | .real _ | .imag _ => some x
  | _ => none

lemma readsNoOutput_emitUnrolled {annotate : Bool}
    (h : (emitUnrolled n).run.run { annotate } = (.ok order, b)) :
    ReadsNoOutput b.stream.toList := by
  obtain ⟨_, b₁, S, hrun, hem, -⟩ := emits_emitUnrolled (R := R)
    (S := .start (lanesOnly Scalar.nan)) (x := fun _ => ⟨Scalar.nan, Scalar.nan⟩)
    (hasPlan_of_emitUnrolled h) (fun _ _ => ⟨rfl, rfl⟩) { annotate } (Builder.holds_start _ _)
  obtain rfl : b₁ = b := congrArg Prod.snd (hrun.symm.trans h)
  exact hem.readsNoOutput (fun _ => rfl) (by simp)

lemma isCall_of_emitCalled {annotate : Bool}
    (h : (emitCalled n).run.run { annotate } = (.ok order, b)) :
    ∀ o, .op o ∈ b.stream.toList → o.IsCall := by
  obtain ⟨code, hcode, hcalls, -⟩ := (appends_emitCalled n).exists_code h
  obtain rfl : b.stream.toList = code := by simpa using hcode
  exact hcalls

end Fourier

/-! ### Kernels -/

namespace Config

variable {c : Config} {k : Kernel R} {order : Option Permutation} {b : Builder R}

lemma emitUnrolled_of_emit (htransform : c.transform = .fourier)
    (hstrategy : c.strategy = .unrolled)
    (hrun : (c.emit : Build R _).run.run { annotate := c.annotate } = (.ok order, b)) :
    ∃ u, (Fourier.emitUnrolled c.size).run.run { annotate := c.annotate } = (.ok u, b) := by
  unfold emit at hrun
  rw [htransform, hstrategy] at hrun
  obtain ⟨u, b', hemit, hpure⟩ := run_bind_eq_ok.1 hrun
  obtain rfl : b' = b := congrArg Prod.snd hpure
  exact ⟨u, hemit⟩

lemma emitCalled_of_emit (htransform : c.transform = .fourier) (hstrategy : c.strategy = .calls)
    (hrun : (c.emit : Build R _).run.run { annotate := c.annotate } = (.ok order, b)) :
    ∃ u, (Fourier.emitCalled c.size).run.run { annotate := c.annotate } = (.ok u, b) := by
  unfold emit at hrun
  rw [htransform, hstrategy] at hrun
  obtain ⟨u, b', hemit, hpure⟩ := run_bind_eq_ok.1 hrun
  obtain rfl : b' = b := congrArg Prod.snd hpure
  exact ⟨u, hemit⟩

/-- The code of a Fourier transform computes some function of the complex slots. -/
lemma exists_performs_of_emit (htransform : c.transform = .fourier)
    (hrun : (c.emit : Build R _).run.run { annotate := c.annotate } = (.ok order, b)) :
    ∃ results, Fourier.Performs c.size results b := by
  cases hstrategy : c.strategy with
  | unrolled =>
    obtain ⟨u, hemit⟩ := emitUnrolled_of_emit htransform hstrategy hrun
    obtain ⟨_, b', hrun', hb⟩ :=
      Fourier.exists_emitUnrolled (R := R) (Fourier.hasPlan_of_emitUnrolled hemit) c.annotate
    obtain rfl : b' = b := congrArg Prod.snd (hrun'.symm.trans hemit)
    exact ⟨_, hb⟩
  | calls =>
    obtain ⟨u, hemit⟩ := emitCalled_of_emit htransform hstrategy hrun
    obtain ⟨_, b', hrun', hb⟩ :=
      Fourier.exists_emitCalled (R := R) (Fourier.hasPlan_of_emitCalled hemit) c.annotate
    obtain rfl : b' = b := congrArg Prod.snd (hrun'.symm.trans hemit)
    exact ⟨_, hb⟩

lemma readsNoOutput_of_emit (hsize : c.transform.checkSize c.size = .ok ())
    (hrun : (c.emit : Build R _).run.run { annotate := c.annotate } = (.ok order, b)) :
    ReadsNoOutput b.stream.toList := by
  cases htransform : c.transform with
  | cosineForward =>
    obtain ⟨heven, hsmooth, hlt, hemit⟩ := emitForward_of_emit htransform hsize hrun
    exact Cosine.readsNoOutput_emitForward heven hsmooth hlt hemit
  | cosineInverse =>
    obtain ⟨heven, hsmooth, hlt, hemit⟩ := emitInverse_of_emit htransform hsize hrun
    exact Cosine.readsNoOutput_emitInverse heven hsmooth hlt
      (fun _ hk => Cosine.getElem?_coefficients c.orthogonal hk) hemit
  | fourier =>
    cases hstrategy : c.strategy with
    | unrolled =>
      obtain ⟨u, hemit⟩ := emitUnrolled_of_emit htransform hstrategy hrun
      exact Fourier.readsNoOutput_emitUnrolled hemit
    | calls =>
      obtain ⟨u, hemit⟩ := emitCalled_of_emit htransform hstrategy hrun
      exact readsNoOutput_of_isCall (Fourier.isCall_of_emitCalled hemit)

/-- Each slot has symbols of its own, to which the kernel stores once. -/
lemma countP_stores_of_emit (order : Option Permutation) {f : ℕ → List Symbol}
    (happends : Build.Appends Op.IsPlain ((List.range c.size).flatMap f)
      (c.emit : Build R (Option Permutation)))
    (hrun : (c.emit : Build R _).run.run { annotate := c.annotate } = (.ok order, b))
    (hnodup : ∀ i, (f i).Nodup) (hdisjoint : ∀ i j, i ≠ j → (f i).Disjoint (f j)) {slot : ℕ}
    (hslot : slot < c.size) {s : Symbol} (hs : s ∈ f slot) :
    (c.kernel order b.eliminateDeadCode.2).stream.countP (·.stores s) = 1 := by
  obtain ⟨code, hcode, hplain, hresults⟩ := happends.exists_code hrun
  obtain rfl : b.stream.toList = code := by simpa using hcode
  refine countP_stores_eq_one hplain hresults ?_ ?_
  · rw [List.nodup_flatMap]
    exact ⟨fun i _ => hnodup i, List.nodup_range.imp fun {i j} hij => hdisjoint i j hij⟩
  · exact List.mem_flatMap.2 ⟨slot, List.mem_range.2 hslot, hs⟩

/-- Every kernel that is compiled runs to its end on all inputs of its size. Where one of its
operations reads a temporary, an operation before it has written that; no operation reads an output;
and in code without calls, each result is stored by one operation. -/
theorem compile_runs (h : c.compile = .ok k) :
    (c.transform.isCosine = true → ∀ samples : Array R, samples.size = c.size →
      (∃ out, k.runReal samples = .ok out) ∧ ∃ out, k.runInPlace samples = .ok out) ∧
    (c.transform = .fourier → ∀ values : Lanes R, values.re.size = c.size →
      values.im.size = c.size → ∃ out, k.runComplex values = .ok out) ∧
    (∀ (i : ℕ) (o : Op R), k.stream[i]? = some (.op o) → o.pruned = false →
      (∀ id, .temp id ∈ o.inputs → ∃ j < i, ∃ o', k.stream[j]? = some (.op o') ∧
        o'.pruned = false ∧ .temp id ∈ o'.outputs) ∧
      ∀ slot, .output slot ∉ o.inputs) ∧
    (c.transform.isCosine = true → ∀ slot < c.size,
      k.stream.countP (·.stores (.output slot)) = 1) ∧
    (c.transform = .fourier → c.strategy = .unrolled → ∀ slot < c.size,
      k.stream.countP (·.stores (.real slot)) = 1 ∧
        k.stream.countP (·.stores (.imag slot)) = 1) := by
  obtain ⟨hsize, order, b, hrun, hcheck, rfl⟩ := exists_of_compile h
  refine ⟨fun hcosine samples hsamples => ?_, fun htransform values hre him => ?_,
    fun i o hi hpruned => ⟨fun id hid => ?_, fun slot => ?_⟩, fun hcosine slot hslot => ?_,
    fun htransform hstrategy slot hslot => ?_⟩
  · obtain ⟨results, hb, hloads⟩ := exists_transforms_of_emit hcosine hsize hrun
    obtain ⟨out, hout, -⟩ := runReal_of_transforms order hb hsamples
    obtain ⟨out', hout', -⟩ := runInPlace_of_transforms order hb hloads hsamples
    exact ⟨⟨out, hout⟩, out', hout'⟩
  · obtain ⟨results, hb⟩ := exists_performs_of_emit htransform hrun
    have hvalues := values.shows_getD Scalar.nan
    rw [hre, him] at hvalues
    obtain ⟨out, hout, -⟩ := exists_runComplex order hb hvalues
    exact ⟨out, hout⟩
  · exact exists_writer_of_check hcheck hi hpruned hid
  · obtain ⟨hop, -⟩ := getElem?_of_getElem?_eliminateDeadCode hi hpruned
    exact readsNoOutput_of_emit hsize hrun o (List.mem_of_getElem? hop) slot
  · exact countP_stores_of_emit order (appends_emit_of_isCosine hcosine) hrun (by simp)
      (fun i j hij => by simp [Ne.symm hij]) hslot (by simp)
  · have hstores {s : Symbol} (hs : s ∈ [Symbol.real slot, .imag slot]) :=
      countP_stores_of_emit order (appends_emit_of_unrolled htransform hstrategy) hrun (by simp)
        (fun i j hij => by simp [Ne.symm hij]) hslot hs
    exact ⟨hstores (by simp), hstores (by simp)⟩

/-- A forward cosine transform of six samples. -/
theorem compile_runs_six : ∃ k : Kernel Float,
    ({ size := 6, verify := false } : Config).compile = .ok k ∧
      (∃ out, k.runReal #[3, 1, 4, 1, 5, 9] = .ok out) ∧
      (∃ out, k.runInPlace #[3, 1, 4, 1, 5, 9] = .ok out) ∧
      k.stream.countP (·.stores (.output 5)) = 1 := by
  have hsmooth : 6 / 2 ∈ Nat.smoothNumbers 6 := Nat.mem_smoothNumbers_of_lt (by decide) (by decide)
  obtain ⟨k, hk⟩ := exists_compile_of_isSplittable (R := Float)
    (c := { size := 6, verify := false }) rfl (by decide) (by simp [IsInvalid]) ⟨rfl, hsmooth⟩
  obtain ⟨hruns, -, -, hstores, -⟩ := compile_runs hk
  obtain ⟨hreal, hplace⟩ := hruns rfl #[3, 1, 4, 1, 5, 9] rfl
  exact ⟨k, hk, hreal, hplace, hstores rfl 5 (by decide)⟩

end Config

end MixedRadix
