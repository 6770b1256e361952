import MixedRadix.Proofs.Bookkeeping
import MixedRadix.Proofs.Safety

/-!
# Annotations

Two builders, of which one keeps comments and the other does not, run side by side: whatever is
built on them, they differ in the comments and in the positions of lifetimes only (`Builder.Bare`).
Lifetimes are not seen in a kernel, and what is dead does not depend on positions, so a kernel
without comments is the annotated one with its comments removed (`Config.compile_annotate`).
-/

namespace MixedRadix

variable {R : Type}

/-! ### Streams of operations -/

lemma filterMap_op?_map (os : List (Op R)) :
    (os.map Instruction.op).filterMap Instruction.op? = os := by
  induction os with
  | nil => rfl
  | cons o os ih => exact congrArg (o :: ·) ih

/-- A stream in which nothing is lost by taking its operations has no comments. -/
lemma eq_map_op_of_length {stream : List (Instruction R)}
    (h : (stream.filterMap Instruction.op?).length = stream.length) :
    stream = (stream.filterMap Instruction.op?).map .op := by
  induction stream with
  | nil => rfl
  | cons inst stream ih =>
    have hle := List.length_filterMap_le Instruction.op? stream
    cases inst with
    | comment text =>
      have hlength : (stream.filterMap Instruction.op?).length = stream.length + 1 := h
      omega
    | op o => exact congrArg (Instruction.op o :: ·) (ih (Nat.succ.inj h))

lemma eliminateDeadCode_map_op (os : List (Op R)) :
    (eliminateDeadCode (os.map .op)).1 = (markPruned os).map .op := by
  have hops := filterMap_op?_eliminateDeadCode (os.map Instruction.op)
  rw [filterMap_op?_map] at hops
  rw [← hops]
  refine eq_map_op_of_length ?_
  rw [hops, length_markPruned]
  simp [eliminateDeadCode]

/-- How many operations are newly pruned is seen from the operations. -/
lemma eliminateDeadCode_snd_eq {stream stream' : List (Instruction R)}
    (h : stream.filterMap Instruction.op? = stream'.filterMap Instruction.op?) :
    (eliminateDeadCode stream).2 = (eliminateDeadCode stream').2 := by
  have hcount := countP_eliminateDeadCode stream
  have hcount' := countP_eliminateDeadCode stream'
  rw [countP_not_isLive, countP_not_isLive, filterMap_op?_eliminateDeadCode, h] at hcount
  rw [countP_not_isLive, countP_not_isLive, filterMap_op?_eliminateDeadCode] at hcount'
  omega

lemma filterMap_liveOp? (stream : List (Instruction R)) :
    stream.filterMap Instruction.liveOp? =
      (stream.filterMap Instruction.op?).filter fun o => !o.pruned := by
  induction stream with
  | nil => rfl
  | cons inst stream ih =>
    cases inst with
    | comment text => exact ih
    | op o => cases hpruned : o.pruned <;> simp [Instruction.liveOp?, Instruction.op?, hpruned, ih]

/-! ### Side by side -/

namespace Builder

/-- The first builder is the second one without its comments, but for the lifetimes. -/
structure Bare (b b' : Builder R) : Prop where
  annotate_eq : b.annotate = false
  stream_eq : b.stream.toList = b'.ops.map .op
  temps_eq : b.temps = b'.temps
  routines_eq : b.routines = b'.routines
  shiftTables_eq : b.shiftTables = b'.shiftTables
  emitted_eq : b.emitted = b'.emitted
  pruned_eq : b.pruned = b'.pruned
  butterflies_eq : b.butterflies = b'.butterflies
  rotations_eq : b.rotations = b'.rotations

namespace Bare

variable {b b' : Builder R}

lemma start (annotate : Bool) : ({ annotate := false } : Builder R).Bare { annotate } :=
  ⟨rfl, rfl, rfl, rfl, rfl, rfl, rfl, rfl, rfl⟩

lemma ops_eq (h : b.Bare b') : b.ops = b'.ops := by
  rw [ops, h.stream_eq, filterMap_op?_map]

lemma push (h : b.Bare b') (o : Op R) : (b.push o).Bare (b'.push o) where
  annotate_eq := h.annotate_eq
  stream_eq := by
    rw [ops_push, List.map_append, ← h.stream_eq]
    simp [Builder.push]
  temps_eq := h.temps_eq
  routines_eq := h.routines_eq
  shiftTables_eq := h.shiftTables_eq
  emitted_eq := congrArg (· + 1) h.emitted_eq
  pruned_eq := h.pruned_eq
  butterflies_eq := h.butterflies_eq
  rotations_eq := h.rotations_eq

lemma call (h : b.Bare b') (c : Call R) : (b.call c).Bare (b'.call c) := by
  refine push ?_ _
  rw [h.routines_eq]
  exact { h with routines_eq := rfl }

lemma comment (h : b.Bare b') (text : String) : (b.comment text).Bare (b'.comment text) := by
  have hkept : b.comment text = b := by rw [Builder.comment, h.annotate_eq]; rfl
  rw [hkept]
  unfold Builder.comment
  split
  · refine { h with stream_eq := h.stream_eq.trans ?_ }
    simp [ops, Instruction.op?]
  · exact h

lemma allocTemp (h : b.Bare b') :
    b.allocTemp.1 = b'.allocTemp.1 ∧ b.allocTemp.2.Bare b'.allocTemp.2 := by
  unfold Builder.allocTemp
  rw [h.temps_eq]
  exact ⟨rfl, { h with temps_eq := rfl }⟩

lemma addShiftTable (h : b.Bare b') (slots : List ℕ) :
    (b.addShiftTable slots).1 = (b'.addShiftTable slots).1 ∧
      (b.addShiftTable slots).2.Bare (b'.addShiftTable slots).2 := by
  unfold Builder.addShiftTable
  rw [h.shiftTables_eq]
  exact ⟨rfl, { h with shiftTables_eq := rfl }⟩

lemma afterRelease (h : b.Bare b') (s : Symbol) (temps : TempPool) :
    (b.afterRelease s temps).Bare (b'.afterRelease s temps) := by
  obtain ⟨_, _, hframe⟩ := b.afterRelease_frame s temps
  obtain ⟨_, _, hframe'⟩ := b'.afterRelease_frame s temps
  rw [hframe, hframe']
  exact { h with temps_eq := rfl }

lemma eliminateDeadCode (h : b.Bare b') :
    b.eliminateDeadCode.2.Bare b'.eliminateDeadCode.2 := by
  have hcount : (MixedRadix.eliminateDeadCode b.stream.toList).2 =
      (MixedRadix.eliminateDeadCode b'.stream.toList).2 := eliminateDeadCode_snd_eq h.ops_eq
  refine { h with stream_eq := ?_, pruned_eq := ?_ }
  · rw [ops_eliminateDeadCode, ← eliminateDeadCode_map_op, ← h.stream_eq]
    rfl
  · exact congrArg₂ (· + ·) h.pruned_eq hcount

lemma statistics_eq (h : b.Bare b') : b.statistics = b'.statistics := by
  have hops : b.stream.toList.filterMap Instruction.op? =
      b'.stream.toList.filterMap Instruction.op? :=
    h.ops_eq
  have hcost : liveCost b.stream.toList = liveCost b'.stream.toList := by
    rw [liveCost, liveCost, filterMap_liveOp?, filterMap_liveOp?, hops]
  unfold statistics
  rw [h.emitted_eq, h.pruned_eq, h.temps_eq, hcost, h.butterflies_eq, h.rotations_eq]

end Bare

end Builder

/-- What is built on the two builders has the same result. -/
lemma Build.Appends.run_bare {α : Type} {P : Op R → Prop} {results : List Symbol} {x : Build R α}
    (h : Appends P results x) {b b' : Builder R} (hb : b.Bare b') :
    (x.run.run b).1 = (x.run.run b').1 ∧ (x.run.run b).2.Bare (x.run.run b').2 := by
  induction h generalizing b b' with
  | pure a => exact ⟨rfl, hb⟩
  | throw e => exact ⟨rfl, hb⟩
  | @seq _ _ _ _ x f Q _ hQ _ ihx ihf =>
    obtain ⟨hresult, hbare⟩ := ihx hb
    simp only [ExceptT.run_bind, StateT.run_bind]
    cases hx : x.run.run b with
    | mk result b₁ =>
      cases hx' : x.run.run b' with
      | mk result' b₁' =>
        rw [hx, hx'] at hresult hbare
        obtain rfl : result = result' := hresult
        cases result with
        | error e => exact ⟨rfl, hbare⟩
        | ok a => exact ihf a (hQ _ _ _ hx) hbare
  | assign _ => exact ⟨rfl, hb.push _⟩
  | store _ => exact ⟨rfl, hb.push _⟩
  | call _ _ => exact ⟨rfl, hb.call _⟩
  | @shift slots _ =>
    obtain ⟨htable, hbare⟩ := hb.addShiftTable slots
    refine ⟨rfl, ?_⟩
    change ((b.addShiftTable slots).2.call (.cyclicShift (b.addShiftTable slots).1 slots)).Bare _
    rw [htable]
    exact hbare.call _
  | comment _ => exact ⟨rfl, hb.comment _⟩
  | allocTemp => exact ⟨congrArg Except.ok hb.allocTemp.1, hb.allocTemp.2⟩
  | release s =>
    rw [run_release, run_release, hb.temps_eq]
    cases b'.temps.release s with
    | error e => exact ⟨rfl, hb⟩
    | ok temps => exact ⟨rfl, hb.afterRelease s temps⟩
  | recordButterfly =>
    exact ⟨rfl, { hb with butterflies_eq := congrArg (· + 1) hb.butterflies_eq }⟩
  | recordRotation turn =>
    exact ⟨rfl, { hb with rotations_eq := congrArg (·.count turn) hb.rotations_eq }⟩

/-! ### Kernels -/

/-- The kernel without its comments. -/
def Kernel.withoutComments (k : Kernel R) : Kernel R :=
  { k with stream := k.stream.filter fun inst => inst.op?.isSome }

lemma filter_isSome_op? (stream : List (Instruction R)) :
    (stream.filter fun inst => inst.op?.isSome) = (stream.filterMap Instruction.op?).map .op := by
  induction stream with
  | nil => rfl
  | cons inst stream ih =>
    cases inst with
    | comment text => exact ih
    | op o => exact congrArg (Instruction.op o :: ·) ih

namespace Config

variable [Scalar R] {c : Config}

/-- Code that is emitted to the end keeps to the lifetimes of temporaries. -/
lemma closed_of_emit {order : Option Permutation} {b : Builder R}
    (hsize : c.transform.checkSize c.size = .ok ())
    (hrun : (c.emit : Build R _).run.run { annotate := c.annotate } = (.ok order, b)) :
    b.Closed := by
  cases htransform : c.transform with
  | cosineForward | cosineInverse =>
    have hcosine : c.transform.isCosine = true := by rw [htransform]; rfl
    obtain ⟨_, htransforms, -⟩ := exists_transforms_of_emit hcosine hsize hrun
    exact htransforms.closed
  | fourier =>
    obtain ⟨_, hperforms⟩ := exists_performs_of_emit htransform hrun
    exact hperforms.closed

lemma compileUnchecked_of_emit {e : BuildError} {b : Builder R} (hvalid : c.validate = .ok ())
    (hsize : c.transform.checkSize c.size = .ok ())
    (hrun : (c.emit : Build R _).run.run { annotate := c.annotate } = (.error e, b)) :
    (c.compileUnchecked : Except (CompileError R) (Kernel R)) = .error (.ofBuildError e) := by
  simp only [compileUnchecked, hvalid, hsize, hrun]
  rfl

/-- The kernel of a builder, with and without comments. -/
lemma kernel_of_bare (c : Config) (order : Option Permutation) {b b' : Builder R}
    (h : b.Bare b') : c.kernel order b = (c.kernel order b').withoutComments := by
  unfold kernel Kernel.withoutComments
  rw [filter_isSome_op?, h.stream_eq, h.shiftTables_eq, h.routines_eq, h.statistics_eq]
  rfl

/-- Comments never change the code: without a self-check, a configuration that is not annotated has
the same outcome as the annotated one, and the same kernel but for the comments. -/
theorem compile_annotate (c : Config) :
    ({ c with annotate := false, verify := false } : Config).compile (R := R) =
      (({ c with annotate := true, verify := false } : Config).compile (R := R)).map
        Kernel.withoutComments := by
  -- nothing but the emission looks at the option
  let option (annotate : Bool) : Config := { c with annotate, verify := false }
  have hunchecked (annotate : Bool) :
      (option annotate).compile (R := R) = (option annotate).compileUnchecked := by
    simp [compile, option]
  refine (hunchecked false).trans (.trans ?_ (congrArg _ (hunchecked true).symm))
  cases hvalid : c.validate with
  | error p =>
    have herror (annotate : Bool) :=
      compileUnchecked_of_validate (R := R) (c := option annotate) hvalid
    rw [herror, herror]
    rfl
  | ok _ =>
    cases hsize : c.transform.checkSize c.size with
    | error e =>
      have herror (annotate : Bool) :=
        compileUnchecked_of_checkSize (R := R) (c := option annotate) hvalid hsize
      rw [herror, herror]
      rfl
    | ok _ =>
      obtain ⟨results, happends⟩ := exists_appends_emit (R := R) c
      obtain ⟨hresult, hbare⟩ := happends.run_bare (Builder.Bare.start true)
      cases hrun : (c.emit : Build R _).run.run { annotate := false } with
      | mk result b =>
        cases hrun' : (c.emit : Build R _).run.run { annotate := true } with
        | mk result' b' =>
          rw [hrun, hrun'] at hresult hbare
          obtain rfl : result = result' := hresult
          cases result with
          | error e =>
            rw [compileUnchecked_of_emit (c := option false) hvalid hsize hrun,
              compileUnchecked_of_emit (c := option true) hvalid hsize hrun']
            rfl
          | ok order =>
            have hclosed := closed_of_emit (c := option false) hsize hrun
            have hclosed' := closed_of_emit (c := option true) hsize hrun'
            rw [compileUnchecked_eq_ok (c := option false) hvalid hsize hrun hclosed.checkLifetimes,
              compileUnchecked_eq_ok (c := option true) hvalid hsize hrun' hclosed'.checkLifetimes]
            exact congrArg Except.ok (kernel_of_bare c order hbare.eliminateDeadCode)

end Config

end MixedRadix
