import MixedRadix.Compile
import MixedRadix.Proofs.Exact
import MixedRadix.Proofs.Finished

/-!
# Kernels

A kernel has room for all the temporaries that its operations name, and over the real numbers a
kernel whose results are the direct sums passes its self-check.
-/

namespace MixedRadix

variable {R : Type}

namespace Kernel

/-! ### Temporaries -/

lemma op_mem_liveEntries {k : Kernel R} {o : Op R} :
    .op o ∈ k.liveEntries ↔ .op o ∈ k.stream ∧ o.pruned = false := by
  simp [liveEntries, Instruction.isLive]

/-- The temporaries are those of the operations that are run. -/
lemma mem_usedTemps {k : Kernel R} {id : ℕ} :
    id ∈ k.usedTemps ↔ ∃ o, .op o ∈ k.liveEntries ∧ .temp id ∈ o.inputs ++ o.outputs := by
  have htemp (s : Symbol) : s.tempId? = some id ↔ s = .temp id := by
    cases s <;> simp [Symbol.tempId?]
  simp only [usedTemps, Std.TreeSet.mem_toList, Std.TreeSet.mem_ofList, List.contains_iff_mem,
    List.mem_filterMap, List.mem_flatMap, op_mem_liveEntries, Instruction.liveOp?_eq_some, htemp]
  constructor
  · rintro ⟨_, ⟨o, ⟨_, hmem, rfl, hpruned⟩, hid⟩, rfl⟩
    exact ⟨o, ⟨hmem, hpruned⟩, hid⟩
  · rintro ⟨o, ⟨hmem, hpruned⟩, hid⟩
    exact ⟨.temp id, ⟨o, ⟨.op o, hmem, rfl, hpruned⟩, hid⟩, rfl⟩

lemma ordered_usedTemps (k : Kernel R) : k.usedTemps.Pairwise (· < ·) :=
  (Std.TreeSet.ordered_toList : k.usedTemps.Pairwise fun a b => compare a b = .lt).imp
    Nat.compare_eq_lt.1

/-- The temporaries are listed in increasing order, so that the last one bounds them all. -/
lemma lt_tempCount {k : Kernel R} {id : ℕ} (hid : id ∈ k.usedTemps) : id < k.tempCount := by
  have hordered := k.ordered_usedTemps
  cases hlast : k.usedTemps.getLast? with
  | none =>
    rw [List.getLast?_eq_none_iff] at hlast
    simp [hlast] at hid
  | some last =>
    obtain ⟨front, hfront⟩ := List.getLast?_eq_some_iff.1 hlast
    rw [hfront, List.pairwise_append] at hordered
    rw [tempCount, hlast, Option.elim_some, Nat.lt_succ_iff]
    rw [hfront, List.mem_append, List.mem_singleton] at hid
    rcases hid with hid | rfl
    · exact (hordered.2.2 id hid last (by simp)).le
    · exact le_rfl

variable [Scalar R]

lemma hasTemps {k : Kernel R} {m : Machine R} (h : m.temps = k.freshTemps) :
    m.HasTemps k.stream := by
  intro o ho hpruned id hid
  rw [h, freshTemps, Array.size_replicate]
  exact lt_tempCount (mem_usedTemps.2 ⟨o, op_mem_liveEntries.2 ⟨ho, hpruned⟩, hid⟩)

end Kernel

/-! ### Compilation -/

namespace Config

variable [Scalar R] {c : Config}

lemma compileUnchecked_eq_ok {order : Option Permutation} {b : Builder R}
    (hvalid : c.validate = .ok ()) (hsize : c.transform.checkSize c.size = .ok ())
    (hrun : (c.emit : Build R _).run.run { annotate := c.annotate } = (.ok order, b))
    (hlifetimes : b.checkLifetimes = .ok ()) :
    c.compileUnchecked = .ok (c.kernel order b.eliminateDeadCode.2) := by
  simp only [compileUnchecked, hvalid, hsize, hrun, hlifetimes]
  rfl

lemma compile_eq_ok {k : Kernel R} {maxError : R} (hk : c.compileUnchecked = .ok k)
    (hself : k.selfCheck = .ok maxError) : c.compile = .ok k := by
  rw [compile, hk]
  change (if c.verify then (do
      let _ ← k.selfCheck.mapError CompileError.ofCheckError
      return k) else return k) = Except.ok k
  rw [hself]
  cases c.verify <;> rfl

end Config

/-! ### Self-check -/

namespace Kernel

lemma max_eq (x y : ℝ) : Scalar.max x y = max x y := by
  change (if decide (x < y) = true then y else x) = _
  simp only [decide_eq_true_eq]
  split
  · rename_i h
    exact (max_eq_right h.le).symm
  · rename_i h
    exact (max_eq_left (not_lt.1 h)).symm

/-- Lists that agree have no distance. -/
lemma maxDistance_self (xs : List ℝ) : maxDistance xs xs = 0 := by
  have hzero : (0.0 : ℝ) = 0 := by norm_num
  rw [maxDistance, hzero]
  induction xs with
  | nil => rfl
  | cons x xs ih =>
    have habs : Scalar.abs (0 : ℝ) = 0 := abs_zero
    rw [List.zip_cons_cons, List.map_cons, List.foldl_cons]
    simpa [Scalar.isNaN, max_eq, habs] using ih

lemma one_le_magnitude (xs : List ℝ) : 1 ≤ magnitude xs := by
  have hle (ys : List ℝ) (largest : ℝ) :
      largest ≤ ys.foldl (fun largest x => Scalar.max largest (Scalar.abs x)) largest := by
    induction ys generalizing largest with
    | nil => exact le_rfl
    | cons y ys ih =>
      rw [List.foldl_cons, max_eq]
      exact (le_max_left _ _).trans (ih _)
  have hone : (1.0 : ℝ) = 1 := by norm_num
  exact hone ▸ hle xs 1.0

/-- A kernel without error passes. -/
lemma selfCheck_eq_ok {k : Kernel ℝ} {xs : List ℝ}
    (h : k.measuredError = .ok (0, magnitude xs)) : k.selfCheck = .ok 0 := by
  have hscale : (0 : ℝ) ≤ 1e-9 * magnitude xs := by
    have := one_le_magnitude xs
    positivity
  have hlt : Scalar.lt (1e-9 * magnitude xs) 0 = false := decide_eq_false (not_lt.2 hscale)
  rw [selfCheck, h]
  simp [hlt, Scalar.isNaN]

end Kernel

end MixedRadix
