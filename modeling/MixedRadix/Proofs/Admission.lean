import MixedRadix.Proofs.CosineKernel
import MixedRadix.Proofs.Fourier.Results

/-!
# Which configurations are compiled

A configuration is refused because its options do not go together, or because its size cannot be
split, and for no other reason: the code of every other configuration is emitted to the end, its
lifetimes are in order, and no temporary is left in use (`Config.compile_outcomes`).
-/

namespace MixedRadix

variable {R : Type}

namespace Config

variable {c : Config}

/-- The options do not go together. -/
def IsInvalid (c : Config) : Prop :=
  c.size = 0 ∨ c.maxFunctionLines = 0 ∨ c.transform.isCosine = true ∧ c.strategy = .calls

/-- The size can be split, or its half if the transform is a cosine transform. -/
def IsSplittable (c : Config) : Prop :=
  if c.transform.isCosine then c.size % 2 = 0 ∧ c.size / 2 ∈ Nat.smoothNumbers 6
  else c.size ∈ Nat.smoothNumbers 6

lemma validate_cases (c : Config) :
    (c.IsInvalid ∧ ∃ p, c.validate = .error p) ∨ (¬c.IsInvalid ∧ c.validate = .ok ()) := by
  -- the problems are looked for one after the other, and the first one is reported
  unfold validate IsInvalid
  split
  · exact Or.inl ⟨Or.inl ‹_›, _, rfl⟩
  split
  · exact Or.inl ⟨Or.inr (Or.inl ‹_›), _, rfl⟩
  split
  · exact Or.inl ⟨Or.inr (Or.inr ‹_›), _, rfl⟩
  · exact Or.inr ⟨by tauto, rfl⟩

lemma checkSize_cosine_cases (n : ℕ) :
    ((n % 2 = 0 ∧ n / 2 ∈ Nat.smoothNumbers 6) ∧ Cosine.checkSize n = .ok ()) ∨
      (¬(n % 2 = 0 ∧ n / 2 ∈ Nat.smoothNumbers 6) ∧ ∃ e, Cosine.checkSize n = .error e) := by
  -- half of zero is not smooth, so that zero is refused like an odd size
  by_cases hn : n = 0 ∨ n % 2 ≠ 0
  · refine Or.inr ⟨?_, ⟨n⟩, if_pos hn⟩
    rintro ⟨heven, hsmooth⟩
    have := Nat.ne_zero_of_mem_smoothNumbers hsmooth
    omega
  · have heven : n % 2 = 0 := by tauto
    rcases Factorization.ofSize_cases (n / 2) with ⟨hsmooth, -⟩ | ⟨hrough, e, he⟩
    · exact Or.inl ⟨⟨heven, hsmooth⟩, Cosine.checkSize_eq_ok heven hsmooth⟩
    · refine Or.inr ⟨fun h => hrough h.2, e, ?_⟩
      rw [Cosine.checkSize, if_neg hn, he]
      rfl

lemma checkSize_cases (c : Config) :
    (c.IsSplittable ∧ c.transform.checkSize c.size = .ok ()) ∨
      (¬c.IsSplittable ∧ ∃ e, c.transform.checkSize c.size = .error e) := by
  unfold IsSplittable
  cases c.transform with
  | cosineForward | cosineInverse => exact checkSize_cosine_cases c.size
  | fourier =>
    rcases Factorization.ofSize_cases c.size with ⟨hsmooth, f, hf, -⟩ | ⟨hrough, e, he⟩
    · refine Or.inl ⟨hsmooth, ?_⟩
      rw [Transform.checkSize, hf]
      rfl
    · refine Or.inr ⟨hrough, e, ?_⟩
      rw [Transform.checkSize, he]
      rfl

lemma run_bind_pure {α β : Type} {x : Build R α} {a : α} {b₀ b : Builder R}
    (h : x.run.run b₀ = (.ok a, b)) (f : α → β) :
    (x >>= fun a => pure (f a)).run.run b₀ = (.ok (f a), b) := by
  simp only [ExceptT.run_bind, StateT.run_bind, h]
  rfl

variable [Scalar R]

/-- The code of a configuration whose size can be split is emitted to the end. -/
lemma exists_emit (hsize : c.IsSplittable) (hlt : c.size < 2 ^ 61) :
    ∃ order b, (c.emit : Build R _).run.run { annotate := c.annotate } = (.ok order, b) ∧
      b.Closed := by
  unfold IsSplittable at hsize
  unfold emit coefficients
  cases htransform : c.transform with
  | cosineForward =>
    rw [htransform] at hsize
    obtain ⟨b, hrun, hb⟩ := Cosine.exists_emitForward (R := R) hsize.1 hsize.2 hlt c.orthogonal
      c.annotate
    exact ⟨none, b, run_bind_pure hrun _, hb.closed⟩
  | cosineInverse =>
    rw [htransform] at hsize
    obtain ⟨b, hrun, hb⟩ := Cosine.exists_emitInverse (R := R) hsize.1 hsize.2 hlt c.orthogonal
      c.annotate
    exact ⟨none, b, run_bind_pure hrun _, hb.closed⟩
  | fourier =>
    rw [htransform] at hsize
    cases hstrategy : c.strategy with
    | unrolled =>
      obtain ⟨_, b, hrun, hb⟩ := Fourier.exists_emitUnrolled (R := R)
        (hasPlan_of_mem_smoothNumbers hsize (by omega)) c.annotate
      exact ⟨none, b, run_bind_pure hrun _, hb.closed⟩
    | calls =>
      obtain ⟨order, b, hrun, hb⟩ := Fourier.exists_emitCalled (R := R)
        (hasPlan_of_mem_smoothNumbers hsize (by omega)) c.annotate
      exact ⟨some order, b, run_bind_pure hrun _, hb.closed⟩

lemma compileUnchecked_of_validate {p : Problem} (h : c.validate = .error p) :
    (c.compileUnchecked : Except (CompileError R) (Kernel R)) = .error (.invalidConfig p) := by
  rw [compileUnchecked, h]
  rfl

lemma compileUnchecked_of_checkSize {e : BadSize} (hvalid : c.validate = .ok ())
    (h : c.transform.checkSize c.size = .error e) :
    (c.compileUnchecked : Except (CompileError R) (Kernel R)) = .error (.badSize e) := by
  rw [compileUnchecked, hvalid, h]
  rfl

/-- The three outcomes of a compilation without a self-check. -/
lemma compile_cases (hverify : c.verify = false) (hlt : c.size < 2 ^ 61) :
    (c.IsInvalid ∧
      ∃ p, (c.compile : Except (CompileError R) (Kernel R)) = .error (.invalidConfig p)) ∨
    ((¬c.IsInvalid ∧ ¬c.IsSplittable) ∧
      ∃ e, (c.compile : Except (CompileError R) (Kernel R)) = .error (.badSize e)) ∨
    ((¬c.IsInvalid ∧ c.IsSplittable) ∧
      ∃ k, (c.compile : Except (CompileError R) (Kernel R)) = .ok k) := by
  have hcompile : (c.compile : Except (CompileError R) (Kernel R)) = c.compileUnchecked := by
    simp [compile, hverify]
  rw [hcompile]
  rcases validate_cases c with ⟨hinvalid, p, hp⟩ | ⟨hvalid, hok⟩
  · exact Or.inl ⟨hinvalid, p, compileUnchecked_of_validate hp⟩
  rcases checkSize_cases c with ⟨hsize, hsizeok⟩ | ⟨hrough, e, he⟩
  · obtain ⟨order, b, hrun, hclosed⟩ := exists_emit (R := R) hsize hlt
    exact Or.inr (Or.inr ⟨⟨hvalid, hsize⟩, _,
      compileUnchecked_eq_ok hok hsizeok hrun hclosed.checkLifetimes⟩)
  · exact Or.inr (Or.inl ⟨⟨hvalid, hrough⟩, e, compileUnchecked_of_checkSize hok he⟩)

lemma exists_compile_of_isSplittable (hverify : c.verify = false) (hlt : c.size < 2 ^ 61)
    (hvalid : ¬c.IsInvalid) (hsize : c.IsSplittable) :
    ∃ k, (c.compile : Except (CompileError R) (Kernel R)) = .ok k := by
  rcases compile_cases (R := R) hverify hlt with ⟨hinvalid, -⟩ | ⟨⟨-, hrough⟩, -⟩ | ⟨-, hk⟩
  · exact absurd hinvalid hvalid
  · exact absurd hsize hrough
  · exact hk

/-- Without a self-check, a configuration is refused exactly if its options do not go together, or
else if its size cannot be split. In all other cases there is a kernel, and its code was emitted to
the end, with all lifetimes in order and no temporary left in use. The size is bounded by its
angles; the names of temporaries have no bound (`TempPool`). -/
theorem compile_outcomes (hverify : c.verify = false) (hlt : c.size < 2 ^ 61) :
    ((∃ p, (c.compile : Except (CompileError R) (Kernel R)) = .error (.invalidConfig p)) ↔
      c.IsInvalid) ∧
    ((∃ e, (c.compile : Except (CompileError R) (Kernel R)) = .error (.badSize e)) ↔
      ¬c.IsInvalid ∧ ¬c.IsSplittable) ∧
    ((∃ k, (c.compile : Except (CompileError R) (Kernel R)) = .ok k) ↔
      ¬c.IsInvalid ∧ c.IsSplittable) ∧
    (c.IsSplittable → ∃ order b,
      (c.emit : Build R _).run.run { annotate := c.annotate } = (.ok order, b) ∧
        b.checkLifetimes = .ok () ∧ ∀ id, id ∉ b.temps.inUse) := by
  have hcases := compile_cases (R := R) hverify hlt
  refine ⟨?_, ?_, ?_, fun hsize => ?_⟩
  · rcases hcases with ⟨hc, _, h⟩ | ⟨hc, _, h⟩ | ⟨hc, _, h⟩ <;> simp [h, hc]
  · rcases hcases with ⟨hc, _, h⟩ | ⟨hc, _, h⟩ | ⟨hc, _, h⟩ <;> simp [h, hc]
  · rcases hcases with ⟨hc, _, h⟩ | ⟨hc, _, h⟩ | ⟨hc, _, h⟩ <;> simp [h, hc]
  · obtain ⟨order, b, hrun, hclosed⟩ := exists_emit (R := R) hsize hlt
    exact ⟨order, b, hrun, hclosed.checkLifetimes, hclosed.notMem_inUse⟩

/-- One configuration of each outcome. -/
theorem compile_outcomes_twelve :
    (∃ k : Kernel ℝ,
      ({ size := 12, transform := .cosineInverse, verify := false } : Config).compile = .ok k) ∧
    (∃ e, ({ size := 14, transform := .fourier, verify := false } : Config).compile (R := ℝ) =
      .error (.badSize e)) ∧
    (∃ p, ({ size := 12, strategy := .calls, verify := false } : Config).compile (R := ℝ) =
      .error (.invalidConfig p)) := by
  have hsmooth : 2 * 3 ∈ Nat.smoothNumbers 6 := Nat.mul_mem_smoothNumbers
    (Nat.mem_smoothNumbers_of_lt (by decide) (by decide))
    (Nat.mem_smoothNumbers_of_lt (by decide) (by decide))
  have hrough : 14 ∉ Nat.smoothNumbers 6 := fun h =>
    absurd (Nat.mem_smoothNumbers'.1 h 7 (by norm_num) (by norm_num)) (by decide)
  refine ⟨?_, ?_, ?_⟩
  · exact (compile_outcomes rfl (by decide)).2.2.1.2 ⟨by simp [IsInvalid], by decide, hsmooth⟩
  · exact (compile_outcomes rfl (by decide)).2.1.2 ⟨by simp [IsInvalid], hrough⟩
  · exact (compile_outcomes rfl (by decide)).1.2 (by simp [IsInvalid, Transform.isCosine])

end Config

end MixedRadix
