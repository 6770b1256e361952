import MixedRadix.Fourier.Called
import MixedRadix.Proofs.Lanes
import MixedRadix.Proofs.Requests
import MixedRadix.Proofs.Rotation
import Mathlib.Analysis.SpecialFunctions.Trigonometric.Bounds

/-!
# Fourier transforms made of calls

Calls are mandatory and touch no temporaries, so nothing but the complex slots changes while they
run. `Invokes n z x Q` says that the computation `x` appends calls to every builder, which lead from
the values `z` of slots to values of which `Q` holds, whenever there are `n` slots or more. The
calls for a plan leave the results of the transform in their natural order
(`Fourier.invokes_emitCalled`). Over exact scalars these are the spectrum of the slots, because only
a rotation by no angle at all is left out (`Fourier.isExactTurn_calledTurn`).
-/

namespace MixedRadix

variable {R : Type}

/-- An operation that calls a routine. -/
def Op.IsCall (o : Op R) : Prop :=
  o.mandatory = true ∧ o.pruned = false ∧ ∃ c, o.stmt = .call c

lemma Op.IsCall.temp_notMem {o : Op R} (h : o.IsCall) (id : ℕ) :
    .temp id ∉ o.inputs ∧ .temp id ∉ o.outputs := by
  obtain ⟨-, -, c, hc⟩ := h
  simp [Op.inputs, Op.outputs, hc, Stmt.inputs, Stmt.outputs, Call.symbols]

/-- Calls are never pruned. -/
lemma eliminateDeadCode_of_isCall {stream : List (Instruction R)}
    (h : ∀ o, .op o ∈ stream → o.IsCall) : (eliminateDeadCode stream).1 = stream := by
  refine List.ext_getElem? fun i => ?_
  rw [eliminateDeadCode, getElem?_prune]
  cases hi : stream[i]? with
  | none => rfl
  | some inst =>
    cases inst with
    | comment text => simp [Instruction.setPruned]
    | op o =>
      obtain ⟨hmand, hpruned, -⟩ := h o (List.mem_of_getElem? hi)
      simp [notMem_deadPositions hi hpruned hmand]

section Calls

variable [Scalar R] {n : ℕ} {b b₁ b₂ : Builder R} {z z₁ z₂ : ℕ → ComplexPair R}

/-- Code that leads from values of slots to others, if it is run with the shift tables that there
are so far and perhaps more. -/
def Turns (n : ℕ) (tables : Array (List ℕ)) (code : List (Instruction R))
    (z z' : ℕ → ComplexPair R) : Prop :=
  ∀ tables' : Array (List ℕ), tables.toList <+: tables'.toList →
    ∀ (m : Machine R) (sizes : ℕ × ℕ), n ≤ sizes.1 → n ≤ sizes.2 → m.lanes.Shows sizes z →
      ∃ lanes, m.execute tables' code = .ok { m with lanes } ∧ lanes.Shows sizes z'

/-- The second builder comes from the first one by appending calls, which lead from values of slots
to others. -/
structure Calls (n : ℕ) (b : Builder R) (z : ℕ → ComplexPair R) (b' : Builder R)
    (z' : ℕ → ComplexPair R) : Prop where
  temps_eq : b'.temps = b.temps
  lifetimes_eq : b'.lifetimes = b.lifetimes
  tables : b.shiftTables.toList <+: b'.shiftTables.toList
  code : ∃ code, b'.stream.toList = b.stream.toList ++ code ∧ (∀ o, .op o ∈ code → o.IsCall) ∧
    Turns n b'.shiftTables code z z'

lemma Turns.nil (n : ℕ) (tables : Array (List ℕ)) (z : ℕ → ComplexPair R) :
    Turns n tables [] z z :=
  fun _ _ m _ _ _ hm => ⟨m.lanes, rfl, hm⟩

lemma Turns.append {tables : Array (List ℕ)} {code code' : List (Instruction R)}
    (h : Turns n tables code z z₁) (h' : Turns n tables code' z₁ z₂) :
    Turns n tables (code ++ code') z z₂ := by
  intro tables' htables m sizes hre him hm
  obtain ⟨lanes, hrun, hlanes⟩ := h tables' htables m sizes hre him hm
  obtain ⟨lanes', hrun', hlanes'⟩ :=
    h' tables' htables { m with lanes } sizes hre him hlanes
  refine ⟨lanes', ?_, hlanes'⟩
  rw [Machine.execute_append, hrun]
  exact hrun'

lemma Turns.mono {tables tables' : Array (List ℕ)} {code : List (Instruction R)}
    (h : Turns n tables code z z₁) (hle : tables.toList <+: tables'.toList) :
    Turns n tables' code z z₁ :=
  fun _ htables => h _ (hle.trans htables)

lemma Calls.refl (n : ℕ) (b : Builder R) (z : ℕ → ComplexPair R) : Calls n b z b z :=
  ⟨rfl, rfl, List.prefix_rfl, [], by simp, by simp, Turns.nil n _ z⟩

lemma Calls.trans (h : Calls n b z b₁ z₁) (h' : Calls n b₁ z₁ b₂ z₂) : Calls n b z b₂ z₂ := by
  obtain ⟨code, hcode, hcalls, hturns⟩ := h.code
  obtain ⟨code', hcode', hcalls', hturns'⟩ := h'.code
  refine ⟨h'.temps_eq.trans h.temps_eq, h'.lifetimes_eq.trans h.lifetimes_eq,
    h.tables.trans h'.tables, code ++ code', by rw [hcode', hcode, List.append_assoc],
    fun o ho => ?_, (hturns.mono h'.tables).append hturns'⟩
  exact (List.mem_append.1 ho).elim (hcalls o) (hcalls' o)

/-- A change that is not one of the stream. -/
lemma Calls.of_stream_eq {b' : Builder R} (n : ℕ) (z : ℕ → ComplexPair R)
    (hstream : b'.stream = b.stream) (htemps : b'.temps = b.temps)
    (hlifetimes : b'.lifetimes = b.lifetimes)
    (htables : b.shiftTables.toList <+: b'.shiftTables.toList) : Calls n b z b' z :=
  ⟨htemps, hlifetimes, htables, [], by simp [hstream], by simp, Turns.nil n _ z⟩

lemma Calls.comment (n : ℕ) (b : Builder R) (z : ℕ → ComplexPair R) (text : String) :
    Calls n b z (b.comment text) z := by
  unfold Builder.comment
  split
  · exact ⟨rfl, rfl, List.prefix_rfl, [.comment text], by simp, by simp,
      fun _ _ m _ _ _ hm => ⟨m.lanes, rfl, hm⟩⟩
  · exact Calls.refl n b z

/-- A call that can be run on every number of slots from `n` on. -/
lemma Calls.call {c : Call R} (hcall : ∀ tables' : Array (List ℕ),
      b.shiftTables.toList <+: tables'.toList → ∀ (l : Lanes R) (sizes : ℕ × ℕ), n ≤ sizes.1 →
        n ≤ sizes.2 → l.Shows sizes z →
          ∃ l', Machine.callLanes tables' l c = .ok l' ∧ l'.Shows sizes z₁) :
    Calls n b z (b.call c) z₁ := by
  refine ⟨rfl, rfl, List.prefix_rfl, [.op { stmt := .call c, mandatory := true }], ?_, ?_, ?_⟩
  · simp [Builder.call, Builder.push]
  · intro o ho
    obtain rfl : o = { stmt := .call c, mandatory := true } := by simpa using ho
    exact ⟨rfl, rfl, c, rfl⟩
  · intro tables' htables m sizes hre him hm
    obtain ⟨lanes, hlanes, hshows⟩ := hcall tables' htables m.lanes sizes hre him hm
    refine ⟨lanes, ?_, hshows⟩
    simp [Machine.execute, Machine.step, Instruction.liveOp?, Machine.runStmt, hlanes]

/-! ### Computations -/

/-- The computation succeeds from every builder, and appends calls that lead from some values of
slots to others, of which `Q` holds together with the result. -/
def Invokes {α : Type} (n : ℕ) (z : ℕ → ComplexPair R) (x : Build R α)
    (Q : α → (ℕ → ComplexPair R) → Prop) : Prop :=
  ∀ b : Builder R, ∃ a b' z', x.run.run b = (.ok a, b') ∧ Calls n b z b' z' ∧ Q a z'

namespace Invokes

variable {α β : Type} {x : Build R α} {Q : α → (ℕ → ComplexPair R) → Prop}

lemma pure {a : α} (h : Q a z) : Invokes n z (Pure.pure a : Build R α) Q :=
  fun b => ⟨a, b, z, rfl, Calls.refl n b z, h⟩

lemma bind {f : α → Build R β} {P : β → (ℕ → ComplexPair R) → Prop} (h : Invokes n z x Q)
    (hf : ∀ a z', Q a z' → Invokes n z' (f a) P) : Invokes n z (x >>= f) P := by
  intro b
  obtain ⟨a, b₁, z₁, hrun, hcalls, hq⟩ := h b
  obtain ⟨c, b₂, z₂, hrun', hcalls', hp⟩ := hf a z₁ hq b₁
  refine ⟨c, b₂, z₂, ?_, hcalls.trans hcalls', hp⟩
  simp only [ExceptT.run_bind, StateT.run_bind, hrun]
  exact hrun'

/-- Sequencing with a computation whose result and values are known. -/
lemma then_ {a : α} {f : α → Build R β} {P : β → (ℕ → ComplexPair R) → Prop}
    (h : Invokes n z x fun a' z' => a' = a ∧ z' = z₁) (hf : Invokes n z₁ (f a) P) :
    Invokes n z (x >>= f) P := by
  refine h.bind ?_
  rintro _ _ ⟨rfl, rfl⟩
  exact hf

/-- A loop with an invariant that says how many rounds are done. -/
lemma forM {xs : List α} {f : α → Build R Unit} {I : ℕ → ℕ → ComplexPair R}
    (hstep : ∀ i (hi : i < xs.length), Invokes n (I i) (f xs[i]) fun _ z' => z' = I (i + 1)) :
    Invokes n (I 0) (xs.forM f) fun _ z' => z' = I xs.length := by
  induction xs generalizing I with
  | nil => exact Invokes.pure rfl
  | cons x xs ih =>
    refine (hstep 0 (by simp)).bind ?_
    rintro _ _ rfl
    exact ih (I := fun i => I (i + 1)) fun i hi => hstep (i + 1) (by simpa using hi)

lemma comment (text : String) : Invokes n z (Build.comment text) fun _ z' => z' = z :=
  fun b => ⟨(), b.comment text, z, rfl, Calls.comment n b z text, rfl⟩

lemma recordButterfly : Invokes n z Build.recordButterfly fun _ z' => z' = z :=
  fun b => ⟨(), b.recordButterfly, z, rfl, .of_stream_eq n z rfl rfl rfl List.prefix_rfl, rfl⟩

lemma recordRotation (turn : Turn) :
    Invokes n z (Build.recordRotation turn) fun _ z' => z' = z :=
  fun b => ⟨(), b.recordRotation turn, z, rfl, .of_stream_eq n z rfl rfl rfl List.prefix_rfl, rfl⟩

lemma ofSized {r : Except BadSize α} {a : α} (h : r = .ok a) :
    Invokes n z (Build.ofSized r) fun a' z' => a' = a ∧ z' = z := by
  subst h
  exact Invokes.pure ⟨rfl, rfl⟩

lemma ofFaulty {r : Except Fault α} {a : α} (h : r = .ok a) :
    Invokes n z (Build.ofFaulty r) fun a' z' => a' = a ∧ z' = z := by
  subst h
  exact Invokes.pure ⟨rfl, rfl⟩

/-- A call that follows no table. -/
lemma call {c : Call R} (hcall : ∀ tables (l : Lanes R) (sizes : ℕ × ℕ), n ≤ sizes.1 →
      n ≤ sizes.2 → l.Shows sizes z →
        ∃ l', Machine.callLanes tables l c = .ok l' ∧ l'.Shows sizes z₁) :
    Invokes n z (Build.call c) fun _ z' => z' = z₁ :=
  fun b => ⟨(), b.call c, z₁, rfl, Calls.call fun tables _ => hcall tables, rfl⟩

end Invokes

/-! ### Finished streams -/

/-- Calls keep to all lifetimes, because they name no temporaries. -/
lemma Calls.checkLifetimes {annotate : Bool} (h : Calls n { annotate } z b z₁) :
    b.checkLifetimes = .ok () := by
  obtain ⟨code, hcode, hcalls, -⟩ := h.code
  obtain rfl : code = b.stream.toList := by simpa using hcode.symm
  refine Lifetime.check_eq_ok (by simp [h.lifetimes_eq]) (fun p o hp id hid => ?_)
    fun p uses hp id writer hu => ?_
  · exact absurd hid ((hcalls o (List.mem_of_getElem? hp)).temp_notMem id).2
  · obtain ⟨o, ho, hs⟩ := exists_op_of_mem_resolve (List.mem_of_getElem? hp) hu
    exact absurd hs ((hcalls o ho).temp_notMem id).1

/-- The finished code leads from values of slots to others. -/
theorem Calls.finish {annotate : Bool} (h : Calls n { annotate } z b z₁) {m : Machine R}
    {sizes : ℕ × ℕ} (hre : n ≤ sizes.1) (him : n ≤ sizes.2) (hm : m.lanes.Shows sizes z) :
    ∃ lanes, m.execute b.shiftTables b.eliminateDeadCode.2.stream.toList = .ok { m with lanes } ∧
      lanes.Shows sizes z₁ := by
  obtain ⟨code, hcode, hcalls, hturns⟩ := h.code
  obtain rfl : code = b.stream.toList := by simpa using hcode.symm
  have hkept : b.eliminateDeadCode.2.stream.toList = b.stream.toList :=
    eliminateDeadCode_of_isCall hcalls
  rw [hkept]
  exact hturns _ List.prefix_rfl m sizes hre him hm

end Calls

namespace Fourier

open ComplexPair (ofComplex)

/-! ### Requests -/

/-- The distance of `e ^ (iθ)` from one is that between the ends of an arc. -/
lemma sqrt_eq_abs_sin (θ : ℝ) :
    √((Real.cos θ - 1) * (Real.cos θ - 1) + Real.sin θ * Real.sin θ) = 2 * |Real.sin (θ / 2)| := by
  have hcos : Real.cos θ = 1 - 2 * Real.sin (θ / 2) ^ 2 := by
    rw [← mul_div_cancel₀ θ two_ne_zero, Real.cos_two_mul, Real.cos_sq']
    ring_nf
  have hsq : (Real.cos θ - 1) * (Real.cos θ - 1) + Real.sin θ * Real.sin θ =
      (2 * Real.sin (θ / 2)) ^ 2 := by
    linear_combination Real.sin_sq_add_cos_sq θ - 2 * hcos
  rw [hsq, Real.sqrt_sq_eq_abs, abs_mul, abs_two]

/-- On the half circle, the sine is at least as large as on its chords. -/
lemma le_sin_pi_mul {x : ℝ} (h0 : 0 ≤ x) (h1 : x ≤ 1) {δ : ℝ} (hδ : δ ≤ 2 * x)
    (hδ' : δ ≤ 2 * (1 - x)) : δ ≤ Real.sin (Real.pi * x) := by
  rcases le_total x (1 / 2) with hx | hx
  · have := Real.mul_le_sin (x := Real.pi * x) (by positivity) (by nlinarith [Real.pi_pos])
    rw [← mul_assoc, div_mul_cancel₀ _ Real.pi_ne_zero] at this
    exact hδ.trans this
  · have := Real.mul_le_sin (x := Real.pi * (1 - x)) (mul_nonneg Real.pi_pos.le (by linarith))
      (by nlinarith [Real.pi_pos])
    rw [← mul_assoc, div_mul_cancel₀ _ Real.pi_ne_zero] at this
    have hsin : Real.sin (Real.pi * (1 - x)) = Real.sin (Real.pi * x) := by
      rw [mul_one_sub, Real.sin_pi_sub]
    exact hδ'.trans (hsin ▸ this)

/-- Only a rotation by no angle at all is left out. -/
lemma num_eq_zero_of_isNegligible {angle : Angle} (hden : angle.den < 2 ^ 62)
    (h : isNegligible (Real.cos angle.radians) (Real.sin angle.radians) = true) :
    angle.num = 0 := by
  by_contra hnum
  have hpos : (0 : ℝ) < angle.den := by exact_mod_cast angle.den_pos
  have hhalf : (angle.radians : ℝ) / 2 = Real.pi * (angle.num / (2 * angle.den)) := by
    change Real.pi * (angle.num : ℝ) / angle.den / 2 = _
    field_simp
  have hle : (1 : ℝ) / angle.den ≤ Real.sin (angle.radians / 2) := by
    have hnum' : (1 : ℝ) ≤ angle.num := by exact_mod_cast Nat.one_le_iff_ne_zero.2 hnum
    have hlt : (angle.num : ℝ) + 1 ≤ 2 * angle.den := by exact_mod_cast angle.num_lt
    rw [hhalf]
    refine le_sin_pi_mul (by positivity) ?_ ?_ ?_
    · rw [div_le_one (by positivity)]
      linarith
    · rw [div_le_iff₀ hpos]
      field_simp
      linarith
    · rw [div_le_iff₀ hpos]
      field_simp
      linarith
  have hsmall : 2 * |Real.sin (angle.radians / 2)| < 1e-32 := by
    rw [← sqrt_eq_abs_sin]
    simp only [isNegligible, Scalar.lt, Scalar.sqrt, decide_eq_true_eq] at h
    norm_num at h ⊢
    exact h
  have hlarge : (1 : ℝ) / 2 ^ 62 < 1 / angle.den :=
    one_div_lt_one_div_of_lt hpos (by exact_mod_cast hden)
  have hself := le_abs_self (Real.sin (angle.radians / 2))
  have hbound : (1e-32 : ℝ) < 1 / 2 ^ 62 := by norm_num
  linarith

variable {R : Type} [Scalar R] {n : ℕ}

/-- A call multiplies by the factor of its angle, unless that is next to one. -/
def calledTurn (angle : Angle) (z : ComplexPair R) : ComplexPair R :=
  if isNegligible (Scalar.cos angle.radians : R) (Scalar.sin angle.radians) then z
  else z.rotate (Scalar.cos angle.radians) (Scalar.sin angle.radians)

lemma isExactTurn_calledTurn : IsExactTurn calledTurn := by
  intro angle z hden
  unfold calledTurn
  split
  · rename_i hnegligible
    have hturns : angle.halfTurns = 0 := by
      simp [Angle.halfTurns, num_eq_zero_of_isNegligible hden hnegligible]
    simp [hturns]
  · rw [phase_eq, ← radians_eq]
    simp [ofComplex, ComplexPair.rotate, Scalar.cos, Scalar.sin, mul_comm, add_comm]

lemma invokes_callRequest (z : ℕ → ComplexPair R) {r : Request} (hr : r.Fits {slot | slot < n}) :
    Invokes n z (callRequest r) fun _ z' => z' = r.carryOut calledTurn z := by
  cases r with
  | butterfly radix listed =>
    obtain ⟨hnodup, hlength, hlt⟩ := hr
    refine Invokes.recordButterfly.bind ?_
    rintro _ _ rfl
    exact Invokes.call fun tables l sizes hre him hl => hl.butterfly hlength fun i hi =>
      ⟨(hlt i hi).trans_le hre, (hlt i hi).trans_le him⟩
  | twiddle slot angle =>
    obtain ⟨hslot, -⟩ := hr
    unfold callRequest Request.carryOut calledTurn
    by_cases hnegligible :
        isNegligible (Scalar.cos (angle.radians : R)) (Scalar.sin angle.radians) = true
    · simp only [hnegligible, if_true, Function.update_eq_self]
      exact Invokes.pure rfl
    · simp only [hnegligible]
      refine (Invokes.recordRotation _).bind ?_
      rintro _ _ rfl
      exact Invokes.call fun tables l sizes hre him hl =>
        hl.rotate (hslot.trans_le hre) (hslot.trans_le him) _ _

/-! ### Reordering -/

/-- Along a cycle, each slot takes the value at its image. -/
lemma invokes_callCycle {order : Permutation} {c : List ℕ} (hcycle : order.IsCycle c)
    (hc : ∀ a ∈ c, a < n) (z : ℕ → ComplexPair R) :
    Invokes n z (callCycle c) fun _ z' =>
      z' = fun i => if i ∈ c then z (order.image i) else z i := by
  match c, hcycle, hc with
  | [], _, _ => exact Invokes.pure (by simp)
  | [a], hcycle, _ =>
    have himage : order.image a = a := by simpa using (hcycle.image_eq 0 (by simp)).symm
    refine Invokes.pure (funext fun i => ?_)
    by_cases hi : i = a <;> simp [hi, himage]
  | [a, b], hcycle, hc =>
    rw [← Permutation.shift_cycle hcycle rfl]
    exact Invokes.call fun tables l sizes hre him hl =>
      hl.swap fun i hi => ⟨(hc i hi).trans_le hre, (hc i hi).trans_le him⟩
  | a :: b :: d :: rest, hcycle, hc =>
    rw [← Permutation.shift_cycle hcycle rfl]
    intro b₀
    set slots := a :: b :: d :: rest
    have hadded : Calls n b₀ z (b₀.addShiftTable slots).2 z :=
      .of_stream_eq n z rfl rfl rfl (by simp [Builder.addShiftTable])
    refine ⟨(), (b₀.addShiftTable slots).2.call (.cyclicShift b₀.shiftTables.size slots), _, rfl,
      hadded.trans (.call fun tables htables l sizes hre him hl => ?_), rfl⟩
    have htable : getOrFault tables b₀.shiftTables.size = .ok slots := by
      rw [getOrFault_eq_ok, ← Array.getElem?_toList]
      have hget := List.prefix_iff_getElem?.1 htables b₀.shiftTables.size
        (by simp [Builder.addShiftTable])
      simpa [Builder.addShiftTable] using hget
    simp only [Machine.callLanes, htable]
    exact hl.cyclicShift fun i hi => ⟨(hc i hi).trans_le hre, (hc i hi).trans_le him⟩

/-- Each slot takes the value at its image. -/
theorem invokes_restoreOrder {order : Permutation} (horder : Permutation.IsBijective order.map)
    (hsize : order.size ≤ n) (z : ℕ → ComplexPair R) :
    Invokes n z (restoreOrder order) fun _ z' => z' = fun i => z (order.image i) := by
  rw [← Permutation.shifted_length horder]
  have hloop : Invokes n (order.shifted z 0) (order.cycles.forM callCycle) fun _ z' =>
      z' = order.shifted z order.cycles.length := Invokes.forM fun i hi => ?_
  · rwa [Permutation.shifted_zero] at hloop
  · rw [← Permutation.shifted_succ horder z hi]
    refine invokes_callCycle ((Permutation.sound_cycles horder).1 _ (List.getElem_mem hi)) ?_ _
    intro a ha
    exact (Permutation.lt_size_of_mem_cycle horder (List.getElem_mem hi) ha).trans_le hsize

/-- On every builder, the calls that restore an order move the value at slot `order[k]` to slot `k`,
and leave slots behind the order as they are. They may be run with more shift tables than there are
when they have been appended. -/
theorem restoreOrder_permutes {order : Permutation} (horder : Permutation.IsBijective order.map)
    (b : Builder R) :
    ∃ b' code, (restoreOrder order).run.run b = (.ok (), b') ∧
      b'.stream.toList = b.stream.toList ++ code ∧ (∀ o, .op o ∈ code → o.IsCall) ∧
      ∀ tables : Array (List ℕ), b'.shiftTables.toList <+: tables.toList →
        ∀ m : Machine R, order.size ≤ m.lanes.re.size → order.size ≤ m.lanes.im.size →
          ∃ lanes, m.execute tables code = .ok { m with lanes } ∧
            (∀ k i : ℕ, order.map[k]? = some i →
              lanes.re[k]? = m.lanes.re[i]? ∧ lanes.im[k]? = m.lanes.im[i]?) ∧
            ∀ k : ℕ, order.size ≤ k →
              lanes.re[k]? = m.lanes.re[k]? ∧ lanes.im[k]? = m.lanes.im[k]? := by
  -- What is appended does not depend on the values of the slots, so any will do to name it.
  obtain ⟨_, b', _, hrun, hcalls, -⟩ :=
    invokes_restoreOrder horder le_rfl (fun _ => ⟨Scalar.nan, Scalar.nan⟩) b
  obtain ⟨code, hcode, hisCall, -⟩ := hcalls.code
  refine ⟨b', code, hrun, hcode, hisCall, ?_⟩
  intro tables htables m hre him
  have hshows := m.lanes.shows_getD Scalar.nan
  obtain ⟨_, b'', _, hrun', hcalls', rfl⟩ := invokes_restoreOrder horder le_rfl _ b
  obtain rfl : b' = b'' := congrArg Prod.snd (hrun.symm.trans hrun')
  obtain ⟨code', hcode', -, hturns⟩ := hcalls'.code
  obtain rfl : code = code' := List.append_cancel_left (hcode.symm.trans hcode')
  obtain ⟨lanes, hexecute, hlanes⟩ := hturns tables htables m _ hre him hshows
  refine ⟨lanes, hexecute, fun k i hi => ?_, fun k hk => ?_⟩
  · have hk : k < order.size := (Array.getElem?_eq_some_iff.1 hi).1
    obtain rfl : order.image k = i :=
      Option.some.inj ((Permutation.getElem?_map hk).symm.trans hi)
    have himage := Permutation.image_lt horder hk
    exact hshows.getElem?_eq hlanes k (by omega) (by omega)
  · have hfixed : order.image k = k := Permutation.image_of_le hk
    have hkept := hshows.getElem?_eq hlanes k (by rw [hfixed]) (by rw [hfixed])
    rwa [hfixed] at hkept

/-- Three of four slots change places, on a builder that holds a table already. -/
theorem restoreOrder_permutes_three :
    let start : Lanes Float := ⟨#[10, 11, 12, 13], #[20, 21, 22, 23]⟩
    ∃ b' code lanes,
      (restoreOrder ⟨#[2, 0, 1]⟩).run.run { shiftTables := #[[7, 8, 9]] } = (.ok (), b') ∧
      b'.stream.toList = code ∧
      Machine.execute b'.shiftTables code ⟨#[], #[], none, start⟩ = .ok ⟨#[], #[], none, lanes⟩ ∧
      lanes.re[0]? = some 12 ∧ lanes.re[1]? = some 10 ∧ lanes.im[2]? = some 21 ∧
      lanes.im[3]? = some 23 := by
  intro start
  obtain ⟨b', code, hrun, hcode, -, hpermutes⟩ :=
    @restoreOrder_permutes Float _ ⟨#[2, 0, 1]⟩ (by decide) { shiftTables := #[[7, 8, 9]] }
  obtain ⟨lanes, hexecute, hmoved, hkept⟩ := hpermutes b'.shiftTables List.prefix_rfl
    ⟨#[], #[], none, start⟩ (by decide) (by decide)
  exact ⟨b', code, lanes, hrun, hcode, hexecute, (hmoved 0 2 rfl).1, (hmoved 1 0 rfl).1,
    (hmoved 2 1 rfl).2, (hkept 3 (by decide)).2⟩

/-- The calls of a transform leave its results in their natural order. -/
theorem invokes_emitCalled (hplan : HasPlan n) (z : ℕ → ComplexPair R) :
    Invokes n z (emitCalled n) fun _ z' => z' = transformed calledTurn n z := by
  obtain ⟨plan, order, hplan, horder, hbijective, hsize, hfits⟩ := hplan
  refine (Invokes.comment _).bind ?_
  rintro _ z rfl
  refine (Invokes.ofSized hplan).then_ ?_
  refine (Invokes.forM (I := fun c => Request.carryOutAll calledTurn (plan.requests.take c) z)
    fun c hc => ?_).bind ?_
  · rw [Request.carryOutAll_take_succ calledTurn hc]
    exact invokes_callRequest _ (hfits _ (List.getElem_mem hc))
  rintro _ _ rfl
  refine (Invokes.ofFaulty horder).then_ ?_
  refine (Invokes.comment _).bind ?_
  rintro _ _ rfl
  refine (invokes_restoreOrder hbijective hsize.le _).bind ?_
  rintro _ _ rfl
  refine Invokes.pure (funext fun k => ?_)
  rw [List.take_length, transformed_eq calledTurn hplan horder]

end Fourier

end MixedRadix
