import MixedRadix.Proofs.Appended
import MixedRadix.Proofs.Lanes
import MixedRadix.Scalar.Binary64

/-!
# Inlined butterflies

The code of a butterfly on complex slots and a call of the routine on the same slots leave the same
machine, but for temporaries that are not in use (`Butterfly.emit_eq_call`). Both work operation by
operation alike, so this holds for every arithmetic. The code touches no samples, which makes it the
same on all machines with the same temporaries and the same complex slots.
-/

namespace MixedRadix

variable {R : Type}

/-! ### Code that touches no samples -/

/-- Whether a symbol names an input sample or an output sample. -/
def Symbol.isSample : Symbol → Bool
  | .input _ | .output _ => true
  | _ => false

namespace Machine

/-- The machine with other samples. -/
def withSamples (m : Machine R) (input : Array R) (output : Option (Array R)) : Machine R :=
  { m with input, output }

variable {m m' : Machine R} {s : Symbol} {input : Array R} {output : Option (Array R)}

lemma read_withSamples (hs : s.isSample = false) :
    (m.withSamples input output).read s = m.read s := by
  cases s with
  | input i | output i => cases hs
  | temp id | real i | imag i => rfl

lemma write_withSamples (hs : s.isSample = false) {x : R} (h : m.write s x = .ok m') :
    (m.withSamples input output).write s x = .ok (m'.withSamples input output) := by
  obtain ⟨temps, input, output, re, im⟩ := m
  cases s with
  | input i | output i => cases hs
  | temp id | real i | imag i =>
    obtain ⟨hlt, rfl⟩ := checkIndex_bind_eq_ok.1 h
    exact checkIndex_bind_eq_ok.2 ⟨hlt, rfl⟩

variable [Scalar R] {tables : Array (List ℕ)}

lemma runStmt_withSamples {stmt : Stmt R}
    (hstmt : ∀ s ∈ stmt.inputs ++ stmt.outputs, s.isSample = false)
    (h : m.runStmt tables stmt = .ok m') :
    (m.withSamples input output).runStmt tables stmt = .ok (m'.withSamples input output) := by
  cases stmt with
  | assign dst e =>
    have heval : e.evalIn (m.withSamples input output).read = e.evalIn m.read :=
      Expr.evalIn_congr fun t ht =>
        read_withSamples (hstmt t (List.mem_append_left _ (Expr.mem_symbols.2 ht)))
    rw [runStmt] at h ⊢
    rw [heval]
    cases hvalue : e.evalIn m.read with
    | error f =>
      rw [hvalue] at h
      cases h
    | ok x =>
      rw [hvalue] at h
      exact write_withSamples (hstmt dst (by simp [Stmt.outputs])) h
  | call c =>
    obtain ⟨temps, _, _, lanes⟩ := m
    simp only [runStmt, withSamples] at h ⊢
    cases hcall : callLanes tables lanes c with
    | error f =>
      rw [hcall] at h
      cases h
    | ok lanes' =>
      rw [hcall] at h
      obtain rfl := Except.ok.inj h
      rfl

/-- Code that touches no samples does not depend on them, and leaves them alone. -/
lemma execute_withSamples (input : Array R) (output : Option (Array R))
    {code : List (Instruction R)}
    (hcode : ∀ o, .op o ∈ code → ∀ s ∈ o.inputs ++ o.outputs, s.isSample = false)
    (h : m.execute tables code = .ok m') :
    (m.withSamples input output).execute tables code = .ok (m'.withSamples input output) := by
  induction code generalizing m with
  | nil =>
    obtain rfl := Except.ok.inj h
    rfl
  | cons inst code ih =>
    have hrest := fun o ho => hcode o (List.mem_cons_of_mem inst ho)
    simp only [execute, List.foldlM_cons] at h ⊢
    cases hlive : inst.liveOp? with
    | none =>
      simp only [step, hlive] at h ⊢
      exact ih hrest h
    | some o =>
      obtain ⟨rfl, -⟩ := Instruction.liveOp?_eq_some.1 hlive
      simp only [step, hlive] at h ⊢
      cases hstmt : m.runStmt tables o.stmt with
      | error f =>
        rw [hstmt] at h
        cases h
      | ok m₁ =>
        rw [hstmt] at h
        rw [runStmt_withSamples (hcode o List.mem_cons_self) hstmt]
        exact ih hrest h

end Machine

/-! ### Complex slots in scenes -/

namespace Scene

/-- The values of all complex slots are known, where there is a slot. -/
structure HasLanes (S : Scene R) (sizes : ℕ × ℕ) (z : ℕ → ComplexPair R) : Prop where
  re : ∀ i < sizes.1, S.value (.real i) = some (z i).re
  im : ∀ i < sizes.2, S.value (.imag i) = some (z i).im

namespace HasLanes

variable {S : Scene R} {sizes : ℕ × ℕ} {z : ℕ → ComplexPair R}

lemma put (h : S.HasLanes sizes z) (i : ℕ) (x : ComplexPair R) :
    (S.put (.slot i) x).HasLanes sizes (Function.update z i x) := by
  have howns {s : Symbol} (hs : s.isTemp = false) (S : Scene R) : S.Owns s := by
    rintro id rfl
    cases hs
  constructor <;> intro j hj <;> by_cases hji : j = i
  · subst hji
    rw [Scene.put, assign_value_of_ne (by simp [ComplexSymbol.slot]), Function.update_self]
    exact assign_value_self (howns rfl S) x.re
  · rw [Scene.put, assign_value_of_ne (by simp [ComplexSymbol.slot]),
      assign_value_of_ne (by simpa [ComplexSymbol.slot] using hji), Function.update_of_ne hji]
    exact h.re j hj
  · subst hji
    rw [Scene.put, Function.update_self]
    exact assign_value_self (howns rfl _) x.im
  · rw [Scene.put, assign_value_of_ne (by simpa [ComplexSymbol.slot] using hji),
      assign_value_of_ne (by simp [ComplexSymbol.slot]), Function.update_of_ne hji]
    exact h.im j hj

lemma putAll (h : S.HasLanes sizes z) (slots : List ℕ) (xs : List (ComplexPair R)) :
    (S.putAll (slots.map .slot) xs).HasLanes sizes
      ((slots.zip xs).foldl (fun z p => Function.update z p.1 p.2) z) := by
  induction slots generalizing S z xs with
  | nil => exact h
  | cons i slots ih =>
    cases xs with
    | nil => exact h
    | cons x xs => exact ih (h.put i x) xs

lemma hasPair (h : S.HasLanes sizes z) {i : ℕ} (hi : i < sizes.1 ∧ i < sizes.2) :
    S.HasPair (.slot i) (z i) :=
  ⟨h.re i hi.1, h.im i hi.2⟩

lemma writablePair (h : S.HasLanes sizes z) {i : ℕ} (hi : i < sizes.1 ∧ i < sizes.2) :
    S.WritablePair (.slot i) where
  re := by simp [Writable, ComplexSymbol.slot, h.re i hi.1]
  im := by simp [Writable, ComplexSymbol.slot, h.im i hi.2]
  ne := by simp [ComplexSymbol.slot]

end HasLanes

/-- Temporaries do not change when complex slots do. -/
lemma putAll_slots (S : Scene R) (slots : List ℕ) (xs : List (ComplexPair R)) :
    (S.putAll (slots.map .slot) xs).held = S.held ∧
      ∀ id, (S.putAll (slots.map .slot) xs).value (.temp id) = S.value (.temp id) := by
  induction slots generalizing S xs with
  | nil => exact ⟨rfl, fun _ => rfl⟩
  | cons i slots ih =>
    cases xs with
    | nil => exact ⟨rfl, fun _ => rfl⟩
    | cons x xs =>
      obtain ⟨hheld, hvalue⟩ := ih (S.put (.slot i) x) xs
      have hoff := S.sameOff_put (.slot i) x
      exact ⟨hheld.trans hoff.held_eq, fun id => (hvalue id).trans
        (hoff.value_eq _ (by simp [ComplexSymbol.slot]))⟩

/-- Only complex slots are known, and all of them hold the same. -/
def uniform (held : Set ℕ) (x : R) : Scene R where
  held
  value s := if s.isTemp || s.isSample then none else some x
  settled := ∅
  held_of_value h := by cases h
  isTemp_of_settled := Symbol.isTemp_of_mem_empty

lemma isSample_of_knows {held : Set ℕ} {x : R} {s : Symbol} (h : (uniform held x).Knows s) :
    s.isSample = false := by
  cases s with
  | input i | output i => simp [Knows, uniform, Symbol.isTemp, Symbol.tempId?, Symbol.isSample] at h
  | temp id | real i | imag i => rfl

end Scene

/-! ### Code and call -/

lemma Lanes.Shows.eq {l l' : Lanes R} {sizes : ℕ × ℕ} {z : ℕ → ComplexPair R}
    (h : l.Shows sizes z) (h' : l'.Shows sizes z) : l = l' := by
  obtain ⟨re, im⟩ := l
  obtain ⟨re', im'⟩ := l'
  have hre : re = re' := Array.toList_inj.1 (h.toList_re.trans h'.toList_re.symm)
  have him : im = im' := Array.toList_inj.1 (h.toList_im.trans h'.toList_im.symm)
  rw [hre, him]

namespace Butterfly

variable [Scalar R]

lemma emits_slots {S : Scene R} {sizes : ℕ × ℕ} {z : ℕ → ComplexPair R} (h : S.HasLanes sizes z)
    {radix : Radix} {slots : List ℕ} (hlength : slots.length = radix.size)
    (hslots : ∀ i ∈ slots, i < sizes.1 ∧ i < sizes.2) :
    Emits S (emit (slots.map .slot)) fun _ S' =>
      S' = S.putAll (slots.map .slot) (ComplexPair.dft (slots.map z)) := by
  have hlength' : (slots.map ComplexSymbol.slot).length = radix.size := by simpa using hlength
  refine emits_emit hlength' ?_ ?_
  · rw [List.forall₂_map_left_iff, List.forall₂_map_right_iff, List.forall₂_same]
    exact fun i hi => h.hasPair (hslots i hi)
  · rintro _ hx
    obtain ⟨i, hi, rfl⟩ := List.mem_map.1 hx
    exact h.writablePair (hslots i hi)

/-- The computation succeeds, and its code touches no samples. -/
lemma exists_emit_slots {b : Builder R} (hb : b.temps.Partitioned) {radix : Radix} {slots : List ℕ}
    (hlength : slots.length = radix.size) :
    ∃ b' code, (emit (slots.map .slot)).run.run b = (.ok (), b') ∧
      b'.stream.toList = b.stream.toList ++ code ∧
      (∀ id, id ∈ b'.temps.inUse ↔ id ∈ b.temps.inUse) ∧
      ∀ o, .op o ∈ code → ∀ s ∈ o.inputs ++ o.outputs, s.isSample = false := by
  -- the code is the same whatever the slots hold
  have hlanes : (Scene.uniform {id | id ∈ b.temps.inUse} (Scalar.pi : R)).HasLanes
      (slots.sum + 1, slots.sum + 1) fun _ => ⟨Scalar.pi, Scalar.pi⟩ :=
    ⟨fun _ _ => rfl, fun _ _ => rfl⟩
  have hslots : ∀ i ∈ slots, i < slots.sum + 1 ∧ i < slots.sum + 1 := fun i hi =>
    and_self_iff.2 (Nat.lt_succ_of_le (List.le_sum_of_mem hi))
  obtain ⟨_, b', S', hrun, hem, rfl⟩ := emits_slots hlanes hlength hslots b (hb.holds rfl)
  obtain ⟨code, hcode, -, htouched⟩ := hem.code
  refine ⟨b', code, hrun, hcode, fun id => ?_, fun o ho s hs =>
    Scene.isSample_of_knows (htouched o ho s hs)⟩
  rw [hem.holds.mem_inUse, (Scene.putAll_slots _ _ _).1]
  rfl

/-- What the code does to a machine in which no two symbols share a place. -/
lemma execute_emit_slots {b b' : Builder R} (hb : b.temps.Partitioned) {radix : Radix}
    {slots : List ℕ} (hlength : slots.length = radix.size) {code : List (Instruction R)}
    (hrun : (emit (slots.map .slot)).run.run b = (.ok (), b'))
    (hcode : b'.stream.toList = b.stream.toList ++ code) {m : Machine R} (hm : m.Separate)
    (htemps : b'.temps.issuedCount ≤ m.temps.size)
    (hslots : ∀ i ∈ slots, i < m.lanes.re.size ∧ i < m.lanes.im.size) (tables : Array (List ℕ)) :
    ∃ m', m.execute tables code = .ok m' ∧ m.lanes.butterfly slots = .ok m'.lanes ∧
      ∀ id ∈ b.temps.inUse, m'.read (.temp id) = m.read (.temp id) := by
  obtain ⟨z, hz⟩ : ∃ z, m.lanes.Shows (m.lanes.re.size, m.lanes.im.size) z :=
    ⟨_, m.lanes.shows_getD Scalar.pi⟩
  have hlanes : (m.scene {id | id ∈ b.temps.inUse}).HasLanes (m.lanes.re.size, m.lanes.im.size) z :=
    ⟨fun i hi => (Machine.scene_value (by simp)).trans (hz.re i hi),
      fun i hi => (Machine.scene_value (by simp)).trans (hz.im i hi)⟩
  obtain ⟨S', hleads, rfl⟩ :=
    (emits_slots hlanes hlength hslots).leads (hb.holds rfl) hrun hcode
  obtain ⟨m', hexecute, hm', hshape⟩ := hleads tables m (Machine.shows_scene hm _) htemps
  obtain ⟨l, hbutterfly, hl⟩ := hz.butterfly hlength hslots
  have hlanes' := hlanes.putAll slots (ComplexPair.dft (slots.map z))
  have hsizes : m'.lanes.re.size = m.lanes.re.size ∧ m'.lanes.im.size = m.lanes.im.size := by
    simp only [Machine.shape, Prod.mk.injEq] at hshape
    exact hshape.2.2.2
  have hsame : l = m'.lanes := hl.eq ⟨hsizes.1, hsizes.2,
    fun i hi => hm'.contents (hlanes'.re i hi), fun i hi => hm'.contents (hlanes'.im i hi)⟩
  refine ⟨m', hexecute, hsame ▸ hbutterfly, fun id hid => ?_⟩
  exact hm'.read_eq hshape (by simpa using hid) ((Scene.putAll_slots _ _ _).2 id)

/-- The code of a butterfly on complex slots, which may coincide, does what a call of the routine
does, and no temporary in use is touched. -/
theorem emit_eq_call {b : Builder R} (hb : b.temps.Reachable) {radix : Radix} {slots : List ℕ}
    (hlength : slots.length = radix.size) :
    ∃ b' code, (emit (slots.map .slot)).run.run b = (.ok (), b') ∧
      b'.stream.toList = b.stream.toList ++ code ∧
      (∀ id, id ∈ b'.temps.inUse ↔ id ∈ b.temps.inUse) ∧
      ∀ (tables : Array (List ℕ)) (m : Machine R), b'.temps.issuedCount ≤ m.temps.size →
        (∀ i ∈ slots, i < m.lanes.re.size ∧ i < m.lanes.im.size) →
          ∃ m', m.execute tables code = .ok m' ∧
            m.runStmt tables (.call (.butterfly radix slots)) = .ok { m' with temps := m.temps } ∧
            ∀ id ∈ b.temps.inUse, m'.read (.temp id) = m.read (.temp id) := by
  obtain ⟨b', code, hrun, hcode, hinUse, hsamples⟩ := exists_emit_slots hb.partitioned hlength
  refine ⟨b', code, hrun, hcode, hinUse, fun tables m htemps hslots => ?_⟩
  -- without samples no two symbols share a place
  have hseparate : (m.withSamples #[] none).Separate := Machine.separate_iff.2 (Or.inr (Or.inl rfl))
  obtain ⟨m', hexecute, hbutterfly, hkept⟩ := execute_emit_slots hb.partitioned hlength hrun hcode
    hseparate htemps hslots tables
  have hexecute' := Machine.execute_withSamples m.input m.output hsamples hexecute
  refine ⟨m'.withSamples m.input m.output, hexecute', ?_, hkept⟩
  have hcall : m.lanes.butterfly slots = .ok m'.lanes := hbutterfly
  simp [Machine.runStmt, Machine.callLanes, hcall, Machine.withSamples]

/-- Three points of which two coincide, in a session with a free name. -/
theorem emit_eq_call_coinciding : ∃ (b b' : Builder Float) (code : List (Instruction Float))
    (m m' : Machine Float), 1 ∈ b.temps.inUse ∧ 0 ∉ b.temps.inUse ∧
      (emit [.slot 1, .slot 0, .slot 1]).run.run b = (.ok (), b') ∧
      b'.stream.toList = b.stream.toList ++ code ∧
      (∀ id, id ∈ b'.temps.inUse ↔ id ∈ b.temps.inUse) ∧
      m.lanes = ⟨#[1, 2], #[3, 4]⟩ ∧ m.execute #[] code = .ok m' ∧
      m.runStmt #[] (.call (.butterfly .three [1, 0, 1])) = .ok { m' with temps := m.temps } := by
  have hpool := Builder.reachable_performAll (R := Float) false
    [.allocTemp, .allocTemp, .release (.temp 0)]
  have hlength : [1, 0, 1].length = Radix.three.size := rfl
  obtain ⟨b', code, hrun, hcode, hinUse, hcall⟩ := emit_eq_call hpool hlength
  obtain ⟨m', hexecute, hstmt, -⟩ := hcall #[]
    ⟨Array.replicate b'.temps.issuedCount 0, #[], none, ⟨#[1, 2], #[3, 4]⟩⟩ (by simp) (by simp)
  exact ⟨_, b', code, _, m', by decide, by decide, hrun, hcode, hinUse, rfl, hexecute, hstmt⟩

end Butterfly

end MixedRadix
