import MixedRadix.Proofs.Appended
import MixedRadix.Proofs.Listing
import MixedRadix.Proofs.NormalForm
import MixedRadix.Proofs.Rotation

/-!
# The code of rotations

What a rotation appends, shape by shape: which values its assignments leave, which symbols they
keep, and how many multiplications they take (`Rotation.lists_emit`). Over exact scalars the code
multiplies by the gain and by `e ^ (i * angle)` (`Rotation.emit_multiplies`). What it costs is a
matter of the ratio of which the angle is the normal form (`Rotation.turn_and_cost_ofRatio`).
-/

namespace MixedRadix.Rotation

variable {R : Type} [Scalar R] {held : Set ℕ}

/-! ### Assignments by shape -/

/-- The parts of a value are distinct symbols, and no temporaries but those that are held. -/
structure Proper (held : Set ℕ) (v : ComplexSymbol) : Prop where
  ne : v.re ≠ v.im
  re_ne : ∀ id ∉ held, v.re ≠ .temp id
  im_ne : ∀ id ∉ held, v.im ≠ .temp id

lemma Proper.apart {v : ComplexSymbol} (h : Proper held v) {id : ℕ} (hid : id ∉ held) :
    v.re ≠ .temp id ∧ v.im ≠ .temp id ∧ .temp id ≠ v.re ∧ .temp id ≠ v.im :=
  ⟨h.re_ne id hid, h.im_ne id hid, (h.re_ne id hid).symm, (h.im_ne id hid).symm⟩

/-- Assignments that put `f z` in the place of a value `z` and change nothing else but temporaries
that are not held, with that many multiplications. -/
structure Realizes (held : Set ℕ) (v : ComplexSymbol) (f : ComplexPair R → ComplexPair R)
    (count : ℕ) (code : List (Symbol × Expr R)) : Prop where
  multiplications_eq : multiplications code = count
  value_eq : Proper held v → ∀ σ : Symbol → R,
    (⟨assignAll code σ v.re, assignAll code σ v.im⟩ : ComplexPair R) = f ⟨σ v.re, σ v.im⟩
  keeps : ∀ s, s ≠ v.re → s ≠ v.im → (∀ id ∉ held, s ≠ .temp id) → ∀ σ : Symbol → R,
    assignAll code σ s = σ s

lemma lists_identity (v : ComplexSymbol) (gain : R) :
    Lists held (identity v gain) fun _ held' code => held' = held ∧ Realizes held v
      (fun z => ⟨z.re * gain, z.im * gain⟩) 2 code := by
  refine .assign_bind <| .assign ⟨rfl, rfl, fun hv σ => ?_, fun s hre him _ σ => ?_⟩
  · simp [hv.ne, hv.ne.symm, Expr.mul_eq, Expr.eval]
  · simp [hre, him]

lemma lists_half (v : ComplexSymbol) (gain : Option R) :
    Lists held (half v gain) fun _ held' code => held' = held ∧ Realizes held v
      (fun z => match gain with
        | none => ⟨-z.re, -z.im⟩
        | some c => ⟨-c * z.re, -c * z.im⟩) (if gain.isSome then 2 else 0) code := by
  cases gain with
  | none =>
    refine .assign_bind <| .assign ⟨rfl, rfl, fun hv σ => ?_, fun s hre him _ σ => ?_⟩
    · simp [hv.ne, hv.ne.symm, Expr.neg_eq, Expr.eval]
    · simp [hre, him]
  | some c =>
    refine .assign_bind <| .assign ⟨rfl, rfl, fun hv σ => ?_, fun s hre him _ σ => ?_⟩
    · simp [hv.ne, hv.ne.symm, Expr.mul_eq, Expr.eval]
    · simp [hre, him]

lemma lists_quarter (v : ComplexSymbol) (positive : Bool) (gain : Option R) :
    Lists held (quarter v positive gain) fun _ held' code => held' = held ∧ Realizes held v
      (fun z => match positive, gain with
        | true, none => ⟨-z.im, z.re⟩
        | true, some c => ⟨-c * z.im, c * z.re⟩
        | false, none => ⟨z.im, -z.re⟩
        | false, some c => ⟨c * z.im, -c * z.re⟩) (if gain.isSome then 2 else 0) code := by
  refine .allocTemp_bind fun t ht => ?_
  cases positive <;> cases gain <;>
  · refine .assign_bind <| .assign_bind <| .assign_bind <| .release (by simp)
      ⟨Set.insert_sdiff_self_of_notMem ht, rfl, fun hv σ => ?_, fun s hre him hs σ => ?_⟩
    · simp [hv.ne, hv.apart ht, Expr.mul_eq, Expr.neg_eq, Expr.eval]
    · simp [hre, him, hs t ht]

lemma eval_diagonalParts (v : ComplexSymbol) (octant : ℕ) (σ : Symbol → R) :
    (diagonalParts v octant).1.eval σ = (diagonalTurned octant ⟨σ v.re, σ v.im⟩).re ∧
      (diagonalParts v octant).2.eval σ = (diagonalTurned octant ⟨σ v.re, σ v.im⟩).im := by
  match octant with
  | 1 | 3 | 5 | 0 | 2 | 4 | _ + 6 => exact ⟨rfl, rfl⟩

omit [Scalar R] in
lemma mul_diagonalParts (v : ComplexSymbol) (octant : ℕ) :
    (diagonalParts (R := R) v octant).1.cost.mul = 0 ∧
      (diagonalParts (R := R) v octant).2.cost.mul = 0 := by
  match octant with
  | 1 | 3 | 5 | 0 | 2 | 4 | _ + 6 => exact ⟨rfl, rfl⟩

lemma lists_diagonal (v : ComplexSymbol) (octant : ℕ) (gain : Option R) :
    Lists held (diagonal v octant gain) fun _ held' code => held' = held ∧ Realizes held v
      (fun z => ⟨(diagonalTurned octant z).re * (Scalar.invSqrtTwo * gain.getD 1.0),
        (diagonalTurned octant z).im * (Scalar.invSqrtTwo * gain.getD 1.0)⟩) 2 code := by
  refine .allocTemp_bind fun t0 h0 => .allocTemp_bind fun t1 h1 => ?_
  refine .assign_bind <| .assign_bind <| .assign_bind <| .assign_bind ?_
  simp only [Set.mem_insert_iff, not_or] at h1
  refine .release_bind (by simp) <| .release (by simp [h1.1]) ⟨?_, ?_⟩
  · -- all that was taken is given back
    grind
  · refine ⟨?_, fun hv σ => ?_, fun s hre him hs σ => ?_⟩
    · simp [mul_diagonalParts]
      rfl
    · simp [hv.ne, hv.apart h0, hv.apart h1.2, Ne.symm h1.1, eval_diagonalParts, Expr.mul_eq,
        Expr.eval]
    · simp [hre, him, hs t0 h0, hs t1 h1.2]

lemma lists_general (v : ComplexSymbol) (angle : Angle) (gain : Option R) :
    Lists held (general v angle gain) fun _ held' code => held' = held ∧ Realizes held v
      (generalTurned (Scalar.cos angle.radians * gain.getD 1.0)
        (Scalar.sin angle.radians * gain.getD 1.0)) 3 code := by
  refine .allocTemp_bind fun t0 h0 => .allocTemp_bind fun t1 h1 => .allocTemp_bind fun t2 h2 => ?_
  refine .assign_bind <| .assign_bind <| .assign_bind <| .assign_bind <| .assign_bind ?_
  simp only [Set.mem_insert_iff, not_or] at h1 h2
  refine .release_bind (by simp) <| .release_bind (by simp [h1.1]) <|
    .release (by simp [h2.1, h2.2.1]) ⟨?_, ?_⟩
  · -- all that was taken is given back
    grind
  · refine ⟨rfl, fun hv σ => ?_, fun s hre him hs σ => ?_⟩
    · simp [hv.ne, hv.apart h0, hv.apart h1.2, Ne.symm h1.1, Ne.symm h2.1, Ne.symm h2.2.1,
        Expr.add_eq, Expr.sub_eq, Expr.mul_eq, Expr.eval, generalTurned]
    · simp [hre, him, hs t0 h0, hs t1 h1.2, hs t2 h2.2.2]

/-- How many multiplications a rotation takes, by its shape and whether it has a gain. -/
def mulCount : Turn → Bool → ℕ
  | .identity, gain | .half, gain | .quarter _, gain => if gain then 2 else 0
  | .diagonal _, _ => 2
  | .general, _ => 3

/-- The code of a rotation, whatever the shape. -/
theorem lists_emit (v : ComplexSymbol) (angle : Angle) (gain : Option R) :
    Lists held (emit v angle gain) fun _ held' code => held' = held ∧
      Realizes held v (turned angle gain) (mulCount angle.turn gain.isSome) code := by
  -- counting a rotation appends nothing
  have hrecord {x : Build R Unit} {f : ComplexPair R → ComplexPair R} {n : ℕ} {turn : Turn}
      (h : Lists held x fun _ held' code => held' = held ∧ Realizes held v f n code) :
      Lists held (do x; Build.recordRotation turn) fun _ held' code =>
        held' = held ∧ Realizes held v f n code := by
    refine h.bind ?_
    rintro _ _ code ⟨rfl, hcode⟩ b hb
    exact ⟨(), _, _, [], rfl, ⟨hb.partitioned, hb.mem_inUse⟩, by simp [Builder.recordRotation], rfl,
      by simpa using hcode⟩
  unfold emit turned
  cases angle.turn with
  | identity =>
    cases gain with
    | none => exact .pure ⟨rfl, rfl, fun _ _ => rfl, fun _ _ _ _ _ => rfl⟩
    | some c => exact hrecord (lists_identity v c)
  | half => cases gain <;> exact hrecord (lists_half v _)
  | quarter positive => cases positive <;> cases gain <;> exact hrecord (lists_quarter v _ _)
  | diagonal octant => exact hrecord (lists_diagonal v octant gain)
  | general => exact hrecord (lists_general v angle gain)

/-! ### Exact rotations -/

section Exact

open ComplexPair (ofComplex)

lemma factor_eq_exp (angle : Angle) (gain : Option ℝ) : factor gain angle.halfTurns =
    (gain.getD 1 : ℝ) * Complex.exp ((Real.pi * (angle.num / angle.den) : ℝ) * Complex.I) := by
  rw [factor, phase_apply, Angle.halfTurns]
  push_cast
  rfl

/-- What the code of a rotation does to a machine. -/
lemma leads_emit {b b' : Builder ℝ} (hb : b.temps.Partitioned) {v : ComplexSymbol}
    (hne : v.re ≠ v.im) (hre : ∀ id, v.re = .temp id → id ∈ b.temps.inUse)
    (him : ∀ id, v.im = .temp id → id ∈ b.temps.inUse) {angle : Angle} {gain : Option ℝ}
    {code : List (Instruction ℝ)} (hrun : (emit v angle gain).run.run b = (.ok (), b'))
    (hcode : b'.stream.toList = b.stream.toList ++ code) {m : Machine ℝ} (hm : m.Separate)
    (htemps : b'.temps.issuedCount ≤ m.temps.size) (hinput : v.re.isInput = false)
    (hinput' : v.im.isInput = false) {z : ℂ} (hx : m.read v.re = .ok z.re)
    (hy : m.read v.im = .ok z.im) (tables : Array (List ℕ)) :
    ∃ m', m.execute tables code = .ok m' ∧
      m'.read v.re = .ok (factor gain angle.halfTurns * z).re ∧
      m'.read v.im = .ok (factor gain angle.halfTurns * z).im ∧
      ∀ s, s ≠ v.re → s ≠ v.im → (∀ id, s = .temp id → id ∈ b.temps.inUse) →
        m'.read s = m.read s := by
  have hpair : (m.scene {id | id ∈ b.temps.inUse}).HasPair v (ofComplex z) :=
    ⟨(Machine.scene_value hre).trans (Machine.read_eq_ok.1 hx),
      (Machine.scene_value him).trans (Machine.read_eq_ok.1 hy)⟩
  have hwritable : (m.scene {id | id ∈ b.temps.inUse}).WritablePair v :=
    ⟨Machine.writable_scene (by simp [Machine.Has, Machine.read_eq_ok.1 hx]) hinput hre,
      Machine.writable_scene (by simp [Machine.Has, Machine.read_eq_ok.1 hy]) hinput' him, hne⟩
  obtain ⟨S', hleads, hoff, hpair'⟩ :=
    (emits_emit hpair hwritable angle gain).leads (hb.holds rfl) hrun hcode
  obtain ⟨m', hexecute, hshows, hshape⟩ := hleads tables m (Machine.shows_scene hm _) htemps
  rw [turned_ofComplex] at hpair'
  refine ⟨m', hexecute, Machine.read_eq_ok.2 (hshows.contents hpair'.1),
    Machine.read_eq_ok.2 (hshows.contents hpair'.2), fun s hsre hsim howned => ?_⟩
  exact hshows.read_eq hshape howned (hoff.value_eq s (by simp [hsre, hsim]))

/-- A rotation succeeds, and its code multiplies a value by the gain and by `e ^ (i * angle)`: on a
store, which has a place for every symbol, and on every machine that lets both parts be written. It
changes nothing else but temporaries that are not in use, and those in use stay the same. -/
theorem emit_multiplies {b : Builder ℝ} (hb : b.temps.Reachable) {v : ComplexSymbol}
    (hne : v.re ≠ v.im) (hre : ∀ id, v.re = .temp id → id ∈ b.temps.inUse)
    (him : ∀ id, v.im = .temp id → id ∈ b.temps.inUse) (angle : Angle) (gain : Option ℝ) {w : ℂ}
    (hw : w = (gain.getD 1 : ℝ) *
      Complex.exp ((Real.pi * (angle.num / angle.den) : ℝ) * Complex.I)) :
    ∃ b' code, (emit v angle gain).run.run b = (.ok (), b') ∧
      b'.stream.toList = b.stream.toList ++ code.map Instruction.ofAssignment ∧
      (∀ id, id ∈ b'.temps.inUse ↔ id ∈ b.temps.inUse) ∧
      (∀ σ : Symbol → ℝ,
        (⟨assignAll code σ v.re, assignAll code σ v.im⟩ : ℂ) = w * ⟨σ v.re, σ v.im⟩ ∧
        ∀ s, s ≠ v.re → s ≠ v.im → (∀ id, s = .temp id → id ∈ b.temps.inUse) →
          assignAll code σ s = σ s) ∧
      ∀ (tables : Array (List ℕ)) (m : Machine ℝ) (z : ℂ), m.Separate →
        b'.temps.issuedCount ≤ m.temps.size → v.re.isInput = false → v.im.isInput = false →
        m.read v.re = .ok z.re → m.read v.im = .ok z.im →
          ∃ m', m.execute tables (code.map Instruction.ofAssignment) = .ok m' ∧
            m'.read v.re = .ok (w * z).re ∧ m'.read v.im = .ok (w * z).im ∧
            ∀ s, s ≠ v.re → s ≠ v.im → (∀ id, s = .temp id → id ∈ b.temps.inUse) →
              m'.read s = m.read s := by
  obtain ⟨_, b', held', code, hrun, hb', hcode, rfl, hrealizes⟩ :=
    lists_emit v angle gain b hb.holds
  rw [← factor_eq_exp] at hw
  have hproper : Proper {id | id ∈ b.temps.inUse} v :=
    ⟨hne, fun id hid h => hid (hre id h), fun id hid h => hid (him id h)⟩
  refine ⟨b', code, hrun, hcode, hb'.mem_inUse, fun σ => ⟨?_, fun s hsre hsim howned => ?_⟩,
    fun tables m z hm htemps hinput hinput' hx hy => ?_⟩
  · have hvalue := (hrealizes.value_eq hproper σ).trans
      (turned_ofComplex angle gain ⟨σ v.re, σ v.im⟩)
    obtain ⟨hvalue_re, hvalue_im⟩ := ComplexPair.mk.inj hvalue
    rw [hw]
    exact Complex.ext hvalue_re hvalue_im
  · exact hrealizes.keeps s hsre hsim (fun id hid h => hid (howned id h)) σ
  · rw [hw]
    exact leads_emit hb.partitioned hne hre him hrun hcode hm htemps hinput hinput' hx hy tables

/-- A quarter turn and a gain of two, for a temporary in use and a slot, in a session with a free
name: `1 + i` becomes `-2 + 2i`. -/
theorem emit_multiplies_quarter : ∃ (b b' : Builder ℝ) (code : List (Symbol × Expr ℝ))
    (m m' : Machine ℝ), 1 ∈ b.temps.inUse ∧ 0 ∉ b.temps.inUse ∧
      (emit ⟨.temp 1, .real 0⟩ ⟨1, 2, by decide, by decide, by decide⟩ (some 2)).run.run b =
        (.ok (), b') ∧
      b'.stream.toList = b.stream.toList ++ code.map Instruction.ofAssignment ∧
      m.read (.temp 1) = .ok 1 ∧ m.read (.real 0) = .ok 1 ∧
      m.execute #[] (code.map Instruction.ofAssignment) = .ok m' ∧
      m'.read (.temp 1) = .ok (-2) ∧ m'.read (.real 0) = .ok 2 := by
  have hpool := Builder.reachable_performAll (R := ℝ) false
    [.allocTemp, .allocTemp, .release (.temp 0)]
  have hw : (2 * Complex.I : ℂ) = ((some (2 : ℝ)).getD 1 : ℝ) *
      Complex.exp ((Real.pi * ((1 : ℕ) / (2 : ℕ)) : ℝ) * Complex.I) := by
    refine Eq.trans ?_ (factor_eq_exp ⟨1, 2, by decide, by decide, by decide⟩ (some 2))
    have hturns : Angle.halfTurns ⟨1, 2, by decide, by decide, by decide⟩ = 1 / 2 := by
      norm_num [Angle.halfTurns]
    rw [hturns, factor, phase_half]
    rfl
  obtain ⟨b', code, hrun, hcode, -, -, hmachine⟩ := emit_multiplies hpool
    (v := ⟨.temp 1, .real 0⟩) (by simp) (by simp; decide) (by simp)
    ⟨1, 2, by decide, by decide, by decide⟩ (some 2) hw
  obtain ⟨m, hm, htemps, hre, him⟩ : ∃ m : Machine ℝ, m.Separate ∧
      b'.temps.issuedCount ≤ m.temps.size ∧ m.read (.temp 1) = .ok 1 ∧ m.read (.real 0) = .ok 1 :=
    ⟨⟨Array.replicate (b'.temps.issuedCount + 2) 1, #[], none, ⟨#[1], #[]⟩⟩,
      Machine.separate_iff.2 (Or.inr (Or.inl rfl)), by simp,
      Machine.read_eq_ok.2 (by simp [Machine.contents?]), rfl⟩
  obtain ⟨m', hexecute, hre', him', -⟩ := hmachine #[] m ⟨1, 1⟩ hm htemps rfl rfl hre him
  exact ⟨_, b', code, m, m', by decide, by decide, hrun, hcode, hre, him, hexecute,
    by simpa using hre', by simpa using him'⟩

end Exact

/-! ### Cost -/

lemma mulCount_even : ∀ j < 8, Even j →
    ∀ gain, mulCount (Angle.eighth j) gain = if gain then 2 else 0 := by
  decide

lemma mulCount_odd : ∀ j < 8, Odd j → ∀ gain, mulCount (Angle.eighth j) gain = 2 := by
  decide

lemma mulCount_ofRatio {p q : ℤ} {a : Angle} (h : Angle.ofRatio p q = .ok a) (gain : Bool) :
    ((∃ k : ℤ, (p / q : ℚ) = k / 2) → mulCount a.turn gain = if gain then 2 else 0) ∧
    ((∃ k : ℤ, (p / q : ℚ) = (2 * k + 1) / 4) → mulCount a.turn gain = 2) ∧
    ((¬ ∃ k : ℤ, (p / q : ℚ) = k / 4) → mulCount a.turn gain = 3) := by
  refine ⟨?_, ?_, fun hnone => ?_⟩
  · rintro ⟨k, hk⟩
    have hturn := Angle.turn_ofRatio_of_eq h (k := 2 * k) (by push_cast; linarith)
    rw [hturn, mulCount_even _ (by omega) (Nat.even_iff.2 (by omega))]
  · rintro ⟨k, hk⟩
    have hturn := Angle.turn_ofRatio_of_eq h (k := 2 * k + 1) (by push_cast; linarith)
    rw [hturn, mulCount_odd _ (by omega) (Nat.odd_iff.2 (by omega))]
  · rw [(Angle.turn_ofRatio_general h).2 hnone]
    rfl

/-- The shape of a rotation and the multiplications of its code are a matter of the ratio modulo
full turns. -/
theorem turn_and_cost_ofRatio {p q : ℤ} {a : Angle} (h : Angle.ofRatio p q = .ok a) :
    (a.turn = .identity ↔ ∃ k : ℤ, (p / q : ℚ) = 2 * k) ∧
    (a.turn = .half ↔ ∃ k : ℤ, (p / q : ℚ) = 1 + 2 * k) ∧
    (a.turn = .quarter true ↔ ∃ k : ℤ, (p / q : ℚ) = 1 / 2 + 2 * k) ∧
    (a.turn = .quarter false ↔ ∃ k : ℤ, (p / q : ℚ) = 3 / 2 + 2 * k) ∧
    (∀ octant, a.turn = .diagonal octant ↔
      octant < 8 ∧ Odd octant ∧ ∃ k : ℤ, (p / q : ℚ) = octant / 4 + 2 * k) ∧
    (a.turn = .general ↔ ¬ ∃ k : ℤ, (p / q : ℚ) = k / 4) ∧
    ∀ (R : Type) [Scalar R] (b : Builder R), b.temps.Reachable →
      ∀ (v : ComplexSymbol) (gain : Option R), ∃ b' code,
        (emit v a gain).run.run b = (.ok (), b') ∧ b'.stream.toList = b.stream.toList ++ code ∧
        ((∃ k : ℤ, (p / q : ℚ) = k / 2) → (liveCost code).mul = if gain.isSome then 2 else 0) ∧
        ((∃ k : ℤ, (p / q : ℚ) = (2 * k + 1) / 4) → (liveCost code).mul = 2) ∧
        ((¬ ∃ k : ℤ, (p / q : ℚ) = k / 4) → (liveCost code).mul = 3) := by
  have hshape {k : ℕ} (hk : k < 8) {c : ℚ} (hc : k / 4 = c) :
      a.turn = Angle.eighth k ↔ ∃ j : ℤ, (p / q : ℚ) = c + 2 * j :=
    hc ▸ Angle.turn_ofRatio_eighth h hk
  refine ⟨?_, ?_, ?_, ?_, Angle.turn_ofRatio_diagonal h, Angle.turn_ofRatio_general h,
    fun R _ b hb v gain => ?_⟩
  · simpa [Angle.eighth] using hshape (k := 0) (by decide) rfl
  · exact hshape (k := 4) (by decide) (by norm_num)
  · exact hshape (k := 2) (by decide) (by norm_num)
  · exact hshape (k := 6) (by decide) (by norm_num)
  · obtain ⟨_, b', held', code, hrun, hb', hcode, rfl, hrealizes⟩ := lists_emit v a gain b hb.holds
    refine ⟨b', code.map Instruction.ofAssignment, hrun, hcode, ?_⟩
    rw [mul_liveCost, hrealizes.multiplications_eq]
    exact mulCount_ofRatio h gain.isSome

/-- An eighth of a turn more than a full turn. -/
theorem turn_and_cost_nine_quarters : ∃ a, Angle.ofRatio 9 4 = .ok a ∧ a.turn = .diagonal 1 ∧
    ∃ (b' : Builder ℝ) (code : List (Instruction ℝ)),
      (emit (.slot 0) a none).run.run {} = (.ok (), b') ∧ b'.stream.toList = code ∧
        (liveCost code).mul = 2 := by
  have hratio : Angle.ofRatio 9 4 = .ok ⟨1, 4, by decide, by decide, by decide⟩ := rfl
  obtain ⟨-, -, -, -, hdiagonal, -, hcost⟩ := turn_and_cost_ofRatio hratio
  obtain ⟨b', code, hrun, hcode, -, htwo, -⟩ := hcost ℝ {} .empty (.slot 0) none
  exact ⟨_, hratio, (hdiagonal 1).2 ⟨by decide, by decide, 1, by norm_num⟩, b', code, hrun,
    by simpa using hcode, htwo ⟨4, by norm_num⟩⟩

end MixedRadix.Rotation
