import MixedRadix.Proofs.Exact
import MixedRadix.Rotation

/-!
# Emitted rotations

The code of a rotation does what its shape says, operation by operation and for every arithmetic,
and changes nothing else (`Rotation.emits_emit`). Over exact scalars that is a multiplication by the
gain and by `e ^ (i * angle)`, whatever the shape (`Rotation.turned_ofComplex`).
-/

namespace MixedRadix

namespace Rotation

/-! ### Code by shape -/

section Code

variable {R : Type} [Scalar R]

/-- The parts of a diagonal rotation, up to the scale that they share. -/
def diagonalTurned : ℕ → ComplexPair R → ComplexPair R
  | 1, z => ⟨z.re - z.im, z.re + z.im⟩
  | 3, z => ⟨-z.re - z.im, z.re - z.im⟩
  | 5, z => ⟨z.im - z.re, -z.re - z.im⟩
  | _, z => ⟨z.re + z.im, z.im - z.re⟩

/-- A value times the factor `c + i d`, by three multiplications. -/
def generalTurned (c d : R) (z : ComplexPair R) : ComplexPair R :=
  ⟨c * (z.re + z.im) - z.im * (c + d), c * (z.re + z.im) + z.re * (d - c)⟩

/-- What a rotation makes of a value. -/
def turned (angle : Angle) (gain : Option R) (z : ComplexPair R) : ComplexPair R :=
  match angle.turn, gain with
  | .identity, none => z
  | .identity, some c => ⟨z.re * c, z.im * c⟩
  | .half, none => ⟨-z.re, -z.im⟩
  | .half, some c => ⟨-c * z.re, -c * z.im⟩
  | .quarter true, none => ⟨-z.im, z.re⟩
  | .quarter true, some c => ⟨-c * z.im, c * z.re⟩
  | .quarter false, none => ⟨z.im, -z.re⟩
  | .quarter false, some c => ⟨c * z.im, -c * z.re⟩
  | .diagonal octant, gain =>
    let scale := Scalar.invSqrtTwo * gain.getD 1.0
    ⟨(diagonalTurned octant z).re * scale, (diagonalTurned octant z).im * scale⟩
  | .general, gain =>
    generalTurned (Scalar.cos angle.radians * gain.getD 1.0)
      (Scalar.sin angle.radians * gain.getD 1.0) z

variable {S : Scene R} {v : ComplexSymbol} {z : ComplexPair R}

omit [Scalar R] in
lemma im_of_assign_re (hz : S.HasPair v z) (hv : S.WritablePair v) (x : R) :
    (S.assign v.re x).value v.im = some z.im := by
  rw [Scene.assign_value_of_ne hv.ne.symm]
  exact hz.2

lemma emits_identity (hz : S.HasPair v z) (hv : S.WritablePair v) (gain : R) :
    Emits S (identity v gain) fun _ S' => S' = S.put v ⟨z.re * gain, z.im * gain⟩ :=
  hv.emits_put (.mul (.sym hz.1) (.lit gain))
    (.mul (.sym (im_of_assign_re hz hv _)) (.lit gain))

lemma emits_half (hz : S.HasPair v z) (hv : S.WritablePair v) (gain : Option R) :
    Emits S (half v gain) fun _ S' => S' = S.put v
      (match gain with
        | none => ⟨-z.re, -z.im⟩
        | some c => ⟨-c * z.re, -c * z.im⟩) := by
  cases gain with
  | none => exact hv.emits_put (.neg (.sym hz.1)) (.neg (.sym (im_of_assign_re hz hv _)))
  | some c =>
    exact hv.emits_put (.mul (.lit (-c)) (.sym hz.1))
      (.mul (.lit (-c)) (.sym (im_of_assign_re hz hv _)))

lemma emits_quarter (hz : S.HasPair v z) (hv : S.WritablePair v) (positive : Bool)
    (gain : Option R) :
    Emits S (quarter v positive gain) fun _ S' => S' = S.put v
      (match positive, gain with
        | true, none => ⟨-z.im, z.re⟩
        | true, some c => ⟨-c * z.im, c * z.re⟩
        | false, none => ⟨z.im, -z.re⟩
        | false, some c => ⟨c * z.im, -c * z.re⟩) := by
  refine (Scratch.refl S).allocTemp fun t S₂ hs => ?_
  match positive, gain with
  | true, some c =>
    refine hs.assign_blank (.mul (.lit c) (.sym (hs.base hz.1))) fun _ hs => ?_
    exact hs.put hv (z := ⟨-c * z.im, c * z.re⟩) (.mul (.lit (-c)) (.sym (hs.base hz.2)))
      (fun _ hs => .sym (hs.fact 0 rfl)) fun _ hs => hs.release_last
  | true, none =>
    refine hs.assign_blank (.sym (hs.base hz.1)) fun _ hs => ?_
    exact hs.put hv (z := ⟨-z.im, z.re⟩) (.neg (.sym (hs.base hz.2)))
      (fun _ hs => .sym (hs.fact 0 rfl)) fun _ hs => hs.release_last
  | false, some c =>
    refine hs.assign_blank (.mul (.lit (-c)) (.sym (hs.base hz.1))) fun _ hs => ?_
    exact hs.put hv (z := ⟨c * z.im, -c * z.re⟩) (.mul (.lit c) (.sym (hs.base hz.2)))
      (fun _ hs => .sym (hs.fact 0 rfl)) fun _ hs => hs.release_last
  | false, none =>
    refine hs.assign_blank (.sym (hs.base hz.1)) fun _ hs => ?_
    exact hs.put hv (z := ⟨z.im, -z.re⟩) (.sym (hs.base hz.2))
      (fun _ hs => .neg (.sym (hs.fact 0 rfl))) fun _ hs => hs.release_last

lemma yields_diagonalParts {value : Symbol → Option R} (hre : value v.re = some z.re)
    (him : value v.im = some z.im) (octant : ℕ) :
    (diagonalParts v octant).1.Yields value (diagonalTurned octant z).re ∧
      (diagonalParts v octant).2.Yields value (diagonalTurned octant z).im := by
  match octant with
  | 1 => exact ⟨.sub (.sym hre) (.sym him), .add (.sym hre) (.sym him)⟩
  | 3 => exact ⟨.sub (.neg (.sym hre)) (.sym him), .sub (.sym hre) (.sym him)⟩
  | 5 => exact ⟨.sub (.sym him) (.sym hre), .sub (.neg (.sym hre)) (.sym him)⟩
  | 0 | 2 | 4 | _ + 6 => exact ⟨.add (.sym hre) (.sym him), .sub (.sym him) (.sym hre)⟩

lemma emits_diagonal (hz : S.HasPair v z) (hv : S.WritablePair v) (octant : ℕ) (gain : Option R) :
    Emits S (diagonal v octant gain) fun _ S' => S' = S.put v
      ⟨(diagonalTurned octant z).re * (Scalar.invSqrtTwo * gain.getD 1.0),
        (diagonalTurned octant z).im * (Scalar.invSqrtTwo * gain.getD 1.0)⟩ := by
  refine (Scratch.refl S).allocTemp fun t0 _ hs => hs.allocTemp fun t1 _ hs => ?_
  refine hs.assign_blank (yields_diagonalParts (hs.base hz.1) (hs.base hz.2) octant).1
    fun _ hs => ?_
  refine hs.assign_blank (yields_diagonalParts (hs.base hz.1) (hs.base hz.2) octant).2
    fun _ hs => ?_
  refine hs.put hv (z := ⟨_, _⟩) (.mul (.sym (hs.fact 0 rfl)) (.lit _))
    (fun _ hs => .mul (.sym (hs.fact 1 rfl)) (.lit _)) fun _ hs => ?_
  exact hs.release_first.bind fun _ _ hs => hs.release_last

lemma emits_general (hz : S.HasPair v z) (hv : S.WritablePair v) (angle : Angle)
    (gain : Option R) :
    Emits S (general v angle gain) fun _ S' => S' = S.put v
      (generalTurned (Scalar.cos angle.radians * gain.getD 1.0)
        (Scalar.sin angle.radians * gain.getD 1.0) z) := by
  refine (Scratch.refl S).allocTemp fun t0 _ hs => hs.allocTemp fun t1 _ hs =>
    hs.allocTemp fun t2 _ hs => ?_
  refine hs.assign_blank (.mul (.lit _) (.add (.sym (hs.base hz.1)) (.sym (hs.base hz.2))))
    fun _ hs => ?_
  refine hs.assign_blank (.mul (.sym (hs.base hz.1)) (.lit _)) fun _ hs => ?_
  refine hs.assign_blank (.mul (.sym (hs.base hz.2)) (.lit _)) fun _ hs => ?_
  refine hs.put hv (z := generalTurned _ _ z) (.sub (.sym (hs.fact 0 rfl)) (.sym (hs.fact 2 rfl)))
    (fun _ hs => .add (.sym (hs.fact 0 rfl)) (.sym (hs.fact 1 rfl))) fun _ hs => ?_
  exact hs.release_first.bind fun _ _ hs => hs.release_first.bind fun _ _ hs => hs.release_last

/-- A rotation turns its value and changes nothing else. -/
theorem emits_emit (hz : S.HasPair v z) (hv : S.WritablePair v) (angle : Angle)
    (gain : Option R) :
    Emits S (emit v angle gain) fun _ S' => Scene.SameOff [v.re, v.im] S S' ∧
      S'.HasPair v (turned angle gain z) := by
  have hput {x : Build R Unit} {turn : Turn} {y : ComplexPair R}
      (h : Emits S x fun _ S' => S' = S.put v y) :
      Emits S (do x; Build.recordRotation turn) fun _ S' =>
        Scene.SameOff [v.re, v.im] S S' ∧ S'.HasPair v y := by
    refine h.then_ fun _ => (Emits.recordRotation _).mono fun _ S' hS => ?_
    rw [hS]
    exact ⟨Scene.sameOff_put _ _ _, hv.hasPair_put _⟩
  unfold emit turned
  cases angle.turn with
  | identity =>
    cases gain with
    | none => exact Emits.pure ⟨Scene.SameOff.refl _ _, hz⟩
    | some c => exact hput (emits_identity hz hv c)
  | half => cases gain <;> exact hput (emits_half hz hv _)
  | quarter positive => cases positive <;> cases gain <;> exact hput (emits_quarter hz hv _ _)
  | diagonal octant => exact hput (emits_diagonal hz hv octant gain)
  | general => exact hput (emits_general hz hv angle gain)

end Code

end Rotation

/-- A pair of scratch temporaries is rotated. -/
lemma Scratch.rotate {R β : Type} [Scalar R] {Q : β → Scene R → Prop} {S S₁ : Scene R}
    {blank : List Symbol} {t t' : Symbol} (before after : List (Symbol × R)) (z : ComplexPair R)
    (h : Scratch S (before ++ (t, z.re) :: (t', z.im) :: after) blank S₁) (angle : Angle)
    (gain : Option R) {k : Unit → Build R β}
    (hk : ∀ S₂, Scratch S (before ++ (t, (Rotation.turned angle gain z).re) ::
      (t', (Rotation.turned angle gain z).im) :: after) blank S₂ → Emits S₂ (k ()) Q) :
    Emits S₁ (Rotation.emit ⟨t, t'⟩ angle gain >>= k) Q := by
  have hpair : S₁.HasPair ⟨t, t'⟩ z :=
    ⟨h.value_fact (t, z.re) (by simp), h.value_fact (t', z.im) (by simp)⟩
  have hne : t ≠ t' := by
    have hnodup := (List.nodup_append.1 h.nodup).1
    simp only [List.map_append, List.map_cons, List.nodup_middle, List.nodup_cons, List.mem_append,
      List.mem_cons, not_or] at hnodup
    tauto
  have hw : S₁.WritablePair ⟨t, t'⟩ :=
    ⟨h.writable_of_mem (by simp), h.writable_of_mem (by simp), hne⟩
  refine (Rotation.emits_emit hpair hw angle gain).bind ?_
  rintro _ S₂ ⟨hoff, hpair₂⟩
  exact hk S₂ (h.change_pair hoff hpair₂.1 hpair₂.2)

/-! ### Factors by shape -/

open Real

lemma phase_one : phase 1 = -1 := by
  rw [phase_eq]
  apply Complex.ext <;> simp

lemma phase_half : phase (1 / 2) = Complex.I := by
  rw [phase_eq]
  apply Complex.ext <;> simp [← div_eq_mul_inv]

lemma phase_three_halves : phase (3 / 2) = -Complex.I := by
  rw [show (3 / 2 : ℚ) = 1 + 1 / 2 by norm_num, AddChar.map_add_eq_mul, phase_one, phase_half]
  ring

lemma phase_quarter : phase (1 / 4) = (Scalar.invSqrtTwo : ℝ) * (1 + Complex.I) := by
  have hangle : π * ((1 / 4 : ℚ) : ℝ) = π / 4 := by
    push_cast
    ring
  have hscale : (Scalar.invSqrtTwo : ℝ) = √2 / 2 := by
    change 1 / √2 = √2 / 2
    rw [div_eq_div_iff (by simp) two_ne_zero, one_mul, mul_self_sqrt zero_le_two]
  rw [phase_eq, hangle, cos_pi_div_four, sin_pi_div_four, hscale]
  apply Complex.ext <;> simp

lemma radians_eq (a : Angle) : (a.radians : ℝ) = π * (a.halfTurns : ℝ) := by
  change π * (a.num : ℝ) / a.den = _
  rw [Angle.halfTurns]
  push_cast
  ring

namespace Rotation

open ComplexPair (ofComplex)

/-- A factor with a gain. -/
noncomputable def factor (gain : Option ℝ) (q : ℚ) : ℂ :=
  (gain.getD 1 : ℝ) * phase q

@[simp]
lemma factor_none (q : ℚ) : factor none q = phase q := by
  simp [factor]

/-- The parts of a diagonal rotation are those of the product, up to the scale. -/
lemma phase_mul_eq_diagonalTurned (z : ℂ) {octant : ℕ} (hoctant : octant ∈ [1, 3, 5, 7]) :
    ofComplex (phase (octant / 4) * z) =
      ⟨(diagonalTurned octant (ofComplex z)).re * Scalar.invSqrtTwo,
        (diagonalTurned octant (ofComplex z)).im * Scalar.invSqrtTwo⟩ := by
  have hthree : phase ((3 : ℕ) / 4) = Complex.I * phase (1 / 4) := by
    rw [← phase_half, ← AddChar.map_add_eq_mul]
    norm_num
  have hfive : phase ((5 : ℕ) / 4) = -1 * phase (1 / 4) := by
    rw [← phase_one, ← AddChar.map_add_eq_mul]
    norm_num
  have hseven : phase ((7 : ℕ) / 4) = -Complex.I * phase (1 / 4) := by
    rw [← phase_three_halves, ← AddChar.map_add_eq_mul]
    norm_num
  simp only [List.mem_cons, List.not_mem_nil, or_false] at hoctant
  rcases hoctant with rfl | rfl | rfl | rfl
  · rw [Nat.cast_one, phase_quarter]
    exact congrArg₂ ComplexPair.mk (show _ = (z.re - z.im) * (Scalar.invSqrtTwo : ℝ) by simp; ring)
      (show _ = (z.re + z.im) * (Scalar.invSqrtTwo : ℝ) by simp; ring)
  · rw [hthree, phase_quarter]
    exact congrArg₂ ComplexPair.mk (show _ = (-z.re - z.im) * (Scalar.invSqrtTwo : ℝ) by simp; ring)
      (show _ = (z.re - z.im) * (Scalar.invSqrtTwo : ℝ) by simp; ring)
  · rw [hfive, phase_quarter]
    exact congrArg₂ ComplexPair.mk (show _ = (z.im - z.re) * (Scalar.invSqrtTwo : ℝ) by simp; ring)
      (show _ = (-z.re - z.im) * (Scalar.invSqrtTwo : ℝ) by simp; ring)
  · rw [hseven, phase_quarter]
    exact congrArg₂ ComplexPair.mk (show _ = (z.re + z.im) * (Scalar.invSqrtTwo : ℝ) by simp; ring)
      (show _ = (z.im - z.re) * (Scalar.invSqrtTwo : ℝ) by simp; ring)

lemma generalTurned_ofComplex (w z : ℂ) :
    generalTurned w.re w.im (ofComplex z) = ofComplex (w * z) := by
  refine congrArg₂ ComplexPair.mk ?_ ?_
  · change w.re * (z.re + z.im) - z.im * (w.re + w.im) = (w * z).re
    rw [Complex.mul_re]
    ring
  · change w.re * (z.re + z.im) + z.re * (w.im - w.re) = (w * z).im
    rw [Complex.mul_im]
    ring

lemma factor_eq (angle : Angle) (gain : Option ℝ) :
    factor gain angle.halfTurns =
      ⟨cos angle.radians * gain.getD 1, sin angle.radians * gain.getD 1⟩ := by
  rw [factor, phase_eq, ← radians_eq]
  apply Complex.ext <;> simp [mul_comm]

/-- A gain multiplies both parts of what the turn itself makes of a value. -/
lemma mk_eq_ofComplex_factor_mul {gain : Option ℝ} {q : ℚ} {z w : ℂ} (hw : phase q * z = w)
    {x y : ℝ} (hx : x = gain.getD 1 * w.re) (hy : y = gain.getD 1 * w.im) :
    (⟨x, y⟩ : ComplexPair ℝ) = ofComplex (factor gain q * z) := by
  rw [factor, mul_assoc, hw]
  refine congrArg₂ ComplexPair.mk ?_ ?_
  · rw [hx, Complex.re_ofReal_mul]
  · rw [hy, Complex.im_ofReal_mul]

/-- Over exact scalars, a rotation multiplies by its gain and its factor. -/
theorem turned_ofComplex (angle : Angle) (gain : Option ℝ) (z : ℂ) :
    turned angle gain (ofComplex z) = ofComplex (factor gain angle.halfTurns * z) := by
  have hone : gain.getD (1.0 : ℝ) = gain.getD 1 := by norm_num
  unfold turned
  rcases angle.turn_cases with ⟨hturn, hq⟩ | ⟨hturn, hq⟩ | ⟨hturn, hq⟩ | ⟨hturn, hq⟩ |
    ⟨octant, hoctant, hturn, hq⟩ | hturn <;> simp only [hturn]
  · have hw : phase angle.halfTurns * z = z := by rw [hq, AddChar.map_zero_eq_one, one_mul]
    cases gain with
    | none => exact mk_eq_ofComplex_factor_mul hw (one_mul z.re).symm (one_mul z.im).symm
    | some c => exact mk_eq_ofComplex_factor_mul hw (mul_comm z.re c) (mul_comm z.im c)
  · have hw : phase angle.halfTurns * z = -z := by rw [hq, phase_one, neg_one_mul]
    cases gain with
    | none => exact mk_eq_ofComplex_factor_mul hw (one_mul (-z.re)).symm (one_mul (-z.im)).symm
    | some c => exact mk_eq_ofComplex_factor_mul hw (neg_mul_comm c z.re) (neg_mul_comm c z.im)
  · have hw : phase angle.halfTurns * z = ⟨-z.im, z.re⟩ := by
      rw [hq, phase_half]
      apply Complex.ext <;> simp
    cases gain with
    | none => exact mk_eq_ofComplex_factor_mul hw (one_mul (-z.im)).symm (one_mul z.re).symm
    | some c => exact mk_eq_ofComplex_factor_mul hw (neg_mul_comm c z.im) rfl
  · have hw : phase angle.halfTurns * z = ⟨z.im, -z.re⟩ := by
      rw [hq, phase_three_halves]
      apply Complex.ext <;> simp
    cases gain with
    | none => exact mk_eq_ofComplex_factor_mul hw (one_mul z.im).symm (one_mul (-z.re)).symm
    | some c => exact mk_eq_ofComplex_factor_mul hw rfl (neg_mul_comm c z.re)
  · -- the scale and the gain are multiplied first
    obtain ⟨hre, him⟩ := ComplexPair.mk.inj (phase_mul_eq_diagonalTurned z hoctant)
    rw [← hq] at hre him
    rw [hone]
    refine mk_eq_ofComplex_factor_mul rfl ?_ ?_
    · rw [hre]
      change _ * (Scalar.invSqrtTwo * gain.getD 1 : ℝ) = gain.getD 1 * (_ * _)
      ring
    · rw [him]
      change _ * (Scalar.invSqrtTwo * gain.getD 1 : ℝ) = gain.getD 1 * (_ * _)
      ring
  · rw [hone, ← generalTurned_ofComplex, factor_eq]
    rfl

end Rotation

end MixedRadix
