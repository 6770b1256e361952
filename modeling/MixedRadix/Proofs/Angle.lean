import MixedRadix.Angle
import Mathlib.Algebra.Group.AddChar
import Mathlib.Algebra.Order.Field.Rat
import Mathlib.Tactic.FieldSimp
import Mathlib.Tactic.IntervalCases
import Mathlib.Tactic.Ring

/-!
# What an angle stands for

The angle of a ratio is that ratio modulo a full turn (`Angle.halfTurns_ofRatio`), so every
character of the rationals that is trivial on full turns takes the same value on both
(`Angle.map_halfTurns_ofRatio`).
-/

namespace MixedRadix.Angle

/-- The angle as a multiple of `π`. -/
def halfTurns (a : Angle) : ℚ :=
  a.num / a.den

/-- Reduction to lowest terms does not change the ratio. -/
lemma div_gcd_eq (p : ℤ) {q : ℤ} (hq : q ≠ 0) :
    ((p.sign * q.sign * (p.natAbs / p.natAbs.gcd q.natAbs : ℕ) : ℤ) : ℚ) /
      (q.natAbs / p.natAbs.gcd q.natAbs : ℕ) = p / q := by
  obtain ⟨a, ha⟩ := Nat.gcd_dvd_left p.natAbs q.natAbs
  obtain ⟨b, hb⟩ := Nat.gcd_dvd_right p.natAbs q.natAbs
  have hg : 0 < p.natAbs.gcd q.natAbs := Nat.gcd_pos_of_pos_right _ (Int.natAbs_pos.2 hq)
  generalize p.natAbs.gcd q.natAbs = g at ha hb hg
  have hp : (p : ℚ) = p.sign * (g * a) := by
    have hcast := congrArg (Int.cast : ℤ → ℚ) (Int.sign_mul_natAbs p)
    rw [ha] at hcast
    push_cast at hcast
    exact hcast.symm
  have hq' : (q : ℚ) = q.sign * (g * b) := by
    have hcast := congrArg (Int.cast : ℤ → ℚ) (Int.sign_mul_natAbs q)
    rw [hb] at hcast
    push_cast at hcast
    exact hcast.symm
  have hsign : (q.sign : ℚ) * q.sign = 1 := by
    rcases lt_or_gt_of_ne hq with h | h <;>
      simp [Int.sign_eq_neg_one_of_neg, Int.sign_eq_one_of_pos, h]
  have hg' : (g : ℚ) ≠ 0 := by exact_mod_cast hg.ne'
  have hs : (q.sign : ℚ) ≠ 0 := left_ne_zero_of_mul_eq_one hsign
  rw [ha, hb, Nat.mul_div_cancel_left a hg, Nat.mul_div_cancel_left b hg, hp, hq']
  push_cast
  calc (p.sign * q.sign * a / b : ℚ) = p.sign * a / b * q.sign := by ring
    _ = p.sign * a / b / q.sign := by rw [eq_div_iff hs, mul_assoc, hsign, mul_one]
    _ = p.sign * (g * a) / (q.sign * (g * b)) := by
      rw [mul_left_comm (p.sign : ℚ), mul_left_comm (q.sign : ℚ), mul_div_mul_left _ _ hg',
        div_div, mul_comm (b : ℚ)]

/-- The numerator is reduced by full turns. -/
lemma halfTurns_ofCoprime (p : ℤ) {den : ℕ} (hden : 0 < den) (hp : p.natAbs.Coprime den) :
    ∃ k : ℤ, (ofCoprime p den hden hp).halfTurns = p / den + 2 * k := by
  refine ⟨-(p / (2 * den)), ?_⟩
  have hnum : ((ofCoprime p den hden hp).num : ℤ) = p - 2 * den * (p / (2 * den)) := by
    rw [← Int.emod_def]
    exact cast_wrap p hden
  have hnum' := congrArg (Int.cast : ℤ → ℚ) hnum
  have hden' : (den : ℚ) ≠ 0 := by exact_mod_cast hden.ne'
  push_cast at hnum' ⊢
  have hden_eq : (ofCoprime p den hden hp).den = den := rfl
  rw [halfTurns, hnum', hden_eq]
  field_simp
  ring

/-- The normal form differs from the ratio by full turns. -/
lemma halfTurns_ofRatio {p q : ℤ} {a : Angle} (h : ofRatio p q = .ok a) :
    ∃ k : ℤ, a.halfTurns = p / q + 2 * k := by
  unfold ofRatio at h
  split at h
  · simp at h
  rename_i hq
  split at h
  · simp at h
  simp only at h
  split at h
  · simp at h
  obtain rfl := Except.ok.inj h
  rw [← div_gcd_eq p hq]
  exact halfTurns_ofCoprime _ _ _

/-- The denominator of an angle can be doubled. -/
lemma den_lt_of_ofRatio {p q : ℤ} {a : Angle} (h : ofRatio p q = .ok a) : a.den < 2 ^ 62 := by
  unfold ofRatio at h
  split at h
  · simp at h
  split at h
  · simp at h
  simp only at h
  split at h
  · simp at h
  rename_i hlt
  obtain rfl := Except.ok.inj h
  exact not_le.1 hlt

/-- There is an angle for every ratio of words whose denominator can be doubled. -/
lemma exists_ofRatio {p : ℤ} {q : ℕ} (hq : 0 < q) (hq' : q < 2 ^ 62) (hp : -2 ^ 63 < p) :
    ∃ a, ofRatio p q = .ok a := by
  have hden : (q : ℤ).natAbs / p.natAbs.gcd (q : ℤ).natAbs < doubleBound :=
    lt_of_le_of_lt (Nat.div_le_self _ _) (by simpa [doubleBound] using hq')
  have hq0 : (q : ℤ) ≠ 0 := by omega
  have hword : ¬ (p = minWord ∨ (q : ℤ) = minWord) := by
    simp only [minWord]
    omega
  unfold ofRatio
  rw [dif_neg hq0, if_neg hword]
  exact ⟨_, if_neg (not_le.2 hden)⟩

/-- A fraction of a half turn is in lowest terms, so that its denominator can be doubled if it has
an angle. -/
lemma lt_of_ofRatio_neg_one {q : ℕ} {a : Angle} (h : ofRatio (-1) q = .ok a) : q < 2 ^ 62 := by
  unfold ofRatio at h
  split at h
  · simp at h
  split at h
  · simp at h
  simp only [Int.natAbs_neg, Int.natAbs_one, Nat.gcd_one_left, Nat.div_one, Int.natAbs_natCast] at h
  split at h
  · simp at h
  · rename_i hlt
    exact not_le.1 hlt

/-- The angle of a ratio; no rotation if it has none. -/
def ofRatioD (p q : ℤ) : Angle :=
  match ofRatio p q with
  | .ok a => a
  | .error _ => ⟨0, 1, by decide, by decide, by decide⟩

lemma ofRatio_eq_ok {p q : ℤ} (hq : 0 < q) (hq' : q < 2 ^ 62) (hp : -2 ^ 63 < p) :
    ofRatio p q = .ok (ofRatioD p q) := by
  lift q to ℕ using hq.le
  obtain ⟨a, ha⟩ := exists_ofRatio (p := p) (q := q) (by omega) (by omega) hp
  rw [ofRatioD, ha]

/-- The shape of a rotation by its angle. -/
lemma turn_cases (a : Angle) :
    (a.turn = .identity ∧ a.halfTurns = 0) ∨ (a.turn = .half ∧ a.halfTurns = 1) ∨
      (a.turn = .quarter true ∧ a.halfTurns = 1 / 2) ∨
      (a.turn = .quarter false ∧ a.halfTurns = 3 / 2) ∨
      (∃ octant ∈ [1, 3, 5, 7], a.turn = .diagonal octant ∧ a.halfTurns = octant / 4) ∨
      a.turn = .general := by
  obtain ⟨num, den, hden, hnum, hcoprime⟩ := a
  simp only [turn, halfTurns]
  split
  · simp
  · simp
  · -- an odd number of quarter turns
    have hodd : num ≠ 0 ∧ num ≠ 2 := by
      constructor <;> rintro rfl <;> revert hcoprime <;> decide
    interval_cases num <;> simp_all
  · -- an odd number of eighths of a turn
    have hodd : num ≠ 0 ∧ num ≠ 2 ∧ num ≠ 4 ∧ num ≠ 6 := by
      refine ⟨?_, ?_, ?_, ?_⟩ <;> rintro rfl <;> revert hcoprime <;> decide
    interval_cases num <;> simp_all
  · simp

/-- An angle is less than a full turn. -/
lemma halfTurns_mem (a : Angle) : 0 ≤ a.halfTurns ∧ a.halfTurns < 2 := by
  have hden : (0 : ℚ) < a.den := by exact_mod_cast a.den_pos
  have hlt : (a.num : ℚ) < 2 * a.den := by exact_mod_cast a.num_lt
  exact ⟨div_nonneg (Nat.cast_nonneg _) hden.le, (div_lt_iff₀ hden).2 hlt⟩

/-- There is one fraction in lowest terms. -/
lemma num_den_of_halfTurns {a : Angle} {n d : ℕ} (hd : 0 < d) (hcoprime : n.Coprime d)
    (h : a.halfTurns = n / d) : a.num = n ∧ a.den = d := by
  have hsame : (a.num : ℤ) = n ∧ (a.den : ℤ) = d :=
    Rat.div_int_inj (by exact_mod_cast a.den_pos) (by exact_mod_cast hd) (by simpa using a.coprime)
      (by simpa using hcoprime) (by simpa [halfTurns] using h)
  exact_mod_cast hsame

/-- An odd number of eighths of a turn. -/
lemma turn_eq_diagonal {a : Angle} {octant : ℕ} (hodd : octant.Coprime 4)
    (h : a.halfTurns = octant / 4) : a.turn = .diagonal octant := by
  obtain ⟨hnum, hden⟩ := num_den_of_halfTurns (by decide) hodd (by simpa using h)
  have hpos : octant ≠ 0 := by
    rintro rfl
    exact absurd hodd (by decide)
  rw [turn, hnum, hden]
  split <;> simp_all

section Character

variable {K : Type*} [CommRing K] {χ : AddChar ℚ K}

lemma map_two_mul_int (hχ : χ 2 = 1) (k : ℤ) : χ (2 * k) = 1 := by
  have hnat (n : ℕ) : χ (2 * n) = 1 := by
    rw [mul_comm, ← nsmul_eq_mul, AddChar.map_nsmul_eq_pow, hχ, one_pow]
  obtain ⟨n, rfl | rfl⟩ := k.eq_nat_or_neg
  · exact hnat n
  · have hinv : χ (2 * (-n : ℤ)) * χ (2 * n) = 1 := by
      rw [← AddChar.map_add_eq_mul]
      simp
    rwa [hnat n, mul_one] at hinv

/-- A character that is trivial on full turns does not tell an angle from its ratio. -/
lemma map_halfTurns_ofRatio (hχ : χ 2 = 1) {p q : ℤ} {a : Angle} (h : ofRatio p q = .ok a) :
    χ a.halfTurns = χ (p / q) := by
  obtain ⟨k, hk⟩ := halfTurns_ofRatio h
  rw [hk, AddChar.map_add_eq_mul, map_two_mul_int hχ, mul_one]

end Character

end MixedRadix.Angle
