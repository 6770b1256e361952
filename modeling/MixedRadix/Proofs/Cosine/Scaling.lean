import MixedRadix.Cosine.Forward
import MixedRadix.Cosine.Inverse
import MixedRadix.Proofs.Rotation

/-!
# Scaling of cosine transforms

Coefficients are compared with a tolerance. Over the real numbers that makes no difference: every
coefficient of a cosine transform is one, or it is not near one, so that a multiplication is left
out only where it does nothing (`IsPlain`).
-/

namespace MixedRadix.Cosine

/-! ### Products -/

section Products

variable {R : Type} [Scalar R] {value : Symbol → Option R} {s : Symbol} {x : R}

/-- A coefficient times a value, without a multiplication by one. -/
def times (c x : R) : R :=
  if isEqual c 1.0 then x else c * x

/-- A coefficient times a value, without a multiplication by one or minus one. -/
def timesAsIs (c x : R) : R :=
  if isEqual c 1.0 then x else if isEqual c (-(1.0)) then -x else c * x

/-- A coefficient times a negated value, without a multiplication by one or minus one. -/
def timesNegated (c x : R) : R :=
  if isEqual c 1.0 then -x else if isEqual c (-(1.0)) then x else -c * x

lemma yields_scaled (hs : value s = some x) (c : R) : (scaled c s).Yields value (times c x) := by
  unfold scaled times
  split
  · exact .sym hs
  · exact .mul (.lit c) (.sym hs)

lemma yields_binAsIs (hs : value s = some x) (c : R) :
    (binAsIs c s).Yields value (timesAsIs c x) := by
  unfold binAsIs timesAsIs
  split
  · exact .sym hs
  · split
    · exact .neg (.sym hs)
    · exact .mul (.lit c) (.sym hs)

lemma yields_binNegated (hs : value s = some x) (c : R) :
    (binNegated c s).Yields value (timesNegated c x) := by
  unfold binNegated timesNegated
  split
  · exact .neg (.sym hs)
  · split
    · exact .sym hs
    · exact .mul (.lit (-c)) (.sym hs)

end Products

/-! ### Coefficients that are compared -/

/-- A coefficient is one or well below. -/
def IsPlain (c : ℝ) : Prop :=
  c = 1 ∨ 0 ≤ c ∧ c ≤ 0.75

lemma isEqual_iff (a b : ℝ) : isEqual a b = true ↔ |a - b| < 1e-8 :=
  decide_eq_true_iff

lemma isEqual_self (a : ℝ) : isEqual a a = true := by
  rw [isEqual_iff, sub_self, abs_zero]
  norm_num

lemma times_one (x : ℝ) : times 1.0 x = x :=
  if_pos (isEqual_self 1.0)

namespace IsPlain

variable {c : ℝ}

lemma isEqual_one (h : IsPlain c) : isEqual c 1.0 = true ↔ c = 1 := by
  rw [isEqual_iff]
  constructor
  · intro hnear
    rcases h with h | ⟨-, h⟩
    · exact h
    · have := (abs_lt.1 hnear).1
      norm_num at this h
      linarith
  · rintro rfl
    norm_num

lemma isEqual_neg_one (h : IsPlain c) : isEqual c (-(1.0)) = false := by
  rw [← Bool.not_eq_true, isEqual_iff]
  intro hnear
  have := (abs_lt.1 hnear).2
  rcases h with rfl | ⟨h, -⟩
  · norm_num at this
  · norm_num at this
    linarith

lemma times_eq (h : IsPlain c) (x : ℝ) : times c x = c * x := by
  unfold times
  split
  · rename_i hone
    rw [h.isEqual_one.1 hone, one_mul]
  · rfl

lemma timesAsIs_eq (h : IsPlain c) (x : ℝ) : timesAsIs c x = c * x := by
  have hneg := h.isEqual_neg_one
  unfold timesAsIs
  split
  · rename_i hone
    rw [h.isEqual_one.1 hone, one_mul]
  · rw [if_neg (by simpa using hneg)]

lemma timesNegated_eq (h : IsPlain c) (x : ℝ) : timesNegated c x = c * -x := by
  have hneg := h.isEqual_neg_one
  unfold timesNegated
  split
  · rename_i hone
    rw [h.isEqual_one.1 hone, one_mul]
  · rw [if_neg (by simpa using hneg)]
    exact neg_mul_comm c x

end IsPlain

/-! ### Coefficients -/

section Entries

variable {R : Type} [Scalar R] {n : ℕ} (orthogonal : Bool)

@[simp]
lemma size_coefficients (n : ℕ) : (coefficients n orthogonal : Array R).size = n := by
  cases orthogonal <;> simp [coefficients]

/-- Coefficient `k`. -/
def coefficient (n : ℕ) (orthogonal : Bool) (k : ℕ) : R :=
  (coefficients n orthogonal).getD k Scalar.nan

lemma getElem?_coefficients {k : ℕ} (hk : k < n) :
    (coefficients n orthogonal : Array R)[k]? = some (coefficient n orthogonal k) := by
  simp [coefficient, hk]

end Entries

variable {n : ℕ} (orthogonal : Bool)

lemma coefficient_eq {k : ℕ} (hk : k < n) : (coefficient n orthogonal k : ℝ) =
    if orthogonal then (if k = 0 then √(1 / n) else √(2 / n)) else 1 := by
  have hone : (1.0 : ℝ) = 1 := by norm_num
  have htwo : (2.0 : ℝ) = 2 := by norm_num
  cases orthogonal with
  | false => simp [coefficient, coefficients, hk, hone]
  | true => simp [coefficient, coefficients, hk, hone, htwo, Scalar.sqrt, Scalar.ofNat]

/-- But for the first one, all coefficients are equal. -/
lemma coefficient_eq_coefficient {j k : ℕ} (hj : j < n) (hk : k < n) (hjpos : j ≠ 0)
    (hkpos : k ≠ 0) : (coefficient n orthogonal j : ℝ) = coefficient n orthogonal k := by
  rw [coefficient_eq orthogonal hj, coefficient_eq orthogonal hk, if_neg hjpos, if_neg hkpos]

lemma isPlain_sqrt {x : ℝ} (hx : x ≤ 1 / 2) : IsPlain √x := by
  refine Or.inr ⟨Real.sqrt_nonneg x, Real.sqrt_le_iff.2 ⟨by norm_num, hx.trans ?_⟩⟩
  norm_num

lemma isPlain_coefficient (hn : n % 2 = 0) {k : ℕ} (hk : k < n) :
    IsPlain (coefficient n orthogonal k) := by
  have htwo : (2 : ℝ) ≤ n := by exact_mod_cast (show 2 ≤ n by omega)
  rw [coefficient_eq orthogonal hk]
  split
  · split
    · refine isPlain_sqrt ?_
      rw [div_le_div_iff₀ (by linarith) two_pos]
      linarith
    · rcases eq_or_ne n 2 with rfl | hne
      · refine Or.inl ?_
        norm_num
      · have hfour : (4 : ℝ) ≤ n := by exact_mod_cast (show 4 ≤ n by omega)
        refine isPlain_sqrt ?_
        rw [div_le_div_iff₀ (by linarith) two_pos]
        linarith
  · exact Or.inl rfl

/-- A gain well below one stays there. -/
lemma IsPlain.mul {gain c : ℝ} (h : IsPlain c) (hpos : 0 ≤ gain) (hle : gain ≤ 0.75) :
    IsPlain (gain * c) := by
  have hc : 0 ≤ c ∧ c ≤ 1 := by
    rcases h with rfl | ⟨hc, hle⟩
    · exact ⟨zero_le_one, le_rfl⟩
    · norm_num at hle
      exact ⟨hc, by linarith⟩
  exact Or.inr ⟨mul_nonneg hpos hc.1, (mul_le_of_le_one_right hpos hc.2).trans hle⟩

lemma invSqrtTwo_le : (Scalar.invSqrtTwo : ℝ) ≤ 0.75 := by
  have hsqrt : (4 / 3 : ℝ) ≤ √2 := Real.le_sqrt_of_sq_le (by norm_num)
  calc 1 / √2 ≤ 1 / (4 / 3) := one_div_le_one_div_of_le (by norm_num) hsqrt
    _ = 0.75 := by norm_num

/-! ### Gains -/

/-- Equal coefficients become part of the gain. -/
lemma foldGain_eq {gain c : ℝ} (h : IsPlain (gain * c)) :
    ∃ g, foldGain gain c c = ⟨g, 1.0, 1.0⟩ ∧ g.getD 1 = gain * c := by
  unfold foldGain
  rw [isEqual_self]
  by_cases hone : isEqual (gain * c) 1.0 = true
  · exact ⟨none, by simp [hone], (h.isEqual_one.1 hone).symm⟩
  · exact ⟨some (gain * c), by simp [hone], rfl⟩

end MixedRadix.Cosine
