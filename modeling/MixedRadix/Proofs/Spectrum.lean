import MixedRadix.Proofs.Angle
import Mathlib.Algebra.BigOperators.Ring.Finset
import Mathlib.Algebra.BigOperators.Intervals

/-!
# Spectra

The discrete Fourier transform over any commutative ring and any character `χ` of the rationals that
is trivial on full turns: bin `k` of `n` values is `Σ v j * χ (-2jk / n)`. A transform of `r₁ * r₂`
points is one of columns of `r₂` points, a rotation of each result, and one of rows of `r₁` points
(`rows_columns`).
-/

namespace MixedRadix

variable {K : Type*} [CommRing K] (χ : AddChar ℚ K)

/-- Bin `k` of the transform of `n` values. -/
def bin (n : ℕ) (v : ℕ → K) (k : ℕ) : K :=
  ∑ j ∈ Finset.range n, v j * χ (-2 * (j * k : ℕ) / n)

variable {χ}

lemma bin_congr {n : ℕ} {v w : ℕ → K} (h : ∀ j < n, v j = w j) (k : ℕ) :
    bin χ n v k = bin χ n w k :=
  Finset.sum_congr rfl fun j hj => by rw [h j (Finset.mem_range.1 hj)]

lemma bin_one (v : ℕ → K) : bin χ 1 v 0 = v 0 := by
  simp [bin]

/-- Sums over `r₁ * r₂` indices, column by column. -/
lemma sum_range_mul {M : Type*} [AddCommMonoid M] (r₁ r₂ : ℕ) (g : ℕ → M) :
    ∑ j ∈ Finset.range (r₁ * r₂), g j =
      ∑ i ∈ Finset.range r₁, ∑ j ∈ Finset.range r₂, g (r₁ * j + i) := by
  rw [Finset.sum_comm]
  induction r₂ with
  | zero => simp
  | succ r₂ ih => rw [Nat.mul_succ, Finset.sum_range_add, ih, Finset.sum_range_succ]

/-- The exponent of a split, up to full turns. -/
lemma map_split (hχ : χ 2 = 1) {r₁ r₂ : ℕ} (h₁ : 0 < r₁) (h₂ : 0 < r₂) (i j k₁ k₂ : ℕ) :
    χ (-2 * ((r₁ * j + i) * (r₂ * k₁ + k₂) : ℕ) / (r₁ * r₂ : ℕ)) =
      χ (-2 * (j * k₂ : ℕ) / r₂) * χ (-2 * (i * k₂ : ℕ) / (r₁ * r₂ : ℕ)) *
        χ (-2 * (i * k₁ : ℕ) / r₁) := by
  have hr₁ : (r₁ : ℚ) ≠ 0 := by exact_mod_cast h₁.ne'
  have hr₂ : (r₂ : ℚ) ≠ 0 := by exact_mod_cast h₂.ne'
  have hexp : (-2 * ((r₁ * j + i) * (r₂ * k₁ + k₂) : ℕ) / (r₁ * r₂ : ℕ) : ℚ) =
      -2 * (j * k₂ : ℕ) / r₂ + -2 * (i * k₂ : ℕ) / (r₁ * r₂ : ℕ) + -2 * (i * k₁ : ℕ) / r₁ +
        2 * ((-(j * k₁ : ℕ) : ℤ) : ℚ) := by
    push_cast
    field_simp
    ring
  rw [hexp, AddChar.map_add_eq_mul, Angle.map_two_mul_int hχ, mul_one, AddChar.map_add_eq_mul,
    AddChar.map_add_eq_mul]

/-- A transform of `r₁ * r₂` points by transforms of `r₂` and of `r₁` points. -/
lemma bin_mul (hχ : χ 2 = 1) {r₁ r₂ : ℕ} (h₁ : 0 < r₁) (h₂ : 0 < r₂) (v : ℕ → K) (k₁ k₂ : ℕ) :
    bin χ r₁ (fun i => χ (-2 * (i * k₂ : ℕ) / (r₁ * r₂ : ℕ)) *
        bin χ r₂ (fun j => v (r₁ * j + i)) k₂) k₁ =
      bin χ (r₁ * r₂) v (r₂ * k₁ + k₂) := by
  simp only [bin]
  rw [sum_range_mul]
  refine Finset.sum_congr rfl fun i _ => ?_
  rw [Finset.mul_sum, Finset.sum_mul]
  refine Finset.sum_congr rfl fun j _ => ?_
  rw [map_split hχ h₁ h₂]
  ring

variable (χ) in
/-- The columns `k % r₁` are transformed, and each result is rotated. -/
def columns (r₁ r₂ : ℕ) (v : ℕ → K) (k : ℕ) : K :=
  χ (-2 * (k % r₁ * (k / r₁) : ℕ) / (r₁ * r₂ : ℕ)) *
    bin χ r₂ (fun j => v (r₁ * j + k % r₁)) (k / r₁)

variable (χ) in
/-- The rows `k / r₁` are transformed. -/
def rows (r₁ : ℕ) (v : ℕ → K) (k : ℕ) : K :=
  bin χ r₁ (fun i => v (r₁ * (k / r₁) + i)) (k % r₁)

lemma mul_add_div_mod {r₁ i : ℕ} (hi : i < r₁) (j : ℕ) :
    (r₁ * j + i) / r₁ = j ∧ (r₁ * j + i) % r₁ = i := by
  have hpos : 0 < r₁ := Nat.lt_of_le_of_lt (Nat.zero_le i) hi
  rw [Nat.mul_add_div hpos, Nat.mul_add_mod, Nat.div_eq_of_lt hi, Nat.mod_eq_of_lt hi]
  exact ⟨rfl, rfl⟩

/-- A transform of `r₁ * r₂` points by columns and rows: result `r₂ * k₁ + k₂` is found in row `k₂`
and column `k₁`. -/
theorem rows_columns (hχ : χ 2 = 1) {r₁ r₂ m : ℕ} (h₂ : 0 < r₂) (hm : m < r₁ * r₂) (v : ℕ → K) :
    rows χ r₁ (columns χ r₁ r₂ v) (r₁ * (m % r₂) + m / r₂) = bin χ (r₁ * r₂) v m := by
  have hk₁ : m / r₂ < r₁ := Nat.div_lt_of_lt_mul (by rwa [mul_comm])
  have hdecomp : r₂ * (m / r₂) + m % r₂ = m := Nat.div_add_mod m r₂
  have h₁ : 0 < r₁ := Nat.lt_of_le_of_lt (Nat.zero_le _) hk₁
  rw [rows, (mul_add_div_mod hk₁ _).1, (mul_add_div_mod hk₁ _).2]
  calc bin χ r₁ (fun i => columns χ r₁ r₂ v (r₁ * (m % r₂) + i)) (m / r₂)
    _ = bin χ r₁ (fun i => χ (-2 * (i * (m % r₂) : ℕ) / (r₁ * r₂ : ℕ)) *
          bin χ r₂ (fun j => v (r₁ * j + i)) (m % r₂)) (m / r₂) := by
        refine bin_congr (fun i hi => ?_) _
        rw [columns, (mul_add_div_mod hi _).1, (mul_add_div_mod hi _).2]
    _ = bin χ (r₁ * r₂) v m := by rw [bin_mul hχ h₁ h₂, hdecomp]

end MixedRadix
