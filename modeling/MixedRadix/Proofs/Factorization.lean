import MixedRadix.Factorization
import Mathlib.NumberTheory.SmoothNumbers
import Mathlib.Tactic.IntervalCases
import Mathlib.Tactic.NormNum.Prime

/-!
# Sizes that can be split

A size has a factorization exactly if it has no prime factors but 2, 3 and 5, and the parts of every
split multiply up to its size (`Factorization.ofSize_cases`).
-/

namespace MixedRadix

namespace Radix

lemma size_mem_smoothNumbers (r : Radix) : r.size ∈ Nat.smoothNumbers 6 :=
  Nat.mem_smoothNumbers_of_lt (Nat.lt_of_lt_of_le Nat.two_pos r.two_le_size) (by cases r <;> decide)

lemma size_of_ofSize? {n : ℕ} {r : Radix} (h : ofSize? n = some r) : r.size = n := by
  unfold ofSize? at h
  split at h <;> simp_all <;> subst h <;> rfl

/-- A number without a radix as a factor has none of the primes 2, 3 and 5. -/
lemma exists_dvd_of_mem_smoothNumbers {n : ℕ} (hn : n ≠ 1) (h : n ∈ Nat.smoothNumbers 6) :
    ∃ r ∈ priority, r.size ∣ n := by
  obtain ⟨q, hq, hdvd⟩ := Nat.exists_prime_and_dvd hn
  have hlt : q < 6 := Nat.mem_smoothNumbers'.1 h q hq hdvd
  interval_cases q
  · exact absurd hq (by norm_num)
  · exact absurd hq (by norm_num)
  · exact ⟨two, by decide, hdvd⟩
  · exact ⟨three, by decide, hdvd⟩
  · exact absurd hq (by norm_num)
  · exact ⟨five, by decide, hdvd⟩

end Radix

namespace Factorization

/-- Every split is one of its size: the outer part times the inner radix. -/
def Exact : Factorization → Prop
  | unit | base _ => True
  | split n outer inner => n = outer.size * inner.size ∧ outer.Exact

/-- A size is split as long as a radix divides it, so that in the end one point is left exactly if
there were no other prime factors. -/
lemma ofSize_cases (n : ℕ) :
    (n ∈ Nat.smoothNumbers 6 ∧ ∃ f, ofSize n = .ok f ∧ f.size = n ∧ f.Exact) ∨
      (n ∉ Nat.smoothNumbers 6 ∧ ∃ e, ofSize n = .error e) := by
  induction n using Nat.strong_induction_on with
  | _ n ih =>
    rw [ofSize]
    split
    · rename_i h0
      subst h0
      exact Or.inr ⟨fun h => Nat.ne_zero_of_mem_smoothNumbers h rfl, _, rfl⟩
    split
    · rename_i h1
      subst h1
      exact Or.inl ⟨Nat.mem_smoothNumbers_of_lt (by decide) (by decide), _, rfl, rfl, trivial⟩
    rename_i h0 h1
    split
    · rename_i r hr
      have hsize := Radix.size_of_ofSize? hr
      exact Or.inl ⟨hsize ▸ r.size_mem_smoothNumbers, _, rfl, hsize, trivial⟩
    split
    · rename_i hnone
      refine Or.inr ⟨fun h => ?_, _, rfl⟩
      obtain ⟨r, hr, hdvd⟩ := Radix.exists_dvd_of_mem_smoothNumbers h1 h
      simpa [Nat.mod_eq_zero_of_dvd hdvd] using List.find?_eq_none.1 hnone r hr
    · rename_i r hsome
      have hdvd : r.size ∣ n := Nat.dvd_of_mod_eq_zero (by simpa using List.find?_some hsome)
      have hmul : n / r.size * r.size = n := Nat.div_mul_cancel hdvd
      rcases ih (n / r.size) (Nat.div_lt_self (by omega) r.two_le_size) with
        ⟨hsmooth, f, hf, hsize, hexact⟩ | ⟨hrough, e, he⟩
      · refine Or.inl ⟨?_, .split n f r, by rw [hf]; rfl, rfl, by rw [hsize, hmul], hexact⟩
        exact hmul ▸ Nat.mul_mem_smoothNumbers hsmooth r.size_mem_smoothNumbers
      · refine Or.inr ⟨fun h => hrough (Nat.mem_smoothNumbers_of_dvd h (Nat.div_dvd_of_dvd hdvd)),
          e, by rw [he]; rfl⟩

lemma exists_ofSize {n : ℕ} (h : n ∈ Nat.smoothNumbers 6) :
    ∃ f, ofSize n = .ok f ∧ f.size = n ∧ f.Exact := by
  rcases ofSize_cases n with ⟨-, hf⟩ | ⟨hrough, -⟩
  · exact hf
  · exact absurd h hrough

lemma mem_smoothNumbers_of_ofSize {n : ℕ} {f : Factorization}
    (h : ofSize n = .ok f) : n ∈ Nat.smoothNumbers 6 := by
  rcases ofSize_cases n with ⟨hsmooth, -⟩ | ⟨-, e, he⟩
  · exact hsmooth
  · exact absurd (he.symm.trans h) (by simp)

lemma exact_of_ofSize {n : ℕ} {f : Factorization} (h : ofSize n = .ok f) :
    f.size = n ∧ f.Exact := by
  rcases ofSize_cases n with ⟨-, f', hf', hsize, hexact⟩ | ⟨-, e, he⟩
  · obtain rfl := Except.ok.inj (h.symm.trans hf')
    exact ⟨hsize, hexact⟩
  · rw [h] at he
    cases he

end Factorization

end MixedRadix
