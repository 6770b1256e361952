import MixedRadix.Proofs.Factorization
import Mathlib.Data.Nat.Prime.Basic
import Mathlib.Order.Bounds.Basic

/-!
# Canonical factorizations

Of the radices that divide a size, the first one in the order 5, 4, 3, 2 is split off. What is left
over in the end is one radix, or one point, or a part without a factor 2, 3 or 5, which is the
largest such part of the size. The radices that were split off come sorted, with at most one 2
(`Factorization.ofSize_canonical`).
-/

namespace MixedRadix

namespace Radix

/-- The radix that is split off. -/
lemma find?_priority (n : ℕ) : (priority.find? fun r => n % r.size == 0) =
    if 5 ∣ n then some five else if 4 ∣ n then some four else if 3 ∣ n then some three
    else if 2 ∣ n then some two else none := by
  simp only [priority, List.find?, size, Nat.dvd_iff_mod_eq_zero]
  split <;> simp_all
  split <;> simp_all
  split <;> simp_all
  split <;> simp_all

lemma size_le_five (r : Radix) : r.size ≤ 5 := by
  cases r <;> decide

lemma ofSize?_of_five_lt {n : ℕ} (h : 5 < n) : ofSize? n = none := by
  unfold ofSize?
  split
  all_goals first | omega | rfl

end Radix

namespace Factorization

lemma ofSize_of_find?_eq_none {n : ℕ} (h : 5 < n)
    (hnone : (Radix.priority.find? fun r => n % r.size == 0) = none) : ofSize n = .error ⟨n⟩ := by
  rw [ofSize, if_neg (by omega), if_neg (by omega), Radix.ofSize?_of_five_lt h]
  simp only [hnone]

lemma ofSize_of_find?_eq_some {n : ℕ} (h : 5 < n) {inner : Radix}
    (hsome : (Radix.priority.find? fun r => n % r.size == 0) = some inner) :
    ofSize n = (ofSize (n / inner.size)).map fun outer => .split n outer inner := by
  rw [ofSize, if_neg (by omega), if_neg (by omega), Radix.ofSize?_of_five_lt h]
  simp only [hsome]
  cases ofSize (n / inner.size) <;> rfl

lemma ofSize_radix (r : Radix) : ofSize r.size = .ok (.base r) := by
  rw [ofSize]
  cases r <;> rfl

/-- What is true of the sizes up to five, of sizes that cannot be split, and passes from the outer
part of a split to the whole, is true of all sizes. -/
lemma ofSize_induction {P : ℕ → Except BadSize Factorization → Prop} (zero : P 0 (.error ⟨0⟩))
    (one : P 1 (.ok .unit)) (base : ∀ r, P r.size (.ok (.base r)))
    (stuck : ∀ n, 5 < n → ¬ 2 ∣ n → ¬ 3 ∣ n → ¬ 5 ∣ n → P n (.error ⟨n⟩))
    (split : ∀ m (r : Radix), 1 < m → P m (ofSize m) →
      P (m * r.size) ((ofSize m).map fun outer => .split (m * r.size) outer r)) (n : ℕ) :
    P n (ofSize n) := by
  induction n using Nat.strong_induction_on with
  | _ n ih =>
    rcases Nat.lt_or_ge 5 n with hn | hn
    · cases hfind : Radix.priority.find? fun r => n % r.size == 0 with
      | none =>
        have hstuck (r : Radix) (hr : r ∈ Radix.priority) : ¬ r.size ∣ n := by
          intro hdvd
          simpa [Nat.mod_eq_zero_of_dvd hdvd] using List.find?_eq_none.1 hfind r hr
        rw [ofSize_of_find?_eq_none hn hfind]
        exact stuck n hn (hstuck .two (by decide)) (hstuck .three (by decide))
          (hstuck .five (by decide))
      | some r =>
        have hdvd : r.size ∣ n := Nat.dvd_of_mod_eq_zero (by simpa using List.find?_some hfind)
        obtain ⟨m, rfl⟩ := exists_eq_mul_left_of_dvd hdvd
        have hr := r.two_le_size
        have hr' := r.size_le_five
        have hm : 1 < m := by
          by_contra hle
          have : m * r.size ≤ 1 * 5 := Nat.mul_le_mul (by omega) hr'
          omega
        have hdiv : m * r.size / r.size = m := Nat.mul_div_cancel m (by omega)
        rw [ofSize_of_find?_eq_some hn hfind, hdiv]
        exact split m r hm (ih m (lt_mul_of_one_lt_right (by omega) (by omega)))
    · interval_cases n
      · rw [ofSize]
        exact zero
      · rw [ofSize]
        exact one
      · exact (ofSize_radix .two) ▸ base .two
      · exact (ofSize_radix .three) ▸ base .three
      · exact (ofSize_radix .four) ▸ base .four
      · exact (ofSize_radix .five) ▸ base .five

/-! ### Splits -/

/-- Every split is one of its size, into a part of more than one point and a radix. -/
def Proper : Factorization → Prop
  | unit | base _ => True
  | split n outer inner => n = outer.size * inner.size ∧ outer ≠ unit ∧ outer.Proper

lemma Proper.exact {f : Factorization} (h : f.Proper) : f.Exact := by
  induction f with
  | unit | base radix => trivial
  | split n outer inner ih => exact ⟨h.1, ih h.2.2⟩

lemma proper_of_ofSize {n : ℕ} {f : Factorization} (h : ofSize n = .ok f) : f.Proper := by
  have hall := ofSize_induction (P := fun n result => ∀ f, result = .ok f → f.size = n ∧ f.Proper)
  refine (hall ?_ ?_ ?_ ?_ ?_ n f h).2
  · intro f hf
    cases hf
  · intro f hf
    cases hf
    exact ⟨rfl, trivial⟩
  · intro r f hf
    cases hf
    exact ⟨rfl, trivial⟩
  · intro n _ _ _ _ f hf
    cases hf
  · intro m r hm ih f hf
    cases houter : ofSize m with
    | error e =>
      rw [houter] at hf
      cases hf
    | ok outer =>
      rw [houter] at hf
      cases hf
      obtain ⟨hsize, hproper⟩ := ih outer houter
      refine ⟨rfl, by rw [hsize], ?_, hproper⟩
      rintro rfl
      exact absurd hsize hm.ne

/-- The sizes of factorizations are products of the primes of their radices. -/
lemma exists_size_eq {f : Factorization} (h : f.Exact) :
    ∃ x y z, f.size = 2 ^ x * 3 ^ y * 5 ^ z := by
  have hradix (r : Radix) : ∃ x y z, r.size = 2 ^ x * 3 ^ y * 5 ^ z := by
    cases r
    · exact ⟨1, 0, 0, rfl⟩
    · exact ⟨0, 1, 0, rfl⟩
    · exact ⟨2, 0, 0, rfl⟩
    · exact ⟨0, 0, 1, rfl⟩
  induction f with
  | unit => exact ⟨0, 0, 0, rfl⟩
  | base radix => exact hradix radix
  | split n outer inner ih =>
    obtain ⟨hn, houter⟩ := h
    obtain ⟨x, y, z, hsize⟩ := ih houter
    obtain ⟨x', y', z', hinner⟩ := hradix inner
    refine ⟨x + x', y + y', z + z', ?_⟩
    rw [size, hn, hsize, hinner]
    ring

/-! ### The part that is left over -/

/-- A divisor without a factor 2, 3 or 5 divides what a radix is split off from. -/
lemma dvd_of_coprime_mul_radix {d m : ℕ} {r : Radix} (hd : d.Coprime 30) (h : d ∣ m * r.size) :
    d ∣ m := by
  have hr : d.Coprime r.size := by
    have hsquare : d.Coprime 900 := Nat.Coprime.mul_right hd hd
    refine hsquare.coprime_dvd_right ?_
    cases r <;> decide
  exact hr.dvd_of_dvd_mul_right h

lemma coprime_thirty {n : ℕ} (h2 : ¬ 2 ∣ n) (h3 : ¬ 3 ∣ n) (h5 : ¬ 5 ∣ n) : n.Coprime 30 := by
  have hcoprime {q : ℕ} (hq : q.Prime) (h : ¬ q ∣ n) : n.Coprime q :=
    ((Nat.Prime.coprime_iff_not_dvd hq).2 h).symm
  exact Nat.Coprime.mul_right
    (Nat.Coprime.mul_right (hcoprime Nat.prime_two h2) (hcoprime Nat.prime_three h3))
    (hcoprime Nat.prime_five h5)

/-- If a size cannot be split, the error names its largest divisor without a factor 2, 3 or 5. -/
lemma isGreatest_of_ofSize {n : ℕ} (hn : n ≠ 0) {e : BadSize} (h : ofSize n = .error e) :
    IsGreatest {d | d ∣ n ∧ d.Coprime 30} e.size := by
  have hall := ofSize_induction (P := fun n result =>
    n ≠ 0 → ∀ e, result = .error e → IsGreatest {d | d ∣ n ∧ d.Coprime 30} e.size)
  refine hall ?_ ?_ ?_ ?_ ?_ n hn e h
  · intro h0
    exact absurd rfl h0
  · intro _ e he
    cases he
  · intro r _ e he
    cases he
  · intro n hlt h2 h3 h5 _ e he
    cases he
    exact ⟨⟨dvd_rfl, coprime_thirty h2 h3 h5⟩, fun d hd =>
      Nat.le_of_dvd (Nat.zero_lt_of_lt hlt) hd.1⟩
  · intro m r hm ih _ e he
    cases houter : ofSize m with
    | error e' =>
      rw [houter] at he
      cases he
      obtain ⟨⟨hdvd, hcoprime⟩, hgreatest⟩ := ih (by omega) e houter
      refine ⟨⟨hdvd.mul_right r.size, hcoprime⟩, fun d hd => ?_⟩
      exact hgreatest ⟨dvd_of_coprime_mul_radix hd.2 hd.1, hd.2⟩
    | ok outer =>
      rw [houter] at he
      cases he

/-! ### The order of the radices -/

/-- The radices of `2 ^ x * 3 ^ y * 5 ^ z`. -/
def sortedRadices (x y z : ℕ) : List ℕ :=
  List.replicate z 5 ++ List.replicate (x / 2) 4 ++ List.replicate y 3 ++ List.replicate (x % 2) 2

/-- The radix that is split off a product first is its first radix. -/
lemma exists_ofSize_mul {m : ℕ} {r : Radix} {radices : List ℕ} (hm : 0 < m)
    (hfirst : (Radix.priority.find? fun r' => m * r.size % r'.size == 0) = some r)
    (h : ∃ f, ofSize m = .ok f ∧ f.radices = radices) :
    ∃ f, ofSize (m * r.size) = .ok f ∧ f.radices = r.size :: radices := by
  obtain ⟨f, hf, rfl⟩ := h
  have hr := r.two_le_size
  rcases Nat.lt_or_ge 5 (m * r.size) with hlt | hle
  · have hdiv : m * r.size / r.size = m := Nat.mul_div_cancel m (by omega)
    refine ⟨.split (m * r.size) f r, ?_, rfl⟩
    rw [ofSize_of_find?_eq_some hlt hfirst, hdiv, hf]
    rfl
  · -- up to five points, only `2 * 2` is not a radix by itself, and there 4 comes first
    have hone : m = 1 := by
      rw [Radix.find?_priority] at hfirst
      by_contra hne
      cases r <;> simp only [Radix.size] at hle hfirst
      · obtain rfl : m = 2 := by omega
        simp at hfirst
      all_goals omega
    subst hone
    obtain rfl : f = .unit := by
      rw [ofSize] at hf
      cases hf
      rfl
    refine ⟨.base r, ?_, rfl⟩
    rw [Nat.one_mul, ofSize_radix]

lemma not_five_dvd (x y : ℕ) : ¬ 5 ∣ 2 ^ x * 3 ^ y := by
  have hcoprime : Nat.Coprime 5 (2 ^ x * 3 ^ y) :=
    Nat.Coprime.mul_right (Nat.Coprime.pow_right x (by decide))
      (Nat.Coprime.pow_right y (by decide))
  exact (Nat.Prime.coprime_iff_not_dvd Nat.prime_five).1 hcoprime

lemma not_four_dvd {x : ℕ} (hx : x < 2) (y : ℕ) : ¬ 4 ∣ 2 ^ x * 3 ^ y := by
  have hodd : 3 ^ y % 2 = 1 := by
    rw [Nat.pow_mod]
    simp
  interval_cases x <;> omega

/-- With at most one factor 2 and none of 5, threes are split off. -/
lemma exists_ofSize_threes {x : ℕ} (hx : x < 2) (y : ℕ) :
    ∃ f, ofSize (2 ^ x * 3 ^ y) = .ok f ∧
      f.radices = List.replicate y 3 ++ List.replicate (x % 2) 2 := by
  induction y with
  | zero =>
    interval_cases x
    · refine ⟨.unit, ?_, rfl⟩
      rw [ofSize]
      rfl
    · exact ⟨.base .two, ofSize_radix .two, rfl⟩
  | succ y ih =>
    have hmul : 2 ^ x * 3 ^ (y + 1) = 2 ^ x * 3 ^ y * Radix.three.size := by
      rw [pow_succ, ← mul_assoc]
      rfl
    rw [hmul, List.replicate_succ, List.cons_append]
    refine exists_ofSize_mul (by positivity) ?_ ih
    rw [Radix.find?_priority, ← hmul, if_neg (not_five_dvd x (y + 1)),
      if_neg (not_four_dvd hx (y + 1)), if_pos]
    exact hmul ▸ Dvd.intro_left _ rfl

/-- Without a factor 5, fours are split off before threes. -/
lemma exists_ofSize_fours (x y : ℕ) :
    ∃ f, ofSize (2 ^ x * 3 ^ y) = .ok f ∧
      f.radices = List.replicate (x / 2) 4 ++ List.replicate y 3 ++ List.replicate (x % 2) 2 := by
  induction x using Nat.twoStepInduction with
  | zero => exact exists_ofSize_threes (by decide) y
  | one => exact exists_ofSize_threes (by decide) y
  | more x ih _ =>
    have hmul : 2 ^ (x + 2) * 3 ^ y = 2 ^ x * 3 ^ y * Radix.four.size := by
      rw [Radix.size, pow_add]
      ring
    have hdiv : (x + 2) / 2 = x / 2 + 1 := by omega
    have hmod : (x + 2) % 2 = x % 2 := by omega
    rw [hmul, hdiv, hmod, List.replicate_succ, List.cons_append, List.cons_append]
    refine exists_ofSize_mul (by positivity) ?_ ih
    rw [Radix.find?_priority, ← hmul, if_neg (not_five_dvd (x + 2) y), if_pos]
    exact hmul ▸ Dvd.intro_left _ rfl

/-- Fives are split off before all others. -/
lemma exists_ofSize_fives (x y z : ℕ) :
    ∃ f, ofSize (2 ^ x * 3 ^ y * 5 ^ z) = .ok f ∧ f.radices = sortedRadices x y z := by
  induction z with
  | zero => simpa [sortedRadices] using exists_ofSize_fours x y
  | succ z ih =>
    have hmul : 2 ^ x * 3 ^ y * 5 ^ (z + 1) = 2 ^ x * 3 ^ y * 5 ^ z * Radix.five.size := by
      rw [pow_succ, ← mul_assoc]
      rfl
    rw [hmul, sortedRadices, List.replicate_succ, List.cons_append, List.cons_append,
      List.cons_append]
    refine exists_ofSize_mul (by positivity) ?_ ih
    rw [Radix.find?_priority, if_pos]
    exact Dvd.intro_left _ rfl

/-- Exactly the sizes `2 ^ x * 3 ^ y * 5 ^ z` have a factorization. Its splits are those of their
sizes, into a part of more than one point and a radix, and its radices are first the fives, then
fours, then threes, and a two if the exponent of 2 is odd. The error for any other size names its
largest divisor without a factor 2, 3 or 5; for size zero it names zero. -/
theorem ofSize_canonical (n : ℕ) :
    ((∃ f, ofSize n = .ok f) ↔ ∃ x y z, n = 2 ^ x * 3 ^ y * 5 ^ z) ∧
    (∀ f, ofSize n = .ok f → f.size = n ∧ f.Proper ∧
      ∀ x y z, n = 2 ^ x * 3 ^ y * 5 ^ z → f.radices = sortedRadices x y z) ∧
    ∀ e, ofSize n = .error e →
      (n = 0 ∧ e.size = 0) ∨ (n ≠ 0 ∧ IsGreatest {d | d ∣ n ∧ d.Coprime 30} e.size) := by
  refine ⟨⟨?_, ?_⟩, fun f hf => ⟨(exact_of_ofSize hf).1, proper_of_ofSize hf, ?_⟩, fun e he => ?_⟩
  · rintro ⟨f, hf⟩
    obtain ⟨rfl, hexact⟩ := exact_of_ofSize hf
    exact exists_size_eq hexact
  · rintro ⟨x, y, z, rfl⟩
    obtain ⟨f, hf, -⟩ := exists_ofSize_fives x y z
    exact ⟨f, hf⟩
  · rintro x y z rfl
    obtain ⟨f', hf', hradices⟩ := exists_ofSize_fives x y z
    obtain rfl : f' = f := Except.ok.inj (hf'.symm.trans hf)
    exact hradices
  · by_cases hn : n = 0
    · subst hn
      rw [ofSize] at he
      cases he
      exact Or.inl ⟨rfl, rfl⟩
    · exact Or.inr ⟨hn, isGreatest_of_ofSize hn he⟩

/-- A size with every radix, and one with a factor 7. -/
theorem ofSize_canonical_threeSixty :
    (∃ f, ofSize 360 = .ok f ∧ f.radices = [5, 4, 3, 3, 2]) ∧
      ofSize 84 = .error ⟨7⟩ ∧ IsGreatest {d | d ∣ 84 ∧ d.Coprime 30} 7 := by
  obtain ⟨hiff, hok, -⟩ := ofSize_canonical 360
  obtain ⟨f, hf⟩ := hiff.2 ⟨3, 2, 1, rfl⟩
  have hstuck : ofSize 84 = .error ⟨7⟩ := by cbv
  refine ⟨⟨f, hf, (hok f hf).2.2 3 2 1 rfl⟩, hstuck, ?_⟩
  rcases (ofSize_canonical 84).2.2 _ hstuck with ⟨h0, -⟩ | ⟨-, hgreatest⟩
  · exact absurd h0 (by decide)
  · exact hgreatest

end Factorization

end MixedRadix
