import MixedRadix.Proofs.DigitReversal
import MixedRadix.Proofs.Radices

/-!
# The number of requests

Every level of a factorization works on all points: it takes a butterfly for each group of as many
points as its radix has, and a twiddle for each point unless it is the last level. So a plan that is
not stopped asks for `n / r` butterflies for every radix `r` in the list, and for `n` twiddles for
every radix but one (`Plan.requests_counted`).
-/

namespace MixedRadix

lemma Radix.size_injective : Function.Injective Radix.size := by
  intro r r' h
  cases r <;> cases r' <;> first | rfl | exact absurd h (by decide)

lemma count_flatten_replicate {α : Type} [BEq α] (a : α) (l : List α) (n : ℕ) :
    (List.replicate n l).flatten.count a = n * l.count a := by
  rw [List.count_flatten, List.map_replicate, List.sum_replicate, smul_eq_mul]

namespace Factorization

lemma dvd_size_of_mem_radices {f : Factorization} (h : f.Exact) {d : ℕ} (hd : d ∈ f.radices) :
    d ∣ f.size :=
  prod_radices h ▸ List.dvd_prod hd

/-- Each level of a radix has a butterfly for every group of its size. -/
lemma count_some_kinds {f : Factorization} (h : f.Exact) (r : Radix) :
    f.kinds.count (some r) = f.radices.count r.size * (f.size / r.size) := by
  have hr : 0 < r.size := Nat.lt_of_lt_of_le Nat.two_pos r.two_le_size
  induction f with
  | unit => simp [kinds, radices]
  | base radix =>
    rw [kinds, radices, size, List.count_singleton, List.count_singleton]
    by_cases heq : radix = r
    · subst heq
      simp [Nat.div_self hr]
    · have hne : radix.size ≠ r.size := fun e => heq (Radix.size_injective e)
      simp [heq, hne]
  | split n outer inner ih =>
    obtain ⟨rfl, h⟩ := h
    -- the levels of the outer part are done once for every row
    have houter : inner.size * outer.kinds.count (some r) =
        outer.radices.count r.size * (outer.size * inner.size / r.size) := by
      rw [ih h]
      by_cases hmem : r.size ∈ outer.radices
      · rw [Nat.mul_div_right_comm (dvd_size_of_mem_radices h hmem)]
        ring
      · rw [List.count_eq_zero_of_not_mem hmem, Nat.zero_mul, Nat.zero_mul, Nat.mul_zero]
    rw [kinds, radices, size, List.count_append, count_flatten_replicate, count_flatten_replicate,
      houter, List.count_cons, List.count_cons, Nat.add_mul]
    by_cases heq : inner = r
    · subst heq
      rw [Nat.mul_div_cancel _ hr]
      simp [List.count_replicate, Nat.add_comm]
    · have hne : inner.size ≠ r.size := fun e => heq (Radix.size_injective e)
      simp [List.count_replicate, heq, hne]

/-- Each level but the last has a twiddle for every point. -/
lemma count_none_kinds {f : Factorization} (h : f.Proper) :
    f.kinds.count none = f.size * (f.radices.length - 1) := by
  induction f with
  | unit | base radix => rfl
  | split n outer inner ih =>
    obtain ⟨rfl, hunit, h⟩ := h
    obtain ⟨s, hs⟩ : ∃ s, outer.radices.length = s + 1 := by
      cases outer with
      | unit => exact absurd rfl hunit
      | base radix => exact ⟨0, rfl⟩
      | split n outer inner => exact ⟨outer.radices.length, rfl⟩
    rw [kinds, radices, size, List.count_append, count_flatten_replicate, count_flatten_replicate,
      ih h, List.length_cons, hs, Nat.add_sub_cancel, Nat.add_sub_cancel]
    have hcolumn : (some inner :: List.replicate inner.size none).count none = inner.size := by
      simp
    rw [hcolumn]
    ring

end Factorization

namespace Plan

/-- Unless it is stopped, a plan asks for as many butterflies of each radix and as many twiddles as
its radices tell. Every butterfly is over as many different slots below `n` as it has points, and
every twiddle is of a slot below `n`. -/
theorem requests_counted {n : ℕ} (hn : n ∈ Nat.smoothNumbers 6) (limit : Option ℕ) :
    ∃ f plan, Factorization.ofSize n = .ok f ∧ ofSize n limit = .ok plan ∧
      (plan.Stopped f limit ∨
        ((∃ order, plan.outcome = .ok order) ∧
          (∀ r : Radix, (plan.requests.map Request.kind).count (some r) =
            f.radices.count r.size * (n / r.size)) ∧
          (plan.requests.map Request.kind).count none = n * (f.radices.length - 1) ∧
          (∀ radix slots, .butterfly radix slots ∈ plan.requests →
            slots.length = radix.size ∧ slots.Nodup ∧ ∀ slot ∈ slots, slot < n) ∧
          ∀ slot angle, .twiddle slot angle ∈ plan.requests → slot < n)) := by
  obtain ⟨f, hf, rfl, -⟩ := Factorization.exists_ofSize hn
  have hproper := Factorization.proper_of_ofSize hf
  obtain ⟨plan, hplan, hstopped | hcomplete⟩ := ofSize_cases hf limit
  · exact ⟨f, plan, hf, hplan, Or.inl hstopped⟩
  refine ⟨f, plan, hf, hplan, Or.inr ⟨⟨_, hcomplete.outcome_eq⟩, fun r => ?_, ?_, ?_, ?_⟩⟩
  · rw [hcomplete.kinds_eq, Factorization.count_some_kinds hproper.exact]
  · rw [hcomplete.kinds_eq, Factorization.count_none_kinds hproper]
  · intro radix slots hmem
    obtain ⟨hnodup, hlength, hlt⟩ := hcomplete.fits _ hmem
    exact ⟨hlength, hnodup, hlt⟩
  · intro slot angle hmem
    exact (hcomplete.fits _ hmem).1

/-- Two levels of threes behind one of fours. -/
theorem requests_counted_thirtySix : ∃ plan, ofSize 36 = .ok plan ∧
    (plan.requests.map Request.kind).count (some .four) = 9 ∧
    (plan.requests.map Request.kind).count (some .three) = 24 ∧
    (plan.requests.map Request.kind).count none = 72 := by
  have hofSize : Factorization.ofSize 36 =
      .ok (.split 36 (.split 9 (.base .three) .three) .four) := by cbv
  have hsmooth := Factorization.mem_smoothNumbers_of_ofSize hofSize
  obtain ⟨f, plan, hf, hplan, hend⟩ := requests_counted hsmooth none
  obtain rfl := Except.ok.inj (hofSize.symm.trans hf)
  rcases hend with hstopped | ⟨-, hsome, hnone, -⟩
  · exact absurd hstopped (not_stopped (by decide) (by simp))
  · exact ⟨plan, hplan, hsome .four, hsome .three, hnone⟩

end Plan

end MixedRadix
