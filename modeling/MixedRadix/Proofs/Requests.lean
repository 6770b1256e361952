import MixedRadix.Proofs.Exact
import MixedRadix.Proofs.Plan

/-!
# Plans carried out

Code for a plan does its butterflies as they are defined, and its rotations in one way or another.
In every arithmetic its results are those of `Fourier.transformed`, of which the way of rotating is
a parameter; over exact scalars they are the spectrum if rotations are multiplications
(`Fourier.transformed_ofComplex`).
-/

namespace MixedRadix

open ComplexPair (ofComplex)

section CarryOut

variable {R : Type} [Scalar R] (turn : Angle → ComplexPair R → ComplexPair R)

/-- What a request makes of complex values. -/
def Request.carryOut : Request → (ℕ → ComplexPair R) → ℕ → ComplexPair R
  | butterfly _ slots, f =>
    (slots.zip (ComplexPair.dft (slots.map f))).foldl (fun f p => Function.update f p.1 p.2) f
  | twiddle slot angle, f => Function.update f slot (turn angle (f slot))

/-- What several requests make of complex values, one after the other. -/
def Request.carryOutAll (requests : List Request) (f : ℕ → ComplexPair R) : ℕ → ComplexPair R :=
  requests.foldl (fun f r => r.carryOut turn f) f

lemma Request.carryOutAll_take_succ {requests : List Request} {c : ℕ} (hc : c < requests.length)
    (f : ℕ → ComplexPair R) :
    carryOutAll turn (requests.take (c + 1)) f =
      requests[c].carryOut turn (carryOutAll turn (requests.take c) f) := by
  rw [List.take_succ_eq_append_getElem hc, carryOutAll, List.foldl_append]
  rfl

/-- The results of a transform of `n` complex values, in their natural order. -/
def Fourier.transformed (n : ℕ) (f : ℕ → ComplexPair R) : ℕ → ComplexPair R :=
  match Plan.ofSize n with
  | .ok ⟨requests, .ok order⟩ => fun k => Request.carryOutAll turn requests f (order.image k)
  | _ => f

lemma Fourier.transformed_eq {n : ℕ} {plan : Plan} {order : Permutation}
    (hplan : Plan.ofSize n = .ok plan) (horder : plan.outcome = .ok order)
    (f : ℕ → ComplexPair R) (k : ℕ) :
    transformed turn n f k = Request.carryOutAll turn plan.requests f (order.image k) := by
  obtain ⟨requests, outcome⟩ := plan
  obtain rfl : outcome = .ok order := horder
  simp [transformed, hplan]

end CarryOut

/-! ### Sizes that have a plan -/

/-- There is a plan of that size, and all that it asks for can be done on as many slots. -/
def HasPlan (n : ℕ) : Prop :=
  ∃ plan order, Plan.ofSize n = .ok plan ∧ plan.outcome = .ok order ∧
    Permutation.IsBijective order.map ∧ order.size = n ∧
    ∀ r ∈ plan.requests, r.Fits {slot | slot < n}

/-- Plans have nothing to do with values, so that any character tells which sizes have one. -/
lemma hasPlan_of_hasAngles {n : ℕ} {f : Factorization} (hf : Factorization.ofSize n = .ok f)
    (hangles : f.HasAngles) : HasPlan n := by
  obtain ⟨plan, order, hplan, h⟩ :=
    Plan.exists_of_hasAngles (χ := (1 : AddChar ℚ ℤ)) rfl hf hangles
  exact ⟨plan, order, hplan, h.outcome_eq, h.bijective, h.size_eq, h.fits⟩

lemma hasPlan_of_mem_smoothNumbers {n : ℕ} (hn : n ∈ Nat.smoothNumbers 6) (hlt : n < 2 ^ 62) :
    HasPlan n := by
  obtain ⟨f, hf, hsize, hexact⟩ := Factorization.exists_ofSize hn
  exact hasPlan_of_hasAngles hf (Factorization.hasAngles_of_lt hexact (hsize ▸ hlt))

lemma hasPlan_of_outcome {n : ℕ} {plan : Plan} {order : Permutation}
    (hplan : Plan.ofSize n = .ok plan) (horder : plan.outcome = .ok order) : HasPlan n := by
  obtain ⟨f, hf, hangles⟩ := Plan.hasAngles_of_outcome hplan horder
  exact hasPlan_of_hasAngles hf hangles

/-! ### Exact rotations -/

/-- Rotations are multiplications. -/
def IsExactTurn (turn : Angle → ComplexPair ℝ → ComplexPair ℝ) : Prop :=
  ∀ angle z, angle.den < 2 ^ 62 → turn angle (ofComplex z) = ofComplex (phase angle.halfTurns * z)

variable {turn : Angle → ComplexPair ℝ → ComplexPair ℝ}

lemma Request.carryOut_ofComplex (hturn : IsExactTurn turn) {slots : Set ℕ} {r : Request}
    (hr : r.Fits slots) (f : ℕ → ℂ) :
    r.carryOut turn (fun i => ofComplex (f i)) = fun i => ofComplex (r.apply phase f i) := by
  cases r with
  | butterfly radix listed =>
    obtain ⟨hnodup, hlength, -⟩ := hr
    rw [carryOut, map_eq_map_getD, hlength, ComplexPair.dft_ofComplex,
      foldl_update_butterfly ofComplex hnodup hlength]
  | twiddle slot angle =>
    funext i
    rw [carryOut, hturn angle (f slot) hr.2]
    by_cases hi : i = slot
    · subst hi
      simp [apply]
    · simp [apply, hi]

lemma Request.carryOutAll_ofComplex (hturn : IsExactTurn turn) {slots : Set ℕ}
    {requests : List Request} (h : ∀ r ∈ requests, r.Fits slots) (f : ℕ → ℂ) :
    carryOutAll turn requests (fun i => ofComplex (f i)) =
      fun i => ofComplex (applyAll phase requests f i) := by
  induction requests generalizing f with
  | nil => rfl
  | cons r requests ih =>
    rw [carryOutAll, List.foldl_cons, carryOut_ofComplex hturn (h r (by simp))]
    exact ih (fun r' hr' => h r' (by simp [hr'])) _

/-- Over exact scalars, the results are the spectrum. -/
theorem Fourier.transformed_ofComplex (hturn : IsExactTurn turn) {n : ℕ}
    (hn : n ∈ Nat.smoothNumbers 6) (hlt : n < 2 ^ 62) (f : ℕ → ℂ) {k : ℕ} (hk : k < n) :
    transformed turn n (fun i => ofComplex (f i)) k = ofComplex (bin phase n f k) := by
  obtain ⟨plan, order, hplan, h⟩ := Plan.exists_ofSize phase_two hn hlt
  rw [transformed_eq turn hplan h.outcome_eq, Request.carryOutAll_ofComplex hturn h.fits]
  exact congrArg ofComplex (h.apply_eq f k hk)

end MixedRadix
