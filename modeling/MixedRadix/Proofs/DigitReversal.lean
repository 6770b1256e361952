import MixedRadix.Proofs.Arrangement

/-!
# Plans, exactly

A plan that is not stopped ends with the addresses in digit-reversed order
(`Plan.outcome_eq_reverseDigits`), having asked for what its factorization lists
(`Plan.ofSize_cases`). In particular no map that planning makes of addresses ever fails to be a
bijection.
-/

namespace MixedRadix

lemma Planner.Injects.isBijective {s : Planner} {n : ℕ} (h : s.Injects n)
    (hsize : s.addresses.size = n) : Permutation.IsBijective s.addresses := by
  have hslot (p : ℕ) (hp : p < s.addresses.size) : s.addresses[p] = s.slotOf p := by
    simp [slotOf, hp]
  constructor
  · intro a ha
    obtain ⟨p, hp, rfl⟩ := List.getElem_of_mem ha
    rw [Array.length_toList] at hp
    rw [Array.getElem_toList, hslot p hp, hsize]
    exact h.lt p hp
  · refine List.nodup_iff_injective_getElem.2 fun p q heq => Fin.ext ?_
    have hp : p.1 < s.addresses.size := by simp
    have hq : q.1 < s.addresses.size := by simp
    refine h.inj p hp q hq ?_
    rw [← hslot p hp, ← hslot q hq]
    simpa using heq

namespace Plan

/-- Planning was stopped: by an angle that leaves the range of words, which takes at least `2 ^ 62`
points, or by a limit below the number of requests. -/
def Stopped (plan : Plan) (f : Factorization) (limit : Option ℕ) : Prop :=
  (plan.outcome = .error .overflow ∧ 2 ^ 62 ≤ f.size) ∨
    (plan.outcome = .error .requestLimit ∧ ∃ l, limit = some l ∧ l < f.kinds.length)

lemma not_stopped {plan : Plan} {f : Factorization} (hsize : f.size < 2 ^ 62) {limit : Option ℕ}
    (hlimit : ∀ l, limit = some l → f.kinds.length ≤ l) : ¬ plan.Stopped f limit := by
  rintro (⟨-, hle⟩ | ⟨-, l, hl, hlt⟩)
  · omega
  · have := hlimit l hl
    omega

/-- Planning came to its end, for some factorization. -/
structure Complete (plan : Plan) (f : Factorization) : Prop where
  outcome_eq : plan.outcome = .ok ⟨(Array.range f.size).map (reverseDigits f.radices)⟩
  bijective : Permutation.IsBijective ((Array.range f.size).map (reverseDigits f.radices))
  fits : ∀ r ∈ plan.requests, r.Fits {slot | slot < f.size}
  kinds_eq : plan.requests.map Request.kind = f.kinds

lemma ofSize_of_run {n : ℕ} {f : Factorization} (hf : Factorization.ofSize n = .ok f)
    {limit : Option ℕ} {result : Except Fault Unit} {s : Planner}
    (hrun : (Planner.compose f (Array.range n)).run.run { Planner.start n with limit } =
      (result, s)) :
    ofSize n limit =
      .ok ⟨s.requests.toList, result.bind fun _ => Permutation.ofMap s.addresses⟩ := by
  rw [ofSize_eq_of_limit hf, hrun]

/-- Whatever the limit, a plan is complete or was stopped. -/
theorem ofSize_cases {n : ℕ} {f : Factorization} (hf : Factorization.ofSize n = .ok f)
    (limit : Option ℕ) :
    ∃ plan, ofSize n limit = .ok plan ∧ (plan.Stopped f limit ∨ plan.Complete f) := by
  obtain ⟨rfl, hexact⟩ := Factorization.exact_of_ofSize hf
  have hslot {p : ℕ} (hp : p < f.size) :
      Planner.slotOf { Planner.start f.size with limit } p = p := slotOf_start hp
  have hinjects : Planner.Injects { Planner.start f.size with limit } f.size := by
    have hlt {p : ℕ} (hp : p < (Planner.start f.size).addresses.size) : p < f.size := by
      simpa [Planner.start] using hp
    constructor
    · intro p hp q hq heq
      rwa [hslot (hlt hp), hslot (hlt hq)] at heq
    · intro p hp
      rw [hslot (hlt hp)]
      exact hlt hp
  have hcovers : Planner.Covers { Planner.start f.size with limit } (Array.range f.size).toList :=
    ⟨by simp [List.nodup_range], fun p hp => by simpa [Planner.start] using hp⟩
  have hroom : (Planner.start f.size).requests.size + f.kinds.length ≤ f.kinds.length := by
    simp [Planner.start]
  cases Planner.compose_arranges hexact hinjects hcovers (by simp) hroom with
  | overflow hrun hangles =>
    refine ⟨_, ofSize_of_run hf hrun, Or.inl (Or.inl ⟨rfl, ?_⟩)⟩
    by_contra hlt
    exact hangles (Factorization.hasAngles_of_lt hexact (by omega))
  | refused hrun hlimit hlt =>
    exact ⟨_, ofSize_of_run hf hrun, Or.inl (Or.inr ⟨rfl, _, hlimit, hlt⟩)⟩
  | @done _ s hrun h =>
    have hsize : s.addresses.size = f.size := by simpa [Planner.start] using h.size_eq
    have hbijective := h.injects.isBijective hsize
    have haddresses : s.addresses = (Array.range f.size).map (reverseDigits f.radices) := by
      refine Array.ext (by simp [hsize]) fun k hk _ => ?_
      rw [hsize] at hk
      have hreverse : reverseDigits f.radices k < f.size :=
        Factorization.prod_radices hexact ▸
          reverseDigits_lt (fun d hd => Factorization.pos_of_mem_radices hd) k
      have hk' := h.slotOf_eq k (by simpa using hk)
      simpa [Planner.slotOf, hsize, hk, hslot, hreverse, Planner.start] using hk'
    obtain ⟨requests, hrequests, hfits, hkinds⟩ := h.requests
    rw [haddresses] at hbijective
    have hissued : s.requests.toList = requests := by simpa [Planner.start] using hrequests
    refine ⟨_, ofSize_of_run hf hrun, Or.inr ⟨?_, hbijective, ?_, ?_⟩⟩
    · rw [haddresses]
      exact if_pos hbijective
    · rwa [hissued]
    · rwa [hissued]

/-- A plan ends with the digit reversal of its radices, which is a bijection, unless it is
stopped. -/
theorem outcome_eq_reverseDigits {n : ℕ} (hn : n ∈ Nat.smoothNumbers 6) (limit : Option ℕ) :
    ∃ f plan, Factorization.ofSize n = .ok f ∧ ofSize n limit = .ok plan ∧
      (plan.Stopped f limit ∨
        (plan.outcome = .ok ⟨(Array.range n).map (reverseDigits f.radices)⟩ ∧
          Permutation.IsBijective ((Array.range n).map (reverseDigits f.radices)))) := by
  obtain ⟨f, hf, rfl, -⟩ := Factorization.exists_ofSize hn
  obtain ⟨plan, hplan, hstopped | hcomplete⟩ := ofSize_cases hf limit
  · exact ⟨f, plan, hf, hplan, Or.inl hstopped⟩
  · exact ⟨f, plan, hf, hplan, Or.inr ⟨hcomplete.outcome_eq, hcomplete.bijective⟩⟩

/-- Digits of three radices, with a limit that is just high enough. -/
theorem outcome_eq_reverseDigits_twentyFour : ∃ plan, ofSize 24 (some 74) = .ok plan ∧
    plan.outcome = .ok ⟨#[0, 6, 12, 18, 2, 8, 14, 20, 4, 10, 16, 22,
      1, 7, 13, 19, 3, 9, 15, 21, 5, 11, 17, 23]⟩ := by
  have hofSize : Factorization.ofSize 24 =
      .ok (.split 24 (.split 6 (.base .two) .three) .four) := by cbv
  have hsmooth := Factorization.mem_smoothNumbers_of_ofSize hofSize
  have hreversed : (Array.range 24).map (reverseDigits [4, 3, 2]) =
      #[0, 6, 12, 18, 2, 8, 14, 20, 4, 10, 16, 22,
        1, 7, 13, 19, 3, 9, 15, 21, 5, 11, 17, 23] := by cbv
  obtain ⟨f, plan, hf, hplan, hend⟩ := outcome_eq_reverseDigits hsmooth (some 74)
  obtain rfl := Except.ok.inj (hofSize.symm.trans hf)
  rcases hend with hstopped | ⟨houtcome, -⟩
  · refine absurd hstopped (not_stopped (by decide) fun l hl => ?_)
    obtain rfl := Option.some.inj hl
    decide
  · exact ⟨plan, hplan, hreversed ▸ houtcome⟩

end Plan

end MixedRadix
