import MixedRadix.Proofs.Exact
import MixedRadix.Proofs.Plan

/-!
# Transforms in place, over any exact arithmetic

A planner may stand anywhere in the middle of a plan when the transform of some of its positions is
composed: their addresses may be any slots, in any order. The requests that are issued leave the
spectrum of the values at the old addresses at the new ones, which are the old ones in another
order, and nothing else is touched (`Planner.compose_transforms`).
-/

namespace MixedRadix

lemma Factorization.size_eq_and_exact_of_ofSize {n : ℕ} {f : Factorization}
    (h : ofSize n = .ok f) : f.size = n ∧ f.Exact := by
  rcases ofSize_cases n with ⟨-, f', hf', hsize, hexact⟩ | ⟨-, e, he⟩
  · obtain rfl : f' = f := Except.ok.inj (hf'.symm.trans h)
    exact ⟨hsize, hexact⟩
  · exact absurd (he.symm.trans h) (by simp)

namespace Planner

lemma ready_of_nodup {s : Planner} (hnodup : s.addresses.toList.Nodup) (hlimit : s.limit = none) :
    s.Ready := by
  refine ⟨fun p hp q hq heq => ?_, hlimit⟩
  simp only [slotOf, Array.getD_eq_getD_getElem?, hp, hq, Array.getElem?_eq_getElem,
    Option.getD_some] at heq
  exact (hnodup.getElem_inj_iff (i := p) (j := q)).1 heq

variable {K : Type*} [CommRing K] {χ : AddChar ℚ K} {s s' : Planner} {positions : List ℕ}
  {T : (ℕ → K) → ℕ → K}

/-- The addresses of the positions that were worked on are the old ones in another order. -/
lemma Works.perm (h : Works χ s s' positions T) (hs : s.Ready) (hcovers : s.Covers positions) :
    (positions.map s'.slotOf).Perm (positions.map s.slotOf) := by
  have hnodup {s : Planner} (hs : s.Ready) (hcovers : s.Covers positions) :
      (positions.map s.slotOf).Nodup :=
    hcovers.nodup.map_on fun p hp q hq =>
      hs.inj p (hcovers.lt_size p hp) q (hcovers.lt_size q hq)
  have hmem (s : Planner) (a : ℕ) : a ∈ positions.map s.slotOf ↔ a ∈ s.slots positions := by
    simp [slots]
  -- neither list repeats an address, and both have the same ones
  refine (List.perm_ext_iff_of_nodup (hnodup h.ready (hcovers.of_size h.size_eq))
    (hnodup hs hcovers)).2 fun a => ?_
  rw [hmem, hmem, h.slots_eq]

lemma Works.getElem?_off (h : Works χ s s' positions T) {p : ℕ} (hp : p ∉ positions) :
    s'.addresses[p]? = s.addresses[p]? := by
  have hslot := h.off p hp
  by_cases hlt : p < s.addresses.size
  · have hlt' : p < s'.addresses.size := h.size_eq ▸ hlt
    simpa [slotOf, hlt, hlt'] using hslot
  · have hlt' : ¬ p < s'.addresses.size := h.size_eq ▸ hlt
    rw [Array.getElem?_eq_none (by omega), Array.getElem?_eq_none (by omega)]

/-- Composing is a correct step in place. Over any commutative ring and any character that is
trivial on full turns, and from any planner with different addresses, the transform of some
different positions is planned. Its requests leave bin `k` of the values at the old addresses at the
new address of position `k` and change no slot besides; the addresses of other positions stay, and
those of the positions are exchanged among themselves. -/
theorem compose_transforms (hχ : χ 2 = 1) {n : ℕ} {f : Factorization}
    (hf : Factorization.ofSize n = .ok f) (hn : n < 2 ^ 62) {s : Planner}
    (hdistinct : s.addresses.toList.Nodup) (hlimit : s.limit = none) {positions : Array ℕ}
    (hsize : positions.size = n) (hnodup : positions.toList.Nodup)
    (hrange : ∀ p ∈ positions, p < s.addresses.size) :
    ∃ s' requests, (compose f positions).run.run s = (.ok (), s') ∧
      s'.requests.toList = s.requests.toList ++ requests ∧
      (∀ r ∈ requests, r.Fits (s.slots positions.toList)) ∧
      (∀ x : ℕ → K,
        (∀ k < n, Request.applyAll χ requests x (s'.slotOf (positions.getD k 0)) =
          ∑ j ∈ Finset.range n, x (s.slotOf (positions.getD j 0)) * χ (-2 * (j * k : ℕ) / n)) ∧
        ∀ slot ∉ s.slots positions.toList, Request.applyAll χ requests x slot = x slot) ∧
      (∀ p ∉ positions, s'.addresses[p]? = s.addresses[p]?) ∧
      (positions.toList.map s'.slotOf).Perm (positions.toList.map s.slotOf) := by
  obtain ⟨rfl, hexact⟩ := Factorization.size_eq_and_exact_of_ofSize hf
  have hs := ready_of_nodup hdistinct hlimit
  have hcovers : s.Covers positions.toList := ⟨hnodup, fun p hp => hrange p (by simpa using hp)⟩
  obtain ⟨_, s', hrun, hworks⟩ := compose_works hχ hexact hn hs hcovers hsize
  obtain ⟨requests, hrequests, hfits, happly⟩ := hworks.requests
  refine ⟨s', requests, hrun, hrequests, hfits, fun x => ⟨fun k hk => ?_, (happly x).1⟩, ?_,
    hworks.perm hs hcovers⟩
  · have hget (k : ℕ) : positions.toList.getD k 0 = positions.getD k 0 := by simp
    have hbin := (happly x).2 (fun j => x (s.slotOf (positions.getD j 0)))
      (fun j _ => by rw [hget]) k (by simpa [hsize] using hk)
    rwa [hget] at hbin
  · exact fun p hp => hworks.getElem?_off (by simpa using hp)

/-- Six of eight positions, at addresses in no order. -/
def shuffled : Planner :=
  { addresses := #[9, 3, 0, 7, 1, 5, 2, 8], requests := #[.butterfly .two [9, 4]] }

theorem compose_transforms_shuffled :
    ∃ s' requests, (compose (.split 6 (.base .two) .three) #[6, 1, 4, 0, 3, 2]).run.run shuffled =
        (.ok (), s') ∧
      s'.requests.toList = .butterfly .two [9, 4] :: requests ∧
      (∀ x : ℕ → ℂ, ∀ k < 6,
        Request.applyAll phase requests x (s'.slotOf (#[6, 1, 4, 0, 3, 2].getD k 0)) =
          ∑ j ∈ Finset.range 6, x (shuffled.slotOf (#[6, 1, 4, 0, 3, 2].getD j 0)) *
            phase (-2 * (j * k : ℕ) / (6 : ℕ))) ∧
      s'.addresses[5]? = some 5 := by
  have hf : Factorization.ofSize 6 = .ok (.split 6 (.base .two) .three) := by cbv
  have hsize : #[6, 1, 4, 0, 3, 2].size = 6 := rfl
  obtain ⟨s', requests, hrun, hrequests, -, happly, hoff, -⟩ :=
    compose_transforms phase_two hf (by decide) (s := shuffled) (by decide) rfl hsize (by decide)
      (by decide)
  exact ⟨s', requests, hrun, hrequests, fun x => (happly x).1, hoff 5 (by simp)⟩

end Planner

end MixedRadix
