import MixedRadix.Proofs.Plan
import Mathlib.Algebra.BigOperators.Group.List.Basic

/-!
# Where planning leaves addresses, and what it asks for

Addresses move only where a split relabels them. Followed through all levels, position `k` of a
transform ends up with the address of the position whose digits are those of `k` in reverse order
(`reverseDigits`). The requests are issued in a fixed sequence of kinds (`Factorization.kinds`),
each of them over different addresses. This is shown for every planner, however many requests it
accepts and however large the size is: planning comes to its end in this way, or stops at a request
that is refused or at an angle out of range (`Planner.Ends`), and at nothing else.
-/

namespace MixedRadix

/-- The digits of a number in a mixed radix, which is listed from the least significant digit on,
put together in reverse order. -/
def reverseDigits : List ℕ → ℕ → ℕ
  | [], _ => 0
  | d :: ds, k => k % d * ds.prod + reverseDigits ds (k / d)

lemma reverseDigits_lt {ds : List ℕ} (h : ∀ d ∈ ds, 0 < d) (k : ℕ) :
    reverseDigits ds k < ds.prod := by
  induction ds generalizing k with
  | nil => exact Nat.one_pos
  | cons d ds ih =>
    have hdigit : k % d < d := Nat.mod_lt k (h d (by simp))
    have hrest := ih (fun e he => h e (by simp [he])) (k / d)
    rw [reverseDigits, List.prod_cons]
    calc k % d * ds.prod + reverseDigits ds (k / d)
      _ < k % d * ds.prod + ds.prod := by omega
      _ = (k % d + 1) * ds.prod := by ring
      _ ≤ d * ds.prod := Nat.mul_le_mul_right _ hdigit

lemma length_flatten_replicate {α : Type} (n : ℕ) (l : List α) :
    (List.replicate n l).flatten.length = n * l.length := by
  rw [List.length_flatten, List.map_replicate, List.sum_replicate, smul_eq_mul]

/-- What is asked for, slots and angle apart: a butterfly of some radix, or else a twiddle. -/
def Request.kind : Request → Option Radix
  | butterfly radix _ => some radix
  | twiddle _ _ => none

namespace Factorization

/-- The kinds of the requests of a transform, in their order: those of each column of a split, with
a twiddle for every result, and then those of each row. -/
def kinds : Factorization → List (Option Radix)
  | unit => []
  | base radix => [some radix]
  | split _ outer inner =>
    (List.replicate outer.size (some inner :: List.replicate inner.size none)).flatten ++
      (List.replicate inner.size outer.kinds).flatten

lemma length_kinds_split (n : ℕ) (outer : Factorization) (inner : Radix) :
    (split n outer inner).kinds.length =
      outer.size * (inner.size + 1) + inner.size * outer.kinds.length := by
  rw [kinds, List.length_append, length_flatten_replicate, length_flatten_replicate,
    List.length_cons, List.length_replicate]

lemma pos_of_mem_radices {f : Factorization} {d : ℕ} (h : d ∈ f.radices) : 0 < d := by
  induction f with
  | unit => simp [radices] at h
  | base radix =>
    obtain rfl : d = radix.size := by simpa [radices] using h
    exact Nat.lt_of_lt_of_le Nat.two_pos radix.two_le_size
  | split n outer inner ih =>
    rcases List.mem_cons.1 h with rfl | h
    · exact Nat.lt_of_lt_of_le Nat.two_pos inner.two_le_size
    · exact ih h

lemma prod_radices {f : Factorization} (h : f.Exact) : f.radices.prod = f.size := by
  induction f with
  | unit => rfl
  | base radix => simp [radices, size]
  | split n outer inner ih =>
    obtain ⟨rfl, h⟩ := h
    rw [radices, List.prod_cons, ih h, size, mul_comm]

end Factorization

/-- A ratio with a denominator other than zero fails by leaving the range of words. -/
lemma Angle.eq_overflow_of_ofRatio {p q : ℤ} {e : Fault} (hq : q ≠ 0)
    (h : Angle.ofRatio p q = .error e) : e = .overflow := by
  rw [Angle.ofRatio, dif_neg hq] at h
  split at h
  · cases h
    rfl
  · dsimp only at h
    split at h <;> cases h
    rfl

namespace Planner

/-! ### Ways to end -/

/-- A computation comes to its end, and `Q` holds of its result and the planner behind it; or it
stops at an angle that leaves the range of words, unless they are all `inRange`; or it stops because
the planner does not accept `count` requests. -/
inductive Ends {α : Type} (inRange : Prop) (count : ℕ) (s : Planner) (x : Planning α)
    (Q : α → Planner → Prop) : Prop where
  | done {a : α} {s' : Planner} (hrun : x.run.run s = (.ok a, s')) (h : Q a s')
  | overflow {s' : Planner} (hrun : x.run.run s = (.error .overflow, s')) (h : ¬ inRange)
  | refused {s' : Planner} {l : ℕ} (hrun : x.run.run s = (.error .requestLimit, s'))
    (hlimit : s.limit = some l) (hlt : l < count)

lemma Plans.ends {α : Type} {s : Planner} {x : Planning α} {Q : α → Planner → Prop}
    (h : Plans s x Q) (inRange : Prop) (count : ℕ) : Ends inRange count s x Q := by
  obtain ⟨a, s', hrun, hq⟩ := h
  exact .done hrun hq

namespace Ends

variable {α β : Type} {inRange inRange' : Prop} {count : ℕ} {s : Planner} {x : Planning α}
  {Q Q' : α → Planner → Prop}

lemma mono (h : Ends inRange count s x Q) (hQ : ∀ a s', Q a s' → Q' a s') :
    Ends inRange count s x Q' := by
  cases h with
  | done hrun h => exact .done hrun (hQ _ _ h)
  | overflow hrun h => exact .overflow hrun h
  | refused hrun hlimit hlt => exact .refused hrun hlimit hlt

lemma restrict (h : Ends inRange count s x Q) (hrange : inRange' → inRange) :
    Ends inRange' count s x Q := by
  cases h with
  | done hrun h => exact .done hrun h
  | overflow hrun h => exact .overflow hrun fun h' => h (hrange h')
  | refused hrun hlimit hlt => exact .refused hrun hlimit hlt

lemma bind {f : α → Planning β} {P : β → Planner → Prop} (h : Ends inRange count s x Q)
    (hf : ∀ a s', Q a s' → s'.limit = s.limit ∧ Ends inRange count s' (f a) P) :
    Ends inRange count s (x >>= f) P := by
  cases h with
  | done hrun h =>
    obtain ⟨hlimit, hends⟩ := hf _ _ h
    cases hends with
    | done hrun' h' => exact .done ((run_bind_of_ok hrun).trans hrun') h'
    | overflow hrun' h' => exact .overflow ((run_bind_of_ok hrun).trans hrun') h'
    | refused hrun' hlimit' hlt =>
      exact .refused ((run_bind_of_ok hrun).trans hrun') (hlimit ▸ hlimit') hlt
  | overflow hrun h => exact .overflow (run_bind_of_error hrun) h
  | refused hrun hlimit hlt => exact .refused (run_bind_of_error hrun) hlimit hlt

/-- Sequencing with a computation that only reads. -/
lemma read {a : α} {f : α → Planning β} {P : β → Planner → Prop}
    (h : Plans s x fun a' s' => a' = a ∧ s' = s) (hf : Ends inRange count s (f a) P) :
    Ends inRange count s (x >>= f) P := by
  refine (h.ends inRange count).bind ?_
  rintro _ _ ⟨rfl, rfl⟩
  exact ⟨rfl, hf⟩

/-- A loop with an invariant that says how many rounds are done. -/
lemma forM {xs : List α} {f : α → Planning Unit} {I : ℕ → Planner → Prop} (h0 : I 0 s)
    (hlimit : ∀ i s', I i s' → s'.limit = s.limit)
    (hstep : ∀ i (hi : i < xs.length) s, I i s →
      Ends inRange count s (f xs[i]) fun _ s' => I (i + 1) s') :
    Ends inRange count s (xs.forM f) fun _ s' => I xs.length s' := by
  induction xs generalizing s I with
  | nil => exact .done rfl h0
  | cons x xs ih =>
    refine (hstep 0 (by simp) s h0).bind fun _ s₁ h₁ => ⟨hlimit 1 s₁ h₁, ?_⟩
    refine ih (I := fun i => I (i + 1)) h₁ ?_ ?_
    · intro i s' hs'
      rw [hlimit _ s' hs', hlimit 1 s₁ h₁]
    · intro i hi s' hs'
      exact hstep (i + 1) (by simpa using hi) s' hs'

lemma forBelow {n : ℕ} {f : ℕ → Planning Unit} {I : ℕ → Planner → Prop} (h0 : I 0 s)
    (hlimit : ∀ i s', I i s' → s'.limit = s.limit)
    (hstep : ∀ i < n, ∀ s, I i s → Ends inRange count s (f i) fun _ s' => I (i + 1) s') :
    Ends inRange count s (Planner.forBelow n f) fun _ s' => I n s' := by
  rw [forBelow_eq_forM]
  have hloop : Ends inRange count s ((List.range n).forM f) fun _ s' =>
      I (List.range n).length s' :=
    forM h0 hlimit fun i hi s hs => by simpa using hstep i (by simpa using hi) s hs
  simpa using hloop

/-- An angle is computed, or leaves the range of words. -/
lemma ofRatio {p q : ℤ} (hq : q ≠ 0) (hrange : inRange → ∃ angle, Angle.ofRatio p q = .ok angle) :
    Ends inRange count s (MonadExcept.ofExcept (Angle.ofRatio p q)) fun angle s' =>
      Angle.ofRatio p q = .ok angle ∧ s' = s := by
  cases h : Angle.ofRatio p q with
  | ok angle => exact .done rfl ⟨rfl, rfl⟩
  | error e =>
    obtain rfl := Angle.eq_overflow_of_ofRatio hq h
    refine .overflow rfl fun hin => ?_
    obtain ⟨angle, hangle⟩ := hrange hin
    rw [h] at hangle
    cases hangle

end Ends

/-! ### Arrangements -/

/-- All positions have addresses below `n`, and no two of them the same. -/
structure Injects (s : Planner) (n : ℕ) : Prop where
  inj : ∀ p < s.addresses.size, ∀ q < s.addresses.size, s.slotOf p = s.slotOf q → p = q
  lt : ∀ p < s.addresses.size, s.slotOf p < n

/-- The second planner comes from the first one by requests of some kinds, over different slots
below `n`. Among the addresses only those of some positions have changed: index `k` has the address
that index `σ k` had. -/
structure Arranges (n : ℕ) (s s' : Planner) (positions : List ℕ) (σ : ℕ → ℕ)
    (kinds : List (Option Radix)) : Prop where
  injects : s'.Injects n
  limit_eq : s'.limit = s.limit
  size_eq : s'.addresses.size = s.addresses.size
  off : ∀ p ∉ positions, s'.slotOf p = s.slotOf p
  slotOf_eq : ∀ k < positions.length,
    s'.slotOf (positions.getD k 0) = s.slotOf (positions.getD (σ k) 0)
  requests : ∃ requests, s'.requests.toList = s.requests.toList ++ requests ∧
    (∀ r ∈ requests, r.Fits {slot | slot < n}) ∧ requests.map Request.kind = kinds

variable {n r₁ count : ℕ} {inRange : Prop} {s s' s'' : Planner} {positions : List ℕ} {all : Array ℕ}
  {σ τ : ℕ → ℕ} {kinds kinds' : List (Option Radix)} {inner : Radix}

namespace Arranges

lemma refl (hs : s.Injects n) (positions : List ℕ) :
    Arranges n s s positions (fun k => k) [] :=
  ⟨hs, rfl, rfl, fun _ _ => rfl, fun _ _ => rfl, [], by simp, by simp, rfl⟩

lemma congr (h : Arranges n s s' positions σ kinds) (hσ : ∀ k < positions.length, σ k = τ k) :
    Arranges n s s' positions τ kinds := by
  refine ⟨h.injects, h.limit_eq, h.size_eq, h.off, fun k hk => ?_, h.requests⟩
  rw [h.slotOf_eq k hk, hσ k hk]

lemma trans (h : Arranges n s s' positions σ kinds) (h' : Arranges n s' s'' positions τ kinds')
    (hτ : ∀ k < positions.length, τ k < positions.length) :
    Arranges n s s'' positions (fun k => σ (τ k)) (kinds ++ kinds') := by
  obtain ⟨requests, hrequests, hfits, hkinds⟩ := h.requests
  obtain ⟨requests', hrequests', hfits', hkinds'⟩ := h'.requests
  refine ⟨h'.injects, h'.limit_eq.trans h.limit_eq, h'.size_eq.trans h.size_eq,
    fun p hp => (h'.off p hp).trans (h.off p hp), fun k hk => ?_, requests ++ requests',
    by rw [hrequests', hrequests, List.append_assoc], fun r hr => ?_,
    by rw [List.map_append, hkinds, hkinds']⟩
  · rw [h'.slotOf_eq k hk, h.slotOf_eq (τ k) (hτ k hk)]
  · rcases List.mem_append.1 hr with hr | hr
    · exact hfits r hr
    · exact hfits' r hr

lemma size_requests (h : Arranges n s s' positions σ kinds) :
    s'.requests.size = s.requests.size + kinds.length := by
  obtain ⟨requests, hrequests, -, rfl⟩ := h.requests
  rw [← Array.length_toList, hrequests, List.length_append, Array.length_toList, List.length_map]

/-- To arrange some of the positions is to arrange all of them, where the others keep their
addresses. The index among all is `g i` for index `i` among some. -/
lemma lift {part : List ℕ} (hcovers : s.Covers positions) (h : Arranges n s s' part τ kinds)
    (g : ℕ → ℕ) (hg : ∀ i < part.length, g i < positions.length)
    (hpart : ∀ i < part.length, part.getD i 0 = positions.getD (g i) 0)
    (hτ : ∀ i < part.length, τ i < part.length) (hσ : ∀ i < part.length, σ (g i) = g (τ i))
    (hσ' : ∀ k < positions.length, (∀ i < part.length, g i ≠ k) → σ k = k) :
    Arranges n s s' positions σ kinds := by
  have hmem : ∀ p ∈ part, ∃ i < part.length, p = positions.getD (g i) 0 := by
    intro p hp
    obtain ⟨i, hi, rfl⟩ := List.getElem_of_mem hp
    exact ⟨i, hi, by rw [← hpart i hi, List.getD_eq_getElem _ _ hi]⟩
  refine ⟨h.injects, h.limit_eq, h.size_eq, fun p hp => h.off p fun hpart' => ?_, fun k hk => ?_,
    h.requests⟩
  · obtain ⟨i, hi, rfl⟩ := hmem p hpart'
    exact hp (getD_mem (hg i hi))
  · by_cases hk' : ∃ i < part.length, g i = k
    · obtain ⟨i, hi, rfl⟩ := hk'
      rw [hσ i hi, ← hpart i hi, ← hpart (τ i) (hτ i hi)]
      exact h.slotOf_eq i hi
    · have hne : ∀ i < part.length, g i ≠ k := fun i hi e => hk' ⟨i, hi, e⟩
      rw [hσ' k hk hne]
      refine h.off _ fun hpart' => ?_
      obtain ⟨i, hi, heq⟩ := hmem _ hpart'
      exact hne i hi ((hcovers.getD_inj (hg i hi) hk).1 heq.symm)

end Arranges

/-! ### Requests -/

/-- A request is added, or refused. -/
lemma ends_issue (hs : s.Injects n) {r : Request} (hfits : r.Fits {slot | slot < n})
    (hroom : s.requests.size < count) (positions : List ℕ) :
    Ends inRange count s (issue r) fun _ s' =>
      Arranges n s s' positions (fun k => k) [r.kind] := by
  have hissue : (issue r).run.run s = (if s.accepts then
      modify fun s => { s with requests := s.requests.push r } else throw .requestLimit :
        Planning Unit).run.run s := rfl
  cases haccepts : s.accepts with
  | true =>
    refine .done (hissue.trans (by rw [if_pos haccepts]; rfl)) ?_
    exact ⟨⟨hs.inj, hs.lt⟩, rfl, rfl, fun _ _ => rfl, fun _ _ => rfl, [r], by simp,
      by simpa using hfits, rfl⟩
  | false =>
    obtain ⟨l, hlimit, hl⟩ : ∃ l, s.limit = some l ∧ l ≤ s.requests.size := by
      cases hlimit : s.limit with
      | none => simp [accepts, hlimit] at haccepts
      | some l => exact ⟨l, rfl, by simpa [accepts, hlimit] using haccepts⟩
    exact .refused (hissue.trans (by rw [if_neg (by simp [haccepts])]; rfl)) hlimit
      (Nat.lt_of_le_of_lt hl hroom)

lemma ends_butterfly (hs : s.Injects n) {column : List ℕ} (hcovers : s.Covers column)
    {radix : Radix} (hlength : column.length = radix.size) (hroom : s.requests.size < count)
    (positions : List ℕ) :
    Ends inRange count s (butterfly radix column) fun _ s' =>
      Arranges n s s' positions (fun k => k) [some radix] := by
  refine .read (Plans.mapM (g := s.slotOf) fun p hp => plans_address (hcovers.lt_size p hp)) ?_
  have hnodup : (column.map s.slotOf).Nodup := hcovers.nodup.map_on fun p hp q hq =>
    hs.inj p (hcovers.lt_size p hp) q (hcovers.lt_size q hq)
  have hfits : (Request.butterfly radix (column.map s.slotOf)).Fits {slot | slot < n} := by
    refine ⟨hnodup, by simpa using hlength, fun a ha => ?_⟩
    obtain ⟨p, hp, rfl⟩ := List.mem_map.1 ha
    exact hs.lt p (hcovers.lt_size p hp)
  exact ends_issue hs hfits hroom positions

/-- The twiddles of a column. -/
lemma ends_twiddles (hs : s.Injects n) {column : List ℕ} (hcovers : s.Covers column) {i m : ℕ}
    (hm : m ≠ 0) (hangles : inRange → ∀ j < column.length,
      ∃ angle, Angle.ofRatio (-2 * Int.ofNat (i * j)) (Int.ofNat m) = .ok angle)
    (hroom : s.requests.size + column.length ≤ count) (positions : List ℕ) :
    Ends inRange count s (column.zipIdx.forM fun (position, j) => do
      let angle ← MonadExcept.ofExcept (Angle.ofRatio (-2 * Int.ofNat (i * j)) (Int.ofNat m))
      issue (.twiddle (← address position) angle)) fun _ s' =>
      Arranges n s s' positions (fun k => k) (List.replicate column.length none) := by
  refine (Ends.forM (I := fun c s' =>
    Arranges n s s' positions (fun k => k) (List.replicate c none)) (.refl hs positions)
    (fun _ _ h => h.limit_eq) ?_).mono fun _ s' h => by simpa using h
  intro c hc s₁ h₁
  have hc' : c < column.length := by simpa using hc
  have hzip : column.zipIdx[c] = (column.getD c 0, c) := by
    rw [List.getElem_zipIdx, List.getD_eq_getElem _ _ hc', Nat.zero_add]
  have hp : column.getD c 0 < s₁.addresses.size := h₁.size_eq ▸ hcovers.lt_size _ (getD_mem hc')
  rw [hzip, List.replicate_succ']
  refine (Ends.ofRatio (by simpa using hm) fun hin => hangles hin c hc').bind ?_
  rintro angle s' ⟨hangle, hs'⟩
  obtain rfl : s₁ = s' := hs'.symm
  have hfits : (Request.twiddle (s₁.slotOf (column.getD c 0)) angle).Fits {slot | slot < n} :=
    ⟨h₁.injects.lt _ hp, Angle.den_lt_of_ofRatio hangle⟩
  have hroom₁ : s₁.requests.size < count := by
    rw [h₁.size_requests, List.length_replicate]
    omega
  refine ⟨rfl, .read (plans_address hp) ((ends_issue h₁.injects hfits hroom₁ positions).mono ?_)⟩
  exact fun _ s₂ h₂ => h₁.trans h₂ fun _ hk => hk

lemma ends_column (hs : s.Injects n) (hcovers : s.Covers all.toList)
    (hsize : all.size = r₁ * inner.size) {i : ℕ} (hi : i < r₁)
    (hangles : inRange → ∀ j < inner.size, ∃ angle,
      Angle.ofRatio (-2 * Int.ofNat (i * j)) (Int.ofNat (r₁ * inner.size)) = .ok angle)
    (hroom : s.requests.size + (inner.size + 1) ≤ count) :
    Ends inRange count s (column (r₁ * inner.size) r₁ inner all i) fun _ s' =>
      Arranges n s s' all.toList (fun k => k) (some inner :: List.replicate inner.size none) := by
  have hlength : (columnOf all r₁ inner.size i).length = inner.size := by simp [columnOf]
  have hgroup := covers_columnOf hcovers hsize hi
  have hpos : r₁ * inner.size ≠ 0 := by
    have := inner.two_le_size
    exact Nat.mul_ne_zero (by omega) (by omega)
  refine .read (Plans.mapM (g := fun j => all.toList.getD (r₁ * j + i) 0)
    fun j hj => plans_pick ?_) ?_
  · rw [hsize]
    exact column_index_lt hi (List.mem_range.1 hj)
  refine (ends_butterfly hs hgroup hlength (by omega) all.toList).bind
    fun _ s₁ h₁ => ⟨h₁.limit_eq, ?_⟩
  have hroom₁ : s₁.requests.size + (columnOf all r₁ inner.size i).length ≤ count := by
    rw [h₁.size_requests, List.length_singleton]
    omega
  refine (ends_twiddles h₁.injects (hgroup.of_size h₁.size_eq) hpos
    (fun hin j hj => hangles hin j (hlength ▸ hj)) hroom₁ all.toList).mono fun _ s₂ h₂ => ?_
  have h₁₂ := h₁.trans h₂ fun _ hk => hk
  rwa [hlength] at h₁₂

lemma room_of_round {c rounds : ℕ} (hc : c < rounds) (each : ℕ) :
    c * each + each ≤ rounds * each := by
  rw [← Nat.succ_mul]
  exact Nat.mul_le_mul_right each hc

/-- All columns, one after the other. -/
lemma ends_columns (hs : s.Injects n) (hcovers : s.Covers all.toList)
    (hsize : all.size = r₁ * inner.size)
    (hangles : inRange → ∀ i < r₁, ∀ j < inner.size, ∃ angle,
      Angle.ofRatio (-2 * Int.ofNat (i * j)) (Int.ofNat (r₁ * inner.size)) = .ok angle)
    (hroom : s.requests.size + r₁ * (inner.size + 1) ≤ count) :
    Ends inRange count s (forBelow r₁ (column (r₁ * inner.size) r₁ inner all)) fun _ s' =>
      Arranges n s s' all.toList (fun k => k)
        (List.replicate r₁ (some inner :: List.replicate inner.size none)).flatten := by
  refine Ends.forBelow (I := fun c s' => Arranges n s s' all.toList (fun k => k)
    (List.replicate c (some inner :: List.replicate inner.size none)).flatten)
    (.refl hs _) (fun _ _ h => h.limit_eq) ?_
  intro c hc s₁ h₁
  have hroom₁ : s₁.requests.size + (inner.size + 1) ≤ count := by
    have hrounds := room_of_round hc (inner.size + 1)
    rw [h₁.size_requests, length_flatten_replicate, List.length_cons,
      List.length_replicate]
    omega
  refine (ends_column h₁.injects (hcovers.of_size h₁.size_eq) hsize hc
    (fun hin => hangles hin c hc) hroom₁).mono fun _ s₂ h₂ => ?_
  rw [List.replicate_succ', List.flatten_append, List.flatten_singleton]
  exact h₁.trans h₂ fun _ hk => hk

/-- To arrange a row is to arrange all positions, where those of other rows keep their addresses. -/
lemma Arranges.of_row (hr : 0 < r₁) (hcovers : s.Covers all.toList) {c : ℕ}
    (hend : r₁ * c + r₁ ≤ all.size) (hσ : ∀ k < r₁, σ k < r₁)
    (h : Arranges n s s' (all.extract (r₁ * c) (r₁ * c + r₁)).toList σ kinds) :
    Arranges n s s' all.toList (fun k => if k / r₁ = c then r₁ * c + σ (k % r₁) else k) kinds := by
  have hlength : (all.extract (r₁ * c) (r₁ * c + r₁)).toList.length = r₁ := by
    rw [Array.length_toList, size_extract_row hend]
  refine h.lift hcovers (fun j => r₁ * c + j) ?_ ?_ ?_ ?_ ?_
  · intro j hj
    rw [hlength] at hj
    rw [Array.length_toList]
    omega
  · intro j hj
    exact getD_extract hend (hlength ▸ hj)
  · intro j hj
    rw [hlength] at hj ⊢
    exact hσ j hj
  · intro j hj
    rw [hlength] at hj
    rw [if_pos (mul_add_div_mod hj c).1, (mul_add_div_mod hj c).2]
  · intro k _ hne
    refine if_neg fun hdiv => hne (k % r₁) (by rw [hlength]; exact Nat.mod_lt k hr) ?_
    rw [← hdiv]
    exact Nat.div_add_mod k r₁

/-- All rows, one after the other, if each of them is arranged in the same way. -/
lemma ends_rows {transform : Array ℕ → Planning Unit} (hs : s.Injects n)
    (hcovers : s.Covers all.toList) {r₂ : ℕ} (hsize : all.size = r₁ * r₂) (hr : 0 < r₁)
    (hσ : ∀ k < r₁, σ k < r₁) (hroom : s.requests.size + r₂ * kinds.length ≤ count)
    (htransform : ∀ s (part : Array ℕ), s.Injects n → s.Covers part.toList → part.size = r₁ →
      s.requests.size + kinds.length ≤ count →
      Ends inRange count s (transform part) fun _ s' => Arranges n s s' part.toList σ kinds) :
    Ends inRange count s (forBelow r₂ fun i => do transform (← row r₁ all i)) fun _ s' =>
      Arranges n s s' all.toList (fun k => r₁ * (k / r₁) + σ (k % r₁))
        (List.replicate r₂ kinds).flatten := by
  refine (Ends.forBelow (I := fun c s' => Arranges n s s' all.toList
    (fun k => if k / r₁ < c then r₁ * (k / r₁) + σ (k % r₁) else k)
    (List.replicate c kinds).flatten) ?_ (fun _ _ h => h.limit_eq) ?_).mono fun _ s' h => ?_
  · exact (Arranges.refl hs _).congr fun k _ => by simp
  · intro c hc s₁ h₁
    have hend := row_end_le hsize hc
    have hcovers₁ := hcovers.of_size h₁.size_eq
    have hroom₁ : s₁.requests.size + kinds.length ≤ count := by
      have hrounds := room_of_round hc kinds.length
      rw [h₁.size_requests, length_flatten_replicate]
      omega
    refine .read (plans_row hend) ((htransform s₁ _ h₁.injects (hcovers₁.extract _ _)
      (size_extract_row hend) hroom₁).mono fun _ s₂ h₂ => ?_)
    rw [List.replicate_succ', List.flatten_append, List.flatten_singleton]
    refine (h₁.trans (h₂.of_row hr hcovers₁ hend hσ) fun k hk => ?_).congr fun k hk => ?_
    · have := hσ _ (Nat.mod_lt k hr)
      rw [Array.length_toList] at hk ⊢
      split <;> omega
    · -- row `c` is still as it was when the rows before it are done
      have hrow := mul_add_div_mod (hσ _ (Nat.mod_lt k hr)) c
      by_cases hkc : k / r₁ = c
      · rw [if_pos hkc, hrow.1, if_neg (Nat.lt_irrefl c), if_pos (by omega), hkc]
      · rw [if_neg hkc]
        by_cases hlt : k / r₁ < c
        · rw [if_pos hlt, if_pos (by omega)]
        · rw [if_neg hlt, if_neg (by omega)]
  · refine h.congr fun k hk => if_pos (Nat.div_lt_of_lt_mul ?_)
    rwa [Array.length_toList, hsize] at hk

/-! ### Relabelling -/

/-- Positions that exchange their addresses along a bijection are arranged by it. -/
lemma Relabels.arranges (hs : s.Injects n) (hcovers : s.Covers all.toList) {order : Permutation}
    (horder : Permutation.IsBijective order.map) (hsize : order.size = all.size)
    (h : Relabels s s' all fun i => s.peek all (order.image i)) :
    Arranges n s s' all.toList order.image [] := by
  -- limits play no part in whether addresses are different
  have hready : Ready { s with limit := none } := ⟨hs.inj, rfl⟩
  have hunlimited : Relabels { s with limit := none } { s' with limit := none } all
      fun i => peek { s with limit := none } all (order.image i) :=
    ⟨h.requests_eq, rfl, h.size_eq, h.off, h.peek_eq⟩
  have hworks : Works (1 : AddChar ℚ ℤ) { s with limit := none } { s' with limit := none }
      all.toList fun f k => f (order.image k) :=
    hunlimited.works hready ⟨hcovers.nodup, hcovers.lt_size⟩ horder hsize
  have himage {k : ℕ} (hk : k < all.size) : order.image k < all.size :=
    hsize ▸ Permutation.image_lt horder (hsize ▸ hk)
  have hslot : ∀ k < all.toList.length,
      s'.slotOf (all.toList.getD k 0) = s.slotOf (all.toList.getD (order.image k) 0) := by
    intro k hk
    rw [Array.length_toList] at hk
    rw [← Planner.peek_eq hk, h.peek_eq]
    exact Planner.peek_eq (himage hk)
  refine ⟨⟨hworks.ready.inj, fun p hp => ?_⟩, h.limit_eq, h.size_eq, h.off, hslot, [],
    by simp [h.requests_eq], by simp, rfl⟩
  by_cases hmem : p ∈ all.toList
  · obtain ⟨k, hk, rfl⟩ := List.getElem_of_mem hmem
    rw [← List.getD_eq_getElem _ 0, hslot k hk]
    refine hs.lt _ (hcovers.lt_size _ (getD_mem ?_))
    simpa using himage (by simpa using hk)
  · rw [h.off p hmem]
    exact hs.lt p (h.size_eq ▸ hp)

/-! ### The whole transform -/

/-- The transform of a factorization leaves position `k` with the address of the position whose
digits are those of `k` in reverse order, and its requests are of the kinds of the factorization. -/
theorem compose_arranges {f : Factorization} (hexact : f.Exact) (hs : s.Injects n)
    (hcovers : s.Covers all.toList) (hsize : all.size = f.size)
    (hroom : s.requests.size + f.kinds.length ≤ count) :
    Ends f.HasAngles count s (compose f all) fun _ s' =>
      Arranges n s s' all.toList (reverseDigits f.radices) f.kinds := by
  induction f generalizing s all with
  | unit =>
    refine (Plans.pure ((Arranges.refl hs _).congr fun k hk => ?_)).ends _ _
    simpa [hsize, Factorization.size, Factorization.radices, reverseDigits] using hk
  | base radix =>
    refine (ends_butterfly hs hcovers (by simpa [Factorization.size] using hsize) hroom
      all.toList).mono fun _ s' h => h.congr fun k hk => ?_
    have hk' : k < radix.size := by simpa [hsize, Factorization.size] using hk
    simp [Factorization.radices, reverseDigits, Nat.mod_eq_of_lt hk']
  | split m outer inner ih =>
    obtain ⟨rfl, hexact⟩ := hexact
    change all.size = outer.size * inner.size at hsize
    have hpos : 0 < inner.size := Nat.lt_of_lt_of_le Nat.two_pos inner.two_le_size
    have hdiv : outer.size * inner.size / inner.size = outer.size := Nat.mul_div_cancel _ hpos
    have hprod := Factorization.prod_radices hexact
    have hreverse (k : ℕ) : reverseDigits outer.radices k < outer.size :=
      hprod ▸ reverseDigits_lt (fun d hd => Factorization.pos_of_mem_radices hd) k
    rw [Factorization.length_kinds_split] at hroom
    simp only [compose, hdiv]
    refine (ends_columns hs hcovers hsize (fun hin => hin.1) (by omega)).bind
      fun _ s₁ h₁ => ⟨h₁.limit_eq, ?_⟩
    have hroom₁ : s₁.requests.size + inner.size * outer.kinds.length ≤ count := by
      rw [h₁.size_requests, length_flatten_replicate, List.length_cons,
        List.length_replicate]
      omega
    have hcovers₁ := hcovers.of_size h₁.size_eq
    refine (ends_rows h₁.injects hcovers₁ hsize (Nat.zero_lt_of_lt (hreverse 0))
      (fun k _ => hreverse k) hroom₁
      fun s part hs hpart hlength hroom =>
        (ih hexact hs hpart hlength hroom).restrict fun hin => hin.2).bind
      fun _ s₂ h₂ => ⟨h₂.limit_eq, ?_⟩
    have hcovers₂ := hcovers₁.of_size h₂.size_eq
    have hbijective := isBijective_reordering outer.size inner.size
    have horder : (reordering outer.size inner.size).size = all.size := by simp [hsize]
    refine .read (Plans.ofExcept (ofMap_reorder outer.size inner.size)) ?_
    refine ((plans_shiftCycles hcovers₂ hbijective horder).ends _ _).mono fun _ s₃ h₃ => ?_
    have h₃ := h₃.arranges h₂.injects hcovers₂ hbijective horder
    have hrows : ∀ k < all.toList.length, outer.size * (k / outer.size) +
        reverseDigits outer.radices (k % outer.size) < all.toList.length := by
      intro k hk
      rw [Array.length_toList, hsize] at hk ⊢
      exact column_index_lt (hreverse _) (Nat.div_lt_of_lt_mul hk)
    have himage : ∀ k < all.toList.length,
        (reordering outer.size inner.size).image k < all.toList.length := by
      intro k hk
      rw [Array.length_toList] at hk ⊢
      exact horder ▸ Permutation.image_lt hbijective (horder ▸ hk)
    have htotal := (h₁.trans h₂ hrows).trans h₃ himage
    rw [List.append_nil] at htotal
    refine htotal.congr fun k hk => ?_
    -- result `k` is taken from row `k % r₂`, where it is number `k / r₂`
    rw [Array.length_toList, hsize] at hk
    have hk' : k / inner.size < outer.size := Nat.div_lt_of_lt_mul (by rwa [mul_comm])
    rw [image_reordering hk, reorder, (mul_add_div_mod hk' _).1, (mul_add_div_mod hk' _).2,
      Factorization.radices, reverseDigits, hprod, mul_comm]

end Planner

end MixedRadix
