import MixedRadix.Plan
import MixedRadix.Proofs.Factorization
import MixedRadix.Proofs.Permutation
import MixedRadix.Proofs.Spectrum
import MixedRadix.Proofs.Success

/-!
# Plans compute spectra

`Request.apply` says what a request does to the values in slots, over any commutative ring and any
character. A stretch of planning works on some positions (`Planner.Works`): the requests it issues
change the values that these positions read, and the addresses it relabels stay among theirs. The
transform of a factorization leaves at each position its bin of the spectrum
(`Planner.compose_works`), and so does a whole plan (`Plan.exists_ofSize`). All that is asked of a
size is that its angles are in range, which they are if planning succeeds
(`Plan.hasAngles_of_outcome`).
-/

namespace MixedRadix

variable {K : Type*} [CommRing K] (χ : AddChar ℚ K)

namespace Request

/-- What a request does to the values in the slots. -/
def apply : Request → (ℕ → K) → ℕ → K
  | butterfly _ slots, x => fun slot =>
    if slot ∈ slots then bin χ slots.length (fun j => x (slots.getD j 0)) (slots.idxOf slot)
    else x slot
  | twiddle slot angle, x => Function.update x slot (χ angle.halfTurns * x slot)

variable {χ} in
lemma apply_butterfly_getElem {radix : Radix} {listed : List ℕ} (hnodup : listed.Nodup) (x : ℕ → K)
    {k : ℕ} (hk : k < listed.length) :
    (butterfly radix listed).apply χ x listed[k] =
      bin χ listed.length (fun j => x (listed.getD j 0)) k := by
  simp only [apply, List.getElem_mem, if_true, hnodup.idxOf_getElem]

/-- Values that are written to different slots, one after the other. -/
lemma foldl_update_zip {α : Type*} {listed : List ℕ} (hnodup : listed.Nodup) (y x : ℕ → α) :
    (listed.zip ((List.range listed.length).map y)).foldl (fun x p => Function.update x p.1 p.2) x =
      fun slot => if slot ∈ listed then y (listed.idxOf slot) else x slot := by
  induction listed generalizing x y with
  | nil => simp
  | cons a listed ih =>
    obtain ⟨ha, hnodup⟩ := List.nodup_cons.1 hnodup
    rw [List.length_cons, List.range_succ_eq_map, List.map_cons, List.map_map, List.zip_cons_cons,
      List.foldl_cons, ih hnodup]
    funext slot
    by_cases hslot : slot = a
    · subst hslot
      simp [ha]
    · simp [hslot, Ne.symm hslot]

lemma map_eq_map_getD {α : Type*} (listed : List ℕ) (x : ℕ → α) :
    listed.map x = (List.range listed.length).map fun j => x (listed.getD j 0) := by
  refine List.ext_getElem (by simp) fun j hj _ => ?_
  have hj' : j < listed.length := by simpa using hj
  simp [hj']

variable {χ} in
/-- A butterfly writes its bins to its slots, in whichever form values are kept. -/
lemma foldl_update_butterfly {α : Type*} (form : K → α) {radix : Radix} {listed : List ℕ}
    (hnodup : listed.Nodup) (hlength : listed.length = radix.size) (x : ℕ → K) :
    (listed.zip ((List.range radix.size).map fun k =>
        form (bin χ radix.size (fun j => x (listed.getD j 0)) k))).foldl
        (fun y p => Function.update y p.1 p.2) (fun i => form (x i)) =
      fun i => form ((butterfly radix listed).apply χ x i) := by
  rw [← hlength, foldl_update_zip hnodup]
  funext i
  simp only [apply]
  split <;> rfl

/-- What several requests do, one after the other. -/
def applyAll (requests : List Request) (x : ℕ → K) : ℕ → K :=
  requests.foldl (fun x r => r.apply χ x) x

/-- The request can be carried out on the given slots: a butterfly lists as many different ones as
it has points, and the denominator of an angle can be doubled. -/
def Fits (slots : Set ℕ) : Request → Prop
  | butterfly radix listed => listed.Nodup ∧ listed.length = radix.size ∧ ∀ a ∈ listed, a ∈ slots
  | twiddle slot angle => slot ∈ slots ∧ angle.den < 2 ^ 62

lemma Fits.mono {slots slots' : Set ℕ} (hsub : slots ⊆ slots') {r : Request} (h : r.Fits slots) :
    r.Fits slots' := by
  cases r with
  | butterfly radix listed => exact ⟨h.1, h.2.1, fun a ha => hsub (h.2.2 a ha)⟩
  | twiddle slot angle => exact ⟨hsub h.1, h.2⟩

end Request

/-! ### Angles -/

namespace Factorization

/-- The angles of all twiddles are in range. -/
def HasAngles : Factorization → Prop
  | unit | base _ => True
  | split n outer inner =>
    (∀ i < outer.size, ∀ j < inner.size,
      ∃ angle, Angle.ofRatio (-2 * Int.ofNat (i * j)) (Int.ofNat n) = .ok angle) ∧ outer.HasAngles

lemma hasAngles_of_lt {f : Factorization} (hexact : f.Exact) (hlt : f.size < 2 ^ 62) :
    f.HasAngles := by
  induction f with
  | unit | base radix => trivial
  | split n outer inner ih =>
    obtain ⟨rfl, hexact⟩ := hexact
    have hpos : 0 < inner.size := Nat.lt_of_lt_of_le Nat.two_pos inner.two_le_size
    change outer.size * inner.size < 2 ^ 62 at hlt
    refine ⟨fun i hi j hj => ?_,
      ih hexact (Nat.lt_of_le_of_lt (Nat.le_mul_of_pos_right _ hpos) hlt)⟩
    have hbound : i * j < outer.size * inner.size :=
      calc i * j ≤ outer.size * j := Nat.mul_le_mul_right j hi.le
        _ < outer.size * inner.size := Nat.mul_lt_mul_of_pos_left hj (by omega)
    refine Angle.exists_ofRatio (by omega) hlt ?_
    simp only [Int.ofNat_eq_natCast]
    omega

end Factorization

namespace Planner

/-! ### Planning -/

/-- The computation succeeds, and `Q` holds of its result and the planner behind it. -/
def Plans {α : Type} (s : Planner) (x : Planning α) (Q : α → Planner → Prop) : Prop :=
  ∃ a s', x.run.run s = (.ok a, s') ∧ Q a s'

namespace Plans

variable {α β : Type} {s : Planner} {x : Planning α} {Q Q' : α → Planner → Prop}

lemma pure {a : α} (h : Q a s) : Plans s (Pure.pure a) Q :=
  ⟨a, s, rfl, h⟩

lemma mono (h : Plans s x Q) (hQ : ∀ a s', Q a s' → Q' a s') : Plans s x Q' := by
  obtain ⟨a, s', hrun, hq⟩ := h
  exact ⟨a, s', hrun, hQ a s' hq⟩

lemma bind {f : α → Planning β} {P : β → Planner → Prop} (h : Plans s x Q)
    (hf : ∀ a s', Q a s' → Plans s' (f a) P) : Plans s (x >>= f) P := by
  obtain ⟨a, s₁, hrun, hq⟩ := h
  obtain ⟨c, s₂, hrun', hp⟩ := hf a s₁ hq
  exact ⟨c, s₂, (run_bind_of_ok hrun).trans hrun', hp⟩

/-- Sequencing with a computation that only reads. -/
lemma read {a : α} {f : α → Planning β} {P : β → Planner → Prop}
    (h : Plans s x fun a' s' => a' = a ∧ s' = s) (hf : Plans s (f a) P) : Plans s (x >>= f) P := by
  refine h.bind ?_
  rintro _ _ ⟨rfl, rfl⟩
  exact hf

/-- A loop with an invariant that says how many rounds are done. -/
lemma forM {xs : List α} {f : α → Planning Unit} {I : ℕ → Planner → Prop} (h0 : I 0 s)
    (hstep : ∀ i (hi : i < xs.length) s, I i s → Plans s (f xs[i]) fun _ s' => I (i + 1) s') :
    Plans s (xs.forM f) fun _ s' => I xs.length s' := by
  induction xs generalizing s I with
  | nil => exact Plans.pure h0
  | cons x xs ih =>
    refine (hstep 0 (by simp) s h0).bind fun _ s₁ h₁ => ?_
    exact ih (I := fun i => I (i + 1)) h₁ fun i hi s' hs' =>
      hstep (i + 1) (by simpa using hi) s' hs'

lemma forBelow {n : ℕ} {f : ℕ → Planning Unit} {I : ℕ → Planner → Prop} (h0 : I 0 s)
    (hstep : ∀ i < n, ∀ s, I i s → Plans s (f i) fun _ s' => I (i + 1) s') :
    Plans s (Planner.forBelow n f) fun _ s' => I n s' := by
  rw [forBelow_eq_forM]
  have hloop : Plans s ((List.range n).forM f) fun _ s' => I (List.range n).length s' :=
    forM h0 fun i hi s hs => by simpa using hstep i (by simpa using hi) s hs
  simpa using hloop

lemma ofExcept {r : Except Fault α} {a : α} (h : r = .ok a) :
    Plans s (MonadExcept.ofExcept r) fun a' s' => a' = a ∧ s' = s := by
  subst h
  exact ⟨a, s, rfl, rfl, rfl⟩

/-- A list of results, each of which is only read. -/
lemma mapM {γ : Type} {xs : List γ} {f : γ → Planning α} {g : γ → α}
    (h : ∀ y ∈ xs, Plans s (f y) fun a' s' => a' = g y ∧ s' = s) :
    Plans s (xs.mapM f) fun as s' => as = xs.map g ∧ s' = s := by
  induction xs with
  | nil => exact Plans.pure ⟨rfl, rfl⟩
  | cons y ys ih =>
    rw [List.mapM_cons]
    refine (h y (by simp)).read ((ih fun z hz => h z (by simp [hz])).read (Plans.pure ⟨rfl, rfl⟩))

end Plans

/-! ### Stretches of planning -/

/-- The address of a position, where there is one. -/
def slotOf (s : Planner) (position : ℕ) : ℕ :=
  s.addresses.getD position 0

/-- The addresses of some positions. -/
def slots (s : Planner) (positions : List ℕ) : Set ℕ :=
  s.slotOf '' {p | p ∈ positions}

/-- No address is shared, and all requests are accepted. -/
structure Ready (s : Planner) : Prop where
  inj : ∀ p < s.addresses.size, ∀ q < s.addresses.size, s.slotOf p = s.slotOf q → p = q
  unlimited : s.limit = none

/-- The positions are different, and each has an address. -/
structure Covers (s : Planner) (positions : List ℕ) : Prop where
  nodup : positions.Nodup
  lt_size : ∀ p ∈ positions, p < s.addresses.size

/-- The values at the addresses of some positions, in their order. -/
def Reads (s : Planner) (positions : List ℕ) (x : ℕ → K) (f : ℕ → K) : Prop :=
  ∀ k < positions.length, x (s.slotOf (positions.getD k 0)) = f k

/-- The second planner comes from the first one by planning on some positions alone, and the values
that these read are taken from `f` to `T f`. -/
structure Works (s s' : Planner) (positions : List ℕ) (T : (ℕ → K) → ℕ → K) : Prop where
  ready : s'.Ready
  size_eq : s'.addresses.size = s.addresses.size
  off : ∀ p ∉ positions, s'.slotOf p = s.slotOf p
  slots_eq : s'.slots positions = s.slots positions
  requests : ∃ requests, s'.requests.toList = s.requests.toList ++ requests ∧
    (∀ r ∈ requests, r.Fits (s.slots positions)) ∧
    ∀ x : ℕ → K, (∀ a ∉ s.slots positions, Request.applyAll χ requests x a = x a) ∧
      ∀ f, s.Reads positions x f → s'.Reads positions (Request.applyAll χ requests x) (T f)

lemma getD_mem {xs : List ℕ} {k : ℕ} (hk : k < xs.length) : xs.getD k 0 ∈ xs := by
  rw [List.getD_eq_getElem _ _ hk]
  exact List.getElem_mem hk

variable {χ} {s s' s'' : Planner} {positions : List ℕ} {T T' : (ℕ → K) → ℕ → K}

lemma Covers.getD_inj (h : s.Covers positions) {i j : ℕ} (hi : i < positions.length)
    (hj : j < positions.length) : positions.getD i 0 = positions.getD j 0 ↔ i = j := by
  rw [List.getD_eq_getElem _ _ hi, List.getD_eq_getElem _ _ hj]
  exact h.nodup.getElem_inj_iff

lemma Covers.of_size (h : s.Covers positions) (hsize : s'.addresses.size = s.addresses.size) :
    s'.Covers positions :=
  ⟨h.nodup, fun p hp => hsize ▸ h.lt_size p hp⟩

namespace Works

lemma refl (hs : s.Ready) (positions : List ℕ) : Works χ s s positions fun f => f :=
  ⟨hs, rfl, fun _ _ => rfl, rfl, [], by simp, by simp, fun _ => ⟨fun _ _ => rfl, fun _ h => h⟩⟩

lemma congr (h : Works χ s s' positions T) (hT : ∀ f, ∀ k < positions.length, T f k = T' f k) :
    Works χ s s' positions T' := by
  obtain ⟨requests, hrequests, hfits, happly⟩ := h.requests
  refine ⟨h.ready, h.size_eq, h.off, h.slots_eq, requests, hrequests, hfits, fun x =>
    ⟨(happly x).1, fun f hf k hk => ?_⟩⟩
  rw [(happly x).2 f hf k hk, hT f k hk]

lemma trans (h : Works χ s s' positions T) (h' : Works χ s' s'' positions T') :
    Works χ s s'' positions fun f => T' (T f) := by
  obtain ⟨requests, hrequests, hfits, happly⟩ := h.requests
  obtain ⟨requests', hrequests', hfits', happly'⟩ := h'.requests
  refine ⟨h'.ready, h'.size_eq.trans h.size_eq, fun p hp => (h'.off p hp).trans (h.off p hp),
    h'.slots_eq.trans h.slots_eq, requests ++ requests',
    by rw [hrequests', hrequests, List.append_assoc], fun r hr => ?_, fun x => ?_⟩
  · rcases List.mem_append.1 hr with hr | hr
    · exact hfits r hr
    · exact h.slots_eq ▸ hfits' r hr
  · have happend : Request.applyAll χ (requests ++ requests') x =
        Request.applyAll χ requests' (Request.applyAll χ requests x) := by
      simp [Request.applyAll]
    rw [happend]
    refine ⟨fun a ha => ?_, fun f hf => (happly' _).2 _ ((happly x).2 f hf)⟩
    rw [(happly' _).1 a (h.slots_eq ▸ ha), (happly x).1 a ha]

/-- Planning on some of the positions is planning on all of them, where the others keep their
values. The index among all is `g i` for index `i` among some. -/
lemma lift {part : List ℕ} (hs : s.Ready) (hcovers : s.Covers positions)
    (h : Works χ s s' part T) (g : ℕ → ℕ) (hg : ∀ i < part.length, g i < positions.length)
    (hpart : ∀ i < part.length, part.getD i 0 = positions.getD (g i) 0)
    (hT : ∀ f, ∀ i < part.length, T' f (g i) = T (fun i => f (g i)) i)
    (hT' : ∀ f, ∀ k < positions.length, (∀ i < part.length, g i ≠ k) → T' f k = f k) :
    Works χ s s' positions T' := by
  obtain ⟨requests, hrequests, hfits, happly⟩ := h.requests
  have hsub : ∀ p ∈ part, p ∈ positions := by
    intro p hp
    obtain ⟨i, hi, rfl⟩ := List.getElem_of_mem hp
    have hmem := getD_mem (hg i hi)
    rwa [← hpart i hi, List.getD_eq_getElem _ _ hi] at hmem
  have hslots : s.slots part ⊆ s.slots positions := Set.image_mono hsub
  refine ⟨h.ready, h.size_eq, fun p hp => h.off p fun hmem => hp (hsub p hmem), ?_, requests,
    hrequests, fun r hr => (hfits r hr).mono hslots, fun x =>
      ⟨fun a ha => (happly x).1 a fun hmem => ha (hslots hmem), fun f hf k hk => ?_⟩⟩
  · -- only addresses of the part were exchanged, and among themselves
    refine Set.Subset.antisymm ?_ ?_
    · rintro a ⟨p, hp, rfl⟩
      by_cases hmem : p ∈ part
      · exact hslots (h.slots_eq ▸ Set.mem_image_of_mem _ hmem)
      · exact ⟨p, hp, (h.off p hmem).symm⟩
    · rintro a ⟨p, hp, rfl⟩
      by_cases hmem : p ∈ part
      · have hpart' : s.slotOf p ∈ s'.slots part := h.slots_eq ▸ Set.mem_image_of_mem _ hmem
        exact Set.image_mono hsub hpart'
      · exact ⟨p, hp, h.off p hmem⟩
  · by_cases hmem : ∃ i < part.length, g i = k
    · obtain ⟨i, hi, rfl⟩ := hmem
      have hreads : s.Reads part x fun i => f (g i) := fun i hi => by
        rw [hpart i hi]
        exact hf (g i) (hg i hi)
      rw [← hpart i hi, (happly x).2 _ hreads i hi, hT f i hi]
    · have hne : ∀ i < part.length, g i ≠ k := fun i hi e => hmem ⟨i, hi, e⟩
      have hnot : positions.getD k 0 ∉ part := by
        intro hp
        obtain ⟨i, hi, heq⟩ := List.getElem_of_mem hp
        refine hne i hi ((hcovers.getD_inj (hg i hi) hk).1 ?_)
        rw [← hpart i hi, ← heq, List.getD_eq_getElem _ _ hi]
      have hslot : s.slotOf (positions.getD k 0) ∉ s.slots part := by
        rintro ⟨q, hq, heq⟩
        have hqlt := hcovers.lt_size q (hsub q hq)
        have hplt := hcovers.lt_size _ (getD_mem hk)
        exact hnot (hs.inj q hqlt _ hplt heq ▸ hq)
      rw [h.off _ hnot, (happly x).1 _ hslot, hf k hk, hT' f k hk hne]

end Works

/-! ### Requests -/

lemma plans_address {p : ℕ} (hp : p < s.addresses.size) :
    Plans s (address p) fun a s' => a = s.slotOf p ∧ s' = s := by
  have hget : getOrFault s.addresses p = .ok (s.slotOf p) := by
    simp [getOrFault, slotOf, hp]
  refine ⟨s.slotOf p, s, ?_, rfl, rfl⟩
  change (MonadExcept.ofExcept (getOrFault s.addresses p) : Planning ℕ).run.run s = _
  rw [hget]
  rfl

lemma plans_pick {positions : Array ℕ} {k : ℕ} (hk : k < positions.size) :
    Plans s (pick positions k) fun p s' => p = positions.toList.getD k 0 ∧ s' = s :=
  Plans.ofExcept (by simp [getOrFault, hk])

/-- Adds a request. -/
def withRequest (s : Planner) (r : Request) : Planner :=
  { s with requests := s.requests.push r }

lemma plans_issue (hs : s.limit = none) (r : Request) :
    Plans s (issue r) fun _ s' => s' = s.withRequest r := by
  refine ⟨(), s.withRequest r, ?_, rfl⟩
  change (if s.accepts then modify fun s => { s with requests := s.requests.push r }
    else throw .requestLimit : Planning Unit).run.run s = _
  rw [if_pos (by simp [accepts, hs])]
  rfl

/-- A request works on some positions if it fits their addresses and keeps all other values. -/
lemma works_withRequest (hs : s.Ready) {r : Request} (hfits : r.Fits (s.slots positions))
    (hoff : ∀ x : ℕ → K, ∀ a ∉ s.slots positions, r.apply χ x a = x a)
    (hreads : ∀ x f, s.Reads positions x f → s.Reads positions (r.apply χ x) (T f)) :
    Works χ s (s.withRequest r) positions T :=
  ⟨⟨hs.inj, hs.unlimited⟩, rfl, fun _ _ => rfl, rfl, [r], by simp [withRequest],
    by simpa using hfits, fun x => ⟨hoff x, hreads x⟩⟩

lemma plans_butterfly (hs : s.Ready) (hcovers : s.Covers positions) {radix : Radix}
    (hlength : positions.length = radix.size) :
    Plans s (butterfly radix positions) fun _ s' => Works χ s s' positions (bin χ radix.size) := by
  refine (Plans.mapM (g := s.slotOf) fun p hp => plans_address (hcovers.lt_size p hp)).read ?_
  refine (plans_issue hs.unlimited _).mono ?_
  rintro _ _ rfl
  have hnodup : (positions.map s.slotOf).Nodup := hcovers.nodup.map_on fun p hp q hq =>
    hs.inj p (hcovers.lt_size p hp) q (hcovers.lt_size q hq)
  have hmem (a : ℕ) : a ∈ positions.map s.slotOf ↔ a ∈ s.slots positions := List.mem_map
  refine works_withRequest hs ⟨hnodup, by simpa using hlength, fun a ha => (hmem a).1 ha⟩
    (fun x a ha => if_neg fun h => ha ((hmem a).1 h)) fun x f hf k hk => ?_
  have hk' : k < (positions.map s.slotOf).length := by simpa using hk
  have hslot : s.slotOf (positions.getD k 0) = (positions.map s.slotOf)[k] := by
    rw [List.getElem_map, List.getD_eq_getElem _ _ hk]
  rw [hslot, Request.apply_butterfly_getElem hnodup, List.length_map, hlength]
  refine bin_congr (fun j hj => ?_) k
  rw [← hlength] at hj
  rw [← hf j hj, List.getD_eq_getElem _ _ (by simpa using hj), List.getElem_map,
    List.getD_eq_getElem _ _ hj]

/-- The twiddle of a position. -/
lemma plans_twiddle (hs : s.Ready) {p : ℕ} (hp : p < s.addresses.size) {angle : Angle}
    (hangle : angle.den < 2 ^ 62) :
    Plans s (do issue (.twiddle (← address p) angle)) fun _ s' =>
      Works χ s s' [p] fun f k => χ angle.halfTurns * f k := by
  refine (plans_address hp).read ((plans_issue hs.unlimited _).mono ?_)
  rintro _ _ rfl
  refine works_withRequest hs ⟨⟨p, by simp, rfl⟩, hangle⟩ (fun x a ha => ?_) fun x f hf k hk => ?_
  · exact Function.update_of_ne (fun e => ha ⟨p, by simp, e.symm⟩) _ _
  · obtain rfl : k = 0 := by simpa using hk
    rw [← hf 0 hk]
    simp [Request.apply]

/-! ### Columns and rows -/

variable {n r₁ : ℕ} {inner : Radix} {all : Array ℕ}

/-- The positions of column `i`. -/
def columnOf (all : Array ℕ) (r₁ r₂ i : ℕ) : List ℕ :=
  (List.range r₂).map fun j => all.toList.getD (r₁ * j + i) 0

lemma getD_columnOf {r₂ i j : ℕ} (hj : j < r₂) :
    (columnOf all r₁ r₂ i).getD j 0 = all.toList.getD (r₁ * j + i) 0 := by
  rw [List.getD_eq_getElem _ _ (by simpa [columnOf] using hj)]
  simp [columnOf]

lemma column_index_lt {r₂ i j : ℕ} (hi : i < r₁) (hj : j < r₂) : r₁ * j + i < r₁ * r₂ :=
  calc r₁ * j + i < r₁ * j + r₁ := by omega
    _ = r₁ * (j + 1) := by ring
    _ ≤ r₁ * r₂ := Nat.mul_le_mul_left r₁ hj

lemma covers_columnOf (hcovers : s.Covers all.toList) {r₂ i : ℕ} (hsize : all.size = r₁ * r₂)
    (hi : i < r₁) : s.Covers (columnOf all r₁ r₂ i) := by
  have hlt {j : ℕ} (hj : j ∈ List.range r₂) : r₁ * j + i < all.toList.length := by
    rw [Array.length_toList, hsize]
    exact column_index_lt hi (List.mem_range.1 hj)
  refine ⟨List.nodup_range.map_on fun j hj j' hj' heq => ?_, fun p hp => ?_⟩
  · have hinj : r₁ * j + i = r₁ * j' + i := (hcovers.getD_inj (hlt hj) (hlt hj')).1 heq
    exact Nat.eq_of_mul_eq_mul_left (Nat.lt_of_le_of_lt (Nat.zero_le i) hi) (by omega)
  · obtain ⟨j, hj, rfl⟩ := List.mem_map.1 hp
    exact hcovers.lt_size _ (getD_mem (hlt hj))

/-- The twiddles of a column, of which some are done. -/
lemma plans_twiddles (hχ : χ 2 = 1) (hs : s.Ready) (hcovers : s.Covers positions) {i : ℕ}
    (hangles : ∀ j < positions.length,
      ∃ angle, Angle.ofRatio (-2 * Int.ofNat (i * j)) (Int.ofNat n) = .ok angle) :
    Plans s (positions.zipIdx.forM fun (position, j) => do
      let angle ← MonadExcept.ofExcept (Angle.ofRatio (-2 * Int.ofNat (i * j)) (Int.ofNat n))
      issue (.twiddle (← address position) angle)) fun _ s' =>
      Works χ s s' positions fun f j => χ (-2 * (i * j : ℕ) / n) * f j := by
  refine (Plans.forM (I := fun c s' => Works χ s s' positions fun f j =>
    if j < c then χ (-2 * (i * j : ℕ) / n) * f j else f j) ?_ ?_).mono ?_
  · exact (Works.refl hs positions).congr fun f j _ => by simp
  · intro c hc s₁ h₁
    have hc' : c < positions.length := by simpa using hc
    have hp := hcovers.lt_size _ (getD_mem hc')
    obtain ⟨angle, hangle⟩ := hangles c hc'
    have hzip : positions.zipIdx[c] = (positions.getD c 0, c) := by
      rw [List.getElem_zipIdx, List.getD_eq_getElem _ _ hc', Nat.zero_add]
    rw [hzip]
    refine (Plans.ofExcept hangle).read ((plans_twiddle (χ := χ) h₁.ready
      (h₁.size_eq ▸ hp) (Angle.den_lt_of_ofRatio hangle)).mono ?_)
    intro _ s₂ h₂
    have hlift : Works χ s₁ s₂ positions fun f j =>
        if j = c then χ (-2 * (i * j : ℕ) / n) * f j else f j := by
      refine h₂.lift h₁.ready (hcovers.of_size h₁.size_eq) (fun _ => c) (fun _ _ => hc') ?_ ?_ ?_
      · intro k hk
        obtain rfl : k = 0 := by simpa using hk
        simp
      · intro f k _
        rw [if_pos rfl, Angle.map_halfTurns_ofRatio hχ hangle, Int.ofNat_eq_natCast]
        push_cast
        rfl
      · intro f k _ hk
        exact if_neg (Ne.symm (hk 0 (by simp)))
    refine (h₁.trans hlift).congr fun f j _ => ?_
    by_cases hj : j = c
    · simp [hj]
    · by_cases hjc : j < c
      · simp [hj, hjc, Nat.lt_succ_of_lt hjc]
      · simp [hj, hjc, show ¬ j < c + 1 by omega]
  · intro _ s' h
    refine h.congr fun f j hj => ?_
    rw [if_pos (by simpa using hj)]

lemma plans_column (hχ : χ 2 = 1) (hs : s.Ready) (hcovers : s.Covers all.toList)
    (hsize : all.size = r₁ * inner.size) {i : ℕ} (hi : i < r₁)
    (hangles : ∀ j < inner.size, ∃ angle,
      Angle.ofRatio (-2 * Int.ofNat (i * j)) (Int.ofNat (r₁ * inner.size)) = .ok angle) :
    Plans s (column (r₁ * inner.size) r₁ inner all i) fun _ s' =>
      Works χ s s' (columnOf all r₁ inner.size i) fun f j =>
        χ (-2 * (i * j : ℕ) / (r₁ * inner.size : ℕ)) * bin χ inner.size f j := by
  have hlength : (columnOf all r₁ inner.size i).length = inner.size := by simp [columnOf]
  have hgroup := covers_columnOf hcovers hsize hi
  refine (Plans.mapM (g := fun j => all.toList.getD (r₁ * j + i) 0)
    fun j hj => plans_pick ?_).read ?_
  · rw [hsize]
    exact column_index_lt hi (List.mem_range.1 hj)
  refine (plans_butterfly (χ := χ) hs hgroup hlength).bind fun _ s₁ h₁ => ?_
  exact (plans_twiddles hχ h₁.ready (hgroup.of_size h₁.size_eq)
    fun j hj => hangles j (hlength ▸ hj)).mono fun _ s₂ h₂ => h₁.trans h₂

/-- All columns, one after the other. -/
lemma plans_columns (hχ : χ 2 = 1) (hs : s.Ready) (hcovers : s.Covers all.toList)
    (hsize : all.size = r₁ * inner.size)
    (hangles : ∀ i < r₁, ∀ j < inner.size, ∃ angle,
      Angle.ofRatio (-2 * Int.ofNat (i * j)) (Int.ofNat (r₁ * inner.size)) = .ok angle) :
    Plans s (forBelow r₁ (column (r₁ * inner.size) r₁ inner all)) fun _ s' =>
      Works χ s s' all.toList (columns χ r₁ inner.size) := by
  refine (Plans.forBelow (I := fun c s' => Works χ s s' all.toList fun f k =>
    if k % r₁ < c then columns χ r₁ inner.size f k else f k) ?_ ?_).mono ?_
  · exact (Works.refl hs _).congr fun f k _ => by simp
  · intro c hc s₁ h₁
    refine (plans_column hχ h₁.ready (hcovers.of_size h₁.size_eq) hsize hc (hangles c hc)).mono ?_
    intro _ s₂ h₂
    have hlength : (columnOf all r₁ inner.size c).length = inner.size := by simp [columnOf]
    have hlift : Works χ s₁ s₂ all.toList fun f k =>
        if k % r₁ = c then columns χ r₁ inner.size f k else f k := by
      refine h₂.lift h₁.ready (hcovers.of_size h₁.size_eq) (fun j => r₁ * j + c) ?_ ?_ ?_ ?_
      · intro j hj
        rw [Array.length_toList, hsize]
        exact column_index_lt hc (hlength ▸ hj)
      · exact fun j hj => getD_columnOf (hlength ▸ hj)
      · intro f j hj
        rw [if_pos (mul_add_div_mod hc j).2, columns, (mul_add_div_mod hc j).1,
          (mul_add_div_mod hc j).2]
      · intro f k hk hne
        refine if_neg fun hmod => hne (k / r₁) ?_ ?_
        · rw [hlength]
          rw [Array.length_toList, hsize] at hk
          exact Nat.div_lt_of_lt_mul hk
        · rw [← hmod]
          exact Nat.div_add_mod k r₁
    refine (h₁.trans hlift).congr fun f k _ => ?_
    dsimp only
    by_cases hk : k % r₁ = c
    · rw [if_pos hk, if_pos (by omega), columns, columns, hk]
      refine congrArg _ (bin_congr (fun j _ => ?_) _)
      rw [if_neg (by rw [(mul_add_div_mod hc j).2]; omega)]
    · rw [if_neg hk]
      by_cases hkc : k % r₁ < c
      · rw [if_pos hkc, if_pos (by omega)]
      · rw [if_neg hkc, if_neg (by omega)]
  · intro _ s' h
    refine h.congr fun f k hk => if_pos (Nat.mod_lt k ?_)
    rw [Array.length_toList, hsize] at hk
    exact Nat.pos_of_ne_zero (by rintro rfl; simp at hk)

lemma plans_row {i : ℕ} (hi : r₁ * i + r₁ ≤ all.size) :
    Plans s (row r₁ all i) fun part s' =>
      part = all.extract (r₁ * i) (r₁ * i + r₁) ∧ s' = s := by
  rw [row, if_pos hi]
  exact Plans.pure ⟨rfl, rfl⟩

lemma row_end_le {r₂ i : ℕ} (hsize : all.size = r₁ * r₂) (hi : i < r₂) :
    r₁ * i + r₁ ≤ all.size := by
  rw [hsize, ← Nat.mul_succ]
  exact Nat.mul_le_mul_left r₁ hi

lemma size_extract_row {i : ℕ} (hi : r₁ * i + r₁ ≤ all.size) :
    (all.extract (r₁ * i) (r₁ * i + r₁)).size = r₁ := by
  rw [Array.size_extract]
  omega

lemma getD_extract {i j : ℕ} (hi : r₁ * i + r₁ ≤ all.size) (hj : j < r₁) :
    (all.extract (r₁ * i) (r₁ * i + r₁)).toList.getD j 0 = all.toList.getD (r₁ * i + j) 0 := by
  rw [List.getD_eq_getElem _ _ (by simp; omega), List.getD_eq_getElem _ _ (by simp; omega)]
  simp

lemma Covers.extract (h : s.Covers all.toList) (start stop : ℕ) :
    s.Covers (all.extract start stop).toList := by
  have hsub : (all.extract start stop).toList.Sublist all.toList := by
    rw [Array.toList_extract]
    exact (List.take_sublist _ _).trans (List.drop_sublist _ _)
  exact ⟨h.nodup.sublist hsub, fun p hp => h.lt_size p (hsub.subset hp)⟩

/-- All rows, one after the other, if each of them is transformed. -/
lemma plans_rows {transform : Array ℕ → Planning Unit} (hs : s.Ready)
    (hcovers : s.Covers all.toList) {r₂ : ℕ} (hsize : all.size = r₁ * r₂)
    (htransform : ∀ s (part : Array ℕ), s.Ready → s.Covers part.toList → part.size = r₁ →
      Plans s (transform part) fun _ s' => Works χ s s' part.toList (bin χ r₁)) :
    Plans s (forBelow r₂ fun i => do transform (← row r₁ all i)) fun _ s' =>
      Works χ s s' all.toList (rows χ r₁) := by
  refine (Plans.forBelow (I := fun c s' => Works χ s s' all.toList fun f k =>
    if k / r₁ < c then rows χ r₁ f k else f k) ?_ ?_).mono ?_
  · exact (Works.refl hs _).congr fun f k _ => by simp
  · intro c hc s₁ h₁
    have hend := row_end_le hsize hc
    refine (plans_row hend).read ?_
    have hlength := size_extract_row hend
    have hpart := (hcovers.of_size h₁.size_eq).extract (r₁ * c) (r₁ * c + r₁)
    refine (htransform s₁ _ h₁.ready hpart hlength).mono fun _ s₂ h₂ => ?_
    have hlength' : (all.extract (r₁ * c) (r₁ * c + r₁)).toList.length = r₁ := by
      rw [Array.length_toList, hlength]
    have hlift : Works χ s₁ s₂ all.toList fun f k =>
        if k / r₁ = c then rows χ r₁ f k else f k := by
      refine h₂.lift h₁.ready (hcovers.of_size h₁.size_eq) (fun j => r₁ * c + j) ?_ ?_ ?_ ?_
      · intro j hj
        rw [hlength'] at hj
        rw [Array.length_toList]
        omega
      · exact fun j hj => getD_extract hend (hlength' ▸ hj)
      · intro f j hj
        rw [hlength'] at hj
        rw [if_pos (mul_add_div_mod hj c).1, rows, (mul_add_div_mod hj c).1,
          (mul_add_div_mod hj c).2]
      · intro f k hk hne
        have hr : 0 < r₁ := Nat.pos_of_ne_zero fun h => by simp [hsize, h] at hk
        refine if_neg fun hdiv => hne (k % r₁) (by rw [hlength']; exact Nat.mod_lt k hr) ?_
        rw [← hdiv]
        exact Nat.div_add_mod k r₁
    refine (h₁.trans hlift).congr fun f k hk => ?_
    have hr : 0 < r₁ := Nat.pos_of_ne_zero fun h => by simp [hsize, h] at hk
    dsimp only
    by_cases hk : k / r₁ = c
    · rw [if_pos hk, if_pos (by omega), rows, rows]
      refine bin_congr (fun i hi => ?_) _
      rw [if_neg (by rw [(mul_add_div_mod hi _).1]; omega)]
    · rw [if_neg hk]
      by_cases hkc : k / r₁ < c
      · rw [if_pos hkc, if_pos (by omega)]
      · rw [if_neg hkc, if_neg (by omega)]
  · intro _ s' h
    refine h.congr fun f k hk => if_pos (Nat.div_lt_of_lt_mul ?_)
    rwa [Array.length_toList, hsize] at hk

/-! ### Relabelling -/

/-- The address of the position at an index. -/
def peek (s : Planner) (all : Array ℕ) (i : ℕ) : ℕ :=
  all[i]?.elim 0 s.slotOf

lemma peek_eq {i : ℕ} (hi : i < all.size) : s.peek all i = s.slotOf (all.toList.getD i 0) := by
  simp [peek, hi]

/-- Only the addresses of some positions are different, and these are given by `g`. -/
structure Relabels (s s' : Planner) (all : Array ℕ) (g : ℕ → ℕ) : Prop where
  requests_eq : s'.requests = s.requests
  limit_eq : s'.limit = s.limit
  size_eq : s'.addresses.size = s.addresses.size
  off : ∀ p ∉ all.toList, s'.slotOf p = s.slotOf p
  peek_eq : s'.peek all = g

lemma Relabels.refl (s : Planner) (all : Array ℕ) : Relabels s s all (s.peek all) :=
  ⟨rfl, rfl, rfl, fun _ _ => rfl, rfl⟩

lemma Relabels.trans {g g' : ℕ → ℕ} (h : Relabels s s' all g) (h' : Relabels s' s'' all g') :
    Relabels s s'' all g' :=
  ⟨h'.requests_eq.trans h.requests_eq, h'.limit_eq.trans h.limit_eq, h'.size_eq.trans h.size_eq,
    fun p hp => (h'.off p hp).trans (h.off p hp), h'.peek_eq⟩

lemma plans_relabel (hcovers : s.Covers all.toList) {a : ℕ} (ha : a < all.size) (target : ℕ) :
    Plans s (relabel (all.toList.getD a 0) target) fun _ s' =>
      Relabels s s' all (Function.update (s.peek all) a target) := by
  have hmem : all.toList.getD a 0 ∈ all.toList := getD_mem (by simpa using ha)
  have hlt := hcovers.lt_size _ hmem
  have hcheck : checkIndex s.addresses (all.toList.getD a 0) = .ok () := if_pos hlt
  have hslot (p : ℕ) : Planner.slotOf
      { s with addresses := s.addresses.setIfInBounds (all.toList.getD a 0) target } p =
      if p = all.toList.getD a 0 then target else s.slotOf p := by
    by_cases hp : p = all.toList.getD a 0
    · simp only [slotOf, hp, if_true]
      simp only [Array.getD_eq_getD_getElem?, Array.getElem?_setIfInBounds_self_of_lt hlt,
        Option.getD_some]
    · simp only [slotOf, hp, if_false]
      rw [Array.getD_eq_getD_getElem?, Array.getElem?_setIfInBounds_ne (Ne.symm hp),
        ← Array.getD_eq_getD_getElem?]
  refine ⟨(), { s with addresses := s.addresses.setIfInBounds (all.toList.getD a 0) target }, ?_,
    rfl, rfl, by simp, fun p hp => ?_, funext fun i => ?_⟩
  · change (do
      MonadExcept.ofExcept (checkIndex s.addresses (all.toList.getD a 0))
      modify fun s =>
        { s with addresses := s.addresses.setIfInBounds (all.toList.getD a 0) target } :
        Planning Unit).run.run s = _
    rw [hcheck]
    rfl
  · rw [hslot, if_neg (ne_of_mem_of_not_mem hmem hp).symm]
  · rcases lt_or_ge i all.size with hi | hi
    · rw [peek_eq hi, hslot, Function.update_apply, peek_eq hi]
      simp only [hcovers.getD_inj (by simpa using hi) (by simpa using ha)]
    · have hne : i ≠ a := by omega
      simp [peek, hi, hne]

/-- Along a list of indices, the addresses are shifted. -/
lemma plans_shiftAddresses (hcovers : s.Covers all.toList) {c : List ℕ}
    (hc : ∀ a ∈ c, a < all.size) (first : ℕ) :
    Plans s (shiftAddresses all first c) fun _ s' =>
      Relabels s s' all (Permutation.shiftAlong first c (s.peek all)) := by
  induction c generalizing s with
  | nil => exact Plans.pure (Relabels.refl s all)
  | cons a c ih =>
    have ha : a < all.size := hc a (by simp)
    cases c with
    | nil => exact (plans_pick ha).read (plans_relabel hcovers ha first)
    | cons b rest =>
      have hb : b < all.size := hc b (by simp)
      have hblt := hcovers.lt_size _ (getD_mem (k := b) (by simpa using hb))
      refine (plans_pick hb).read ((plans_address hblt).read ((plans_pick ha).read ?_))
      refine (plans_relabel hcovers ha _).bind fun _ s₁ h₁ => ?_
      refine (ih (hcovers.of_size h₁.size_eq) fun i hi => hc i (by simp [hi])).mono
        fun _ s₂ h₂ => ?_
      rw [h₁.peek_eq, ← peek_eq hb] at h₂
      exact h₁.trans h₂

/-- Along a cycle, each index takes the address at its image. -/
lemma plans_shiftCycle (hcovers : s.Covers all.toList) {order : Permutation} {c : List ℕ}
    (hcycle : order.IsCycle c) (hc : ∀ a ∈ c, a < all.size) :
    Plans s (shiftCycle all c) fun _ s' =>
      Relabels s s' all fun i => if i ∈ c then s.peek all (order.image i) else s.peek all i := by
  match c, hcycle, hc with
  | [], _, _ => exact Plans.pure (by simpa using Relabels.refl s all)
  | [a], hcycle, _ =>
    have himage : order.image a = a := by simpa using (hcycle.image_eq 0 (by simp)).symm
    have hsame : (fun i => if i ∈ [a] then s.peek all (order.image i) else s.peek all i) =
        s.peek all := by
      funext i
      by_cases hi : i = a <;> simp [hi, himage]
    rw [hsame]
    exact Plans.pure (Relabels.refl s all)
  | a :: b :: rest, hcycle, hc =>
    have ha : a < all.size := hc a (by simp)
    have halt := hcovers.lt_size _ (getD_mem (k := a) (by simpa using ha))
    refine (plans_pick ha).read ((plans_address halt).read ?_)
    rw [← peek_eq ha, ← Permutation.shift_cycle hcycle rfl]
    exact plans_shiftAddresses hcovers hc _

/-- Along all cycles of a bijection, each index takes the address at its image. -/
lemma plans_shiftCycles (hcovers : s.Covers all.toList) {order : Permutation}
    (horder : Permutation.IsBijective order.map) (hsize : order.size = all.size) :
    Plans s (order.cycles.forM (shiftCycle all)) fun _ s' =>
      Relabels s s' all fun i => s.peek all (order.image i) := by
  refine (Plans.forM (I := fun c s' => Relabels s s' all (order.shifted (s.peek all) c)) ?_ ?_).mono
    ?_
  · rw [Permutation.shifted_zero]
    exact Relabels.refl s all
  · intro c hc s₁ h₁
    have hmem := List.getElem_mem hc
    have hcycle := (Permutation.sound_cycles horder).1 _ hmem
    refine (plans_shiftCycle (hcovers.of_size h₁.size_eq) hcycle fun a ha => ?_).mono
      fun _ s₂ h₂ => ?_
    · exact hsize ▸ Permutation.lt_size_of_mem_cycle horder hmem ha
    · rw [h₁.peek_eq, Permutation.shifted_succ horder] at h₂
      exact h₁.trans h₂
  · intro _ s' h
    rwa [Permutation.shifted_length horder] at h

/-- Positions that exchange their addresses read each other's values. -/
lemma Relabels.works (hs : s.Ready) (hcovers : s.Covers all.toList) {order : Permutation}
    (horder : Permutation.IsBijective order.map) (hsize : order.size = all.size)
    (h : Relabels s s' all fun i => s.peek all (order.image i)) :
    Works χ s s' all.toList fun f k => f (order.image k) := by
  have hslot {k : ℕ} (hk : k < all.size) :
      s'.slotOf (all.toList.getD k 0) = s.slotOf (all.toList.getD (order.image k) 0) := by
    have himage : order.image k < all.size := hsize ▸ Permutation.image_lt horder (hsize ▸ hk)
    rw [← Planner.peek_eq hk, h.peek_eq]
    exact Planner.peek_eq himage
  have himage {k : ℕ} (hk : k < all.size) : order.image k < all.size :=
    hsize ▸ Permutation.image_lt horder (hsize ▸ hk)
  have hsource (p : ℕ) (hp : p < s.addresses.size) : ∃ q < s.addresses.size,
      s'.slotOf p = s.slotOf q ∧ ((p ∉ all.toList ∧ q = p) ∨
        ∃ k < all.size, p = all.toList.getD k 0 ∧ q = all.toList.getD (order.image k) 0) := by
    by_cases hmem : p ∈ all.toList
    · obtain ⟨k, hk, rfl⟩ := List.getElem_of_mem hmem
      rw [Array.length_toList] at hk
      rw [← List.getD_eq_getElem _ 0]
      exact ⟨_, hcovers.lt_size _ (getD_mem (by simpa using himage hk)), hslot hk,
        Or.inr ⟨k, hk, rfl, rfl⟩⟩
    · exact ⟨p, hp, h.off p hmem, Or.inl ⟨hmem, rfl⟩⟩
  have hmem {k : ℕ} (hk : k < all.size) : all.toList.getD k 0 ∈ all.toList :=
    getD_mem (by simpa using hk)
  refine ⟨⟨fun p hp q hq heq => ?_, h.limit_eq.trans hs.unlimited⟩, h.size_eq, h.off, ?_, [],
    by simp [h.requests_eq], by simp, fun x => ⟨fun _ _ => rfl, fun f hf k hk => ?_⟩⟩
  · rw [h.size_eq] at hp hq
    obtain ⟨p', hp', hpslot, hpcase⟩ := hsource p hp
    obtain ⟨q', hq', hqslot, hqcase⟩ := hsource q hq
    obtain rfl := hs.inj p' hp' q' hq' (by rw [← hpslot, heq, hqslot])
    rcases hpcase with ⟨hpnot, rfl⟩ | ⟨i, hi, rfl, hpeq⟩
    · rcases hqcase with ⟨-, rfl⟩ | ⟨j, hj, rfl, rfl⟩
      · rfl
      · exact absurd (hmem (himage hj)) hpnot
    · rcases hqcase with ⟨hqnot, rfl⟩ | ⟨j, hj, rfl, hqeq⟩
      · exact absurd (hpeq ▸ hmem (himage hi)) hqnot
      · rw [hpeq, hcovers.getD_inj (by simpa using himage hi) (by simpa using himage hj)] at hqeq
        rw [Permutation.image_injective horder hqeq]
  · refine Set.Subset.antisymm ?_ ?_
    · rintro _ ⟨p, hp, rfl⟩
      obtain ⟨k, hk, rfl⟩ := List.getElem_of_mem hp
      rw [Array.length_toList] at hk
      rw [← List.getD_eq_getElem _ 0, hslot hk]
      exact ⟨_, hmem (himage hk), rfl⟩
    · rintro _ ⟨p, hp, rfl⟩
      obtain ⟨j, hj, rfl⟩ := List.getElem_of_mem hp
      rw [Array.length_toList] at hj
      obtain ⟨k, hk, rfl⟩ := Permutation.exists_image_eq horder (hsize ▸ hj)
      rw [hsize] at hk
      rw [← List.getD_eq_getElem _ 0, ← hslot hk]
      exact ⟨_, hmem hk, rfl⟩
  · rw [Array.length_toList] at hk
    rw [hslot hk]
    exact hf _ (by simpa using himage hk)

/-! ### The whole transform -/

lemma reorder_lt {r₂ m : ℕ} (hm : m < r₁ * r₂) : reorder r₁ r₂ m < r₁ * r₂ := by
  have hpos : 0 < r₂ := Nat.pos_of_ne_zero fun h => by simp [h] at hm
  exact column_index_lt (Nat.div_lt_of_lt_mul (by rwa [mul_comm])) (Nat.mod_lt m hpos)

/-- The order of results as a permutation. -/
def reordering (r₁ r₂ : ℕ) : Permutation :=
  ⟨(Array.range (r₁ * r₂)).map (reorder r₁ r₂)⟩

@[simp]
lemma size_reordering (r₁ r₂ : ℕ) : (reordering r₁ r₂).size = r₁ * r₂ := by
  simp [reordering, Permutation.size]

lemma image_reordering {r₂ m : ℕ} (hm : m < r₁ * r₂) :
    (reordering r₁ r₂).image m = reorder r₁ r₂ m := by
  simp [reordering, Permutation.image, hm]

lemma isBijective_reordering (r₁ r₂ : ℕ) : Permutation.IsBijective (reordering r₁ r₂).map := by
  constructor
  · intro i hi
    obtain ⟨m, hm, rfl⟩ : ∃ m < r₁ * r₂, reorder r₁ r₂ m = i := by simpa [reordering] using hi
    simpa [reordering] using reorder_lt hm
  · rw [reordering, Array.toList_map, Array.toList_range]
    refine List.nodup_range.map_on fun m hm m' hm' heq => ?_
    rw [List.mem_range] at hm hm'
    have hdiv : m / r₂ < r₁ := Nat.div_lt_of_lt_mul (by rwa [mul_comm])
    have hdiv' : m' / r₂ < r₁ := Nat.div_lt_of_lt_mul (by rwa [mul_comm])
    have h := mul_add_div_mod hdiv (m % r₂)
    have h' := mul_add_div_mod hdiv' (m' % r₂)
    rw [reorder, reorder] at heq
    rw [heq] at h
    rw [← Nat.div_add_mod m r₂, ← Nat.div_add_mod m' r₂, ← h.1, ← h.2, h'.1, h'.2]

lemma ofMap_reorder (r₁ r₂ : ℕ) :
    Permutation.ofMap ((Array.range (r₁ * r₂)).map (reorder r₁ r₂)) = .ok (reordering r₁ r₂) :=
  if_pos (isBijective_reordering r₁ r₂)

/-- The transform of a factorization leaves at each position its bin of the spectrum. -/
theorem compose_works_of_hasAngles (hχ : χ 2 = 1) {f : Factorization} (hexact : f.Exact)
    (hangles : f.HasAngles) (hs : s.Ready) (hcovers : s.Covers all.toList)
    (hsize : all.size = f.size) :
    Plans s (compose f all) fun _ s' => Works χ s s' all.toList (bin χ f.size) := by
  induction f generalizing s all with
  | unit =>
    refine Plans.pure ((Works.refl hs _).congr fun f k hk => ?_)
    obtain rfl : k = 0 := by simpa [hsize, Factorization.size] using hk
    exact (bin_one f).symm
  | base radix => exact plans_butterfly hs hcovers (by simpa [Factorization.size] using hsize)
  | split n outer inner ih =>
    obtain ⟨rfl, hexact⟩ := hexact
    have hmul : (Factorization.split (outer.size * inner.size) outer inner).size =
        outer.size * inner.size := rfl
    rw [hmul] at hsize ⊢
    have hpos : 0 < inner.size := Nat.lt_of_lt_of_le Nat.two_pos inner.two_le_size
    have hdiv : outer.size * inner.size / inner.size = outer.size := Nat.mul_div_cancel _ hpos
    simp only [compose, hdiv]
    refine (plans_columns hχ hs hcovers hsize hangles.1).bind fun _ s₁ h₁ => ?_
    refine (plans_rows h₁.ready (hcovers.of_size h₁.size_eq) hsize fun s part hs hpart hlength =>
      ih hexact hangles.2 hs hpart hlength).bind fun _ s₂ h₂ => ?_
    have h₁₂ := h₁.trans h₂
    refine (Plans.ofExcept (ofMap_reorder outer.size inner.size)).read ?_
    have hcovers₂ := hcovers.of_size h₁₂.size_eq
    have hbijective := isBijective_reordering outer.size inner.size
    have horder : (reordering outer.size inner.size).size = all.size := by simp [hsize]
    refine (plans_shiftCycles hcovers₂ hbijective horder).mono fun _ s₃ h₃ => ?_
    refine (h₁₂.trans (h₃.works h₁₂.ready hcovers₂ hbijective horder)).congr fun f k hk => ?_
    rw [Array.length_toList, hsize] at hk
    rw [image_reordering hk]
    exact rows_columns hχ hpos hk f

/-- The same for a size that is small enough for all angles. -/
theorem compose_works (hχ : χ 2 = 1) {f : Factorization} (hexact : f.Exact) (hlt : f.size < 2 ^ 62)
    (hs : s.Ready) (hcovers : s.Covers all.toList) (hsize : all.size = f.size) :
    Plans s (compose f all) fun _ s' => Works χ s s' all.toList (bin χ f.size) :=
  compose_works_of_hasAngles hχ hexact (Factorization.hasAngles_of_lt hexact hlt) hs hcovers hsize

/-! ### Planning that succeeds -/

lemma exists_angle_of_column {i j : ℕ} (h : Succeeds (column n r₁ inner all i))
    (hj : j < inner.size) :
    ∃ angle, Angle.ofRatio (-2 * Int.ofNat (i * j)) (Int.ofNat n) = .ok angle := by
  obtain ⟨s, _, s', hrun⟩ := h
  obtain ⟨group, s₁, hgroup, hrun⟩ := run_bind_eq_ok.1 hrun
  obtain ⟨_, s₂, -, hrun⟩ := run_bind_eq_ok.1 hrun
  have hlength : group.length = inner.size := by simpa using length_eq_of_mapM hgroup
  have hmem : (group[j], j) ∈ group.zipIdx := List.mk_mem_zipIdx_iff_getElem?.2 (by simp)
  obtain ⟨_, angle, _, hangle⟩ := (Succeeds.of_mem ⟨s₂, _, s', hrun⟩ hmem).of_bind.1
  cases hratio : Angle.ofRatio (-2 * Int.ofNat (i * j)) (Int.ofNat n) with
  | ok angle => exact ⟨angle, rfl⟩
  | error e =>
    simp only [hratio] at hangle
    cases hangle

/-- If the transform of a factorization is planned to the end, all its angles are in range. -/
lemma hasAngles_of_succeeds {f : Factorization} (hexact : f.Exact) (h : Succeeds (compose f all)) :
    f.HasAngles := by
  induction f generalizing all with
  | unit | base radix => trivial
  | split n outer inner ih =>
    obtain ⟨rfl, hexact⟩ := hexact
    have hpos : 0 < inner.size := Nat.lt_of_lt_of_le Nat.two_pos inner.two_le_size
    have hdiv : outer.size * inner.size / inner.size = outer.size := Nat.mul_div_cancel _ hpos
    simp only [compose, hdiv, forBelow_eq_forM] at h
    obtain ⟨hcolumns, _, hrest⟩ := h.of_bind
    refine ⟨fun i hi j hj => ?_, ?_⟩
    · exact exists_angle_of_column (hcolumns.of_mem (List.mem_range.2 hi)) hj
    · -- each row is a transform of the outer part, and there is at least one
      obtain ⟨-, part, hpart⟩ := (hrest.of_bind.1.of_mem (List.mem_range.2 hpos)).of_bind
      exact ih hexact hpart

end Planner

namespace Plan

/-- The requests of a plan turn values into their spectrum, of which the permutation tells at which
slot each bin is found. -/
structure Transforms (plan : Plan) (n : ℕ) (order : Permutation) : Prop where
  outcome_eq : plan.outcome = .ok order
  bijective : Permutation.IsBijective order.map
  size_eq : order.size = n
  fits : ∀ r ∈ plan.requests, r.Fits {slot | slot < n}
  apply_eq : ∀ x : ℕ → K, ∀ k < n, Request.applyAll χ plan.requests x (order.image k) = bin χ n x k

variable {χ}

lemma slotOf_start {n p : ℕ} (hp : p < n) : (Planner.start n).slotOf p = p := by
  simp [Planner.start, Planner.slotOf, hp]

lemma slots_start (n : ℕ) :
    (Planner.start n).slots (Array.range n).toList = {slot | slot < n} := by
  ext slot
  simp only [Planner.slots, Set.mem_image, Set.mem_ofPred_eq, Array.toList_range, List.mem_range]
  constructor
  · rintro ⟨p, hp, rfl⟩
    rwa [slotOf_start hp]
  · exact fun h => ⟨slot, h, slotOf_start h⟩

/-- A plan does not fail before the requests of the factorization are issued, whatever the limit. -/
lemma ofSize_eq_of_limit {n : ℕ} {f : Factorization} (hf : Factorization.ofSize n = .ok f)
    (limit : Option ℕ) :
    ofSize n limit = .ok (
      let outcome := (Planner.compose f (Array.range n)).run.run { Planner.start n with limit }
      ⟨outcome.2.requests.toList,
        outcome.1.bind fun _ => Permutation.ofMap outcome.2.addresses⟩) := by
  have hofSize : ofSize n limit = (Factorization.ofSize n).bind fun f' =>
      let outcome := (Planner.compose f' (Array.range n)).run.run { Planner.start n with limit }
      .ok ⟨outcome.2.requests.toList,
        outcome.1.bind fun _ => Permutation.ofMap outcome.2.addresses⟩ := rfl
  rw [hofSize, hf]
  rfl

lemma ofSize_eq {n : ℕ} {f : Factorization} (hf : Factorization.ofSize n = .ok f) :
    ofSize n = .ok (
      let outcome := (Planner.compose f (Array.range n)).run.run (Planner.start n)
      ⟨outcome.2.requests.toList,
        outcome.1.bind fun _ => Permutation.ofMap outcome.2.addresses⟩) :=
  ofSize_eq_of_limit hf none

/-- Every size that can be split has a plan, unless one of its angles is out of range. -/
theorem exists_of_hasAngles (hχ : χ 2 = 1) {n : ℕ} {f : Factorization}
    (hf : Factorization.ofSize n = .ok f) (hangles : f.HasAngles) :
    ∃ plan order, ofSize n = .ok plan ∧ plan.Transforms χ n order := by
  obtain ⟨rfl, hexact⟩ := Factorization.exact_of_ofSize hf
  have hready : (Planner.start f.size).Ready := by
    refine ⟨fun p hp q hq heq => ?_, rfl⟩
    rwa [slotOf_start (by simpa [Planner.start] using hp),
      slotOf_start (by simpa [Planner.start] using hq)] at heq
  have hcovers : (Planner.start f.size).Covers (Array.range f.size).toList :=
    ⟨by simp [List.nodup_range], fun p hp => by simpa [Planner.start] using hp⟩
  obtain ⟨_, s, hrun, hs⟩ :=
    Planner.compose_works_of_hasAngles hχ hexact hangles hready hcovers (by simp)
  obtain ⟨requests, hrequests, hfits, happly⟩ := hs.requests
  rw [slots_start] at hfits
  have hsize : s.addresses.size = f.size := by simpa [Planner.start] using hs.size_eq
  have hslot {p : ℕ} (hp : p < f.size) : s.addresses[p]? = some (s.slotOf p) := by
    simp [Planner.slotOf, hsize, hp]
  have hbijective : Permutation.IsBijective s.addresses := by
    constructor
    · intro a ha
      obtain ⟨p, hp, rfl⟩ := List.getElem_of_mem ha
      have hp' : p < f.size := by simpa [hsize] using hp
      have hmem : s.slotOf p ∈ s.slots (Array.range f.size).toList := ⟨p, by simpa using hp', rfl⟩
      rw [hs.slots_eq, slots_start] at hmem
      rw [Array.getElem_toList, hsize]
      simpa [Planner.slotOf, hsize, hp'] using hmem
    · refine List.nodup_iff_injective_getElem.2 fun p q heq => Fin.ext ?_
      refine hs.ready.inj p (by simp) q (by simp) ?_
      simpa [Planner.slotOf] using heq
  refine ⟨⟨s.requests.toList, Permutation.ofMap s.addresses⟩, ⟨s.addresses⟩, ?_, if_pos hbijective,
    hbijective, hsize, ?_, fun x k hk => ?_⟩
  · rw [ofSize_eq hf, hrun]
    rfl
  · simpa [hrequests, Planner.start] using hfits
  · have hk' : k < (Array.range f.size).toList.length := by simpa using hk
    have himage : (⟨s.addresses⟩ : Permutation).image k = s.slotOf k := by
      simp [Permutation.image, hslot hk]
    have hreads : (Planner.start f.size).Reads (Array.range f.size).toList x x := by
      intro j hj
      have hj' : j < f.size := by simpa using hj
      simp [hj', slotOf_start hj']
    have hbin := (happly x).2 x hreads k hk'
    rw [himage]
    simpa [hrequests, Planner.start, hk] using hbin

/-- Sizes that can be split and are small enough for all angles have a plan. -/
theorem exists_ofSize (hχ : χ 2 = 1) {n : ℕ} (hn : n ∈ Nat.smoothNumbers 6) (hlt : n < 2 ^ 62) :
    ∃ plan order, ofSize n = .ok plan ∧ plan.Transforms χ n order := by
  obtain ⟨f, hf, hsize, hexact⟩ := Factorization.exists_ofSize hn
  exact exists_of_hasAngles hχ hf (Factorization.hasAngles_of_lt hexact (hsize ▸ hlt))

/-- If a plan ends with a permutation, all angles of its size were in range. -/
lemma hasAngles_of_outcome {n : ℕ} {plan : Plan} {order : Permutation}
    (hplan : ofSize n = .ok plan) (horder : plan.outcome = .ok order) :
    ∃ f, Factorization.ofSize n = .ok f ∧ f.HasAngles := by
  cases hf : Factorization.ofSize n with
  | error e =>
    rw [ofSize, hf] at hplan
    cases hplan
  | ok f =>
    refine ⟨f, rfl, Planner.hasAngles_of_succeeds
      (Factorization.exact_of_ofSize hf).2 (?_ : Succeeds (Planner.compose f (Array.range n)))⟩
    rw [ofSize_eq hf] at hplan
    obtain rfl := Except.ok.inj hplan
    cases hrun : (Planner.compose f (Array.range n)).run.run (Planner.start n) with
    | mk result s =>
      rw [hrun] at horder
      cases result with
      | ok a => exact ⟨_, a, s, hrun⟩
      | error e => cases horder

end Plan

end MixedRadix
