import MixedRadix.Proofs.Butterfly
import MixedRadix.Proofs.Permutation

/-!
# Routines on slots

What the routines of the library do to complex slots: a butterfly writes the transform of the points
to their slots, a rotation changes one slot, and a swap or a cyclic shift shifts values along its
slots. Slots that a routine is not given keep their values, however many there are.
-/

namespace MixedRadix.Lanes

variable {R : Type}

/-- How many real and imaginary parts there are, and the values of all slots. Where there is no
slot, the value is of no account. -/
structure Shows (l : Lanes R) (sizes : ℕ × ℕ) (z : ℕ → ComplexPair R) : Prop where
  size_re : l.re.size = sizes.1
  size_im : l.im.size = sizes.2
  re : ∀ i < sizes.1, l.re[i]? = some (z i).re
  im : ∀ i < sizes.2, l.im[i]? = some (z i).im

lemma shows_getD (l : Lanes R) (d : R) :
    l.Shows (l.re.size, l.im.size) fun i => ⟨l.re.getD i d, l.im.getD i d⟩ :=
  ⟨rfl, rfl, fun i hi => by simp [Array.getD_eq_getD_getElem?, show i < l.re.size from hi],
    fun i hi => by simp [Array.getD_eq_getD_getElem?, show i < l.im.size from hi]⟩

namespace Shows

variable {l : Lanes R} {sizes : ℕ × ℕ} {z : ℕ → ComplexPair R} {slot : ℕ}

/-- A slot that has taken the value of another, where both are there or neither is. -/
lemma getElem?_eq {l' : Lanes R} {f : ℕ → ℕ} (h : l.Shows (l.re.size, l.im.size) z)
    (h' : l'.Shows (l.re.size, l.im.size) fun i => z (f i)) (slot : ℕ)
    (hre : f slot < l.re.size ↔ slot < l.re.size) (him : f slot < l.im.size ↔ slot < l.im.size) :
    l'.re[slot]? = l.re[f slot]? ∧ l'.im[slot]? = l.im[f slot]? := by
  constructor
  · rcases lt_or_ge slot l.re.size with hlt | hle
    · rw [h'.re slot hlt, h.re _ (hre.2 hlt)]
    · have hle' : l.re.size ≤ f slot := not_lt.1 (mt hre.1 (not_lt.2 hle))
      rw [Array.getElem?_eq_none (h'.size_re.trans_le hle), Array.getElem?_eq_none hle']
  · rcases lt_or_ge slot l.im.size with hlt | hle
    · rw [h'.im slot hlt, h.im _ (him.2 hlt)]
    · have hle' : l.im.size ≤ f slot := not_lt.1 (mt him.1 (not_lt.2 hle))
      rw [Array.getElem?_eq_none (h'.size_im.trans_le hle), Array.getElem?_eq_none hle']

lemma toList_re (h : l.Shows sizes z) :
    l.re.toList = (List.range sizes.1).map fun i => (z i).re := by
  refine List.ext_getElem? fun i => ?_
  rcases lt_or_ge i sizes.1 with hi | hi
  · simpa [hi] using h.re i hi
  · simp [hi, h.size_re]

lemma toList_im (h : l.Shows sizes z) :
    l.im.toList = (List.range sizes.2).map fun i => (z i).im := by
  refine List.ext_getElem? fun i => ?_
  rcases lt_or_ge i sizes.2 with hi | hi
  · simpa [hi] using h.im i hi
  · simp [hi, h.size_im]

lemma get (h : l.Shows sizes z) (hre : slot < sizes.1) (him : slot < sizes.2) :
    l.get slot = .ok (z slot) := by
  rw [Lanes.get, getOrFault_eq_ok.2 (h.re slot hre), getOrFault_eq_ok.2 (h.im slot him)]
  rfl

lemma put (h : l.Shows sizes z) (hre : slot < sizes.1) (him : slot < sizes.2) (x : ComplexPair R) :
    ∃ l', l.put slot x = .ok l' ∧ l'.Shows sizes (Function.update z slot x) := by
  refine ⟨_, put_eq_ok.2 ⟨h.size_re ▸ hre, h.size_im ▸ him, rfl⟩, by simp [h.size_re],
    by simp [h.size_im], fun i hi => ?_, fun i hi => ?_⟩
  · by_cases hslot : i = slot
    · subst hslot
      simp [h.size_re, hi]
    · simp [hslot, Ne.symm hslot, h.re i hi]
  · by_cases hslot : i = slot
    · subst hslot
      simp [h.size_im, hi]
    · simp [hslot, Ne.symm hslot, h.im i hi]

lemma getAll (h : l.Shows sizes z) {slots : List ℕ}
    (hslots : ∀ i ∈ slots, i < sizes.1 ∧ i < sizes.2) :
    slots.mapM l.get = .ok (slots.map z) := by
  induction slots with
  | nil => rfl
  | cons slot slots ih =>
    obtain ⟨hre, him⟩ := hslots slot (by simp)
    rw [List.mapM_cons, h.get hre him, ih fun i hi => hslots i (List.mem_cons_of_mem _ hi)]
    rfl

/-- Values are put into slots, one after the other. -/
lemma putAll (h : l.Shows sizes z) {writes : List (ℕ × ComplexPair R)}
    (hwrites : ∀ p ∈ writes, p.1 < sizes.1 ∧ p.1 < sizes.2) :
    ∃ l', writes.foldlM (fun l p => l.put p.1 p.2) l = .ok l' ∧
      l'.Shows sizes (writes.foldl (fun z p => Function.update z p.1 p.2) z) := by
  induction writes generalizing l z with
  | nil => exact ⟨l, rfl, h⟩
  | cons p writes ih =>
    obtain ⟨hre, him⟩ := hwrites p (by simp)
    obtain ⟨l₁, hput, h₁⟩ := h.put hre him p.2
    obtain ⟨l₂, hrest, h₂⟩ := ih h₁ fun q hq => hwrites q (by simp [hq])
    refine ⟨l₂, ?_, h₂⟩
    rw [List.foldlM_cons, hput]
    exact hrest

/-- Values are shifted along slots. -/
lemma shiftFrom (h : l.Shows sizes z) (first : ComplexPair R) {rest : List ℕ}
    (hslots : ∀ i ∈ slot :: rest, i < sizes.1 ∧ i < sizes.2) :
    ∃ l', l.shiftFrom first slot rest = .ok l' ∧
      l'.Shows sizes (Permutation.shiftAlong first (slot :: rest) z) := by
  obtain ⟨hre, him⟩ := hslots slot (by simp)
  induction rest generalizing l z slot with
  | nil => exact h.put hre him first
  | cons next rest ih =>
    have hnext := hslots next (by simp)
    obtain ⟨l₁, hput, h₁⟩ := h.put hre him (z next)
    obtain ⟨l₂, hrest, h₂⟩ := ih h₁ (fun i hi => hslots i (List.mem_cons_of_mem _ hi)) hnext.1
      hnext.2
    refine ⟨l₂, ?_, h₂⟩
    rw [Lanes.shiftFrom, h.get hnext.1 hnext.2]
    change (l.put slot (z next) >>= fun l => l.shiftFrom first next rest) = _
    rw [hput]
    exact hrest

lemma cyclicShift (h : l.Shows sizes z) {rest : List ℕ}
    (hslots : ∀ i ∈ slot :: rest, i < sizes.1 ∧ i < sizes.2) :
    ∃ l', l.cyclicShift (slot :: rest) = .ok l' ∧
      l'.Shows sizes (Permutation.shiftAlong (z slot) (slot :: rest) z) := by
  obtain ⟨hre, him⟩ := hslots slot (by simp)
  rw [Lanes.cyclicShift, h.get hre him]
  exact h.shiftFrom (z slot) hslots

/-- A swap is a shift along two slots. -/
lemma swap (h : l.Shows sizes z) {a b : ℕ} (hslots : ∀ i ∈ [a, b], i < sizes.1 ∧ i < sizes.2) :
    ∃ l', l.swap a b = .ok l' ∧ l'.Shows sizes (Permutation.shiftAlong (z a) [a, b] z) := by
  obtain ⟨hare, haim⟩ := hslots a (by simp)
  obtain ⟨hbre, hbim⟩ := hslots b (by simp)
  obtain ⟨l₁, hput, h₁⟩ := h.put hare haim (z b)
  obtain ⟨l₂, hput', h₂⟩ := h₁.put hbre hbim (z a)
  refine ⟨l₂, ?_, h₂⟩
  rw [Lanes.swap, h.get hare haim, h.get hbre hbim]
  change (l.put a (z b) >>= fun l => l.put b (z a)) = _
  rw [hput]
  exact hput'

variable [Scalar R]

lemma rotate (h : l.Shows sizes z) (hre : slot < sizes.1) (him : slot < sizes.2) (cos sin : R) :
    ∃ l', l.rotate slot cos sin = .ok l' ∧
      l'.Shows sizes (Function.update z slot ((z slot).rotate cos sin)) := by
  rw [Lanes.rotate, h.get hre him]
  exact h.put hre him _

end Shows

variable [Scalar R]

/-- A butterfly reads all its points, and then writes their transform. -/
lemma butterfly_eq {radix : Radix} {slots : List ℕ} (hlength : slots.length = radix.size)
    (l : Lanes R) :
    l.butterfly slots = (do
      let points ← slots.mapM l.get
      (slots.zip (ComplexPair.dft points)).foldlM (fun l p => l.put p.1 p.2) l) := by
  cases radix with
  | two =>
    match slots, hlength with
    | [i0, i1], _ => simp [butterfly, butterfly2, ComplexPair.dft]
  | three =>
    match slots, hlength with
    | [i0, i1, i2], _ => simp [butterfly, butterfly3, ComplexPair.dft]
  | four =>
    match slots, hlength with
    | [i0, i1, i2, i3], _ => simp [butterfly, butterfly4, ComplexPair.dft]
  | five =>
    match slots, hlength with
    | [i0, i1, i2, i3, i4], _ => simp [butterfly, butterfly5, ComplexPair.dft]

lemma Shows.butterfly {l : Lanes R} {sizes : ℕ × ℕ} {z : ℕ → ComplexPair R} (h : l.Shows sizes z)
    {radix : Radix} {slots : List ℕ} (hlength : slots.length = radix.size)
    (hslots : ∀ i ∈ slots, i < sizes.1 ∧ i < sizes.2) :
    ∃ l', l.butterfly slots = .ok l' ∧
      l'.Shows sizes ((slots.zip (ComplexPair.dft (slots.map z))).foldl
        (fun z p => Function.update z p.1 p.2) z) := by
  rw [butterfly_eq hlength, h.getAll hslots]
  exact h.putAll fun p hp => hslots p.1 (List.of_mem_zip hp).1

end MixedRadix.Lanes
