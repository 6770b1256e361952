import MixedRadix.Permutation
import Mathlib.Data.List.Chain
import Mathlib.Data.List.Perm.Subperm
import Mathlib.Dynamics.PeriodicPts.Lemmas
import Mathlib.Data.Fintype.Pigeonhole

/-!
# Cycles of permutations

The walk through the cycles of a bijection meets every position once, and each of its lists is a
cycle (`Permutation.sound_cycles`). To shift values along all the cycles, one after the other, is
therefore to compose with the bijection (`Permutation.shift_cycle`, `Permutation.shifted_length`).
-/

namespace MixedRadix.Permutation

open Function

variable {p : Permutation}

lemma getElem?_map {i : ℕ} (hi : i < p.size) : p.map[i]? = some (p.image i) := by
  have hi' : i < p.map.size := hi
  simp [image, hi']

lemma image_of_le {i : ℕ} (hi : p.size ≤ i) : p.image i = i := by
  simp [image, Array.getElem?_eq_none (show p.map.size ≤ i from hi)]

lemma image_lt (hp : IsBijective p.map) {i : ℕ} (hi : i < p.size) : p.image i < p.size :=
  hp.1 _ (Array.mem_toList_iff.2 (Array.mem_of_getElem? (getElem?_map hi)))

lemma image_injective (hp : IsBijective p.map) : Injective p.image := by
  intro i j hij
  rcases lt_or_ge i p.size with hi | hi <;> rcases lt_or_ge j p.size with hj | hj
  · have heq : p.map.toList[i]? = p.map.toList[j]? := by
      rw [Array.getElem?_toList, Array.getElem?_toList, getElem?_map hi, getElem?_map hj, hij]
    exact (List.getElem?_inj hi hp.2).1 heq
  · rw [image_of_le hj] at hij
    have := image_lt hp hi
    omega
  · rw [image_of_le hi] at hij
    have := image_lt hp hj
    omega
  · rwa [image_of_le hi, image_of_le hj] at hij

lemma exists_image_eq (hp : IsBijective p.map) {j : ℕ} (hj : j < p.size) :
    ∃ i < p.size, p.image i = j := by
  have hsurj := Finset.surjOn_of_injOn_of_card_le p.image (s := Finset.range p.size)
    (t := Finset.range p.size) (fun i hi => by simpa using image_lt hp (by simpa using hi))
    (image_injective hp).injOn le_rfl
  simpa using hsurj (by simpa using hj)

/-- The images are all positions. -/
lemma perm_range (hp : IsBijective p.map) : p.map.toList.Perm (List.range p.size) := by
  have hsub : p.map.toList ⊆ List.range p.size := fun i hi => List.mem_range.2 (hp.1 i hi)
  exact (hp.2.subperm hsub).perm_of_length_le (by simp [size])

/-- Entries that are picked by a permutation are all entries. -/
lemma perm_of_picked {α : Type} {xs ys : List α} (hp : IsBijective p.map)
    (hsize : p.size = xs.length)
    (h : List.Forall₂ (fun i y => xs[p.image i]? = some y) (List.range xs.length) ys) :
    ys.Perm xs := by
  obtain ⟨hlength, hget⟩ := List.forall₂_iff_get.1 h
  have hys : ys.map some = p.map.toList.map (xs[·]?) := by
    refine List.ext_getElem (by simpa [← hlength, size] using hsize.symm) fun i hi hi' => ?_
    have hi'' : i < p.size := by simpa [size] using hi'
    have himage : p.map.toList[i]? = some (p.image i) := by
      rw [Array.getElem?_toList, getElem?_map hi'']
    have := hget i (by simpa [← hlength] using hi) (by simpa using hi)
    rw [List.getElem?_eq_getElem (by simpa using hi'), Option.some.injEq] at himage
    simpa [himage] using this.symm
  have hxs : xs.map some = (List.range p.size).map (xs[·]?) :=
    List.ext_getElem (by simp [hsize]) fun i hi hi' => by simp
  rw [← List.map_perm_map_iff (Option.some_injective α), hys, hxs]
  exact (perm_range hp).map _

lemma iterate_image_lt (hp : IsBijective p.map) {i : ℕ} (hi : i < p.size) (k : ℕ) :
    p.image^[k] i < p.size := by
  induction k with
  | zero => exact hi
  | succ k ih =>
    rw [iterate_succ_apply']
    exact image_lt hp ih

/-- Every position below the size returns. -/
lemma minimalPeriod_pos (hp : IsBijective p.map) {i : ℕ} (hi : i < p.size) :
    0 < minimalPeriod p.image i := by
  obtain ⟨m, k, hne, heq⟩ := Finite.exists_ne_map_eq_of_infinite
    fun k : ℕ => (⟨p.image^[k] i, iterate_image_lt hp hi k⟩ : Fin p.size)
  have heq : p.image^[m] i = p.image^[k] i := congrArg Fin.val heq
  rcases lt_or_gt_of_ne hne with hlt | hlt
  · exact IsPeriodicPt.minimalPeriod_pos (Nat.sub_pos_of_lt hlt)
      (iterate_cancel (image_injective hp) heq.symm)
  · exact IsPeriodicPt.minimalPeriod_pos (Nat.sub_pos_of_lt hlt)
      (iterate_cancel (image_injective hp) heq)

/-! ### Orbits -/

/-- A list of positions, each of which is mapped to the next one and the last one to the first. -/
structure IsCycle (p : Permutation) (cycle : List ℕ) : Prop where
  nodup : cycle.Nodup
  image_eq : ∀ i (hi : i < cycle.length), cycle[(i + 1) % cycle.length]? = some (p.image cycle[i])

lemma IsCycle.image_mem {cycle : List ℕ} (h : p.IsCycle cycle) {i : ℕ} (hi : i ∈ cycle) :
    p.image i ∈ cycle := by
  obtain ⟨k, hk, rfl⟩ := List.getElem_of_mem hi
  exact List.mem_of_getElem? (h.image_eq k hk)

lemma IsCycle.isChain {cycle : List ℕ} (h : p.IsCycle cycle) :
    cycle.IsChain fun a b => p.image a = b := by
  refine List.isChain_iff_getElem.2 fun i hi => ?_
  have himage := h.image_eq i (by omega)
  rw [Nat.mod_eq_of_lt hi, List.getElem?_eq_getElem hi, Option.some.injEq] at himage
  exact himage.symm

lemma IsCycle.image_getLast {cycle : List ℕ} (h : p.IsCycle cycle) (hne : cycle ≠ []) :
    cycle.head? = some (p.image (cycle.getLast hne)) := by
  have hpos : 0 < cycle.length := List.length_pos_iff.2 hne
  have hlast := h.image_eq (cycle.length - 1) (by omega)
  rwa [Nat.sub_add_cancel hpos, Nat.mod_self, ← List.head?_eq_getElem?,
    ← List.getLast_eq_getElem hne] at hlast

/-- The walk from a later image collects the images that are missing. -/
lemma orbitFrom_iterate {start left fuel : ℕ} (hleft : left < minimalPeriod p.image start)
    (hfuel : left ≤ fuel) (acc : List ℕ) :
    p.orbitFrom start fuel (p.image^[minimalPeriod p.image start - left] start) acc =
      acc.reverse ++ (List.range left).map
        fun k => p.image^[minimalPeriod p.image start - left + k] start := by
  induction left generalizing fuel acc with
  | zero =>
    rw [Nat.sub_zero, iterate_minimalPeriod]
    cases fuel <;> simp [orbitFrom]
  | succ left ih =>
    obtain ⟨fuel, rfl⟩ := Nat.exists_eq_succ_of_ne_zero (Nat.ne_of_gt (Nat.lt_of_lt_of_le
      (Nat.succ_pos left) hfuel))
    have hne : p.image^[minimalPeriod p.image start - (left + 1)] start ≠ start :=
      not_isPeriodicPt_of_pos_of_lt_minimalPeriod (by omega) (by omega)
    have hnext : p.image (p.image^[minimalPeriod p.image start - (left + 1)] start) =
        p.image^[minimalPeriod p.image start - left] start :=
      (iterate_succ_apply' p.image _ start).symm.trans
        (congrArg (fun k => p.image^[k] start) (by omega))
    rw [orbitFrom, if_neg hne, hnext, ih (by omega) (by omega), List.range_succ_eq_map,
      List.map_cons, List.map_map, List.reverse_cons, List.append_assoc]
    exact congrArg (acc.reverse ++ _ :: ·) (List.map_congr_left fun k _ =>
      congrArg (fun k => p.image^[k] start) (by omega))

lemma nodup_iterates (start : ℕ) :
    ((List.range (minimalPeriod p.image start)).map (p.image^[·] start)).Nodup := by
  refine List.Nodup.map_on (fun i hi j hj hij => ?_) List.nodup_range
  exact iterate_injOn_Iio_minimalPeriod (List.mem_range.1 hi) (List.mem_range.1 hj) hij

lemma minimalPeriod_le (hp : IsBijective p.map) {start : ℕ} (h : start < p.size) :
    minimalPeriod p.image start ≤ p.size := by
  have hsub : (List.range (minimalPeriod p.image start)).map (p.image^[·] start) ⊆
      List.range p.size := by
    intro i hi
    obtain ⟨k, -, rfl⟩ := List.mem_map.1 hi
    exact List.mem_range.2 (iterate_image_lt hp h k)
  simpa using (List.subperm_of_subset (nodup_iterates start) hsub).length_le

/-- The orbit of a position lists its images until it returns. -/
lemma orbit_eq (hp : IsBijective p.map) {start : ℕ} (h : start < p.size) :
    p.orbit start = (List.range (minimalPeriod p.image start)).map (p.image^[·] start) := by
  have hpos := minimalPeriod_pos hp h
  have hle := minimalPeriod_le hp h
  obtain ⟨d, hd⟩ := Nat.exists_eq_succ_of_ne_zero hpos.ne'
  have horbit : p.orbitFrom start p.size (p.image^[minimalPeriod p.image start - d] start)
      [start] = _ := orbitFrom_iterate (by omega) (by omega) [start]
  rw [hd, Nat.succ_sub (le_refl d), Nat.sub_self, iterate_one] at horbit
  rw [orbit, horbit, hd, List.range_succ_eq_map, List.map_cons, List.map_map]
  simp [comp_def, Nat.add_comm]

lemma mem_orbit_iff (hp : IsBijective p.map) {start : ℕ} (h : start < p.size) {i : ℕ} :
    i ∈ p.orbit start ↔ ∃ k < minimalPeriod p.image start, p.image^[k] start = i := by
  simp only [orbit_eq hp h, List.mem_map, List.mem_range]

lemma isCycle_orbit (hp : IsBijective p.map) {start : ℕ} (h : start < p.size) :
    p.IsCycle (p.orbit start) := by
  rw [orbit_eq hp h]
  refine ⟨nodup_iterates start, fun i hi => ?_⟩
  have hmod := Nat.mod_lt (i + 1) (minimalPeriod_pos hp h)
  simp only [List.length_map, List.length_range, List.getElem?_map, List.getElem_map,
    List.getElem_range, List.getElem?_range hmod, Option.map_some, Option.some.injEq]
  rw [iterate_mod_minimalPeriod_eq, iterate_succ_apply']

lemma IsCycle.iterate_image_mem {cycle : List ℕ} (h : p.IsCycle cycle) {i : ℕ} (hi : i ∈ cycle)
    (k : ℕ) : p.image^[k] i ∈ cycle := by
  induction k with
  | zero => exact hi
  | succ k ih =>
    rw [iterate_succ_apply']
    exact h.image_mem ih

/-- A cycle with a position of an orbit has the one that the orbit starts at: it is reached
again. -/
lemma IsCycle.start_mem (hp : IsBijective p.map) {cycle : List ℕ} (hcycle : p.IsCycle cycle)
    {start : ℕ} (h : start < p.size) {i : ℕ} (hi : i ∈ p.orbit start) (hmem : i ∈ cycle) :
    start ∈ cycle := by
  obtain ⟨k, hk, rfl⟩ := (mem_orbit_iff hp h).1 hi
  have hback := hcycle.iterate_image_mem hmem (minimalPeriod p.image start - k)
  rwa [← iterate_add_apply, Nat.sub_add_cancel hk.le, iterate_minimalPeriod] at hback

/-! ### The walk through all cycles -/

/-- Marking leaves unmarked what was unmarked and is not listed. -/
lemma getElem?_foldl_mark (cycle : List ℕ) (met : Array Bool) (i : ℕ) :
    (cycle.foldl (fun met i => met.setIfInBounds i true) met)[i]? = some false ↔
      i ∉ cycle ∧ met[i]? = some false := by
  induction cycle generalizing met with
  | nil => simp
  | cons a cycle ih =>
    rw [List.foldl_cons, ih, Array.getElem?_setIfInBounds, List.mem_cons, not_or]
    by_cases ha : a = i
    · subst ha
      by_cases hlt : a < met.size <;> simp [hlt]
    · simp [ha, Ne.symm ha]

/-- The cycles met so far are cycles, have no position in common, and are marked. -/
structure Tour.Sound (p : Permutation) (t : Tour) : Prop where
  isCycle : ∀ c ∈ t.cycles, p.IsCycle c
  nodup : t.cycles.flatten.Nodup
  lt_size : ∀ i ∈ t.cycles.flatten, i < p.size
  unmet : ∀ i < p.size, t.met[i]? = some false ↔ i ∉ t.cycles.flatten

lemma Tour.Sound.visit {t : Tour} (hp : IsBijective p.map) (h : t.Sound p) {i : ℕ}
    (hi : i < p.size) : (t.visit p i).Sound p ∧
      (∀ j ∈ t.cycles.flatten, j ∈ (t.visit p i).cycles.flatten) ∧
      i ∈ (t.visit p i).cycles.flatten := by
  unfold Tour.visit
  split
  · rename_i hmet
    have hfresh := (h.unmet i hi).1 hmet
    have hself : i ∈ p.orbit i := (mem_orbit_iff hp hi).2 ⟨0, minimalPeriod_pos hp hi, rfl⟩
    have hdisjoint : (p.orbit i).Disjoint t.cycles.flatten := by
      intro j hj hj'
      obtain ⟨c, hc, hj'⟩ := List.mem_flatten.1 hj'
      exact hfresh (List.mem_flatten.2 ⟨c, hc, (h.isCycle c hc).start_mem hp hi hj hj'⟩)
    refine ⟨⟨?_, ?_, ?_, ?_⟩, ?_, ?_⟩
    · intro c hc
      rcases List.mem_cons.1 hc with rfl | hc
      · exact isCycle_orbit hp hi
      · exact h.isCycle c hc
    · exact List.nodup_append'.2 ⟨(isCycle_orbit hp hi).nodup, h.nodup, hdisjoint⟩
    · intro j hj
      rcases List.mem_append.1 hj with hj | hj
      · obtain ⟨k, -, rfl⟩ := (mem_orbit_iff hp hi).1 hj
        exact iterate_image_lt hp hi k
      · exact h.lt_size j hj
    · intro j hj
      simp only [Tour.add, getElem?_foldl_mark, List.flatten_cons, List.mem_append, not_or,
        h.unmet j hj]
    · exact fun j hj => List.mem_append_right _ hj
    · exact List.mem_append_left _ hself
  · rename_i hmet
    refine ⟨h, fun _ hj => hj, ?_⟩
    rw [h.unmet i hi, not_not] at hmet
    exact hmet

lemma Tour.Sound.foldl_visit (hp : IsBijective p.map) {is : List ℕ} (his : ∀ i ∈ is, i < p.size)
    {t : Tour} (h : t.Sound p) :
    (is.foldl (Tour.visit p) t).Sound p ∧
      (∀ j ∈ t.cycles.flatten, j ∈ (is.foldl (Tour.visit p) t).cycles.flatten) ∧
      ∀ i ∈ is, i ∈ (is.foldl (Tour.visit p) t).cycles.flatten := by
  induction is generalizing t with
  | nil => exact ⟨h, fun _ hj => hj, by simp⟩
  | cons i is ih =>
    obtain ⟨hvisit, hkeep, hself⟩ := h.visit hp (his i (by simp))
    obtain ⟨hsound, hkeep', hall⟩ := ih (fun j hj => his j (by simp [hj])) hvisit
    refine ⟨hsound, fun j hj => hkeep' j (hkeep j hj), fun j hj => ?_⟩
    rcases List.mem_cons.1 hj with rfl | hj
    · exact hkeep' _ hself
    · exact hall j hj

lemma sound_cycles (hp : IsBijective p.map) :
    (∀ c ∈ p.cycles, p.IsCycle c) ∧ p.cycles.flatten.Nodup ∧
      ∀ i, i ∈ p.cycles.flatten ↔ i < p.size := by
  have hstart : Tour.Sound p { met := Array.replicate p.size false } :=
    ⟨by simp, by simp, by simp, fun i hi => by simp [hi]⟩
  have hrange : ∀ i ∈ List.range p.size, i < p.size := fun i hi => List.mem_range.1 hi
  obtain ⟨hsound, -, hall⟩ := hstart.foldl_visit hp hrange
  have hperm := (List.reverse_perm ((List.range p.size).foldl (Tour.visit p)
    { met := Array.replicate p.size false }).cycles).flatten
  refine ⟨fun c hc => hsound.isCycle c (List.mem_reverse.1 hc), hperm.nodup_iff.2 hsound.nodup,
    fun i => ⟨fun hi => hsound.lt_size i (hperm.mem_iff.1 hi), fun hi => ?_⟩⟩
  exact hperm.mem_iff.2 (hall i (List.mem_range.2 hi))

/-! ### Shifting along cycles -/

section Shift

variable {α : Type}

/-- Lets every position of a list take the value of the next one, in this order, and the last one
`first`. -/
def shiftAlong (first : α) : List ℕ → (ℕ → α) → ℕ → α
  | [], g => g
  | [last], g => update g last first
  | a :: b :: rest, g => shiftAlong first (b :: rest) (update g a (g b))

/-- Along a list in which every position is mapped to the next one, each but the last takes the
value at its image. -/
lemma shiftAlong_apply {c : List ℕ} (hc : c ≠ []) (hnodup : c.Nodup)
    (hchain : c.IsChain fun a b => p.image a = b) (first : α) (g : ℕ → α) (i : ℕ) :
    shiftAlong first c g i =
      if i = c.getLast hc then first else if i ∈ c then g (p.image i) else g i := by
  induction c generalizing g with
  | nil => exact absurd rfl hc
  | cons a c ih =>
    cases c with
    | nil => by_cases hi : i = a <;> simp [shiftAlong, hi]
    | cons b rest =>
      rw [List.nodup_cons] at hnodup
      rw [List.isChain_cons_cons] at hchain
      have hgetLast : (a :: b :: rest).getLast hc = (b :: rest).getLast (List.cons_ne_nil _ _) :=
        List.getLast_cons (List.cons_ne_nil _ _)
      rw [shiftAlong, ih (List.cons_ne_nil _ _) hnodup.2 hchain.2, hgetLast]
      by_cases hlast : i = (b :: rest).getLast (List.cons_ne_nil _ _)
      · rw [if_pos hlast, if_pos hlast]
      · rw [if_neg hlast, if_neg hlast]
        by_cases hi : i ∈ b :: rest
        · -- the image stands behind `i` in the list, so it is not `a`
          have hnext : p.image i ∈ b :: rest := by
            obtain ⟨k, hk, rfl⟩ := List.getElem_of_mem hi
            have hk' : k + 1 < (b :: rest).length := by
              by_contra hge
              refine hlast ?_
              rw [List.getLast_eq_getElem]
              congr 1
              omega
            rw [List.isChain_iff_getElem.1 hchain.2 k hk']
            exact List.getElem_mem hk'
          have hne : p.image i ≠ a := fun e => hnodup.1 (e ▸ hnext)
          rw [if_pos hi, if_pos (List.mem_cons_of_mem a hi), update_of_ne hne]
        · by_cases hia : i = a
          · subst hia
            rw [if_neg hi, if_pos (by simp), update_self, hchain.1]
          · rw [if_neg hi, if_neg fun hmem => (List.mem_cons.1 hmem).elim hia hi, update_of_ne hia]

/-- Along a cycle, every position takes the value at its image. -/
lemma shift_cycle {c : List ℕ} (h : p.IsCycle c) {a : ℕ} (ha : c.head? = some a) (g : ℕ → α) :
    shiftAlong (g a) c g = fun i => if i ∈ c then g (p.image i) else g i := by
  have hne : c ≠ [] := by
    rintro rfl
    simp at ha
  funext i
  rw [shiftAlong_apply hne h.nodup h.isChain]
  split
  · rename_i hi
    have hlast := h.image_getLast hne
    rw [ha, Option.some.injEq, ← hi] at hlast
    rw [if_pos (hi ▸ List.getLast_mem hne), hlast]
  · rfl

/-- The values after the first `count` cycles are shifted along. -/
def shifted (p : Permutation) (g : ℕ → α) (count : ℕ) (i : ℕ) : α :=
  if i ∈ (p.cycles.take count).flatten then g (p.image i) else g i

lemma shifted_zero (g : ℕ → α) : p.shifted g 0 = g := by
  funext i
  simp [shifted]

lemma shifted_succ (hp : IsBijective p.map) (g : ℕ → α) {count : ℕ} (h : count < p.cycles.length) :
    (fun i => if i ∈ p.cycles[count] then p.shifted g count (p.image i) else p.shifted g count i) =
      p.shifted g (count + 1) := by
  obtain ⟨hcycle, hnodup, -⟩ := sound_cycles hp
  have hmem (i : ℕ) : i ∈ (p.cycles.take (count + 1)).flatten ↔
      i ∈ (p.cycles.take count).flatten ∨ i ∈ p.cycles[count] := by
    rw [List.take_succ_eq_append_getElem h, List.flatten_append, List.mem_append,
      List.flatten_singleton]
  -- the cycles done so far have no element of this one, so its values are still the first ones
  have hdisjoint : (p.cycles.take count).flatten.Disjoint p.cycles[count] := by
    have hsub : (p.cycles.take (count + 1)).flatten.Nodup :=
      hnodup.sublist (List.Sublist.flatten (List.take_sublist _ _))
    rw [List.take_succ_eq_append_getElem h, List.flatten_append, List.flatten_singleton] at hsub
    exact List.disjoint_of_nodup_append hsub
  funext i
  by_cases hi : i ∈ p.cycles[count]
  · have himage := (hcycle _ (List.getElem_mem h)).image_mem hi
    rw [if_pos hi, shifted, if_neg (hdisjoint.symm himage), shifted,
      if_pos ((hmem i).2 (Or.inr hi))]
  · simp only [shifted, hmem, hi, or_false, if_false]

lemma shifted_length (hp : IsBijective p.map) (g : ℕ → α) :
    p.shifted g p.cycles.length = fun i => g (p.image i) := by
  funext i
  rw [shifted, List.take_length]
  split
  · rfl
  · rename_i hi
    rw [(sound_cycles hp).2.2 i, not_lt] at hi
    rw [image_of_le hi]

lemma lt_size_of_mem_cycle (hp : IsBijective p.map) {c : List ℕ} (hc : c ∈ p.cycles) {i : ℕ}
    (hi : i ∈ c) : i < p.size :=
  ((sound_cycles hp).2.2 i).1 (List.mem_flatten_of_mem hc hi)

end Shift

end MixedRadix.Permutation
