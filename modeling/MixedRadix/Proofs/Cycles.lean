import MixedRadix.Proofs.Permutation

/-!
# Exact cycles

Positions are visited in increasing order, and a visit that finds something new walks its whole
cycle. So each cycle is entered at its least element, and cycles are met in order of these
(`Permutation.Tour.Ordered`). To link the elements of all cycles is to write the permutation down
again (`Permutation.ofCycles_cycles`).
-/

namespace MixedRadix.Permutation

variable {p : Permutation}

/-! ### The order of the cycles -/

/-- The walk returns to where it started before its bound on steps matters. -/
lemma orbitFrom_eq_orbit (hp : IsBijective p.map) {start : ℕ} (h : start < p.size) {fuel : ℕ}
    (hfuel : p.size ≤ fuel) : p.orbitFrom start fuel (p.image start) [start] = p.orbit start := by
  have hpos := minimalPeriod_pos hp h
  have hle := minimalPeriod_le hp h
  have hfirst : p.image^[Function.minimalPeriod p.image start -
      (Function.minimalPeriod p.image start - 1)] start = p.image start := by
    rw [Nat.sub_sub_self hpos, Function.iterate_one]
  have hwalk (fuel : ℕ) (hfuel : p.size ≤ fuel) := orbitFrom_iterate (p := p)
    (Nat.sub_lt hpos Nat.one_pos) (show _ ≤ fuel by omega) [start]
  rw [orbit, ← hfirst, hwalk fuel hfuel, hwalk p.size le_rfl]

lemma head?_orbit (hp : IsBijective p.map) {start : ℕ} (h : start < p.size) :
    (p.orbit start).head? = some start := by
  obtain ⟨k, hk⟩ := Nat.exists_eq_succ_of_ne_zero (minimalPeriod_pos hp h).ne'
  rw [orbit_eq hp h, hk, List.range_succ_eq_map]
  rfl

/-- The positions below `bound` were visited: all of them are on a cycle, and the cycles, latest
first, begin with their least elements. -/
structure Tour.Ordered (t : Tour) (bound : ℕ) : Prop where
  met : ∀ i < bound, i ∈ t.cycles.flatten
  least : ∀ cycle ∈ t.cycles, ∃ a, cycle.head? = some a ∧ a < bound ∧ ∀ i ∈ cycle, a ≤ i
  decreasing : (t.cycles.map (·.headD 0)).Pairwise (· > ·)

lemma Tour.Ordered.visit {t : Tour} {i : ℕ} (hp : IsBijective p.map) (hsound : t.Sound p)
    (h : t.Ordered i) (hi : i < p.size) : (t.visit p i).Ordered (i + 1) := by
  obtain ⟨hsound', hkeep, hself⟩ := hsound.visit hp hi
  have hmet : ∀ j < i + 1, j ∈ (t.visit p i).cycles.flatten := by
    intro j hj
    rcases Nat.lt_succ_iff_lt_or_eq.1 hj with hj | rfl
    · exact hkeep j (h.met j hj)
    · exact hself
  have hleast : ∀ cycle ∈ t.cycles, ∃ a, cycle.head? = some a ∧ a < i + 1 ∧ ∀ j ∈ cycle, a ≤ j := by
    intro cycle hcycle
    obtain ⟨a, ha, hlt, hle⟩ := h.least cycle hcycle
    exact ⟨a, ha, Nat.lt_succ_of_lt hlt, hle⟩
  unfold Tour.visit at hsound' hmet ⊢
  split at hmet
  · rename_i hunmet
    rw [if_pos hunmet] at hsound' ⊢
    have hhead := head?_orbit hp hi
    refine ⟨hmet, ?_, ?_⟩
    · intro cycle hcycle
      rcases List.mem_cons.1 hcycle with rfl | hcycle
      · refine ⟨i, hhead, Nat.lt_succ_self i, fun j hj => ?_⟩
        -- a lesser element would have been met before, together with its cycle
        have hdisjoint : (p.orbit i).Disjoint t.cycles.flatten :=
          List.disjoint_of_nodup_append hsound'.nodup
        by_contra hlt
        exact hdisjoint hj (h.met j (by omega))
      · exact hleast cycle hcycle
    · refine List.pairwise_cons.2 ⟨fun b hb => ?_, h.decreasing⟩
      obtain ⟨cycle, hcycle, rfl⟩ := List.mem_map.1 hb
      obtain ⟨a, ha, hlt, -⟩ := h.least cycle hcycle
      simpa [List.headD_eq_head?_getD, ha, hhead] using hlt
  · rename_i hunmet
    rw [if_neg hunmet]
    exact ⟨hmet, hleast, h.decreasing⟩

lemma Tour.ordered_foldl_visit (hp : IsBijective p.map) {bound : ℕ} (hbound : bound ≤ p.size) :
    ((List.range bound).foldl (Tour.visit p) { met := Array.replicate p.size false }).Ordered
      bound := by
  induction bound with
  | zero => exact ⟨by simp, by simp, by simp⟩
  | succ i ih =>
    have hstart : Tour.Sound p { met := Array.replicate p.size false } :=
      ⟨by simp, by simp, by simp, fun i hi => by simp [hi]⟩
    have hrange : ∀ j ∈ List.range i, j < p.size := by
      intro j hj
      exact (List.mem_range.1 hj).trans hbound
    rw [List.range_succ, List.foldl_append]
    exact (ih (Nat.le_of_succ_le hbound)).visit hp (hstart.foldl_visit hp hrange).1 hbound

/-- Each cycle begins with its least element. -/
lemma head_le_of_mem_cycles (hp : IsBijective p.map) {cycle : List ℕ} (h : cycle ∈ p.cycles) :
    ∃ a, cycle.head? = some a ∧ ∀ i ∈ cycle, a ≤ i := by
  obtain ⟨a, ha, -, hle⟩ :=
    (Tour.ordered_foldl_visit hp le_rfl).least cycle (List.mem_reverse.1 h)
  exact ⟨a, ha, hle⟩

/-- The cycles are listed in increasing order of their first elements. -/
lemma pairwise_heads_cycles (hp : IsBijective p.map) :
    (p.cycles.map (·.headD 0)).Pairwise (· < ·) := by
  rw [cycles, List.map_reverse, List.pairwise_reverse]
  exact (Tour.ordered_foldl_visit hp le_rfl).decreasing

/-! ### The permutation of the cycles -/

/-- Linking writes the image of every element of a cycle and keeps all other entries. -/
lemma linkCycle_eq {cycle : List ℕ} {first : ℕ} {map : Array ℕ}
    (hlt : ∀ a ∈ cycle, a < map.size) (hchain : cycle.IsChain fun a b => p.image a = b)
    (hlast : ∀ a ∈ cycle.getLast?, p.image a = first) :
    ∃ map', linkCycle first cycle map = .ok map' ∧ map'.size = map.size ∧
      ∀ i : ℕ, map'[i]? = if i ∈ cycle then some (p.image i) else map[i]? := by
  induction cycle generalizing map with
  | nil => exact ⟨map, rfl, rfl, by simp⟩
  | cons a rest ih =>
    have ha : a < map.size := hlt a (by simp)
    have hset (target i : ℕ) : (map.setIfInBounds a target)[i]? =
        if i = a then some target else map[i]? := by
      rw [Array.getElem?_setIfInBounds]
      by_cases hi : i = a
      · simp [hi, ha]
      · simp [hi, Ne.symm hi]
    have hok (target : ℕ) : setOrFault map a target = .ok (map.setIfInBounds a target) := if_pos ha
    cases rest with
    | nil =>
      have hfirst : p.image a = first := hlast a (by simp)
      refine ⟨map.setIfInBounds a first, hok first, by simp, fun i => ?_⟩
      rw [hset, ← hfirst]
      by_cases hi : i = a <;> simp [hi]
    | cons b rest =>
      obtain ⟨hab, hchain⟩ := List.isChain_cons_cons.1 hchain
      have hlast' : ∀ c ∈ (b :: rest).getLast?, p.image c = first := by
        intro c hc
        exact hlast c (by simpa using hc)
      have hlt' : ∀ i ∈ b :: rest, i < (map.setIfInBounds a b).size := by
        intro i hi
        simpa using hlt i (by simp [hi])
      obtain ⟨map', hlink, hsize, hget⟩ := ih hlt' hchain hlast'
      refine ⟨map', ?_, by simpa using hsize, fun i => ?_⟩
      · rw [linkCycle, hok]
        exact hlink
      · rw [hget, hset]
        by_cases hi : i ∈ b :: rest
        · rw [if_pos hi, if_pos (List.mem_cons_of_mem a hi)]
        · rw [if_neg hi]
          by_cases hia : i = a
          · rw [if_pos hia, if_pos (by simp [hia]), hia, hab]
          · rw [if_neg hia, if_neg fun hmem => (List.mem_cons.1 hmem).elim hia hi]

lemma foldlM_linkCycle {cycles : List (List ℕ)} (hcycles : ∀ cycle ∈ cycles, p.IsCycle cycle)
    {map : Array ℕ} (hlt : ∀ i ∈ cycles.flatten, i < map.size) :
    ∃ map', cycles.foldlM (fun map cycle => linkCycle (cycle.headD 0) cycle map) map = .ok map' ∧
      map'.size = map.size ∧
      ∀ i : ℕ, map'[i]? = if i ∈ cycles.flatten then some (p.image i) else map[i]? := by
  induction cycles generalizing map with
  | nil => exact ⟨map, rfl, rfl, by simp⟩
  | cons cycle cycles ih =>
    have hcycle := hcycles cycle (by simp)
    have hlast : ∀ a ∈ cycle.getLast?, p.image a = cycle.headD 0 := by
      intro a ha
      have hne : cycle ≠ [] := by
        rintro rfl
        simp at ha
      rw [List.getLast?_eq_some_getLast hne, Option.mem_some_iff] at ha
      rw [List.headD_eq_head?_getD, hcycle.image_getLast hne, ha, Option.getD_some]
    obtain ⟨map₁, hlink, hsize₁, hget₁⟩ := linkCycle_eq
      (fun a ha => hlt a (by simp [ha])) hcycle.isChain hlast
    have hlt₁ : ∀ i ∈ cycles.flatten, i < map₁.size := by
      intro i hi
      exact hsize₁ ▸ hlt i (List.mem_append_right cycle hi)
    obtain ⟨map₂, hfold, hsize₂, hget₂⟩ := ih (fun c hc => hcycles c (by simp [hc])) hlt₁
    refine ⟨map₂, ?_, hsize₂.trans hsize₁, fun i => ?_⟩
    · rw [List.foldlM_cons, hlink]
      exact hfold
    · rw [hget₂, hget₁, List.flatten_cons]
      by_cases hi : i ∈ cycles.flatten <;> by_cases hi' : i ∈ cycle <;>
        simp only [hi, hi', List.mem_append, if_true, if_false, or_true, or_false]

/-- The cycles of a permutation give it back. -/
lemma ofCycles_cycles (hp : IsBijective p.map) : ofCycles p.size p.cycles = .ok p := by
  obtain ⟨hcycle, -, hmem⟩ := sound_cycles hp
  have hlt : ∀ i ∈ p.cycles.flatten, i < (Array.range p.size).size := by
    intro i hi
    simpa using (hmem i).1 hi
  obtain ⟨map, hfold, hsize, hget⟩ := foldlM_linkCycle hcycle hlt
  have hmap : map = p.map := by
    refine Array.ext_getElem? fun i => ?_
    rw [hget]
    split
    · rename_i hi
      exact (getElem?_map ((hmem i).1 hi)).symm
    · rename_i hi
      rw [hmem, not_lt] at hi
      rw [Array.getElem?_eq_none (by simpa using hi), Array.getElem?_eq_none hi]
  rw [ofCycles, hfold, hmap]
  rfl

/-- The cycles of a bijection are found exactly. No walk is cut off by its bound on steps; together
the lists hold every position once; each begins with its least element, and each element is followed
by its image, the last one by the first; the first elements increase from list to list; and the
lists give the map back. -/
theorem cycles_exact (hp : IsBijective p.map) :
    ofMap p.map = .ok p ∧
    (∀ start < p.size, ∀ fuel ≥ p.size,
      p.orbitFrom start fuel (p.image start) [start] = p.orbit start) ∧
    p.cycles.flatten.Perm (List.range p.size) ∧
    (∀ cycle ∈ p.cycles,
      (∃ a, cycle.head? = some a ∧ ∀ i ∈ cycle, a ≤ i) ∧
      ∀ k i : ℕ, cycle[k]? = some i → cycle[(k + 1) % cycle.length]? = p.map[i]?) ∧
    (p.cycles.map (·.headD 0)).Pairwise (· < ·) ∧
    ofCycles p.size p.cycles = .ok p := by
  obtain ⟨hcycle, hnodup, hmem⟩ := sound_cycles hp
  refine ⟨if_pos hp, fun start hstart fuel hfuel => orbitFrom_eq_orbit hp hstart hfuel, ?_,
    fun cycle h => ⟨head_le_of_mem_cycles hp h, fun k i hi => ?_⟩, pairwise_heads_cycles hp,
    ofCycles_cycles hp⟩
  · refine (List.perm_ext_iff_of_nodup hnodup List.nodup_range).2 fun i => ?_
    rw [hmem, List.mem_range]
  · obtain ⟨hk, rfl⟩ := List.getElem?_eq_some_iff.1 hi
    rw [(hcycle cycle h).image_eq k hk,
      getElem?_map (lt_size_of_mem_cycle hp h (List.getElem_mem hk))]

/-- Two cycles and a fixed point. -/
theorem cycles_exact_six :
    (⟨#[2, 0, 1, 3, 5, 4]⟩ : Permutation).cycles = [[0, 2, 1], [3], [4, 5]] ∧
      ofCycles 6 [[0, 2, 1], [3], [4, 5]] = .ok ⟨#[2, 0, 1, 3, 5, 4]⟩ := by
  have hcycles : (⟨#[2, 0, 1, 3, 5, 4]⟩ : Permutation).cycles = [[0, 2, 1], [3], [4, 5]] := by
    decide
  have hexact := cycles_exact (p := ⟨#[2, 0, 1, 3, 5, 4]⟩) (by decide)
  rw [hcycles] at hexact
  exact ⟨hcycles, hexact.2.2.2.2.2⟩

end MixedRadix.Permutation
