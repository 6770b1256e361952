import MixedRadix.Proofs.Bookkeeping

/-!
# Recycling of names

A pool can be used in any way: names may be taken and given back in any order, and symbols may be
given back that are no temporaries or not in use. Whatever was done, the names issued are divided
among those in use and those free (`TempPool.Partitioned`), the free ones are queued by the times of
their last releases (`TempPool.Queued`), and as many names were issued as were once in use together
(`TempPool.Thrifty`).
-/

namespace MixedRadix.TempPool

/-! ### Steps -/

/-- A use of a pool. -/
inductive Action where
  | allocate
  | release (s : Symbol)
  deriving DecidableEq

/-- The pool after an action, whether it succeeds or not. -/
def perform (p : TempPool) : Action → TempPool
  | .allocate => p.allocate.2
  | .release s =>
    match p.release s with
    | .ok p' => p'
    | .error _ => p

/-- A name comes from the front of the queue, or is new if none is free. -/
lemma allocate_cases (p : TempPool) :
    (p.free.toList = [] ∧ p.allocate.1 = p.next ∧ p.allocate.2.free.toList = [] ∧
      p.allocate.2.next = p.next + 1) ∨
    (p.free.toList = p.allocate.1 :: p.allocate.2.free.toList ∧ p.allocate.2.next = p.next) := by
  unfold allocate
  cases hpop : p.free.pop? with
  | none =>
    have hfree := Fifo.toList_of_pop?_eq_none hpop
    exact Or.inl ⟨hfree, rfl, hfree, rfl⟩
  | some popped => exact Or.inr ⟨Fifo.toList_of_pop?_eq_some hpop, rfl⟩

/-- The name leaves the queue if it was free. -/
lemma free_allocate (p : TempPool) : p.allocate.2.free.toList = p.free.toList.tail := by
  obtain ⟨hfree, -, hfree', -⟩ | ⟨hfree, -⟩ := allocate_cases p
  · rw [hfree', hfree, List.tail_nil]
  · rw [hfree, List.tail_cons]

/-- The name is added to those in use, and the peak follows their number. -/
lemma allocate_size (p : TempPool) (hnew : p.allocate.1 ∉ p.inUse) :
    p.allocate.2.inUse.size = p.inUse.size + 1 ∧
      p.allocate.2.peak = max p.peak (p.inUse.size + 1) := by
  have hinsert : (p.inUse.insert p.allocate.1).size = p.inUse.size + 1 := by
    rw [Std.TreeSet.size_insert, if_neg (mt Std.TreeSet.contains_iff_mem.1 hnew)]
  rw [← hinsert]
  unfold allocate
  split <;> exact ⟨rfl, rfl⟩

lemma release_temp {p : TempPool} {id : ℕ} (hid : id ∈ p.inUse) : p.release (.temp id) =
    .ok { p with inUse := p.inUse.erase id, free := p.free.push id } := by
  simp [release, Symbol.tempId?, hid]

/-- A symbol is refused exactly if it is no temporary in use. -/
lemma exists_release_error_iff {p : TempPool} {s : Symbol} :
    (∃ e, p.release s = .error e) ↔ ¬ ∃ id ∈ p.inUse, s = .temp id := by
  constructor
  · rintro ⟨e, he⟩ ⟨id, hid, rfl⟩
    rw [release_temp hid] at he
    cases he
  · intro hs
    cases hrelease : p.release s with
    | error e => exact ⟨e, rfl⟩
    | ok p' =>
      obtain ⟨id, rfl, hid, -⟩ := release_eq_ok hrelease
      exact absurd ⟨id, hid, rfl⟩ hs

lemma perform_of_error {p : TempPool} {s : Symbol} {e : ReleaseError}
    (h : p.release s = .error e) : p.perform (.release s) = p := by
  rw [perform, h]

/-- What an action can do. -/
lemma perform_cases (p : TempPool) (a : Action) :
    (a = .allocate ∧ p.perform a = p.allocate.2) ∨
      (∃ id ∈ p.inUse, a = .release (.temp id) ∧
        p.perform a = { p with inUse := p.inUse.erase id, free := p.free.push id }) ∨
      (∃ s, a = .release s ∧ (¬ ∃ id ∈ p.inUse, s = .temp id) ∧ p.perform a = p) := by
  cases a with
  | allocate => exact Or.inl ⟨rfl, rfl⟩
  | release s =>
    refine Or.inr ?_
    by_cases hs : ∃ id ∈ p.inUse, s = .temp id
    · obtain ⟨id, hid, rfl⟩ := hs
      exact Or.inl ⟨id, hid, rfl, by rw [perform, release_temp hid]⟩
    · obtain ⟨e, he⟩ := exists_release_error_iff.2 hs
      exact Or.inr ⟨s, rfl, hs, perform_of_error he⟩

/-! ### Runs -/

/-- The pool after some actions, from an empty one. -/
def performAll (actions : List Action) : TempPool :=
  actions.foldl perform {}

lemma performAll_concat (actions : List Action) (a : Action) :
    performAll (actions ++ [a]) = (performAll actions).perform a := by
  simp [performAll]

/-- Whatever is done, the pool is one that comes from an empty one. -/
lemma reachable_performAll (actions : List Action) : (performAll actions).Reachable := by
  induction actions using List.reverseRecOn with
  | nil => exact .empty
  | append_singleton actions a ih =>
    rw [performAll_concat]
    cases a with
    | allocate => exact ih.allocate
    | release s =>
      cases hrelease : (performAll actions).release s with
      | ok p' =>
        rw [perform, hrelease]
        exact ih.release hrelease
      | error e => rwa [perform_of_error hrelease]

lemma partitioned_performAll (actions : List Action) : (performAll actions).Partitioned :=
  (reachable_performAll actions).partitioned

/-! ### Numbers of names -/

/-- All names are counted, and the largest number that was in use at once is the number issued. -/
structure Thrifty (p : TempPool) : Prop where
  size_eq : p.inUse.size + p.free.toList.length = p.next
  peak_eq : p.peak = p.next

/-- A new name is issued only if all others are in use. -/
lemma Thrifty.allocate {p : TempPool} (h : p.Thrifty) (hp : p.Partitioned) :
    p.allocate.2.Thrifty := by
  obtain ⟨hsize, hpeak⟩ := h
  obtain ⟨hsize', hpeak'⟩ := allocate_size p hp.allocate.1
  obtain ⟨hfree, -, hfree', hnext⟩ | ⟨hfree, hnext⟩ := allocate_cases p
  · rw [hfree, List.length_nil] at hsize
    constructor
    · rw [hsize', hfree', hnext, List.length_nil]
      omega
    · rw [hpeak', hnext]
      omega
  · rw [hfree, List.length_cons] at hsize
    constructor
    · rw [hsize', hnext]
      omega
    · rw [hpeak', hnext]
      omega

lemma Thrifty.release {p : TempPool} (h : p.Thrifty) {id : ℕ} (hid : id ∈ p.inUse) :
    ({ p with inUse := p.inUse.erase id, free := p.free.push id } : TempPool).Thrifty := by
  refine ⟨?_, h.peak_eq⟩
  have hmem : p.inUse.contains id = true := Std.TreeSet.contains_iff_mem.2 hid
  have hpos : p.inUse.size ≠ 0 := by
    have hempty := Std.TreeSet.isEmpty_eq_false_of_contains hmem
    rwa [Std.TreeSet.isEmpty_eq_size_eq_zero, beq_eq_false_iff_ne] at hempty
  have hsize := h.size_eq
  change (p.inUse.erase id).size + (p.free.push id).toList.length = p.next
  rw [Std.TreeSet.size_erase, if_pos hmem, Fifo.toList_push, List.length_append,
    List.length_singleton]
  omega

lemma Thrifty.perform {p : TempPool} (h : p.Thrifty) (hp : p.Partitioned) (a : Action) :
    (p.perform a).Thrifty := by
  obtain ⟨-, heq⟩ | ⟨id, hid, -, heq⟩ | ⟨s, -, -, heq⟩ := perform_cases p a
  · exact heq ▸ h.allocate hp
  · exact heq ▸ h.release hid
  · rw [heq]
    exact h

lemma thrifty_performAll (actions : List Action) : (performAll actions).Thrifty := by
  induction actions using List.reverseRecOn with
  | nil => exact ⟨rfl, rfl⟩
  | append_singleton actions a ih =>
    exact performAll_concat actions a ▸ ih.perform (partitioned_performAll actions) a

/-- An action issues no name, or one when all others are in use. -/
lemma next_perform (p : TempPool) (a : Action) : (p.perform a).next = p.next ∨
    ((p.perform a).next = p.next + 1 ∧ (p.perform a).free.toList = []) := by
  obtain ⟨-, heq⟩ | ⟨id, -, -, heq⟩ | ⟨s, -, -, heq⟩ := perform_cases p a
  · rw [heq]
    obtain ⟨-, -, hfree, hnext⟩ | ⟨-, hnext⟩ := allocate_cases p
    · exact Or.inr ⟨hnext, hfree⟩
    · exact Or.inl hnext
  · exact Or.inl (by rw [heq])
  · exact Or.inl (by rw [heq])

lemma next_le_of_isPrefix {before actions : List Action} (h : before <+: actions) :
    (performAll before).next ≤ (performAll actions).next := by
  obtain ⟨rest, rfl⟩ := h
  induction rest using List.reverseRecOn with
  | nil => simp
  | append_singleton rest a ih =>
    rw [← List.append_assoc, performAll_concat]
    have := next_perform (performAll (before ++ rest)) a
    omega

/-- At some time all names that were ever issued were in use together. -/
lemma exists_isPrefix_size_eq (actions : List Action) :
    ∃ before, before <+: actions ∧ (performAll before).inUse.size = (performAll actions).next := by
  induction actions using List.reverseRecOn with
  | nil => exact ⟨[], List.prefix_rfl, rfl⟩
  | append_singleton actions a ih =>
    have hthrifty := (thrifty_performAll (actions ++ [a])).size_eq
    rw [performAll_concat] at hthrifty ⊢
    rcases next_perform (performAll actions) a with hnext | ⟨-, hfree⟩
    · obtain ⟨before, hbefore, hsize⟩ := ih
      exact ⟨before, hbefore.trans (List.prefix_append actions [a]), hsize.trans hnext.symm⟩
    · refine ⟨actions ++ [a], List.prefix_rfl, ?_⟩
      rw [performAll_concat]
      simpa [hfree] using hthrifty

/-! ### The queue of free names -/

/-- Action `t` takes the temporary `id` back. -/
def ReleasedAt (actions : List Action) (id t : ℕ) : Prop :=
  actions[t]? = some (.release (.temp id)) ∧ id ∈ (performAll (actions.take t)).inUse

/-- Action `t` is the last one that takes the temporary `id` back. -/
def LastReleasedAt (actions : List Action) (id t : ℕ) : Prop :=
  ReleasedAt actions id t ∧ ∀ t', ReleasedAt actions id t' → t' ≤ t

variable {actions : List Action} {a : Action} {id t : ℕ}

lemma ReleasedAt.lt_length (h : ReleasedAt actions id t) : t < actions.length := by
  by_contra hge
  simp [ReleasedAt, List.getElem?_eq_none (not_lt.1 hge)] at h

lemma releasedAt_concat : ReleasedAt (actions ++ [a]) id t ↔ ReleasedAt actions id t ∨
    (t = actions.length ∧ a = .release (.temp id) ∧ id ∈ (performAll actions).inUse) := by
  rcases lt_trichotomy t actions.length with hlt | rfl | hgt
  · have hne : t ≠ actions.length := hlt.ne
    simp [ReleasedAt, List.getElem?_append_left hlt, List.take_append_of_le_length hlt.le, hne]
  · simp [ReleasedAt]
  · have hnot (actions' : List Action) (h : actions'.length ≤ t) : ¬ ReleasedAt actions' id t :=
      fun h' => absurd h'.lt_length (not_lt.2 h)
    have hlength : (actions ++ [a]).length ≤ t := by simpa using Nat.succ_le_of_lt hgt
    simp [hnot _ hgt.le, hnot _ hlength, hgt.ne']

/-- The last release of a name is still the last one if something else is done. -/
lemma LastReleasedAt.concat (h : LastReleasedAt actions id t)
    (ha : ¬ (a = .release (.temp id) ∧ id ∈ (performAll actions).inUse)) :
    LastReleasedAt (actions ++ [a]) id t := by
  refine ⟨releasedAt_concat.2 (Or.inl h.1), fun t' ht' => ?_⟩
  rcases releasedAt_concat.1 ht' with ht' | ⟨-, ha'⟩
  · exact h.2 t' ht'
  · exact absurd ha' ha

lemma lastReleasedAt_length (hid : id ∈ (performAll actions).inUse) :
    LastReleasedAt (actions ++ [.release (.temp id)]) id actions.length := by
  refine ⟨releasedAt_concat.2 (Or.inr ⟨rfl, rfl, hid⟩), fun t' ht' => ?_⟩
  have := ht'.lt_length
  simp at this
  omega

/-- The first name was last released before the second one was. -/
def ReleasedBefore (actions : List Action) (id id' : ℕ) : Prop :=
  ∃ t t', LastReleasedAt actions id t ∧ LastReleasedAt actions id' t' ∧ t < t'

/-- Every free name was released, and the names are queued in the order of their last releases. -/
structure Queued (actions : List Action) (free : List ℕ) : Prop where
  exists_last : ∀ id ∈ free, ∃ t, LastReleasedAt actions id t
  ordered : free.Pairwise (ReleasedBefore actions)

lemma Queued.sublist {free free' : List ℕ} (h : Queued actions free) (hsub : free'.Sublist free) :
    Queued actions free' :=
  ⟨fun id hid => h.exists_last id (hsub.subset hid), h.ordered.sublist hsub⟩

/-- An action that releases none of the names leaves their order as it is. -/
lemma Queued.concat {free : List ℕ} (h : Queued actions free)
    (ha : ∀ id ∈ free, ¬ (a = .release (.temp id) ∧ id ∈ (performAll actions).inUse)) :
    Queued (actions ++ [a]) free := by
  constructor
  · intro id hid
    obtain ⟨t, ht⟩ := h.exists_last id hid
    exact ⟨t, ht.concat (ha id hid)⟩
  · refine h.ordered.imp_of_mem fun hid hid' hbefore => ?_
    obtain ⟨t, t', ht, ht', hlt⟩ := hbefore
    exact ⟨t, t', ht.concat (ha _ hid), ht'.concat (ha _ hid'), hlt⟩

/-- A name that is released goes to the end. -/
lemma Queued.push {free : List ℕ} (h : Queued actions free) (hid : id ∈ (performAll actions).inUse)
    (hfree : id ∉ free) : Queued (actions ++ [.release (.temp id)]) (free ++ [id]) := by
  have hother (id' : ℕ) (hid' : id' ∈ free) : ¬ (Action.release (.temp id) = .release (.temp id') ∧
      id' ∈ (performAll actions).inUse) := by
    rintro ⟨heq, -⟩
    obtain rfl : id = id' := by simpa using heq
    exact hfree hid'
  have hrest := h.concat hother
  have hlast := lastReleasedAt_length hid
  constructor
  · intro id' hid'
    rcases List.mem_append.1 hid' with hid' | hid'
    · exact hrest.exists_last id' hid'
    · obtain rfl := List.mem_singleton.1 hid'
      exact ⟨_, hlast⟩
  · refine List.pairwise_append.2 ⟨hrest.ordered, List.pairwise_singleton _ _, ?_⟩
    intro id' hid' id'' hid''
    obtain rfl := List.mem_singleton.1 hid''
    obtain ⟨t, ht⟩ := h.exists_last id' hid'
    exact ⟨t, actions.length, ht.concat (hother id' hid'), hlast, ht.1.lt_length⟩

lemma queued_performAll (actions : List Action) :
    Queued actions (performAll actions).free.toList := by
  induction actions using List.reverseRecOn with
  | nil => exact ⟨by simp [performAll], by simp [performAll]⟩
  | append_singleton actions a ih =>
    rw [performAll_concat]
    obtain ⟨rfl, heq⟩ | ⟨id, hid, rfl, heq⟩ | ⟨s, rfl, hs, heq⟩ :=
      perform_cases (performAll actions) a
    · rw [heq]
      refine (ih.sublist ?_).concat fun _ _ ha => by simp at ha
      obtain ⟨-, -, hfree, -⟩ | ⟨hfree, -⟩ := allocate_cases (performAll actions)
      · simp [hfree]
      · rw [hfree]
        exact List.sublist_cons_self _ _
    · rw [heq]
      change Queued _ ((performAll actions).free.push id).toList
      rw [Fifo.toList_push]
      exact ih.push hid fun hfree =>
        (((partitioned_performAll actions).mem_free_iff id).1 hfree).2 hid
    · rw [heq]
      refine ih.concat fun id _ ha => hs ⟨id, ha.2, ?_⟩
      simpa using ha.1

/-! ### Any use of a pool -/

/-- However a pool is used, no name is lost, shared or wasted: the names issued are divided among
the free ones, each queued once, and those in use; the next name is not in use, and it is the one
whose last release is the longest ago, or a new one if none is free; once it is handed out it is in
use, and no longer free; a name that is taken back is no longer in use and goes to the end of the
queue; a symbol is refused exactly if it is no temporary in use, which changes nothing; and at some
time as many names were in use as were ever issued, which is the largest number that ever was. -/
theorem performAll_recycles (actions : List Action) {p : TempPool} (hp : performAll actions = p) :
    p.free.toList.Nodup ∧ (∀ id ∈ p.free.toList, id ∉ p.inUse) ∧
    (∀ id, id < p.issuedCount ↔ id ∈ p.free.toList ∨ id ∈ p.inUse) ∧
    p.allocate.1 ∉ p.inUse ∧ (p.free.toList = [] → p.allocate.1 = p.issuedCount) ∧
    (p.free.toList ≠ [] → p.allocate.1 ∈ p.free.toList ∧ ∃ t,
      LastReleasedAt actions p.allocate.1 t ∧ ∀ id ∈ p.free.toList, id ≠ p.allocate.1 →
        ∃ t', LastReleasedAt actions id t' ∧ t < t') ∧
    (performAll (actions ++ [.allocate]) = p.allocate.2 ∧
      (∀ id, id ∈ p.allocate.2.inUse ↔ id = p.allocate.1 ∨ id ∈ p.inUse) ∧
      p.allocate.2.free.toList = p.free.toList.tail) ∧
    (∀ s p', p.release s = .ok p' → performAll (actions ++ [.release s]) = p' ∧
      ∃ id, s = .temp id ∧ (∀ id', id' ∈ p'.inUse ↔ id' ≠ id ∧ id' ∈ p.inUse) ∧
        p'.free.toList = p.free.toList ++ [id] ∧ p'.issuedCount = p.issuedCount ∧
        p'.peak = p.peak) ∧
    (∀ s, (∃ e, p.release s = .error e) ↔ ¬ ∃ id ∈ p.inUse, s = .temp id) ∧
    (∀ s e, p.release s = .error e → performAll (actions ++ [.release s]) = p) ∧
    p.peak = p.issuedCount ∧
    (∀ before, before <+: actions → (performAll before).inUseCount ≤ p.peak) ∧
    ∃ before, before <+: actions ∧ (performAll before).inUseCount = p.issuedCount := by
  subst hp
  have hpartitioned := partitioned_performAll actions
  have hqueued := queued_performAll actions
  have hpeak := (thrifty_performAll actions).peak_eq
  refine ⟨hpartitioned.free_nodup, fun id hid => ((hpartitioned.mem_free_iff id).1 hid).2,
    fun id => ?_, hpartitioned.allocate.1, fun hfree => ?_, fun hfree => ?_,
    ⟨performAll_concat actions .allocate, fun _ => mem_allocate, free_allocate _⟩,
    fun s p' hrelease => ?_, fun s => exists_release_error_iff, fun s e he => ?_, hpeak,
    fun before hbefore => ?_, exists_isPrefix_size_eq actions⟩
  · rw [hpartitioned.mem_free_iff, issuedCount]
    have hlt := hpartitioned.lt_next id
    tauto
  · obtain ⟨-, hnew, -⟩ | ⟨hcons, -⟩ := allocate_cases (performAll actions)
    · exact hnew
    · simp [hfree] at hcons
  · obtain ⟨hnil, -⟩ | ⟨hcons, -⟩ := allocate_cases (performAll actions)
    · exact absurd hnil hfree
    · rw [hcons] at hqueued ⊢
      obtain ⟨t, ht⟩ := hqueued.exists_last _ List.mem_cons_self
      refine ⟨List.mem_cons_self, t, ht, fun id hid hne => ?_⟩
      have hrest : id ∈ (performAll actions).allocate.2.free.toList :=
        (List.mem_cons.1 hid).resolve_left hne
      obtain ⟨t₀, t', ht₀, ht', hlt⟩ := List.rel_of_pairwise_cons hqueued.ordered hrest
      exact ⟨t', ht', (ht₀.2 t ht.1).trans_lt hlt⟩
  · refine ⟨by rw [performAll_concat, perform, hrelease], ?_⟩
    obtain ⟨id, rfl, -, rfl⟩ := release_eq_ok hrelease
    exact ⟨id, rfl, fun _ => mem_erase_inUse, Fifo.toList_push _ _, rfl, rfl⟩
  · rw [performAll_concat, perform_of_error he]
  · have hsize := (thrifty_performAll before).size_eq
    have hnext := next_le_of_isPrefix hbefore
    rw [hpeak, inUseCount]
    omega

/-- Of three names the second one is released first, then the first one; the second release of a
name is refused. The name that is taken next is the second one, and three names are enough; the
third one, if it is released too, goes behind both. -/
theorem performAll_recycles_three : ∃ p,
    performAll [.allocate, .allocate, .allocate, .release (.temp 1), .release (.temp 0),
      .release (.temp 1)] = p ∧
    p.free.toList = [1, 0] ∧ p.allocate.1 = 1 ∧ 2 ∈ p.inUse ∧ p.peak = 3 ∧
    (∃ e, p.release (.temp 1) = .error e) ∧
    ∃ p', p.release (.temp 2) = .ok p' ∧ p'.free.toList = [1, 0, 2] ∧ 2 ∉ p'.inUse := by
  obtain ⟨-, -, hdivided, -, -, -, -, hreleased, hrefused, -, hpeak, -⟩ := performAll_recycles
    [.allocate, .allocate, .allocate, .release (.temp 1), .release (.temp 0), .release (.temp 1)]
    rfl
  refine ⟨_, rfl, by decide, by decide, ?_, hpeak.trans (by decide), (hrefused _).2 ?_, _, rfl, ?_⟩
  · exact ((hdivided 2).1 (by decide)).resolve_left (by decide)
  · rintro ⟨id, hid, heq⟩
    obtain rfl : 1 = id := by simpa using heq
    exact absurd hid (by decide)
  · obtain ⟨-, id, heq, hmem, hfree, -⟩ := hreleased (.temp 2) _ rfl
    obtain rfl : 2 = id := by simpa using heq
    exact ⟨hfree, fun h => ((hmem 2).1 h).1 rfl⟩

end MixedRadix.TempPool
