import MixedRadix.Proofs.Lifetime
import MixedRadix.Proofs.Liveness
import MixedRadix.Proofs.Success

/-!
# Bookkeeping

A builder can be used in any way: its operations may come in any order and may fail. The pool of
temporaries, the lifetimes and the index of the open ones (`Builder.Booked`) and the counters
(`Builder.Counted`) stay in step all the same.
-/

namespace MixedRadix

variable {R : Type}

/-! ### The pool -/

namespace TempPool

/-- Every name that was issued is either in use or free, and free once. -/
structure Partitioned (p : TempPool) : Prop where
  free_nodup : p.free.toList.Nodup
  mem_free_iff : ∀ id, id ∈ p.free.toList ↔ id < p.next ∧ id ∉ p.inUse
  lt_next : ∀ id ∈ p.inUse, id < p.next

lemma mem_take {p : TempPool} {id id' : ℕ} :
    id' ∈ (p.take id).inUse ↔ id' = id ∨ id' ∈ p.inUse := by
  rw [take, Std.TreeSet.mem_insert, Std.LawfulEqCmp.compare_eq_iff_eq]
  exact or_congr eq_comm Iff.rfl

lemma mem_allocate {p : TempPool} {id : ℕ} :
    id ∈ p.allocate.2.inUse ↔ id = p.allocate.1 ∨ id ∈ p.inUse := by
  unfold allocate
  split <;> exact mem_take

lemma Partitioned.allocate {p : TempPool} (h : p.Partitioned) :
    p.allocate.1 ∉ p.inUse ∧ p.allocate.2.Partitioned := by
  cases hpop : p.free.pop? with
  | none =>
    have hfree := Fifo.toList_of_pop?_eq_none hpop
    have halloc : p.allocate = (p.next, { p with next := p.next + 1 }.take p.next) := by
      rw [TempPool.allocate, hpop]
    have hall (id : ℕ) (hid : id < p.next) : id ∈ p.inUse := by
      by_contra hnot
      simpa [hfree] using (h.mem_free_iff id).2 ⟨hid, hnot⟩
    rw [halloc]
    refine ⟨fun hmem => lt_irrefl _ (h.lt_next _ hmem), by simp [take, hfree], fun id => ?_, ?_⟩
    · rw [mem_take]
      simp only [take, hfree, List.not_mem_nil, false_iff, not_and, not_not]
      intro hid
      rcases Nat.lt_succ_iff_lt_or_eq.1 hid with hid | rfl
      · exact Or.inr (hall id hid)
      · exact Or.inl rfl
    · intro id hid
      rcases mem_take.1 hid with rfl | hid
      · exact Nat.lt_succ_self _
      · exact (h.lt_next id hid).trans (Nat.lt_succ_self _)
  | some popped =>
    obtain ⟨id, free⟩ := popped
    have hfree := Fifo.toList_of_pop?_eq_some hpop
    have halloc : p.allocate = (id, { p with free }.take id) := by
      rw [TempPool.allocate, hpop]
    obtain ⟨hnew, hnodup⟩ := List.nodup_cons.1 (hfree ▸ h.free_nodup)
    obtain ⟨hlt, hnot⟩ := (h.mem_free_iff id).1 (by simp [hfree])
    rw [halloc]
    refine ⟨hnot, hnodup, fun id' => ?_, fun id' hid' => ?_⟩
    · have hmem := h.mem_free_iff id'
      rw [hfree, List.mem_cons] at hmem
      rw [mem_take]
      change id' ∈ free.toList ↔ id' < p.next ∧ _
      have hne (hid' : id' ∈ free.toList) : id' ≠ id := fun e => hnew (e ▸ hid')
      tauto
    · rcases mem_take.1 hid' with rfl | hid'
      · exact hlt
      · exact h.lt_next id' hid'

/-- What a successful release does. -/
lemma release_eq_ok {p p' : TempPool} {s : Symbol} (h : p.release s = .ok p') :
    ∃ id, s = .temp id ∧ id ∈ p.inUse ∧
      p' = { p with inUse := p.inUse.erase id, free := p.free.push id } := by
  unfold release at h
  split at h
  · cases h
  · rename_i id hid
    obtain rfl : s = .temp id := by cases s <;> simp_all [Symbol.tempId?]
    split at h
    · rename_i hmem
      exact ⟨id, rfl, hmem, (Except.ok.inj h).symm⟩
    · cases h

lemma mem_erase_inUse {p : TempPool} {id id' : ℕ} :
    id' ∈ p.inUse.erase id ↔ id' ≠ id ∧ id' ∈ p.inUse := by
  rw [Std.TreeSet.mem_erase, Ne, Std.LawfulEqCmp.compare_eq_iff_eq]
  exact and_congr (not_congr eq_comm) Iff.rfl

lemma Partitioned.release {p : TempPool} (h : p.Partitioned) {id : ℕ} (hid : id ∈ p.inUse) :
    ({ p with inUse := p.inUse.erase id, free := p.free.push id } : TempPool).Partitioned := by
  refine ⟨?_, fun id' => ?_, fun id' hid' => h.lt_next id' (mem_erase_inUse.1 hid').2⟩
  · rw [Fifo.toList_push]
    refine h.free_nodup.append (List.nodup_singleton id) ?_
    simpa using fun hfree => ((h.mem_free_iff id).1 hfree).2 hid
  · rw [Fifo.toList_push, List.mem_append, List.mem_singleton, h.mem_free_iff]
    change _ ↔ id' < p.next ∧ id' ∉ p.inUse.erase id
    rw [mem_erase_inUse]
    have hlt := h.lt_next id hid
    constructor
    · rintro (⟨hlt', hnot⟩ | rfl)
      · exact ⟨hlt', fun hmem => hnot hmem.2⟩
      · exact ⟨hlt, fun hmem => hmem.1 rfl⟩
    · rintro ⟨hlt', hnot⟩
      by_cases heq : id' = id
      · exact Or.inr heq
      · exact Or.inl ⟨hlt', fun hmem => hnot ⟨heq, hmem⟩⟩

/-- The pools that come from an empty one by handing out temporaries and taking them back. -/
inductive Reachable : TempPool → Prop
  | empty : Reachable {}
  | allocate {p : TempPool} (h : Reachable p) : Reachable p.allocate.2
  | release {p p' : TempPool} {s : Symbol} (h : Reachable p) (hs : p.release s = .ok p') :
    Reachable p'

lemma Reachable.partitioned {p : TempPool} (h : p.Reachable) : p.Partitioned := by
  induction h with
  | empty => exact ⟨by simp, by simp, by simp⟩
  | allocate h ih => exact ih.allocate.2
  | release h hs ih =>
    obtain ⟨id, -, hid, rfl⟩ := release_eq_ok hs
    exact ih.release hid

end TempPool

/-! ### Lifetimes -/

namespace Lifetime

/-- Of two lifetimes of a temporary, the first is over when the second begins. -/
def Precedes (l l' : Lifetime) : Prop :=
  l.temp = l'.temp → ∃ c, l.closedAt = some c ∧ c ≤ l'.openedAt

lemma Precedes.apart {l l' : Lifetime} (h : l.Precedes l') : l.Apart l' := by
  intro htemp p hp
  obtain ⟨c, hclosed, hle⟩ := h htemp
  have hbefore := (contains_iff.1 hp.1).2 c hclosed
  have hafter := (contains_iff.1 hp.2).1
  omega

end Lifetime

namespace Builder

lemma afterRelease_eq {b : Builder R} {id i : ℕ} (h : b.openLifetimes[id]? = some i)
    (temps : TempPool) : b.afterRelease (.temp id) temps =
      { b with
        temps
        openLifetimes := b.openLifetimes.erase id
        lifetimes := b.lifetimes.modify i (Lifetime.closeAt b.stream.size) } :=
  closeLifetime_eq (b := { b with temps }) h

/-- Lifetime `i` is one of the temporary `id` and still open. -/
def IsOpen (b : Builder R) (id i : ℕ) : Prop :=
  ∃ l, b.lifetimes[i]? = some l ∧ l.temp = id ∧ l.closedAt = none

/-- A new lifetime is open beside those that were. -/
lemma isOpen_iff_of_opened {b b' : Builder R} {l : Lifetime}
    (hb' : b'.lifetimes = b.lifetimes.push l) (hl : l.closedAt = none) {id i : ℕ} :
    b'.IsOpen id i ↔ (i = b.lifetimes.size ∧ l.temp = id) ∨ b.IsOpen id i := by
  unfold IsOpen
  rw [hb', Array.getElem?_push]
  by_cases hi : i = b.lifetimes.size
  · simp [hi, hl]
  · simp [hi]

/-- Closing a lifetime leaves the other ones open that were. -/
lemma isOpen_iff_of_closed {b b' : Builder R} {i position : ℕ} {l : Lifetime}
    (hl : b.lifetimes[i]? = some l)
    (hb' : b'.lifetimes = b.lifetimes.modify i (Lifetime.closeAt position)) {id j : ℕ} :
    b'.IsOpen id j ↔ j ≠ i ∧ b.IsOpen id j := by
  unfold IsOpen
  rw [hb']
  constructor
  · rintro ⟨l', hl', htemp, hclosed⟩
    rcases Lifetime.getElem?_modify_closeAt hl hl' with ⟨rfl, rfl⟩ | ⟨hij, hl'⟩
    · cases hclosed
    · exact ⟨hij.symm, l', hl', htemp, hclosed⟩
  · rintro ⟨hji, l', hl', htemp, hclosed⟩
    exact ⟨l', by simpa [Array.getElem?_modify, hji.symm] using hl', htemp, hclosed⟩

/-- The temporaries in use are those with an open lifetime, which is indexed, and the lifetimes of a
temporary follow one another. -/
structure Booked (b : Builder R) : Prop where
  pool : b.temps.Partitioned
  mem_inUse_iff : ∀ id, id ∈ b.temps.inUse ↔ ∃ i, b.openLifetimes[id]? = some i
  open_iff : ∀ id i, b.openLifetimes[id]? = some i ↔ b.IsOpen id i
  begun : ∀ l ∈ b.lifetimes, l.openedAt ≤ b.stream.size
  ended : ∀ l ∈ b.lifetimes, ∀ c, l.closedAt = some c → l.openedAt ≤ c ∧ c ≤ b.stream.size
  ordered : b.lifetimes.toList.Pairwise Lifetime.Precedes

namespace Booked

variable {b b' : Builder R}

lemma start (annotate : Bool) : ({ annotate } : Builder R).Booked where
  pool := ⟨by simp, by simp, by simp⟩
  mem_inUse_iff := by simp
  open_iff := by simp [IsOpen]
  begun := by simp
  ended := by simp
  ordered := by simp

/-- Code that is appended changes nothing. -/
lemma of_stream (h : b.Booked) (htemps : b'.temps = b.temps)
    (hlifetimes : b'.lifetimes = b.lifetimes) (hopen : b'.openLifetimes = b.openLifetimes)
    (hsize : b.stream.size ≤ b'.stream.size) : b'.Booked where
  pool := htemps ▸ h.pool
  mem_inUse_iff := by
    rw [htemps, hopen]
    exact h.mem_inUse_iff
  open_iff := by
    unfold IsOpen
    rw [hopen, hlifetimes]
    exact h.open_iff
  begun := by
    rw [hlifetimes]
    exact fun l hl => (h.begun l hl).trans hsize
  ended := by
    rw [hlifetimes]
    exact fun l hl c hc => ⟨(h.ended l hl c hc).1, (h.ended l hl c hc).2.trans hsize⟩
  ordered := hlifetimes ▸ h.ordered

/-- The lifetimes of a temporary that is not in use are over. -/
lemma closed_of_notMem (h : b.Booked) {l : Lifetime} (hl : l ∈ b.lifetimes)
    (hnot : l.temp ∉ b.temps.inUse) : ∃ c, l.closedAt = some c ∧ c ≤ b.stream.size := by
  cases hclosed : l.closedAt with
  | none =>
    obtain ⟨i, hi⟩ := Array.getElem?_of_mem hl
    exact absurd ((h.mem_inUse_iff _).2 ⟨i, (h.open_iff _ i).2 ⟨l, hi, rfl, hclosed⟩⟩) hnot
  | some c => exact ⟨c, rfl, (h.ended l hl c hclosed).2⟩

lemma allocTemp (h : b.Booked) : b.allocTemp.2.Booked := by
  obtain ⟨hnew, hpool⟩ := h.pool.allocate
  set id := b.temps.allocate.1 with hid
  set l : Lifetime := { temp := id, openedAt := b.stream.size } with hl
  have hlifetimes : b.allocTemp.2.lifetimes = b.lifetimes.push l := rfl
  have hopen : b.allocTemp.2.openLifetimes = b.openLifetimes.insert id b.lifetimes.size := rfl
  have hunused (i : ℕ) : ¬b.IsOpen id i := fun hi =>
    hnew ((h.mem_inUse_iff id).2 ⟨i, (h.open_iff id i).2 hi⟩)
  refine ⟨hpool, fun id' => ?_, fun id' i => ?_, fun l' hl' => ?_, fun l' hl' c hc => ?_, ?_⟩
  · rw [hopen, Std.TreeMap.getElem?_insert]
    have hmem : id' ∈ b.temps.allocate.2.inUse ↔ id' = id ∨ id' ∈ b.temps.inUse :=
      TempPool.mem_allocate
    refine hmem.trans ?_
    by_cases heq : id = id'
    · simp [heq]
    · simp [heq, Ne.symm heq, ← h.mem_inUse_iff]
  · rw [hopen, Std.TreeMap.getElem?_insert, isOpen_iff_of_opened hlifetimes rfl]
    by_cases heq : id = id'
    · -- the new lifetime is the only open one of the new name
      subst heq
      simp [hunused i, hl, eq_comm]
    · simp [heq, h.open_iff, hl]
  · rw [hlifetimes, Array.mem_push] at hl'
    rcases hl' with hl' | rfl
    · exact h.begun l' hl'
    · exact le_rfl
  · rw [hlifetimes, Array.mem_push] at hl'
    rcases hl' with hl' | rfl
    · exact h.ended l' hl' c hc
    · cases hc
  · rw [hlifetimes, Array.toList_push, List.pairwise_append]
    refine ⟨h.ordered, List.pairwise_singleton _ _, fun l' hl' l'' hl'' htemp => ?_⟩
    obtain rfl := List.mem_singleton.1 hl''
    refine h.closed_of_notMem (Array.mem_toList_iff.1 hl') ?_
    rw [htemp]
    exact hnew

/-- The open lifetime of a temporary is its last one. -/
lemma le_of_isOpen (h : b.Booked) {id i j : ℕ} {l : Lifetime} (hopen : b.IsOpen id i)
    (hl : b.lifetimes[j]? = some l) (htemp : l.temp = id) : j ≤ i := by
  obtain ⟨l', hl', htemp', hclosed⟩ := hopen
  by_contra hlt
  obtain ⟨c, hc, -⟩ :=
    rel_of_pairwise_toList h.ordered (not_le.1 hlt) hl' hl (htemp'.trans htemp.symm)
  cases hclosed.symm.trans hc

lemma release (h : b.Booked) {s : Symbol} {temps : TempPool} (hs : b.temps.release s = .ok temps) :
    (b.afterRelease s temps).Booked := by
  obtain ⟨id, rfl, hid, rfl⟩ := TempPool.release_eq_ok hs
  obtain ⟨i, hi⟩ := (h.mem_inUse_iff id).1 hid
  have hopen := (h.open_iff id i).1 hi
  obtain ⟨l, hl, htemp, hclosed⟩ := hopen
  rw [afterRelease_eq hi]
  refine ⟨h.pool.release hid, fun id' => ?_, fun id' j => ?_, fun l' hl' => ?_,
    fun l' hl' c hc => ?_, ?_⟩
  · refine TempPool.mem_erase_inUse.trans ?_
    rw [Std.TreeMap.getElem?_erase]
    by_cases heq : id = id'
    · simp [heq]
    · simp [heq, Ne.symm heq, h.mem_inUse_iff]
  · rw [Std.TreeMap.getElem?_erase, isOpen_iff_of_closed hl rfl]
    by_cases heq : id = id'
    · -- the lifetime that is closed was the only open one of the name
      subst heq
      refine iff_of_false (by simp) ?_
      rintro ⟨hij, hopen⟩
      exact hij (Option.some.inj (((h.open_iff id j).2 hopen).symm.trans hi))
    · rw [if_neg (by simpa using heq), h.open_iff]
      refine ⟨fun hopen => ⟨?_, hopen⟩, fun hopen => hopen.2⟩
      rintro rfl
      obtain ⟨l', hl', htemp', -⟩ := hopen
      obtain rfl : l = l' := Option.some.inj (hl.symm.trans hl')
      exact heq (htemp.symm.trans htemp')
  · rcases Lifetime.mem_modify_closeAt hl hl' with rfl | ⟨j, -, hl'⟩
    · exact h.begun l (Array.mem_of_getElem? hl)
    · exact h.begun l' (Array.mem_of_getElem? hl')
  · rcases Lifetime.mem_modify_closeAt hl hl' with rfl | ⟨j, -, hl'⟩
    · obtain rfl : b.stream.size = c := Option.some.inj hc
      exact ⟨h.begun l (Array.mem_of_getElem? hl), le_rfl⟩
    · exact h.ended l' (Array.mem_of_getElem? hl') c hc
  · refine Lifetime.pairwise_modify_closeAt hl h.ordered (fun _ hprecedes => hprecedes) ?_
    intro j l' hij hl' _ htemps
    -- no lifetime of the name was recorded after the open one
    have hle := h.le_of_isOpen ⟨l, hl, htemp, hclosed⟩ hl' (htemps.symm.trans htemp)
    exact absurd hij (Nat.not_lt.2 hle)

end Booked

/-! ### Counters -/

/-- The operations emitted so far. -/
def ops (b : Builder R) : List (Op R) :=
  b.stream.toList.filterMap Instruction.op?

/-- The counters are those of the stream. -/
structure Counted (b : Builder R) : Prop where
  emitted_eq : b.emitted = b.ops.length
  pruned_eq : b.pruned = b.ops.countP (·.pruned)

end Builder

lemma countP_not_isLive (stream : List (Instruction R)) :
    stream.countP (fun inst => !inst.isLive) =
      (stream.filterMap Instruction.op?).countP (·.pruned) := by
  rw [List.countP_filterMap]
  refine List.countP_congr fun inst _ => ?_
  cases inst <;> simp [Instruction.isLive, Instruction.op?]

lemma length_markPruned (os : List (Op R)) : (markPruned os).length = os.length := by
  induction os with
  | nil => rfl
  | cons o os ih => rw [markPruned, List.length_cons, List.length_cons, ih]

namespace Builder

lemma ops_push (b : Builder R) (o : Op R) : (b.push o).ops = b.ops ++ [o] := by
  simp [push, ops, Instruction.op?]

lemma ops_eliminateDeadCode (b : Builder R) : b.eliminateDeadCode.2.ops = markPruned b.ops :=
  filterMap_op?_eliminateDeadCode b.stream.toList

namespace Counted

variable {b : Builder R}

lemma start (annotate : Bool) : ({ annotate } : Builder R).Counted :=
  ⟨rfl, rfl⟩

lemma push (h : b.Counted) {o : Op R} (hpruned : o.pruned = false) : (b.push o).Counted := by
  constructor
  · rw [ops_push, List.length_append, List.length_singleton, ← h.emitted_eq]
    rfl
  · rw [ops_push, List.countP_append, ← h.pruned_eq]
    simp [Builder.push, hpruned]

lemma comment (h : b.Counted) (text : String) : (b.comment text).Counted := by
  unfold Builder.comment
  split
  · refine ⟨h.emitted_eq.trans ?_, h.pruned_eq.trans ?_⟩ <;> simp [ops, Instruction.op?]
  · exact h

lemma eliminateDeadCode (h : b.Counted) : b.eliminateDeadCode.2.Counted := by
  constructor
  · rw [ops_eliminateDeadCode, length_markPruned]
    exact h.emitted_eq
  · have hcount := countP_eliminateDeadCode b.stream.toList
    rw [countP_not_isLive, countP_not_isLive] at hcount
    change b.pruned + _ = _
    rw [h.pruned_eq]
    exact hcount.symm

end Counted

end Builder

/-! ### Runs -/

namespace Builder

/-- A use of a builder. -/
inductive Action (R : Type) where
  | allocTemp
  | allocComplex
  | release (s : Symbol)
  | releaseComplex (value : ComplexSymbol)
  | assign (dst : Symbol) (value : Expr R)
  | store (dst : Symbol) (value : Expr R)
  | call (c : Call R)
  | comment (text : String)
  | addShiftTable (slots : List ℕ)
  | push (o : Op R) (hpruned : o.pruned = false)
  | eliminateDeadCode

/-- What an action does to a builder, whether it succeeds or not. -/
def perform (b : Builder R) : Action R → Builder R
  | .allocTemp => (Build.allocTemp.run.run b).2
  | .allocComplex => (Build.allocComplex.run.run b).2
  | .release s => ((Build.release s).run.run b).2
  | .releaseComplex value => ((Build.releaseComplex value).run.run b).2
  | .assign dst value => ((Build.assign dst value).run.run b).2
  | .store dst value => ((Build.store dst value).run.run b).2
  | .call c => ((Build.call c).run.run b).2
  | .comment text => ((Build.comment text).run.run b).2
  | .addShiftTable slots => ((Build.addShiftTable slots).run.run b).2
  | .push o _ => b.push o
  | .eliminateDeadCode => b.eliminateDeadCode.2

/-- The builder after some actions. -/
def performAll (b : Builder R) (actions : List (Action R)) : Builder R :=
  actions.foldl perform b

/-- All books of a builder are in order. -/
structure InStep (b : Builder R) : Prop where
  booked : b.Booked
  counted : b.Counted

namespace InStep

variable {b : Builder R}

lemma push (h : b.InStep) {o : Op R} (hpruned : o.pruned = false) : (b.push o).InStep :=
  ⟨h.booked.of_stream rfl rfl rfl (by simp [Builder.push]), h.counted.push hpruned⟩

lemma allocTemp (h : b.InStep) : b.allocTemp.2.InStep :=
  ⟨h.booked.allocTemp, h.counted.emitted_eq, h.counted.pruned_eq⟩

lemma call (h : b.InStep) (c : Call R) : (b.call c).InStep := by
  have hroutines (routines : List Routine) : ({ b with routines } : Builder R).InStep :=
    ⟨h.booked.of_stream rfl rfl rfl le_rfl, h.counted.emitted_eq, h.counted.pruned_eq⟩
  exact (hroutines _).push rfl

lemma comment (h : b.InStep) (text : String) : (b.comment text).InStep := by
  refine ⟨?_, h.counted.comment text⟩
  unfold Builder.comment
  split
  · exact h.booked.of_stream rfl rfl rfl (by simp)
  · exact h.booked

lemma eliminateDeadCode (h : b.InStep) : b.eliminateDeadCode.2.InStep := by
  refine ⟨h.booked.of_stream rfl rfl rfl ?_, h.counted.eliminateDeadCode⟩
  simp [Builder.eliminateDeadCode, MixedRadix.eliminateDeadCode]

lemma release (h : b.InStep) (s : Symbol) : ((Build.release s).run.run b).2.InStep := by
  rw [Build.run_release]
  cases hs : b.temps.release s with
  | error e => exact h
  | ok temps =>
    obtain ⟨id, rfl, hid, -⟩ := TempPool.release_eq_ok hs
    obtain ⟨i, hi⟩ := (h.booked.mem_inUse_iff id).1 hid
    refine ⟨h.booked.release hs, ?_⟩
    change (b.afterRelease (.temp id) temps).Counted
    rw [afterRelease_eq hi]
    exact ⟨h.counted.emitted_eq, h.counted.pruned_eq⟩

lemma releaseComplex (h : b.InStep) (value : ComplexSymbol) :
    ((Build.releaseComplex value).run.run b).2.InStep := by
  have hfirst := h.release value.re
  simp only [Build.releaseComplex, ExceptT.run_bind, StateT.run_bind]
  cases hrun : (Build.release value.re).run.run b with
  | mk result b₁ =>
    rw [hrun] at hfirst
    cases result with
    | ok _ => exact hfirst.release value.im
    | error e => exact hfirst

/-- What an action preserves. -/
lemma perform (h : b.InStep) (action : Action R) : (b.perform action).InStep := by
  cases action with
  | allocTemp => exact h.allocTemp
  | allocComplex => exact h.allocTemp.allocTemp
  | release s => exact h.release s
  | releaseComplex value => exact h.releaseComplex value
  | assign dst value => exact h.push rfl
  | store dst value => exact h.push rfl
  | call c => exact h.call c
  | comment text => exact h.comment text
  | addShiftTable slots =>
    exact ⟨h.booked.of_stream rfl rfl rfl le_rfl, h.counted.emitted_eq, h.counted.pruned_eq⟩
  | push o hpruned => exact h.push hpruned
  | eliminateDeadCode => exact h.eliminateDeadCode

lemma performAll (h : b.InStep) (actions : List (Action R)) : (b.performAll actions).InStep := by
  induction actions generalizing b with
  | nil => exact h
  | cons action actions ih => exact ih (h.perform action)

end InStep

lemma reachable_release {b : Builder R} (h : b.temps.Reachable) (s : Symbol) :
    ((Build.release s).run.run b).2.temps.Reachable := by
  rw [Build.run_release]
  cases hs : b.temps.release s with
  | error e => exact h
  | ok temps =>
    obtain ⟨lifetimes, openLifetimes, hafter⟩ := b.afterRelease_frame s temps
    simp only [hafter]
    exact h.release hs

lemma reachable_perform {b : Builder R} (h : b.temps.Reachable) (action : Action R) :
    (b.perform action).temps.Reachable := by
  cases action with
  | allocTemp => exact h.allocate
  | allocComplex => exact h.allocate.allocate
  | release s => exact reachable_release h s
  | releaseComplex value =>
    have hfirst := reachable_release h value.re
    simp only [perform, Build.releaseComplex, ExceptT.run_bind, StateT.run_bind]
    cases hrun : (Build.release value.re).run.run b with
    | mk result b₁ =>
      rw [hrun] at hfirst
      cases result with
      | ok _ => exact reachable_release hfirst value.im
      | error e => exact hfirst
  | comment text =>
    change (b.comment text).temps.Reachable
    unfold comment
    split <;> exact h
  | assign | store | call | addShiftTable | push | eliminateDeadCode => exact h

/-- However a builder is used, its pool comes from an empty one. -/
lemma reachable_performAll (annotate : Bool) (actions : List (Action R)) :
    (performAll { annotate } actions).temps.Reachable := by
  have hrun {b : Builder R} (h : b.temps.Reachable) : (b.performAll actions).temps.Reachable := by
    induction actions generalizing b with
    | nil => exact h
    | cons action actions ih => exact ih (reachable_perform h action)
  exact hrun .empty

/-- However a builder is used, its books are in order: a temporary is in use exactly if it has one
open lifetime, and this is its last one and the one that is indexed; the other lifetimes were closed
behind their beginnings; the lifetimes of a temporary follow one another without a common position;
the operations and the pruned ones are counted; and a release that fails changes nothing. The
operations that are pushed declare what their statements read and write (`Op`). -/
theorem performAll_inStep (annotate : Bool) (actions : List (Action R)) {b : Builder R}
    (hb : performAll { annotate } actions = b) :
    (∀ id, id ∈ b.temps.inUse ↔ ∃! i, b.IsOpen id i) ∧
    (∀ id i, b.openLifetimes[id]? = some i ↔ b.IsOpen id i) ∧
    (∀ id i, b.IsOpen id i → ∀ j l, b.lifetimes[j]? = some l → l.temp = id → j ≤ i) ∧
    (∀ l ∈ b.lifetimes, ∀ c, l.closedAt = some c → l.openedAt ≤ c ∧ c ≤ b.stream.size) ∧
    b.lifetimes.toList.Pairwise (fun l l' => l.Precedes l' ∧ l.Apart l') ∧
    b.emitted = b.ops.length ∧ b.pruned = b.ops.countP (·.pruned) ∧
    ∀ s e b', (Build.release s).run.run b = (.error e, b') → b' = b := by
  obtain ⟨hbooked, hcounted⟩ : b.InStep :=
    hb ▸ InStep.performAll ⟨Booked.start annotate, Counted.start annotate⟩ actions
  refine ⟨fun id => ?_, hbooked.open_iff, fun id i hopen j l hl htemp =>
    hbooked.le_of_isOpen hopen hl htemp, hbooked.ended, ?_, hcounted.emitted_eq,
    hcounted.pruned_eq, fun s e b' hrun => ?_⟩
  · rw [hbooked.mem_inUse_iff]
    constructor
    · rintro ⟨i, hi⟩
      refine ⟨i, (hbooked.open_iff id i).1 hi, fun j hj => ?_⟩
      exact Option.some.inj (((hbooked.open_iff id j).2 hj).symm.trans hi)
    · rintro ⟨i, hi, -⟩
      exact ⟨i, (hbooked.open_iff id i).2 hi⟩
  · exact hbooked.ordered.imp fun h => ⟨h, h.apart⟩
  · rw [Build.run_release] at hrun
    cases hs : b.temps.release s with
    | ok temps =>
      rw [hs] at hrun
      cases hrun
    | error e =>
      rw [hs] at hrun
      exact (congrArg Prod.snd hrun).symm

/-- A name that is released before anything was emitted, released in vain and taken once more. Its
result is dead, and a second release in vain changes nothing. -/
theorem performAll_inStep_recycling : ∃ b : Builder Float,
    performAll {} [.allocTemp, .release (.temp 0), .release (.temp 0), .allocTemp,
      .assign (.temp 0) (.lit 1.0), .eliminateDeadCode] = b ∧
    0 ∈ b.temps.inUse ∧ (∃! i, b.IsOpen 0 i) ∧ b.openLifetimes[0]? = some 1 ∧
    b.lifetimes.toList.Pairwise (fun l l' => l.Precedes l' ∧ l.Apart l') ∧
    b.ops.countP (·.pruned) = 1 ∧
    (Build.release (.temp 1)).run.run b = (.error (.release (.notInUse 1)), b) := by
  obtain ⟨hiff, -, -, -, hordered, -, hpruned, hfailed⟩ := performAll_inStep (R := Float) false
    [.allocTemp, .release (.temp 0), .release (.temp 0), .allocTemp,
      .assign (.temp 0) (.lit 1.0), .eliminateDeadCode] rfl
  refine ⟨_, rfl, by decide, (hiff 0).1 (by decide), by decide, hordered,
    hpruned.symm.trans rfl, ?_⟩
  exact Prod.ext rfl (hfailed (.temp 1) (.release (.notInUse 1)) _ rfl)

end Builder

end MixedRadix
