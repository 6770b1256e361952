import MixedRadix.DeadCode
import MixedRadix.Proofs.Footprint
import MixedRadix.Scalar.Binary64
import Mathlib.Algebra.BigOperators.Group.Finset.Basic
import Mathlib.Algebra.Order.BigOperators.Group.Finset
import Mathlib.Data.List.GetD

/-!
# Elimination of dead code

Every input of an operation is resolved to its last writer (`lastWriter`). The worklist keeps its
counts right (`Worklist.Sound`), so an operation is pruned only after everything that reads its
result. Hence a stream and its pruned form, run side by side, agree on every symbol whose last
writer is left (`exists_sideBySide`), and the stream keeps its meaning
(`eliminateDeadCode_preserves`).
-/

namespace MixedRadix

variable {R : Type}

lemma Instruction.liveOp?_eq_some {inst : Instruction R} {o : Op R} :
    inst.liveOp? = some o ↔ inst = .op o ∧ o.pruned = false := by
  cases inst with
  | comment text => simp [liveOp?]
  | op o' =>
    cases hp : o'.pruned <;> simp only [liveOp?, hp, op.injEq]
    · simpa using fun h => h ▸ hp
    · simpa using fun h => h ▸ hp

/-! ### Last writers -/

/-- The position of the last operation of a stream that is run and writes a symbol. -/
def lastWriter (stream : List (Instruction R)) (s : Symbol) : Option ℕ :=
  (stream.foldl Resolution.step {}).writers.find? s

lemma Writers.find?_recordAll (w : Writers) (position : ℕ) (symbols : List Symbol) (t : Symbol) :
    (w.recordAll position symbols).find? t =
      if t ∈ symbols then some position else w.find? t := by
  induction symbols generalizing w with
  | nil => simp [recordAll]
  | cons s symbols ih =>
    have hcons : w.recordAll position (s :: symbols) =
      (w.record position s).recordAll position symbols := rfl
    rw [hcons, ih, find?_record]
    by_cases ht : t ∈ symbols
    · simp [ht]
    · by_cases hs : s = t
      · simp [hs]
      · simp [ht, hs, Ne.symm hs]

lemma size_uses_foldl_step (stream : List (Instruction R)) (r : Resolution) :
    (stream.foldl Resolution.step r).uses.size = r.uses.size + stream.length := by
  induction stream generalizing r with
  | nil => simp
  | cons inst stream ih =>
    rw [List.foldl_cons, ih]
    unfold Resolution.step
    split <;> simp <;> omega

@[simp] lemma length_resolve (stream : List (Instruction R)) :
    (resolve stream).length = stream.length := by
  simp [resolve, size_uses_foldl_step]

@[simp] lemma lastWriter_nil (s : Symbol) : lastWriter ([] : List (Instruction R)) s = none := by
  simp [lastWriter]

lemma lastWriter_concat (stream : List (Instruction R)) (inst : Instruction R) (s : Symbol) :
    lastWriter (stream ++ [inst]) s =
      match inst.liveOp? with
      | some o => if s ∈ o.outputs then some stream.length else lastWriter stream s
      | none => lastWriter stream s := by
  have hsize := size_uses_foldl_step stream {}
  simp only [lastWriter, List.foldl_append, List.foldl_cons, List.foldl_nil]
  generalize stream.foldl Resolution.step {} = r at hsize ⊢
  unfold Resolution.step
  cases inst.liveOp? with
  | none => rfl
  | some o =>
    rw [Writers.find?_recordAll, hsize]
    simp

/-- The uses of an entry, given the entries before it. -/
def usesAfter (before : List (Instruction R)) (inst : Instruction R) : List Use :=
  match inst.liveOp? with
  | some o => o.inputs.map fun s => ⟨s, lastWriter before s⟩
  | none => []

lemma resolve_concat (stream : List (Instruction R)) (inst : Instruction R) :
    resolve (stream ++ [inst]) = resolve stream ++ [usesAfter stream inst] := by
  simp only [resolve, List.foldl_append, List.foldl_cons, List.foldl_nil, usesAfter, lastWriter]
  generalize stream.foldl Resolution.step {} = r
  unfold Resolution.step
  cases inst.liveOp? <;> simp

lemma resolve_append_cons (before after : List (Instruction R)) (inst : Instruction R) :
    ∃ rest, resolve (before ++ inst :: after) =
      resolve before ++ usesAfter before inst :: rest := by
  induction after using List.reverseRecOn with
  | nil => exact ⟨[], resolve_concat before inst⟩
  | append_singleton after last ih =>
    obtain ⟨rest, hrest⟩ := ih
    have happ : before ++ inst :: (after ++ [last]) = (before ++ inst :: after) ++ [last] := by simp
    exact ⟨_, by rw [happ, resolve_concat, hrest, List.append_assoc, List.cons_append]⟩

/-- Only inputs of operations are used. -/
lemma exists_op_of_mem_resolve {stream : List (Instruction R)} {uses : List Use} {u : Use}
    (huses : uses ∈ resolve stream) (hu : u ∈ uses) :
    ∃ o, .op o ∈ stream ∧ u.symbol ∈ o.inputs := by
  induction stream using List.reverseRecOn with
  | nil => simp [resolve] at huses
  | append_singleton stream inst ih =>
    rw [resolve_concat, List.mem_append, List.mem_singleton] at huses
    rcases huses with huses | rfl
    · obtain ⟨o, ho, hs⟩ := ih huses
      exact ⟨o, List.mem_append_left _ ho, hs⟩
    · cases hlive : inst.liveOp? with
      | none => simp [usesAfter, hlive] at hu
      | some o =>
        obtain ⟨rfl, -⟩ := Instruction.liveOp?_eq_some.1 hlive
        obtain ⟨s, hs, rfl⟩ : ∃ s ∈ o.inputs, (⟨s, lastWriter stream s⟩ : Use) = u := by
          simpa [usesAfter, hlive] using hu
        exact ⟨o, by simp, hs⟩

/-- The last writer of a symbol is an operation before, which is run and writes the symbol, and no
operation behind it does. -/
lemma lastWriter_eq_some {stream : List (Instruction R)} {s : Symbol} {w : ℕ}
    (h : lastWriter stream s = some w) :
    ∃ before inst after o, stream = before ++ inst :: after ∧ before.length = w ∧
      inst.liveOp? = some o ∧ s ∈ o.outputs ∧
      ∀ inst' ∈ after, ∀ o', inst'.liveOp? = some o' → s ∉ o'.outputs := by
  induction stream using List.reverseRecOn with
  | nil => simp at h
  | append_singleton stream last ih =>
    rw [lastWriter_concat] at h
    have hskip (hlast : ∀ o', last.liveOp? = some o' → s ∉ o'.outputs)
        (h : lastWriter stream s = some w) :
        ∃ before inst after o, stream ++ [last] = before ++ inst :: after ∧ before.length = w ∧
          inst.liveOp? = some o ∧ s ∈ o.outputs ∧
          ∀ inst' ∈ after, ∀ o', inst'.liveOp? = some o' → s ∉ o'.outputs := by
      obtain ⟨before, inst, after, o, rfl, hlen, hlive, hs, hafter⟩ := ih h
      refine ⟨before, inst, after ++ [last], o, by simp, hlen, hlive, hs, fun inst' hi => ?_⟩
      rcases List.mem_append.1 hi with hi | hi
      · exact hafter inst' hi
      · rwa [List.mem_singleton.1 hi]
    cases hlive : last.liveOp? with
    | none =>
      simp only [hlive] at h
      exact hskip (by simp [hlive]) h
    | some o =>
      simp only [hlive] at h
      by_cases hs : s ∈ o.outputs
      · rw [if_pos hs, Option.some.injEq] at h
        exact ⟨stream, last, [], o, rfl, h, hlive, hs, by simp⟩
      · rw [if_neg hs] at h
        exact hskip (by simp [hlive, hs]) h

lemma lastWriter_append_cons {before after : List (Instruction R)} {inst : Instruction R} {o : Op R}
    {s : Symbol} (hlive : inst.liveOp? = some o) (hs : s ∈ o.outputs)
    (hafter : ∀ inst' ∈ after, ∀ o', inst'.liveOp? = some o' → s ∉ o'.outputs) :
    lastWriter (before ++ inst :: after) s = some before.length := by
  induction after using List.reverseRecOn with
  | nil => simp [lastWriter_concat, hlive, hs]
  | append_singleton after last ih =>
    have hsplit : before ++ inst :: (after ++ [last]) = (before ++ inst :: after) ++ [last] := by
      simp
    rw [hsplit, lastWriter_concat, ih fun inst' hi => hafter inst' (by simp [hi])]
    cases hlast : last.liveOp? with
    | none => rfl
    | some o' => simp [hafter last (by simp) o' hlast]

/-! ### Readers that are left -/

namespace Worklist

/-- How often the operations that are not yet pruned depend on the one at a position. -/
def readersLeft (deps : Array (List ℕ)) (pruned : List ℕ) (i : ℕ) : ℕ :=
  ∑ j ∈ Finset.range deps.size, if j ∈ pruned then 0 else (deps.getD j []).count i

lemma readersLeft_eq_zero {deps : Array (List ℕ)} {pruned : List ℕ} {i : ℕ}
    (h : readersLeft deps pruned i = 0) {j : ℕ} (hj : i ∈ deps.getD j []) : j ∈ pruned := by
  have hlt : j < deps.size := by
    by_contra hge
    simp [Array.getD, hge] at hj
  have hzero := (Finset.sum_eq_zero_iff.1 h) j (Finset.mem_range.2 hlt)
  by_contra hnot
  rw [if_neg hnot, List.count_eq_zero] at hzero
  exact hzero hj

/-- Pruning an operation takes one reader from everything it reads. -/
lemma readersLeft_cons {deps : Array (List ℕ)} {pruned : List ℕ} {p : ℕ} (hp : p < deps.size)
    (hnew : p ∉ pruned) (i : ℕ) :
    readersLeft deps pruned i = readersLeft deps (p :: pruned) i + (deps.getD p []).count i := by
  have hmem : p ∈ Finset.range deps.size := Finset.mem_range.2 hp
  unfold readersLeft
  rw [← Finset.add_sum_erase _ _ hmem, ← Finset.add_sum_erase (Finset.range deps.size) _ hmem]
  have hrest : ∑ j ∈ (Finset.range deps.size).erase p,
        (if j ∈ pruned then 0 else (deps.getD j []).count i) =
      ∑ j ∈ (Finset.range deps.size).erase p,
        (if j ∈ p :: pruned then 0 else (deps.getD j []).count i) := by
    refine Finset.sum_congr rfl fun j hj => ?_
    have hne : j ≠ p := Finset.ne_of_mem_erase hj
    simp [hne]
  rw [hrest]
  simp [hnew]
  omega

lemma dropReader_readers (w : Worklist) (p i : ℕ) :
    (w.dropReader p).readers[i]? =
      if p = i then w.readers[i]?.map (· - 1) else w.readers[i]? := by
  unfold dropReader
  by_cases hpi : p = i
  · subst hpi
    rcases hr : w.readers[p]? with - | c
    · simp [hr]
    · have hlt : p < w.readers.size := (Array.getElem?_eq_some_iff.1 hr).1
      split <;> simp_all
  · split <;> simp [hpi]

lemma dropReader_queue (w : Worklist) (p : ℕ) :
    (w.dropReader p).queue.toList =
      w.queue.toList ++ if w.readers[p]? = some 1 then [p] else [] := by
  unfold dropReader
  split <;> simp_all

@[simp] lemma dropReader_pruned (w : Worklist) (p : ℕ) : (w.dropReader p).pruned = w.pruned := by
  unfold dropReader
  split <;> rfl

lemma foldl_dropReader_pruned (ps : List ℕ) (w : Worklist) :
    (ps.foldl dropReader w).pruned = w.pruned := by
  induction ps generalizing w with
  | nil => rfl
  | cons p ps ih => rw [List.foldl_cons, ih, dropReader_pruned]

lemma foldl_dropReader_readers (ps : List ℕ) (w : Worklist) (i : ℕ) :
    (ps.foldl dropReader w).readers[i]? = w.readers[i]?.map (· - ps.count i) := by
  induction ps generalizing w with
  | nil => simp
  | cons p ps ih =>
    rw [List.foldl_cons, ih, dropReader_readers]
    by_cases hpi : p = i
    · subst hpi
      rw [if_pos rfl, Option.map_map, List.count_cons_self]
      congr 1
      funext c
      simp only [Function.comp_apply]
      omega
    · rw [if_neg hpi, List.count_cons_of_ne hpi]

lemma foldl_dropReader_queue {ps : List ℕ} (hps : ps.Nodup) (w : Worklist) :
    (ps.foldl dropReader w).queue.toList =
      w.queue.toList ++ ps.filter (w.readers[·]? = some 1) := by
  induction ps generalizing w with
  | nil => simp
  | cons p ps ih =>
    obtain ⟨hp, hps⟩ := List.nodup_cons.1 hps
    have hsame : ps.filter ((w.dropReader p).readers[·]? = some 1) =
        ps.filter (w.readers[·]? = some 1) := by
      refine List.filter_congr fun i hi => ?_
      have hne : p ≠ i := fun e => hp (e ▸ hi)
      rw [dropReader_readers, if_neg hne]
    rw [List.foldl_cons, ih hps, hsame, dropReader_queue, List.append_assoc, List.filter_cons]
    by_cases h1 : w.readers[p]? = some 1 <;> simp [h1]

/-- The counts are right, and what is queued or pruned is so once and has no reader left. `base` is
what a position counts apart from its readers. -/
structure Sound (deps : Array (List ℕ)) (base : ℕ → ℕ) (w : Worklist) : Prop where
  readers_eq : ∀ i < deps.size, w.readers[i]? = some (base i + readersLeft deps w.pruned i)
  size_eq : w.readers.size = deps.size
  unread : ∀ i ∈ w.queue.toList ++ w.pruned, w.readers[i]? = some 0
  nodup : (w.queue.toList ++ w.pruned).Nodup

lemma size_foldl_dropReader (ps : List ℕ) (w : Worklist) :
    (ps.foldl dropReader w).readers.size = w.readers.size := by
  induction ps generalizing w with
  | nil => rfl
  | cons p ps ih =>
    rw [List.foldl_cons, ih]
    unfold dropReader
    split <;> simp

lemma Sound.step {deps : Array (List ℕ)} {base : ℕ → ℕ} {w : Worklist} (h : w.Sound deps base)
    (hdeps : ∀ p, (deps.getD p []).Nodup) : (w.step deps).Sound deps base := by
  unfold Worklist.step
  split
  · exact h
  · rename_i p queue hpop
    have hqueue : w.queue.toList = p :: queue.toList := Fifo.toList_of_pop?_eq_some hpop
    have hp0 : w.readers[p]? = some 0 := h.unread p (by simp [hqueue])
    have hp : p < deps.size := by
      rw [← h.size_eq]
      exact (Array.getElem?_eq_some_iff.1 hp0).1
    have hnodup : (p :: (queue.toList ++ w.pruned)).Nodup := by simpa [hqueue] using h.nodup
    obtain ⟨hfresh, hrest⟩ := List.nodup_cons.1 hnodup
    have hold (i : ℕ) (hi : i ∈ queue.toList ++ p :: w.pruned) : w.readers[i]? = some 0 := by
      refine h.unread i ?_
      simp only [hqueue, List.mem_append, List.mem_cons] at hi ⊢
      tauto
    have hqueue' := foldl_dropReader_queue (hdeps p)
      { w with queue := queue, pruned := p :: w.pruned }
    refine ⟨fun i hi => ?_, ?_, fun i hi => ?_, ?_⟩
    · -- what the pruned operation read has lost this reader
      rw [foldl_dropReader_readers, foldl_dropReader_pruned]
      have hnew : p ∉ w.pruned := fun hm => hfresh (by simp [hm])
      have hleft := readersLeft_cons hp hnew i
      simp only [h.readers_eq i hi, Option.map_some, hleft, Option.some.injEq]
      omega
    · rw [size_foldl_dropReader]
      exact h.size_eq
    · rw [foldl_dropReader_readers]
      rw [hqueue', foldl_dropReader_pruned, List.append_assoc, List.mem_append,
        List.mem_append] at hi
      rcases hi with hi | hi | hi
      · simp [hold i (by simp [hi])]
      · obtain ⟨hmem, hone⟩ := List.mem_filter.1 hi
        have hone : w.readers[i]? = some 1 := by simpa using hone
        rw [hone, List.count_eq_one_of_mem (hdeps p) hmem]
        rfl
      · simp [hold i (by rw [List.mem_append]; exact Or.inr hi)]
    · rw [hqueue', foldl_dropReader_pruned, List.append_assoc]
      generalize hdead : (deps.getD p []).filter _ = dead
      have hperm : (queue.toList ++ (dead ++ p :: w.pruned)).Perm
          (dead ++ (queue.toList ++ p :: w.pruned)) := by
        rw [← List.append_assoc, ← List.append_assoc]
        exact List.perm_append_comm.append_right _
      rw [hperm.nodup_iff, List.nodup_append]
      refine ⟨hdead ▸ (hdeps p).filter _, (List.perm_middle.nodup_iff).2 hnodup, ?_⟩
      rintro i hi _ hj rfl
      have hone : w.readers[i]? = some 1 := by
        rw [← hdead] at hi
        simpa using (List.mem_filter.1 hi).2
      simp [hold i hj] at hone

lemma Sound.run {deps : Array (List ℕ)} {base : ℕ → ℕ} {w : Worklist} (h : w.Sound deps base)
    (hdeps : ∀ p, (deps.getD p []).Nodup) (n : ℕ) : (w.run deps n).Sound deps base := by
  induction n generalizing w with
  | zero => exact h
  | succ n ih => exact ih (h.step hdeps)

/-- What is pruned counts for nothing apart from its readers, and these are pruned too. -/
lemma Sound.of_mem_pruned {deps : Array (List ℕ)} {base : ℕ → ℕ} {w : Worklist}
    (h : w.Sound deps base) {i : ℕ} (hi : i ∈ w.pruned) :
    base i = 0 ∧ ∀ j, i ∈ deps.getD j [] → j ∈ w.pruned := by
  have h0 := h.unread i (by simp [hi])
  have hlt : i < deps.size := by
    rw [← h.size_eq]
    exact (Array.getElem?_eq_some_iff.1 h0).1
  rw [h.readers_eq i hlt, Option.some.injEq] at h0
  exact ⟨by omega, fun j hj => readersLeft_eq_zero (by omega) hj⟩

end Worklist

/-! ### The start -/

/-- What an entry counts apart from its readers: one if it is run and mandatory. -/
def ownCount (inst : Instruction R) : ℕ :=
  match inst.liveOp? with
  | some o => if o.mandatory then 1 else 0
  | none => 0

lemma foldl_modify_succ (ps : List ℕ) (counts : Array ℕ) (i : ℕ) :
    (ps.foldl (fun counts i => counts.modify i (· + 1)) counts)[i]? =
      counts[i]?.map (· + ps.count i) := by
  induction ps generalizing counts with
  | nil => simp
  | cons p ps ih =>
    rw [List.foldl_cons, ih, Array.getElem?_modify]
    by_cases hpi : p = i
    · subst hpi
      rw [if_pos rfl, Option.map_map, List.count_cons_self]
      congr 1
      funext c
      simp only [Function.comp_apply]
      omega
    · rw [if_neg hpi, List.count_cons_of_ne hpi]

lemma size_foldl_modify_succ (ps : List ℕ) (counts : Array ℕ) :
    (ps.foldl (fun counts i => counts.modify i (· + 1)) counts).size = counts.size := by
  induction ps generalizing counts with
  | nil => rfl
  | cons p ps ih => rw [List.foldl_cons, ih, Array.size_modify]

lemma readersLeft_nil (deps : List (List ℕ)) (i : ℕ) :
    Worklist.readersLeft deps.toArray [] i = deps.flatten.count i := by
  have hget (j : ℕ) : deps.toArray.getD j [] = deps.getD j [] := by simp
  simp only [Worklist.readersLeft, List.not_mem_nil, if_false, hget, List.size_toArray]
  induction deps using List.reverseRecOn with
  | nil => simp
  | append_singleton deps ds ih =>
    rw [List.length_append, List.length_singleton, Finset.sum_range_succ, List.flatten_append,
      List.count_append, ← ih (by simp)]
    congr 1
    · refine Finset.sum_congr rfl fun j hj => ?_
      rw [List.getD_append _ _ _ _ (Finset.mem_range.1 hj)]
    · simp

lemma sound_start {stream : List (Instruction R)} {deps : List (List ℕ)}
    (hlen : deps.length = stream.length) :
    (Worklist.start stream deps).Sound deps.toArray
      (fun i => (stream[i]?.map ownCount).getD 0) where
  readers_eq := by
    intro i hi
    have hi : i < stream.length := by simpa [hlen] using hi
    simp only [Worklist.start, readersLeft_nil, readerCounts, foldl_modify_succ]
    cases hlive : stream[i].liveOp? <;> simp [hi, ownCount, hlive]
  size_eq := by
    simp [Worklist.start, readerCounts, size_foldl_modify_succ, hlen]
  unread := by
    intro i hi
    simp only [Worklist.start, Fifo.toList_ofList, List.append_nil, unreadPositions,
      List.mem_map, List.mem_filter] at hi
    obtain ⟨⟨inst, j⟩, ⟨-, hcond⟩, rfl⟩ := hi
    simp only [Bool.and_eq_true, beq_iff_eq] at hcond
    exact hcond.2
  nodup := by
    simp only [Worklist.start, Fifo.toList_ofList, List.append_nil, unreadPositions]
    refine List.Nodup.sublist (List.filter_sublist.map _) ?_
    change (stream.zipIdx.map Prod.snd).Nodup
    rw [List.zipIdx_map_snd]
    exact List.nodup_range'

/-! ### Dead positions -/

lemma length_dependencies (stream : List (Instruction R)) :
    (dependencies stream).length = stream.length := by
  simp [dependencies]

lemma nodup_dependencies (stream : List (Instruction R)) (p : ℕ) :
    ((dependencies stream).toArray.getD p []).Nodup := by
  rw [dependencies_eq]
  simp only [Array.getD_eq_getD_getElem?, List.getElem?_toArray, List.getElem?_map]
  cases (resolve stream)[p]? with
  | none => simp
  | some uses => exact nodup_eraseDups _

lemma getD_dependencies (before after : List (Instruction R)) (inst : Instruction R) :
    (dependencies (before ++ inst :: after)).toArray.getD before.length [] =
      ((usesAfter before inst).filterMap (·.writer)).eraseDups := by
  obtain ⟨rest, hrest⟩ := resolve_append_cons before after inst
  have hlength : (resolve before).length = before.length := length_resolve before
  rw [dependencies_eq, hrest]
  simp only [Array.getD_eq_getD_getElem?, List.getElem?_toArray, List.getElem?_map]
  rw [List.getElem?_append_right hlength.le]
  simp [hlength]

/-- Everything that an entry reads was written by one of its dependencies. -/
lemma mem_dependencies {before after : List (Instruction R)} {inst : Instruction R} {o : Op R}
    (hlive : inst.liveOp? = some o) {s : Symbol} (hs : s ∈ o.inputs) {w : ℕ}
    (hw : lastWriter before s = some w) :
    w ∈ (dependencies (before ++ inst :: after)).toArray.getD before.length [] := by
  rw [getD_dependencies, List.mem_eraseDups, List.mem_filterMap]
  exact ⟨⟨s, some w⟩, by simpa [usesAfter, hlive] using ⟨hs, hw⟩, rfl⟩

/-- A dead operation is not mandatory. -/
lemma mandatory_of_mem_deadPositions {before after : List (Instruction R)} {inst : Instruction R}
    {o : Op R} (hlive : inst.liveOp? = some o)
    (hdead : before.length ∈ deadPositions (before ++ inst :: after)) : o.mandatory = false := by
  have hsound := (sound_start (length_dependencies (before ++ inst :: after))).run
    (nodup_dependencies _) (before ++ inst :: after).length
  have hbase := (hsound.of_mem_pruned hdead).1
  simpa [ownCount, hlive] using hbase

lemma notMem_deadPositions {stream : List (Instruction R)} {i : ℕ} {o : Op R}
    (hi : stream[i]? = some (.op o)) (hpruned : o.pruned = false) (hmand : o.mandatory = true) :
    i ∉ deadPositions stream := by
  intro hdead
  obtain ⟨hlt, hget⟩ := List.getElem?_eq_some_iff.1 hi
  obtain ⟨before, after, rfl, rfl⟩ : ∃ before after, stream = before ++ .op o :: after ∧
      before.length = i :=
    ⟨stream.take i, stream.drop (i + 1), by simp [← hget], by simp; omega⟩
  have hlive := Instruction.liveOp?_eq_some.2 ⟨rfl, hpruned⟩
  simp [mandatory_of_mem_deadPositions hlive hdead] at hmand

/-- If an entry reads the result of a dead operation, it is dead itself. -/
lemma mem_deadPositions_of_reads {before after : List (Instruction R)} {inst : Instruction R}
    {o : Op R} (hlive : inst.liveOp? = some o) {s : Symbol} (hs : s ∈ o.inputs) {w : ℕ}
    (hw : lastWriter before s = some w) (hdead : w ∈ deadPositions (before ++ inst :: after)) :
    before.length ∈ deadPositions (before ++ inst :: after) := by
  have hsound := (sound_start (length_dependencies (before ++ inst :: after))).run
    (nodup_dependencies _) (before ++ inst :: after).length
  exact (hsound.of_mem_pruned hdead).2 _ (mem_dependencies hlive hs hw)

/-! ### The pruned stream -/

lemma foldl_setIfInBounds (positions : List ℕ) (marks : Array Bool) (i : ℕ) (hi : i < marks.size) :
    (positions.foldl (fun (marks : Array Bool) i => marks.setIfInBounds i true) marks).getD i
      false = (decide (i ∈ positions) || marks.getD i false) := by
  induction positions generalizing marks with
  | nil => simp
  | cons p positions ih =>
    rw [List.foldl_cons, ih _ (by simpa using hi)]
    by_cases hpi : p = i
    · subst hpi
      simp [hi]
    · simp [hpi, Ne.symm hpi]

@[simp] lemma length_prune (positions : List ℕ) (stream : List (Instruction R)) :
    (prune positions stream).length = stream.length := by
  simp [prune]

lemma getElem?_prune (positions : List ℕ) (stream : List (Instruction R)) (i : ℕ) :
    (prune positions stream)[i]? =
      stream[i]?.map fun inst => if i ∈ positions then inst.setPruned true else inst := by
  by_cases hi : i < stream.length
  · have hmark := foldl_setIfInBounds positions (Array.replicate stream.length false) i (by simpa)
    simp only [prune, List.getElem?_map, List.getElem?_zipIdx, Option.map_some,
      List.getElem?_eq_getElem hi, Nat.zero_add, hmark]
    simp [hi]
  · simp [prune, hi]

@[simp] lemma liveOp?_setPruned (inst : Instruction R) : (inst.setPruned true).liveOp? = none := by
  cases inst <;> rfl

/-- Entries that are left behind pruning were there before. -/
lemma mem_of_mem_eliminateDeadCode {stream : List (Instruction R)} {inst : Instruction R}
    (h : inst ∈ (eliminateDeadCode stream).1) (hlive : inst.isLive = true) : inst ∈ stream := by
  obtain ⟨i, hi⟩ := List.mem_iff_getElem?.1 h
  rw [eliminateDeadCode, getElem?_prune, Option.map_eq_some_iff] at hi
  obtain ⟨inst', hget, rfl⟩ := hi
  split at hlive
  · cases inst' with
    | comment text => simpa [Instruction.setPruned] using List.mem_of_getElem? hget
    | op o => simp [Instruction.setPruned, Instruction.isLive] at hlive
  · rw [if_neg ‹_›]
    exact List.mem_of_getElem? hget

/-! ### Two runs -/

/-- What a symbol holds behind some entries is not the result of an operation at one of the given
positions; without any writer, it is a symbol of which `P` holds. -/
def Intact (P : Symbol → Prop) (positions : List ℕ) (entries : List (Instruction R)) (s : Symbol) :
    Prop :=
  (∀ w, lastWriter entries s = some w → w ∉ positions) ∧ (lastWriter entries s = none → P s)

/-- What the last writer of a symbol left is intact if that writer is mandatory. -/
lemma intact_of_mandatory {P : Symbol → Prop} {before after : List (Instruction R)}
    {inst : Instruction R} {o : Op R} {s : Symbol} (hlive : inst.liveOp? = some o)
    (hmand : o.mandatory = true)
    (hw : lastWriter (before ++ inst :: after) s = some before.length) :
    Intact P (deadPositions (before ++ inst :: after)) (before ++ inst :: after) s := by
  refine ⟨fun w hw' hdead => ?_, fun hnone => by simp [hw] at hnone⟩
  obtain rfl : before.length = w := by simpa [hw] using hw'
  simp [mandatory_of_mem_deadPositions hlive hdead] at hmand

section Runs

variable [Scalar R] {tables : Array (List ℕ)}

lemma Machine.execute_append (xs ys : List (Instruction R)) (m : Machine R) :
    m.execute tables (xs ++ ys) = m.execute tables xs >>= fun a => a.execute tables ys := by
  simp [Machine.execute]

lemma Machine.execute_concat (xs : List (Instruction R)) (inst : Instruction R) (m : Machine R) :
    m.execute tables (xs ++ [inst]) = m.execute tables xs >>= fun a => a.step tables inst := by
  simp [Machine.execute]

lemma Machine.runStmt_frame {m m' : Machine R} {s : Stmt R} (hm : m.Separate)
    (hs : s.Follows tables) (h : m.runStmt tables s = .ok m') :
    m'.shape = m.shape ∧ ∀ t ∉ s.outputs, m'.read t = m.read t := by
  rcases runStmt_footprint hm hm hs ⟨rfl, rfl⟩ (fun _ _ => rfl) (fun _ _ => Iff.rfl) with
    ⟨f, _, hf, -⟩ | ⟨a, b, ha, _, hshape, _, _, hframe⟩
  · simp [hf] at h
  · obtain rfl : a = m' := by simpa [ha] using h
    exact ⟨hshape, fun t ht => (hframe t ht).1⟩

variable {P : Symbol → Prop} {stream : List (Instruction R)} {m₁ m₂ : Machine R}

/-- The invariant of running a stream beside its pruned form: symbols that are intact agree. -/
structure SideBySide (P : Symbol → Prop) (stream : List (Instruction R)) (m₁ m₂ : Machine R)
    (entries : List (Instruction R)) (a b : Machine R) : Prop where
  shape_left : a.shape = m₁.shape
  shape_right : b.shape = m₂.shape
  read_eq : ∀ s, Intact P (deadPositions stream) entries s → a.read s = b.read s

/-- One more entry keeps the invariant: a dead operation is run on the left only and spoils its own
outputs only; any other one finds its inputs intact. -/
lemma SideBySide.step {before after : List (Instruction R)} {inst : Instruction R}
    (hstream : stream = before ++ inst :: after) (h₁ : m₁.Separate) (h₂ : m₂.Separate)
    (hlanes : m₁.lanes.SameSize m₂.lanes)
    (hfollows : ∀ o, inst.liveOp? = some o → o.stmt.Follows tables)
    (hP : before.length ∉ deadPositions stream → ∀ o, inst.liveOp? = some o →
      ∀ s ∈ o.inputs, lastWriter before s = none → P s)
    (hhas : before.length ∉ deadPositions stream → ∀ o, inst.liveOp? = some o →
      ∀ s ∈ o.outputs, m₁.Has s ↔ m₂.Has s)
    {a b a' : Machine R} (h : SideBySide P stream m₁ m₂ before a b)
    (ha : a.step tables inst = .ok a') :
    ∃ b', b.step tables
        (if before.length ∈ deadPositions stream then inst.setPruned true else inst) = .ok b' ∧
      SideBySide P stream m₁ m₂ (before ++ [inst]) a' b' := by
  have hsep₁ : a.Separate := h₁.of_shape h.shape_left
  have hsep₂ : b.Separate := h₂.of_shape h.shape_right
  cases hlive : inst.liveOp? with
  | none =>
    have hboth : (if before.length ∈ deadPositions stream then inst.setPruned true
        else inst).liveOp? = none := by
      split
      · exact liveOp?_setPruned inst
      · exact hlive
    obtain rfl : a = a' := by simpa [Machine.step, hlive] using ha
    refine ⟨b, by simp [Machine.step, hboth], h.shape_left, h.shape_right, fun s hs => ?_⟩
    exact h.read_eq s (by simpa [Intact, lastWriter_concat, hlive] using hs)
  | some o =>
    simp only [Machine.step, hlive] at ha
    by_cases hdead : before.length ∈ deadPositions stream
    · obtain ⟨hshape, hframe⟩ := Machine.runStmt_frame hsep₁ (hfollows o hlive) ha
      refine ⟨b, by simp [Machine.step, hdead], hshape.trans h.shape_left, h.shape_right, ?_⟩
      intro s hs
      simp only [Intact, lastWriter_concat, hlive] at hs
      by_cases hout : s ∈ o.outputs
      · exact absurd hdead (hs.1 before.length (if_pos hout))
      · rw [hframe s hout]
        exact h.read_eq s (by simpa [Intact, hout] using hs)
    · have hin : ∀ s ∈ o.stmt.inputs, a.read s = b.read s := by
        intro s hs
        refine h.read_eq s ⟨fun w hw hwdead => hdead ?_, hP hdead o hlive s hs⟩
        rw [hstream] at hwdead ⊢
        exact mem_deadPositions_of_reads hlive hs hw hwdead
      have hout : ∀ s ∈ o.stmt.outputs, a.Has s ↔ b.Has s := by
        intro s hs
        rw [Machine.has_iff_of_shape h.shape_left, Machine.has_iff_of_shape h.shape_right]
        exact hhas hdead o hlive s hs
      have hsize : a.lanes.SameSize b.lanes :=
        ((Machine.sameSize_of_shape h.shape_left).trans hlanes).trans
          (Machine.sameSize_of_shape h.shape_right).symm
      rcases Machine.runStmt_footprint hsep₁ hsep₂ (hfollows o hlive) hsize hin hout with
        ⟨f, _, hf, -⟩ | ⟨c, b', hc, hb', hshape₁, hshape₂, hagree, hframe⟩
      · simp [hf] at ha
      · obtain rfl : c = a' := by simpa [hc] using ha
        refine ⟨b', by simp [Machine.step, hdead, hlive, hb'], hshape₁.trans h.shape_left,
          hshape₂.trans h.shape_right, fun s hs => ?_⟩
        simp only [Intact, lastWriter_concat, hlive] at hs
        by_cases hmem : s ∈ o.outputs
        · exact hagree s hmem
        · rw [(hframe s hmem).1, (hframe s hmem).2]
          exact h.read_eq s (by simpa [Intact, hmem] using hs)

/-- A stream that runs and its pruned form, run side by side up to any position. The machines may
differ in what no operation that is left needs: in symbols of which `P` fails, if these are written
before they are read, and in locations that are not written. -/
lemma exists_sideBySide {m' : Machine R} (h₁ : m₁.Separate) (h₂ : m₂.Separate)
    (hlanes : m₁.lanes.SameSize m₂.lanes)
    (hfollows : ∀ inst ∈ stream, ∀ o, inst.liveOp? = some o → o.stmt.Follows tables)
    (hread : ∀ s, P s → m₁.read s = m₂.read s)
    (hP : ∀ before inst after, stream = before ++ inst :: after →
      before.length ∉ deadPositions stream → ∀ o, inst.liveOp? = some o →
      ∀ s ∈ o.inputs, lastWriter before s = none → P s)
    (hhas : ∀ before inst after, stream = before ++ inst :: after →
      before.length ∉ deadPositions stream → ∀ o, inst.liveOp? = some o →
      ∀ s ∈ o.outputs, m₁.Has s ↔ m₂.Has s)
    (hrun : m₁.execute tables stream = .ok m') (i : ℕ) :
    ∃ a b, m₁.execute tables (stream.take i) = .ok a ∧
      m₂.execute tables ((prune (deadPositions stream) stream).take i) = .ok b ∧
      SideBySide P stream m₁ m₂ (stream.take i) a b := by
  induction i with
  | zero =>
    refine ⟨m₁, m₂, rfl, rfl, rfl, rfl, fun s hs => hread s (hs.2 ?_)⟩
    simp
  | succ i ih =>
    obtain ⟨a, b, ha, hb, hab⟩ := ih
    by_cases hi : i < stream.length
    · have hsplit : stream = stream.take i ++ stream[i] :: stream.drop (i + 1) := by simp
      have hlen : (stream.take i).length = i := by simp; omega
      have hkept : (prune (deadPositions stream) stream)[i]? =
          some (if i ∈ deadPositions stream then stream[i].setPruned true else stream[i]) := by
        rw [getElem?_prune, List.getElem?_eq_getElem hi]
        rfl
      -- the left run goes on, because the whole run does
      obtain ⟨a', ha'⟩ : ∃ a', a.step tables stream[i] = .ok a' := by
        rw [hsplit, Machine.execute_append, ha] at hrun
        cases hstep : a.step tables stream[i] with
        | ok a' => exact ⟨a', rfl⟩
        | error f =>
          simp only [Machine.execute, List.foldlM_cons, hstep, bind, Except.bind] at hrun
          simp at hrun
      obtain ⟨b', hb', hab'⟩ := hab.step hsplit h₁ h₂ hlanes (hfollows _ (List.getElem_mem hi))
        (hP _ _ _ hsplit) (hhas _ _ _ hsplit) ha'
      rw [hlen] at hb'
      refine ⟨a', b', ?_, ?_, ?_⟩
      · rw [List.take_succ_eq_append_getElem hi, Machine.execute_concat, ha]
        exact ha'
      · rw [List.take_add_one, hkept, Option.toList_some, Machine.execute_concat, hb]
        exact hb'
      · rw [List.take_succ_eq_append_getElem hi]
        exact hab'
    · have htake (xs : List (Instruction R)) (hxs : xs.length = stream.length) :
          xs.take (i + 1) = xs.take i := by
        rw [List.take_of_length_le (by omega), List.take_of_length_le (by omega)]
      rw [htake stream rfl, htake _ (length_prune _ _)]
      exact ⟨a, b, ha, hb, hab⟩

/-- Elimination of dead code preserves meaning. If a stream runs, what is left of it runs too; every
operation that is left stores what it stored before; and every symbol whose last writer was
mandatory ends with the same contents. -/
theorem eliminateDeadCode_preserves {m m' : Machine R} (hm : m.Separate)
    (hfollows : ∀ o, .op o ∈ stream → o.stmt.Follows tables)
    (hrun : m.execute tables stream = .ok m') :
    ∃ m'', m.execute tables (eliminateDeadCode stream).1 = .ok m'' ∧
      (∀ i o, (eliminateDeadCode stream).1[i]? = some (.op o) → o.pruned = false →
        ∃ a b, m.execute tables (stream.take (i + 1)) = .ok a ∧
          m.execute tables ((eliminateDeadCode stream).1.take (i + 1)) = .ok b ∧
          ∀ s ∈ o.outputs, a.read s = b.read s) ∧
      ∀ before o after s, stream = before ++ .op o :: after → o.pruned = false →
        o.mandatory = true → s ∈ o.outputs →
        (∀ o', .op o' ∈ after → o'.pruned = false → s ∉ o'.outputs) → m'.read s = m''.read s := by
  have hside (i : ℕ) := exists_sideBySide (P := fun _ => True) hm hm ⟨rfl, rfl⟩
    (fun inst hinst o hlive => hfollows o ((Instruction.liveOp?_eq_some.1 hlive).1 ▸ hinst))
    (fun _ _ => rfl) (fun _ _ _ _ _ _ _ _ _ _ => trivial) (fun _ _ _ _ _ _ _ _ _ => Iff.rfl) hrun i
  obtain ⟨a, m'', ha, hm'', hend⟩ := hside stream.length
  rw [List.take_length] at ha hend
  rw [List.take_of_length_le (by simp)] at hm''
  obtain rfl : a = m' := by simpa [ha] using hrun
  refine ⟨m'', hm'', fun i o hi hpruned => ?_, ?_⟩
  · obtain ⟨a, b, ha, hb, hab⟩ := hside (i + 1)
    refine ⟨a, b, ha, hb, fun s hs => hab.read_eq s ?_⟩
    rw [eliminateDeadCode, getElem?_prune, Option.map_eq_some_iff] at hi
    obtain ⟨inst, hinst, hi⟩ := hi
    by_cases hdead : i ∈ deadPositions stream
    · rw [if_pos hdead] at hi
      cases inst with
      | comment text => simp [Instruction.setPruned] at hi
      | op o' =>
        obtain rfl : { o' with pruned := true } = o := by simpa [Instruction.setPruned] using hi
        simp at hpruned
    · rw [if_neg hdead] at hi
      have hlast : lastWriter (stream.take (i + 1)) s = some i := by
        have hlive := Instruction.liveOp?_eq_some.2 ⟨hi, hpruned⟩
        have hlen : (stream.take i).length = i := by
          have := (List.getElem?_eq_some_iff.1 hinst).1
          simp
          omega
        rw [List.take_add_one, hinst, Option.toList_some, lastWriter_concat]
        simp [hlive, hs, hlen]
      refine ⟨fun w hw => ?_, fun _ => trivial⟩
      obtain rfl : i = w := by simpa [hlast] using hw
      exact hdead
  · rintro before o after s rfl hpruned hmand hs hafter
    have hlive := Instruction.liveOp?_eq_some.2 ⟨rfl, hpruned⟩
    refine hend.read_eq s (intact_of_mandatory hlive hmand (lastWriter_append_cons hlive hs ?_))
    intro inst' hinst' o' hlive'
    obtain ⟨rfl, hpruned'⟩ := Instruction.liveOp?_eq_some.1 hlive'
    exact hafter o' hinst' hpruned'

/-- Loads a temporary twice, with a shift of slots in between, and stores it. The first load is
dead. -/
def reloading : List (Instruction Float) :=
  [.op { stmt := .assign (.temp 0) (.sym (.input 0)) },
    .op { stmt := .assign (.temp 0) (.sym (.input 1)) },
    .op { stmt := .call (.cyclicShift 0 [0, 1]), mandatory := true },
    .op { stmt := .assign (.output 0) (.sym (.temp 0)), mandatory := true }]

theorem eliminateDeadCode_preserves_reloading :
    ∃ m'' : Machine Float,
      Machine.execute #[[0, 1]] (eliminateDeadCode reloading).1
        { temps := #[0.0], input := #[1.5, 2.5], output := some #[0.0],
          lanes := ⟨#[1.0, 2.0], #[3.0, 4.0]⟩ } = .ok m'' ∧
      m''.read (.output 0) = .ok 2.5 := by
  have hrun : Machine.execute #[[0, 1]] reloading
      { temps := #[0.0], input := #[1.5, 2.5], output := some #[0.0],
        lanes := ⟨#[1.0, 2.0], #[3.0, 4.0]⟩ } =
      .ok { temps := #[2.5], input := #[1.5, 2.5], output := some #[2.5],
            lanes := ⟨#[2.0, 1.0], #[4.0, 3.0]⟩ } := rfl
  have hfollows : ∀ o, Instruction.op o ∈ reloading → o.stmt.Follows #[[0, 1]] := by
    intro o ho
    simp only [reloading, List.mem_cons, Instruction.op.injEq, List.not_mem_nil, or_false] at ho
    rcases ho with rfl | rfl | rfl | rfl <;> simp [Stmt.Follows]
  obtain ⟨m'', hm'', -, hlast⟩ := eliminateDeadCode_preserves
    (Machine.separate_iff.2 (Or.inl rfl)) hfollows hrun
  have hread := hlast [_, _, _] _ [] (.output 0) rfl rfl rfl (by simp [Op.outputs, Stmt.outputs])
    (by simp)
  refine ⟨m'', hm'', ?_⟩
  rw [← hread]
  rfl

end Runs

end MixedRadix
