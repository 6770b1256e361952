import MixedRadix.Proofs.DeadCode

/-!
# Liveness

An operation feeds another one that reads its result (`Feeds`). The worklist empties its queue, so
an operation is dead exactly if it is not mandatory and feeds dead operations only
(`mem_deadPositions_iff`). Which operations are left therefore does not depend on where they stand:
it can be read off the list of operations from its end (`demands`), without the comments between
them (`filterMap_op?_eliminateDeadCode`).
-/

namespace MixedRadix

variable {R : Type}

/-! ### Feeding -/

/-- The operation at a position, if there is one that is run. -/
def liveAt? (stream : List (Instruction R)) (i : ℕ) : Option (Op R) :=
  stream[i]?.bind Instruction.liveOp?

/-- The operation at `j` reads what the operation at `i` has written. -/
def Feeds (stream : List (Instruction R)) (i j : ℕ) : Prop :=
  ∃ oi oj s, liveAt? stream i = some oi ∧ liveAt? stream j = some oj ∧ i < j ∧ s ∈ oi.outputs ∧
    s ∈ oj.inputs ∧ ∀ k o, i < k → k < j → liveAt? stream k = some o → s ∉ o.outputs

lemma lt_of_liveAt? {stream : List (Instruction R)} {i : ℕ} {o : Op R}
    (h : liveAt? stream i = some o) : i < stream.length := by
  obtain ⟨inst, hinst, -⟩ := Option.bind_eq_some_iff.1 h
  exact (List.getElem?_eq_some_iff.1 hinst).1

lemma liveAt?_append_left {before : List (Instruction R)} (after : List (Instruction R)) {i : ℕ}
    (hi : i < before.length) : liveAt? (before ++ after) i = liveAt? before i := by
  rw [liveAt?, List.getElem?_append_left hi, liveAt?]

lemma liveAt?_length (before after : List (Instruction R)) (inst : Instruction R) :
    liveAt? (before ++ inst :: after) before.length = inst.liveOp? := by
  simp [liveAt?]

lemma lastWriter_eq_some_iff {stream : List (Instruction R)} {s : Symbol} {i : ℕ} :
    lastWriter stream s = some i ↔ ∃ o, liveAt? stream i = some o ∧ s ∈ o.outputs ∧
      ∀ k o', i < k → liveAt? stream k = some o' → s ∉ o'.outputs := by
  constructor
  · intro h
    obtain ⟨before, inst, after, o, rfl, rfl, hlive, hs, hafter⟩ := lastWriter_eq_some h
    refine ⟨o, (liveAt?_length before after inst).trans hlive, hs, fun k o' hk hlive' => ?_⟩
    obtain ⟨inst', hinst', hlive'⟩ := Option.bind_eq_some_iff.1 hlive'
    rw [List.getElem?_append_right hk.le, List.getElem?_cons, if_neg (by omega)] at hinst'
    exact hafter inst' (List.mem_of_getElem? hinst') o' hlive'
  · rintro ⟨o, hlive, hs, hafter⟩
    obtain ⟨inst, hinst, hop⟩ := Option.bind_eq_some_iff.1 hlive
    obtain ⟨hlt, rfl⟩ := List.getElem?_eq_some_iff.1 hinst
    have hsplit : stream = stream.take i ++ stream[i] :: stream.drop (i + 1) := by simp
    have hlength : (stream.take i).length = i := by simp; omega
    have hlast : lastWriter (stream.take i ++ stream[i] :: stream.drop (i + 1)) s =
        some (stream.take i).length := by
      refine lastWriter_append_cons hop hs fun inst' hinst' o' hlive' => ?_
      obtain ⟨k, hk⟩ := List.mem_iff_getElem?.1 hinst'
      rw [List.getElem?_drop] at hk
      exact hafter (i + 1 + k) o' (by omega) (by rw [liveAt?, hk]; exact hlive')
    rwa [← hsplit, hlength] at hlast

/-- The dependencies of an entry are the operations that feed it. -/
lemma mem_dependencies_iff {stream : List (Instruction R)} {i j : ℕ} :
    i ∈ (dependencies stream).toArray.getD j [] ↔ Feeds stream i j := by
  rcases lt_or_ge j stream.length with hj | hj
  · obtain ⟨before, inst, after, rfl, rfl⟩ : ∃ before inst after,
        stream = before ++ inst :: after ∧ before.length = j :=
      ⟨stream.take j, stream[j], stream.drop (j + 1), by simp, by simp; omega⟩
    rw [getD_dependencies, List.mem_eraseDups, List.mem_filterMap]
    have hhere := liveAt?_length before after inst
    cases hlive : inst.liveOp? with
    | none =>
      rw [hlive] at hhere
      simp [usesAfter, Feeds, hlive, hhere]
    | some oj =>
      rw [hlive] at hhere
      constructor
      · rintro ⟨u, hu, hwriter⟩
        obtain ⟨s, hs, rfl⟩ : ∃ s ∈ oj.inputs, (⟨s, lastWriter before s⟩ : Use) = u := by
          simpa [usesAfter, hlive] using hu
        obtain ⟨oi, hoi, houtput, hbetween⟩ := lastWriter_eq_some_iff.1 hwriter
        have hi := lt_of_liveAt? hoi
        refine ⟨oi, oj, s, (liveAt?_append_left _ hi).trans hoi, hhere, hi, houtput, hs, ?_⟩
        intro k o hk hkj ho
        exact hbetween k o hk ((liveAt?_append_left _ hkj).symm.trans ho)
      · rintro ⟨oi, oj', s, hoi, hoj, hi, houtput, hs, hbetween⟩
        obtain rfl : oj = oj' := Option.some.inj (hhere.symm.trans hoj)
        refine ⟨⟨s, lastWriter before s⟩, by simpa [usesAfter, hlive] using hs, ?_⟩
        refine lastWriter_eq_some_iff.2 ⟨oi, (liveAt?_append_left _ hi).symm.trans hoi, houtput, ?_⟩
        intro k o hk ho
        have hkj := lt_of_liveAt? ho
        exact hbetween k o hk hkj ((liveAt?_append_left _ hkj).trans ho)
  · have hnone : (dependencies stream).toArray.getD j [] = [] := by
      simp [Array.getD, length_dependencies, hj]
    rw [hnone]
    refine iff_of_false List.not_mem_nil ?_
    rintro ⟨-, oj, -, -, hoj, -⟩
    exact absurd (lt_of_liveAt? hoj) (not_lt.2 hj)

/-! ### The worklist runs empty -/

namespace Worklist

variable {deps : Array (List ℕ)} {P : ℕ → Prop} {w : Worklist}

lemma step_eq_self (h : w.queue.pop? = none) : w.step deps = w := by
  rw [step, h]

lemma step_of_pop? {p : ℕ} {queue : Fifo ℕ} (h : w.queue.pop? = some (p, queue)) :
    w.step deps =
      (deps.getD p []).foldl dropReader { w with queue, pruned := p :: w.pruned } := by
  rw [step, h]

lemma run_eq_self (h : w.queue.pop? = none) (n : ℕ) : w.run deps n = w := by
  induction n with
  | zero => rfl
  | succ n ih => rw [run, step_eq_self h, ih]

/-- Each step prunes a position until the queue is empty. -/
lemma toList_queue_run (n : ℕ) (w : Worklist) : (w.run deps n).queue.toList = [] ∨
    (w.run deps n).pruned.length = w.pruned.length + n := by
  induction n generalizing w with
  | zero => exact Or.inr rfl
  | succ n ih =>
    cases hpop : w.queue.pop? with
    | none =>
      rw [run_eq_self hpop]
      exact Or.inl (Fifo.toList_of_pop?_eq_none hpop)
    | some popped =>
      refine (ih (w.step deps)).imp_right fun h => ?_
      rw [run, h, step_of_pop? hpop, foldl_dropReader_pruned]
      simp
      omega

/-- What is queued or pruned is a position of `P`, and so is every position of `P` that has no
reader left. -/
structure Complete (P : ℕ → Prop) (w : Worklist) : Prop where
  subset : ∀ i ∈ w.queue.toList ++ w.pruned, P i
  mem : ∀ i, P i → w.readers[i]? = some 0 → i ∈ w.queue.toList ++ w.pruned

variable (hnodup : ∀ p, (deps.getD p []).Nodup) (hdeps : ∀ p, ∀ i ∈ deps.getD p [], P i)

include hnodup hdeps

lemma Complete.step (h : w.Complete P) : (w.step deps).Complete P := by
  cases hpop : w.queue.pop? with
  | none => rwa [step_eq_self hpop]
  | some popped =>
    obtain ⟨p, queue⟩ := popped
    have hqueue : w.queue.toList = p :: queue.toList := Fifo.toList_of_pop?_eq_some hpop
    have hmem (i : ℕ) : i ∈ (w.step deps).queue.toList ++ (w.step deps).pruned ↔
        i ∈ w.queue.toList ++ w.pruned ∨ i ∈ deps.getD p [] ∧ w.readers[i]? = some 1 := by
      rw [step_of_pop? hpop, foldl_dropReader_queue (hnodup p), foldl_dropReader_pruned, hqueue]
      simp only [List.mem_append, List.mem_filter, List.mem_cons, decide_eq_true_eq]
      tauto
    refine ⟨fun i hi => ?_, fun i hi hzero => (hmem i).2 ?_⟩
    · rcases (hmem i).1 hi with hi | ⟨hi, -⟩
      · exact h.subset i hi
      · exact hdeps p i hi
    · -- a count that has become zero was zero before, or it was one and the last reader is gone
      rw [step_of_pop? hpop, foldl_dropReader_readers, Option.map_eq_some_iff] at hzero
      obtain ⟨count, hcount, hzero⟩ := hzero
      have hle := List.nodup_iff_count_le_one.1 (hnodup p) i
      rcases Nat.eq_zero_or_pos count with rfl | hpos
      · exact Or.inl (h.mem i hi hcount)
      · obtain rfl : count = 1 := by omega
        exact Or.inr ⟨List.count_pos_iff.1 (by omega), hcount⟩

lemma Complete.run (h : w.Complete P) (n : ℕ) : (w.run deps n).Complete P := by
  induction n generalizing w with
  | zero => exact h
  | succ n ih => exact ih (h.step hnodup hdeps)

end Worklist

lemma complete_start (stream : List (Instruction R)) (deps : List (List ℕ)) :
    (Worklist.start stream deps).Complete fun i => ∃ o, liveAt? stream i = some o := by
  have hmem (i : ℕ) : i ∈ unreadPositions (readerCounts stream deps) stream ↔
      (∃ o, liveAt? stream i = some o) ∧ (readerCounts stream deps)[i]? = some 0 := by
    simp only [unreadPositions, List.mem_map, List.mem_filter, Bool.and_eq_true, beq_iff_eq,
      Option.isSome_iff_exists, Prod.exists, exists_eq_right, List.mk_mem_zipIdx_iff_getElem?,
      liveAt?, Option.bind_eq_some_iff]
    constructor
    · rintro ⟨inst, hinst, ⟨o, ho⟩, hreaders⟩
      exact ⟨⟨o, inst, hinst, ho⟩, hreaders⟩
    · rintro ⟨⟨o, inst, hinst, ho⟩, hreaders⟩
      exact ⟨inst, hinst, ⟨o, ho⟩, hreaders⟩
  constructor
  · intro i hi
    simp only [Worklist.start, Fifo.toList_ofList, List.append_nil] at hi
    exact ((hmem i).1 hi).1
  · intro i hi hzero
    simp only [Worklist.start, Fifo.toList_ofList, List.append_nil]
    exact (hmem i).2 ⟨hi, hzero⟩

/-! ### Dead positions -/

section Dead

variable (stream : List (Instruction R))

/-- The worklist of a stream after its last step. -/
def finalWorklist : Worklist :=
  (Worklist.start stream (dependencies stream)).run (dependencies stream).toArray stream.length

lemma sound_finalWorklist : (finalWorklist stream).Sound (dependencies stream).toArray
    fun i => (stream[i]?.map ownCount).getD 0 :=
  (sound_start (length_dependencies stream)).run (nodup_dependencies stream) stream.length

lemma complete_finalWorklist :
    (finalWorklist stream).Complete fun i => ∃ o, liveAt? stream i = some o := by
  refine (complete_start stream _).run (nodup_dependencies stream) (fun p i hi => ?_) stream.length
  obtain ⟨o, -, -, ho, -⟩ := mem_dependencies_iff.1 hi
  exact ⟨o, ho⟩

/-- There are enough steps, as every position is pruned at most once. -/
lemma queue_finalWorklist : (finalWorklist stream).queue.toList = [] := by
  by_contra hne
  have hnodup := (sound_finalWorklist stream).nodup
  have hsubset : (finalWorklist stream).queue.toList ++ (finalWorklist stream).pruned ⊆
      List.range stream.length := by
    intro i hi
    obtain ⟨o, ho⟩ := (complete_finalWorklist stream).subset i hi
    exact List.mem_range.2 (lt_of_liveAt? ho)
  have hle := (List.subperm_of_subset hnodup hsubset).length_le
  have hlength : (finalWorklist stream).pruned.length = 0 + stream.length :=
    (Worklist.toList_queue_run _ _).resolve_left hne
  have hpos := List.length_pos_iff.2 hne
  rw [List.length_append, List.length_range] at hle
  omega

lemma nodup_deadPositions : (deadPositions stream).Nodup :=
  (List.nodup_append.1 (sound_finalWorklist stream).nodup).2.1

variable {stream}

/-- Only operations that are run are found dead. -/
lemma liveAt?_of_mem_deadPositions {i : ℕ} (h : i ∈ deadPositions stream) :
    ∃ o, liveAt? stream i = some o :=
  (complete_finalWorklist stream).subset i (List.mem_append_right _ h)

/-- An operation is dead if it is not mandatory and all operations that it feeds are dead. -/
lemma mem_deadPositions_iff {i : ℕ} {o : Op R} (h : liveAt? stream i = some o) :
    i ∈ deadPositions stream ↔
      o.mandatory = false ∧ ∀ j, Feeds stream i j → j ∈ deadPositions stream := by
  have hlt := lt_of_liveAt? h
  have hsound := sound_finalWorklist stream
  have hown : (stream[i]?.map ownCount).getD 0 = if o.mandatory then 1 else 0 := by
    obtain ⟨inst, hinst, hlive⟩ := Option.bind_eq_some_iff.1 h
    simp [hinst, ownCount, hlive]
  constructor
  · intro hdead
    obtain ⟨hbase, hreaders⟩ := hsound.of_mem_pruned hdead
    refine ⟨by simpa [hown] using hbase, fun j hj => hreaders j (mem_dependencies_iff.2 hj)⟩
  · rintro ⟨hmandatory, hfeeds⟩
    have hleft : Worklist.readersLeft (dependencies stream).toArray
        (finalWorklist stream).pruned i = 0 := by
      refine Finset.sum_eq_zero fun j _ => ?_
      split
      · rfl
      · rename_i hj
        exact List.count_eq_zero.2 fun hmem => hj (hfeeds j (mem_dependencies_iff.1 hmem))
    have hzero : (finalWorklist stream).readers[i]? = some 0 := by
      rw [hsound.readers_eq i (by simpa [length_dependencies] using hlt), hown, hleft]
      simp [hmandatory]
    have hmem := (complete_finalWorklist stream).mem i ⟨o, h⟩ hzero
    rwa [queue_finalWorklist, List.nil_append] at hmem

end Dead

/-! ### What is left -/

/-- Each position that is pruned is one more pruned operation. -/
lemma countP_prune {stream : List (Instruction R)} {positions : List ℕ} (hnodup : positions.Nodup)
    (hlive : ∀ i ∈ positions, ∃ o, liveAt? stream i = some o) :
    (prune positions stream).countP (fun inst => !inst.isLive) =
      stream.countP (fun inst => !inst.isLive) + positions.length := by
  induction positions with
  | nil =>
    have hsame : prune [] stream = stream := List.ext_getElem? fun i => by simp [getElem?_prune]
    rw [hsame, List.length_nil, Nat.add_zero]
  | cons p positions ih =>
    obtain ⟨hp, hnodup⟩ := List.nodup_cons.1 hnodup
    obtain ⟨o, ho⟩ := hlive p (by simp)
    have hlt := lt_of_liveAt? ho
    obtain ⟨inst, hinst, hop⟩ := Option.bind_eq_some_iff.1 ho
    obtain ⟨rfl, hpruned⟩ := Instruction.liveOp?_eq_some.1 hop
    have hset : prune (p :: positions) stream =
        (prune positions stream).set p ((Instruction.op o).setPruned true) := by
      refine List.ext_getElem? fun i => ?_
      rw [getElem?_prune, List.getElem?_set, getElem?_prune, length_prune]
      by_cases hpi : p = i
      · subst hpi
        rw [hinst, if_pos rfl, if_pos hlt, Option.map_some, if_pos (by simp)]
      · simp [hpi, Ne.symm hpi]
    have hhere : (prune positions stream)[p]? = some (.op o) := by
      rw [getElem?_prune, hinst]
      simp [hp]
    obtain ⟨hlt', hget⟩ := List.getElem?_eq_some_iff.1 hhere
    rw [hset, List.countP_set hlt', hget, ih hnodup fun i hi => hlive i (by simp [hi])]
    simp [Instruction.isLive, Instruction.setPruned, hpruned]
    omega

/-- The number that is given is the number of operations newly pruned. -/
lemma countP_eliminateDeadCode (stream : List (Instruction R)) :
    (eliminateDeadCode stream).1.countP (fun inst => !inst.isLive) =
      stream.countP (fun inst => !inst.isLive) + (eliminateDeadCode stream).2 :=
  countP_prune (nodup_deadPositions stream) fun _ hi => liveAt?_of_mem_deadPositions hi

/-- Whether some operations need the value that a symbol has before them: one of those that are
needed reads it, before it is written. -/
def demands : List (Op R) → Symbol → Bool
  | [], _ => false
  | o :: os, s =>
    if o.pruned then demands os s
    else
      s ∈ o.inputs && (o.mandatory || o.outputs.any (demands os)) || s ∉ o.outputs && demands os s

/-- Whether an operation is needed, given the operations behind it. -/
def isNeeded (o : Op R) (os : List (Op R)) : Bool :=
  o.mandatory || o.outputs.any (demands os)

/-- The operations with the pruned mark set on those that are not needed. -/
def markPruned : List (Op R) → List (Op R)
  | [] => []
  | o :: os => { o with pruned := o.pruned || !isNeeded o os } :: markPruned os

/-- Some operation from `start` on that is not dead reads the value that a symbol has there. -/
def ReadsFrom (stream : List (Instruction R)) (start : ℕ) (s : Symbol) : Prop :=
  ∃ j o, start ≤ j ∧ liveAt? stream j = some o ∧ s ∈ o.inputs ∧ j ∉ deadPositions stream ∧
    ∀ k o', start ≤ k → k < j → liveAt? stream k = some o' → s ∉ o'.outputs

lemma notMem_deadPositions_iff {stream : List (Instruction R)} {i : ℕ} {o : Op R}
    (h : liveAt? stream i = some o) : i ∉ deadPositions stream ↔
      o.mandatory = true ∨ ∃ s ∈ o.outputs, ReadsFrom stream (i + 1) s := by
  rw [mem_deadPositions_iff h]
  constructor
  · intro hnot
    by_cases hmandatory : o.mandatory = true
    · exact Or.inl hmandatory
    · right
      by_contra hnone
      refine hnot ⟨by simpa using hmandatory, fun j hj => ?_⟩
      obtain ⟨oi, oj, s, hoi, hoj, hij, houtput, hinput, hbetween⟩ := hj
      obtain rfl : o = oi := Option.some.inj (h.symm.trans hoi)
      by_contra hdead
      exact hnone ⟨s, houtput, j, oj, hij, hoj, hinput, hdead, fun k o' hk => hbetween k o' hk⟩
  · rintro (hmandatory | ⟨s, houtput, j, oj, hij, hoj, hinput, hdead, hbetween⟩) ⟨hnot, hfeeds⟩
    · simp [hmandatory] at hnot
    · exact hdead (hfeeds j ⟨o, oj, s, h, hoj, hij, houtput, hinput, hbetween⟩)

/-- An entry that is not run changes nothing for what is read behind it. -/
lemma readsFrom_of_not_live {stream : List (Instruction R)} {i : ℕ} (h : liveAt? stream i = none)
    (s : Symbol) : ReadsFrom stream i s ↔ ReadsFrom stream (i + 1) s := by
  constructor
  · rintro ⟨j, o, hj, ho, hinput, hdead, hbetween⟩
    have hne : i ≠ j := fun e => by simp [← e, h] at ho
    exact ⟨j, o, by omega, ho, hinput, hdead, fun k o' hk => hbetween k o' (by omega)⟩
  · rintro ⟨j, o, hj, ho, hinput, hdead, hbetween⟩
    refine ⟨j, o, by omega, ho, hinput, hdead, fun k o' hk hkj ho' => ?_⟩
    have hne : i ≠ k := fun e => by simp [← e, h] at ho'
    exact hbetween k o' (by omega) hkj ho'

lemma readsFrom_of_live {stream : List (Instruction R)} {i : ℕ} {o : Op R}
    (h : liveAt? stream i = some o) (s : Symbol) : ReadsFrom stream i s ↔
      s ∈ o.inputs ∧ i ∉ deadPositions stream ∨ s ∉ o.outputs ∧ ReadsFrom stream (i + 1) s := by
  constructor
  · rintro ⟨j, o', hj, ho', hinput, hdead, hbetween⟩
    rcases hj.eq_or_lt with rfl | hlt
    · obtain rfl : o = o' := Option.some.inj (h.symm.trans ho')
      exact Or.inl ⟨hinput, hdead⟩
    · exact Or.inr ⟨hbetween i o le_rfl hlt h, j, o', hlt, ho', hinput, hdead,
        fun k o' hk => hbetween k o' (by omega)⟩
  · rintro (⟨hinput, hdead⟩ | ⟨houtput, j, o', hj, ho', hinput, hdead, hbetween⟩)
    · exact ⟨i, o, le_rfl, h, hinput, hdead, fun k _ hk hki => absurd hki (not_lt.2 hk)⟩
    · refine ⟨j, o', by omega, ho', hinput, hdead, fun k o'' hk hkj ho'' => ?_⟩
      rcases hk.eq_or_lt with rfl | hlt
      · obtain rfl : o = o'' := Option.some.inj (h.symm.trans ho'')
        exact houtput
      · exact hbetween k o'' hlt hkj ho''

/-- What the operations behind some entries need is what they read and are not dead. -/
lemma demands_iff (before after : List (Instruction R)) (s : Symbol) :
    demands (after.filterMap Instruction.op?) s = true ↔
      ReadsFrom (before ++ after) before.length s := by
  -- from the end of the stream, as an operation is needed if one behind it is
  induction after generalizing before s with
  | nil =>
    refine iff_of_false (by simp [demands]) ?_
    rintro ⟨j, o, hj, ho, -⟩
    have := lt_of_liveAt? ho
    rw [List.append_nil] at this
    omega
  | cons inst after ih =>
    have hsplit : before ++ inst :: after = (before ++ [inst]) ++ after := by simp
    have hnext (t : Symbol) : demands (after.filterMap Instruction.op?) t = true ↔
        ReadsFrom (before ++ inst :: after) (before.length + 1) t := by
      rw [ih (before ++ [inst]) t, hsplit]
      simp
    have hhere := liveAt?_length before after inst
    cases inst with
    | comment text =>
      rw [readsFrom_of_not_live hhere, ← hnext]
      rfl
    | op o =>
      have hcons : (Instruction.op o :: after).filterMap Instruction.op? =
        o :: after.filterMap Instruction.op? := rfl
      rw [hcons, demands]
      cases hpruned : o.pruned with
      | true =>
        rw [readsFrom_of_not_live (hhere.trans (by simp [Instruction.liveOp?, hpruned])), ← hnext]
        simp
      | false =>
        have hlive := hhere.trans (Instruction.liveOp?_eq_some.2 ⟨rfl, hpruned⟩)
        rw [readsFrom_of_live hlive, notMem_deadPositions_iff hlive]
        simp only [Bool.false_eq_true, if_false, Bool.or_eq_true, Bool.and_eq_true,
          List.any_eq_true, decide_eq_true_eq, hnext]

lemma isNeeded_iff {before after : List (Instruction R)} {o : Op R} (hpruned : o.pruned = false) :
    isNeeded o (after.filterMap Instruction.op?) = true ↔
      before.length ∉ deadPositions (before ++ .op o :: after) := by
  have hlive := (liveAt?_length before after (.op o)).trans
    (Instruction.liveOp?_eq_some.2 ⟨rfl, hpruned⟩)
  have hdemands (s : Symbol) : demands (after.filterMap Instruction.op?) s = true ↔
      ReadsFrom (before ++ .op o :: after) (before.length + 1) s := by
    have h := demands_iff (before ++ [.op o]) after s
    rwa [List.append_assoc, List.length_append] at h
  rw [notMem_deadPositions_iff hlive]
  simp only [isNeeded, Bool.or_eq_true, List.any_eq_true, hdemands]

/-- The entry at a position, with its mark: an operation is left if those behind it need it. -/
lemma setPruned_of_deadPositions (before after : List (Instruction R)) (o : Op R) :
    (if before.length ∈ deadPositions (before ++ .op o :: after) then
      (Instruction.op o).setPruned true else .op o) =
      .op { o with pruned := o.pruned || !isNeeded o (after.filterMap Instruction.op?) } := by
  cases hpruned : o.pruned with
  | true =>
    -- a pruned operation is not found dead once more
    have hnot : before.length ∉ deadPositions (before ++ .op o :: after) := fun hdead => by
      obtain ⟨o', ho'⟩ := liveAt?_of_mem_deadPositions hdead
      rw [liveAt?_length] at ho'
      simp [Instruction.liveOp?, hpruned] at ho'
    obtain ⟨stmt, mandatory, pruned⟩ := o
    obtain rfl : pruned = true := hpruned
    rw [if_neg hnot]
    rfl
  | false =>
    have hneeded : isNeeded o (after.filterMap Instruction.op?) = true ↔
        before.length ∉ deadPositions (before ++ .op o :: after) := isNeeded_iff hpruned
    by_cases hdead : before.length ∈ deadPositions (before ++ .op o :: after)
    · have hnot : isNeeded o (after.filterMap Instruction.op?) = false := by
        simpa using mt hneeded.1 (not_not.2 hdead)
      rw [if_pos hdead, hnot]
      rfl
    · rw [if_neg hdead, hneeded.2 hdead]
      obtain ⟨stmt, mandatory, pruned⟩ := o
      obtain rfl : pruned = false := hpruned
      rfl

/-- The operations that are left are those that are needed. -/
lemma filterMap_op?_eliminateDeadCode (stream : List (Instruction R)) :
    (eliminateDeadCode stream).1.filterMap Instruction.op? =
      markPruned (stream.filterMap Instruction.op?) := by
  suffices h : ∀ before after, stream = before ++ after →
      ((prune (deadPositions stream) stream).drop before.length).filterMap Instruction.op? =
        markPruned (after.filterMap Instruction.op?) from h [] stream rfl
  intro before after hstream
  induction after generalizing before with
  | nil =>
    rw [List.append_nil] at hstream
    rw [List.drop_eq_nil_of_le (by rw [length_prune, hstream])]
    rfl
  | cons inst after ih =>
    have hnext := ih (before ++ [inst]) (by simp [hstream])
    rw [List.length_append, List.length_singleton] at hnext
    have hhere : (prune (deadPositions stream) stream)[before.length]? = some
        (if before.length ∈ deadPositions stream then inst.setPruned true else inst) := by
      rw [getElem?_prune, hstream]
      simp
    obtain ⟨hlt, hget⟩ := List.getElem?_eq_some_iff.1 hhere
    rw [List.drop_eq_getElem_cons hlt, hget, List.filterMap_cons, hnext]
    cases inst with
    | comment text =>
      simp only [Instruction.setPruned, ite_self]
      rfl
    | op o =>
      subst hstream
      rw [setPruned_of_deadPositions]
      rfl

end MixedRadix
