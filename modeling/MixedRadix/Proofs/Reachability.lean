import MixedRadix.Proofs.Liveness
import MixedRadix.Proofs.Renaming
import Mathlib.Logic.Relation

/-!
# Reachability

The worklist finds the operations that no mandatory one reaches backwards through what it reads
(`eliminateDeadCode_reachability`). So whatever feeds an operation that is left is left too: every
read finds the writer that it found before, and a second elimination finds nothing
(`eliminateDeadCode_stable`).
-/

namespace MixedRadix

variable {R : Type} {stream : List (Instruction R)} {i j : ℕ} {o : Op R}

/-! ### Reached operations -/

/-- A mandatory operation reaches the one at a position backwards: it is that operation, or it reads
what another operation wrote that reaches it. -/
def IsReached (stream : List (Instruction R)) (i : ℕ) : Prop :=
  ∃ j o, liveAt? stream j = some o ∧ o.mandatory = true ∧ Relation.ReflTransGen (Feeds stream) i j

lemma Feeds.lt (h : Feeds stream i j) : i < j := by
  obtain ⟨-, -, -, -, -, hlt, -⟩ := h
  exact hlt

lemma Feeds.exists_liveAt? (h : Feeds stream i j) :
    (∃ o, liveAt? stream i = some o) ∧ ∃ o, liveAt? stream j = some o := by
  obtain ⟨oi, oj, -, hi, hj, -⟩ := h
  exact ⟨⟨oi, hi⟩, oj, hj⟩

/-- What a reached operation reads is reached. -/
lemma IsReached.of_feeds (hj : IsReached stream j) (h : Feeds stream i j) : IsReached stream i := by
  obtain ⟨k, o, hk, hmandatory, hpath⟩ := hj
  exact ⟨k, o, hk, hmandatory, hpath.head h⟩

lemma IsReached.notMem_deadPositions (h : IsReached stream i) : i ∉ deadPositions stream := by
  obtain ⟨k, o, hk, hmandatory, hpath⟩ := h
  induction hpath using Relation.ReflTransGen.head_induction_on with
  | refl =>
    intro hdead
    have hfree := ((mem_deadPositions_iff hk).1 hdead).1
    simp [hmandatory] at hfree
  | head hfeeds _ ih =>
    obtain ⟨⟨_, hlive⟩, -⟩ := hfeeds.exists_liveAt?
    exact fun hdead => ih (((mem_deadPositions_iff hlive).1 hdead).2 _ hfeeds)

/-- An operation is dead exactly if no mandatory one reaches it. -/
lemma notMem_deadPositions_iff_isReached (h : liveAt? stream i = some o) :
    i ∉ deadPositions stream ↔ IsReached stream i := by
  refine ⟨fun hleft => ?_, IsReached.notMem_deadPositions⟩
  -- from the end of the stream, as an operation is only read behind it
  induction hn : stream.length - i using Nat.strong_induction_on generalizing i o with
  | _ n ih =>
    by_cases hmandatory : o.mandatory = true
    · exact ⟨i, o, h, hmandatory, .refl⟩
    · obtain ⟨j, hfeeds, hj⟩ : ∃ j, Feeds stream i j ∧ j ∉ deadPositions stream := by
        by_contra hnone
        push Not at hnone
        exact hleft ((mem_deadPositions_iff h).2 ⟨by simpa using hmandatory, hnone⟩)
      obtain ⟨-, oj, hoj⟩ := hfeeds.exists_liveAt?
      have hlt := hfeeds.lt
      have hlength := lt_of_liveAt? hoj
      exact (ih (stream.length - j) (by omega) hoj hj rfl).of_feeds hfeeds

/-- Every dead operation is run before it is pruned. -/
lemma mem_deadPositions_iff_not_isReached :
    i ∈ deadPositions stream ↔ (∃ o, liveAt? stream i = some o) ∧ ¬IsReached stream i := by
  constructor
  · intro hdead
    exact ⟨liveAt?_of_mem_deadPositions hdead, fun h => h.notMem_deadPositions hdead⟩
  · rintro ⟨⟨o, ho⟩, hnot⟩
    by_contra hleft
    exact hnot ((notMem_deadPositions_iff_isReached ho).1 hleft)

lemma getElem?_eliminateDeadCode (stream : List (Instruction R)) (i : ℕ) :
    (eliminateDeadCode stream).1[i]? = stream[i]?.map fun inst =>
      if i ∈ deadPositions stream then inst.setPruned true else inst :=
  getElem?_prune (deadPositions stream) stream i

lemma liveAt?_eliminateDeadCode (stream : List (Instruction R)) (i : ℕ) :
    liveAt? (eliminateDeadCode stream).1 i =
      if i ∈ deadPositions stream then none else liveAt? stream i := by
  rw [liveAt?, liveAt?, getElem?_eliminateDeadCode]
  cases stream[i]? with
  | none => simp
  | some inst => by_cases hdead : i ∈ deadPositions stream <;> simp [hdead]

lemma liveAt?_eliminateDeadCode_eq_some :
    liveAt? (eliminateDeadCode stream).1 i = some o ↔
      i ∉ deadPositions stream ∧ liveAt? stream i = some o := by
  rw [liveAt?_eliminateDeadCode]
  split <;> simp [*]

/-! ### Counts of readers -/

namespace Worklist

/-- Wherever the next step takes a reader from an operation, the operation has one. -/
def TakesWhatIsThere (deps : Array (List ℕ)) (w : Worklist) : Prop :=
  ∀ p queue, w.queue.pop? = some (p, queue) →
    ∀ before d after, deps.getD p [] = before ++ d :: after → ∃ count,
      (before.foldl dropReader { w with queue, pruned := p :: w.pruned }).readers[d]? =
        some (count + 1)

lemma Sound.takesWhatIsThere {deps : Array (List ℕ)} {base : ℕ → ℕ} {w : Worklist}
    (h : w.Sound deps base) (hnodup : ∀ p, (deps.getD p []).Nodup)
    (hlt : ∀ p, ∀ d ∈ deps.getD p [], d < deps.size) : w.TakesWhatIsThere deps := by
  intro p queue hpop before d after hdeps
  have hqueue : w.queue.toList = p :: queue.toList := Fifo.toList_of_pop?_eq_some hpop
  have hp : p < deps.size := by
    rw [← h.size_eq]
    exact (Array.getElem?_eq_some_iff.1 (h.unread p (by simp [hqueue]))).1
  have hnew : p ∉ w.pruned := by
    have hall := h.nodup
    rw [hqueue, List.cons_append, List.nodup_cons] at hall
    exact fun hmem => hall.1 (List.mem_append_right _ hmem)
  have hmem : d ∈ deps.getD p [] := by simp [hdeps]
  -- the operation that is pruned is one of the readers that are left
  have hleft := readersLeft_cons hp hnew d
  have hone := List.count_pos_iff.2 hmem
  have hbefore : before.count d = 0 := by
    have hdistinct := hdeps ▸ hnodup p
    rw [List.nodup_append] at hdistinct
    exact List.count_eq_zero.2 fun hd => hdistinct.2.2 d hd d (by simp) rfl
  refine ⟨base d + readersLeft deps w.pruned d - 1, ?_⟩
  rw [foldl_dropReader_readers]
  simp only [h.readers_eq d (hlt p d hmem), hbefore, Option.map_some, Option.some.injEq]
  omega

end Worklist

open Classical in
/-- Elimination of dead code prunes the operations that no mandatory one reaches and changes nothing
else. It gives the number of operations newly pruned, and no operation loses more readers than it
has. Which operation reaches which is told by what they declare, which is what their statements
read and write (`Op`). -/
theorem eliminateDeadCode_reachability (stream : List (Instruction R)) :
    (∀ i : ℕ, (eliminateDeadCode stream).1[i]? = stream[i]?.map fun inst =>
      if (∃ o, liveAt? stream i = some o) ∧ ¬IsReached stream i
        then inst.setPruned true else inst) ∧
    (eliminateDeadCode stream).2 = (List.range stream.length).countP (fun i =>
      (liveAt? stream i).isSome && (liveAt? (eliminateDeadCode stream).1 i).isNone) ∧
    ∀ steps, ((Worklist.start stream (dependencies stream)).run (dependencies stream).toArray
      steps).TakesWhatIsThere (dependencies stream).toArray := by
  refine ⟨fun i => ?_, ?_, fun steps => ?_⟩
  · simp only [getElem?_eliminateDeadCode, mem_deadPositions_iff_not_isReached]
  · -- the dead positions are those that are live before and not behind
    have hperm : (deadPositions stream).Perm ((List.range stream.length).filter fun i =>
        (liveAt? stream i).isSome && (liveAt? (eliminateDeadCode stream).1 i).isNone) := by
      refine (List.perm_ext_iff_of_nodup (nodup_deadPositions stream)
        (List.nodup_range.filter _)).2 fun i => ?_
      rw [List.mem_filter, List.mem_range, liveAt?_eliminateDeadCode]
      by_cases hdead : i ∈ deadPositions stream
      · obtain ⟨o, ho⟩ := liveAt?_of_mem_deadPositions hdead
        simp [hdead, ho, lt_of_liveAt? ho]
      · cases liveAt? stream i <;> simp [hdead]
    rw [List.countP_eq_length_filter]
    exact hperm.length_eq
  · have hsound := (sound_start (length_dependencies stream)).run (nodup_dependencies stream) steps
    refine hsound.takesWhatIsThere (nodup_dependencies stream) fun p d hd => ?_
    obtain ⟨⟨_, hlive⟩, -⟩ := (mem_dependencies_iff.1 hd).exists_liveAt?
    simpa [length_dependencies] using lt_of_liveAt? hlive

/-! ### What is left is as it was -/

lemma liveAt?_take (stream : List (Instruction R)) (i k : ℕ) :
    liveAt? (stream.take i) k = if k < i then liveAt? stream k else none := by
  rw [liveAt?, List.getElem?_take, liveAt?]
  split <;> rfl

lemma notMem_of_lastWriter_eq_none {s : Symbol} (hnone : lastWriter stream s = none)
    (h : liveAt? stream i = some o) : s ∉ o.outputs := by
  induction stream using List.reverseRecOn with
  | nil => simp [liveAt?] at h
  | append_singleton stream last ih =>
    rw [lastWriter_concat] at hnone
    have hlength := lt_of_liveAt? h
    rw [List.length_append, List.length_singleton] at hlength
    rcases Nat.lt_succ_iff_lt_or_eq.1 hlength with hlt | rfl
    · rw [liveAt?_append_left _ hlt] at h
      refine ih ?_ h
      cases hlive : last.liveOp? with
      | none => simpa [hlive] using hnone
      | some o' =>
        simp only [hlive] at hnone
        split at hnone
        · cases hnone
        · exact hnone
    · rw [liveAt?_length] at h
      intro hs
      simp [h, hs] at hnone

/-- An operation that is left reads nothing that was pruned. -/
lemma lastWriter_take_eliminateDeadCode (h : liveAt? (eliminateDeadCode stream).1 i = some o)
    {s : Symbol} (hs : s ∈ o.inputs) :
    lastWriter ((eliminateDeadCode stream).1.take i) s = lastWriter (stream.take i) s := by
  obtain ⟨hleft, h⟩ := liveAt?_eliminateDeadCode_eq_some.1 h
  have hlive (k : ℕ) (o : Op R) : liveAt? ((eliminateDeadCode stream).1.take i) k = some o ↔
      k ∉ deadPositions stream ∧ liveAt? (stream.take i) k = some o := by
    rw [liveAt?_take, liveAt?_take]
    split <;> simp [liveAt?_eliminateDeadCode_eq_some]
  cases hlast : lastWriter (stream.take i) s with
  | some w =>
    obtain ⟨ow, how, houtput, hbehind⟩ := lastWriter_eq_some_iff.1 hlast
    -- the writer feeds an operation that is left
    have hw : w ∉ deadPositions stream := fun hdead => by
      rw [liveAt?_take] at how
      split at how
      · rename_i hlt
        refine hleft (((mem_deadPositions_iff how).1 hdead).2 i
          ⟨ow, o, s, how, h, hlt, houtput, hs, fun k o' hk hki ho' => ?_⟩)
        exact hbehind k o' hk (by rw [liveAt?_take, if_pos hki, ho'])
      · cases how
    exact lastWriter_eq_some_iff.2 ⟨ow, (hlive w ow).2 ⟨hw, how⟩, houtput, fun k o' hk ho' =>
      hbehind k o' hk ((hlive k o').1 ho').2⟩
  | none =>
    rw [Option.eq_none_iff_forall_not_mem]
    intro w hw
    obtain ⟨ow, how, houtput, hbehind⟩ := lastWriter_eq_some_iff.1 hw
    exact notMem_of_lastWriter_eq_none hlast ((hlive w ow).1 how).2 houtput

/-- The uses of an entry by its position. -/
lemma getElem?_resolve (stream : List (Instruction R)) (i : ℕ) :
    (resolve stream)[i]? = stream[i]?.map (usesAfter (stream.take i)) := by
  rcases lt_or_ge i stream.length with hi | hi
  · have hsplit : stream = stream.take i ++ stream[i] :: stream.drop (i + 1) := by simp
    obtain ⟨rest, hrest⟩ := resolve_append_cons (stream.take i) (stream.drop (i + 1)) stream[i]
    rw [← hsplit] at hrest
    rw [hrest, List.getElem?_append_right (by simp), List.getElem?_eq_getElem hi]
    simp [Nat.min_eq_left hi.le]
  · rw [List.getElem?_eq_none (by simpa using hi), List.getElem?_eq_none hi]
    rfl

/-- The uses of an operation that is left. -/
lemma getElem?_resolve_eliminateDeadCode (h : liveAt? (eliminateDeadCode stream).1 i = some o) :
    (resolve (eliminateDeadCode stream).1)[i]? = (resolve stream)[i]? := by
  have hbefore := (liveAt?_eliminateDeadCode_eq_some.1 h).2
  obtain ⟨inst, hinst, hop⟩ := Option.bind_eq_some_iff.1 h
  obtain ⟨inst', hinst', hop'⟩ := Option.bind_eq_some_iff.1 hbefore
  rw [getElem?_resolve, getElem?_resolve, hinst, hinst', Option.map_some, Option.map_some]
  simp only [usesAfter, hop, hop', Option.some.injEq]
  exact List.map_congr_left fun s hs => by rw [lastWriter_take_eliminateDeadCode h hs]

/-- Only operations that are left use anything. -/
lemma exists_liveAt?_of_use {uses : List Use} {u : Use} (huses : (resolve stream)[i]? = some uses)
    (hu : u ∈ uses) : ∃ o, liveAt? stream i = some o := by
  rw [getElem?_resolve] at huses
  obtain ⟨inst, hinst, rfl⟩ := Option.map_eq_some_iff.1 huses
  cases hlive : inst.liveOp? with
  | none => simp [usesAfter, hlive] at hu
  | some o => exact ⟨o, by rw [liveAt?, hinst]; exact hlive⟩

/-- What is fed by an operation and left is fed by it still. -/
lemma Feeds.eliminateDeadCode (h : Feeds stream i j) (hj : j ∉ deadPositions stream) :
    Feeds (eliminateDeadCode stream).1 i j := by
  obtain ⟨oi, oj, s, hoi, hoj, hlt, houtput, hinput, hbetween⟩ := h
  have hi : i ∉ deadPositions stream := fun hdead =>
    hj (((mem_deadPositions_iff hoi).1 hdead).2 j
      ⟨oi, oj, s, hoi, hoj, hlt, houtput, hinput, hbetween⟩)
  refine ⟨oi, oj, s, ?_, ?_, hlt, houtput, hinput, fun k o hk hkj ho => ?_⟩
  · exact liveAt?_eliminateDeadCode_eq_some.2 ⟨hi, hoi⟩
  · exact liveAt?_eliminateDeadCode_eq_some.2 ⟨hj, hoj⟩
  · exact hbetween k o hk hkj (liveAt?_eliminateDeadCode_eq_some.1 ho).2

lemma IsReached.eliminateDeadCode (h : IsReached stream i) :
    IsReached (eliminateDeadCode stream).1 i := by
  obtain ⟨k, o, hk, hmandatory, hpath⟩ := h
  have hleft : k ∉ deadPositions stream :=
    IsReached.notMem_deadPositions ⟨k, o, hk, hmandatory, .refl⟩
  induction hpath using Relation.ReflTransGen.head_induction_on with
  | refl => exact ⟨k, o, liveAt?_eliminateDeadCode_eq_some.2 ⟨hleft, hk⟩, hmandatory, .refl⟩
  | head hfeeds hpath ih =>
    have hnext := IsReached.notMem_deadPositions ⟨k, o, hk, hmandatory, hpath⟩
    exact ih.of_feeds (hfeeds.eliminateDeadCode hnext)

lemma deadPositions_eliminateDeadCode (stream : List (Instruction R)) :
    deadPositions (eliminateDeadCode stream).1 = [] := by
  refine List.eq_nil_iff_forall_not_mem.2 fun i hdead => ?_
  obtain ⟨⟨o, ho⟩, hnot⟩ := mem_deadPositions_iff_not_isReached.1 hdead
  obtain ⟨hleft, ho⟩ := liveAt?_eliminateDeadCode_eq_some.1 ho
  exact hnot ((notMem_deadPositions_iff_isReached ho).1 hleft).eliminateDeadCode

/-- Elimination of dead code is stable: an operation that is left depends on what it depended on
before, a second elimination prunes nothing, and a stream that keeps to its lifetimes still does.
The operations declare what their statements read and write (`Op`). -/
theorem eliminateDeadCode_stable (stream : List (Instruction R)) :
    (∀ i o, liveAt? (eliminateDeadCode stream).1 i = some o →
      (dependencies (eliminateDeadCode stream).1)[i]? = (dependencies stream)[i]?) ∧
    eliminateDeadCode (eliminateDeadCode stream).1 = ((eliminateDeadCode stream).1, 0) ∧
    ∀ lifetimes, Lifetime.check lifetimes stream = .ok () →
      Lifetime.check lifetimes (eliminateDeadCode stream).1 = .ok () := by
  refine ⟨fun i o h => ?_, ?_, fun lifetimes hcheck => ?_⟩
  · simp only [dependencies, List.getElem?_map, getElem?_resolve_eliminateDeadCode h]
  · have hsame : prune [] (eliminateDeadCode stream).1 = (eliminateDeadCode stream).1 :=
      List.ext_getElem? fun i => by simp [getElem?_prune]
    rw [eliminateDeadCode, deadPositions_eliminateDeadCode, hsame]
    rfl
  · obtain ⟨hwrites, huses⟩ := Lifetime.check_eq_ok_iff.1 hcheck
    refine Lifetime.check_eq_ok_iff.2 ⟨fun i inst hinst => ?_, fun i uses hresolve u hu => ?_⟩
    · -- the mark does not matter to the check of writes
      rw [getElem?_eliminateDeadCode, Option.map_eq_some_iff] at hinst
      obtain ⟨inst', hinst', rfl⟩ := hinst
      have hwrite := hwrites i inst' hinst'
      split
      · cases inst' with
        | comment text => exact hwrite
        | op o => exact hwrite
      · exact hwrite
    · obtain ⟨o, ho⟩ := exists_liveAt?_of_use hresolve hu
      rw [getElem?_resolve_eliminateDeadCode ho] at hresolve
      exact huses i uses hresolve u hu

end MixedRadix
