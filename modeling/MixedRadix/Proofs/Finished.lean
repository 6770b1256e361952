import MixedRadix.Proofs.Emission

/-!
# Finished streams

Code that was emitted from the start keeps to the lifetimes of its temporaries, and what is left of
it without its dead operations runs on every machine that has the temporaries which are still named:
it leaves the settled results of its last scene (`Emission.finish`).
-/

namespace MixedRadix

variable {R : Type}

lemma Symbol.exists_temp {s : Symbol} (h : s.isTemp = true) : ∃ id, s = .temp id := by
  cases s with
  | temp id => exact ⟨id, rfl⟩
  | _ => exact Bool.noConfusion h

/-- What is known before the first operation: no temporary is held, and nothing was written. -/
def Scene.start (value : Symbol → Option R) : Scene R where
  held := ∅
  value s := if s.isTemp then none else value s
  settled := {s | s.isTemp = false}
  held_of_value h := by simp [Symbol.isTemp, Symbol.tempId?] at h
  isTemp_of_settled h := h

lemma Scene.start_value {value : Symbol → Option R} {s : Symbol} (hs : s.isTemp = false) :
    (Scene.start value).value s = value s := by
  simp [Scene.start, hs]

namespace Builder

lemma holds_start (annotate : Bool) (value : Symbol → Option R) :
    ({ annotate } : Builder R).Holds (.start value) :=
  ⟨by simp [Scene.start], by simp [Scene.start], by simp, by simp, by simp⟩

lemma tidy_start (annotate : Bool) (value : Symbol → Option R) :
    ({ annotate } : Builder R).Tidy (.start value) where
  ledger := by
    have hknown : {id | ((Scene.start value).value (.temp id)).isSome} = ∅ := by
      simp [Scene.start, Symbol.isTemp, Symbol.tempId?]
    rw [hknown]
    exact Ledger.start annotate
  assigns := by simp
  settled s _ w hw := by simp [lastWriter] at hw

end Builder

section Finish

variable [Scalar R] {b : Builder R} {S : Scene R} {value : Symbol → Option R} {annotate : Bool}

/-- The machine has all temporaries that operations of the stream name which are run. -/
def Machine.HasTemps (m : Machine R) (stream : List (Instruction R)) : Prop :=
  ∀ o, .op o ∈ stream → o.pruned = false → ∀ id, .temp id ∈ o.inputs ++ o.outputs →
    id < m.temps.size

lemma Emission.checkLifetimes (h : Emission { annotate } (.start value) b S) :
    b.checkLifetimes = .ok () :=
  (h.tidy (Builder.tidy_start annotate value)).ledger.checkLifetimes_eq_ok

/-- The books of the builder are closed: lifetimes are in order and no temporary is in use. -/
structure Builder.Closed (b : Builder R) : Prop where
  checkLifetimes : b.checkLifetimes = .ok ()
  notMem_inUse : ∀ id, id ∉ b.temps.inUse

lemma Emission.closed (h : Emission { annotate } (.start value) b S) (hheld : S.held = ∅) :
    b.Closed := by
  refine ⟨h.checkLifetimes, fun id hid => ?_⟩
  have hmem := (h.holds.mem_inUse id).1 hid
  rw [hheld] at hmem
  exact hmem

/-! ### Machines with other temporaries -/

namespace Machine

variable {m : Machine R}

omit [Scalar R] in
lemma contents?_withTemps (m : Machine R) (temps : Array R) {s : Symbol} (hs : s.isTemp = false) :
    ({ m with temps } : Machine R).contents? s = m.contents? s := by
  cases s with
  | temp id => exact Bool.noConfusion hs
  | _ => rfl

omit [Scalar R] in
lemma read_withTemps (m : Machine R) (temps : Array R) {s : Symbol} (hs : s.isTemp = false) :
    ({ m with temps } : Machine R).read s = m.read s := by
  cases s with
  | temp id => exact Bool.noConfusion hs
  | _ => rfl

omit [Scalar R] in
/-- Whatever its temporaries are, a machine shows what is known before the first operation. -/
lemma shows_start (hm : m.Separate)
    (hvalue : ∀ {s x}, s.isTemp = false → value s = some x → m.contents? s = some x)
    (temps : Array R) : ({ m with temps } : Machine R).Shows (.start value) := by
  refine ⟨?_, fun {s x} hs => ?_⟩
  · rw [separate_iff] at hm ⊢
    exact hm
  · cases htemp : s.isTemp with
    | true => simp [Scene.start, htemp] at hs
    | false =>
      rw [Scene.start_value htemp] at hs
      rw [contents?_withTemps m temps htemp]
      exact hvalue htemp hs

omit [Scalar R] in
/-- What a kept operation writes is there on a machine with more temporaries if and only if it is
there. -/
lemma HasTemps.has_iff {stream : List (Instruction R)} (htemps : m.HasTemps stream)
    {temps : Array R} (hsize : m.temps.size ≤ temps.size) {o : Op R} (ho : .op o ∈ stream)
    (hpruned : o.pruned = false) {s : Symbol} (hs : s ∈ o.outputs) :
    ({ m with temps } : Machine R).Has s ↔ m.Has s := by
  cases htemp : s.isTemp with
  | false => simp [Has, contents?_withTemps m temps htemp]
  | true =>
    obtain ⟨id, rfl⟩ := Symbol.exists_temp htemp
    have hlt := htemps o ho hpruned id (List.mem_append_right _ hs)
    simp [Has, contents?, hlt, hlt.trans_le hsize]

end Machine

omit [Scalar R] in
/-- Of the symbols that an operation reads, those that no operation before it writes are no
temporaries. -/
lemma Builder.Ledger.isTemp_eq_false {held known : Set ℕ} (h : b.Ledger held known)
    {before after : List (Instruction R)} {inst : Instruction R}
    (hsplit : b.stream.toList = before ++ inst :: after) {o : Op R}
    (hlive : inst.liveOp? = some o) {s : Symbol} (hs : s ∈ o.inputs)
    (hnone : lastWriter before s = none) : s.isTemp = false := by
  rw [← Bool.not_eq_true]
  intro htemp
  obtain ⟨id, rfl⟩ := Symbol.exists_temp htemp
  obtain ⟨rest, hrest⟩ := resolve_append_cons before after inst
  obtain ⟨w, -, hw, -⟩ := h.used (resolve before).length (usesAfter before inst)
    (by rw [hsplit, hrest]; simp) id none (by simpa [usesAfter, hlive, hnone] using hs)
  simp at hw

/-! ### The end of the code -/

/-- What is left of the code runs and leaves the settled results. -/
theorem Emission.finish (h : Emission { annotate } (.start value) b S) (tables : Array (List ℕ))
    {m : Machine R} (hm : m.Separate)
    (hvalue : ∀ {s x}, s.isTemp = false → value s = some x → m.contents? s = some x)
    (htemps : m.HasTemps b.eliminateDeadCode.2.stream.toList) :
    ∃ m', m.execute tables b.eliminateDeadCode.2.stream.toList = .ok m' ∧ m'.shape = m.shape ∧
      ∀ s ∈ S.settled, ∀ x, S.value s = some x → m'.contents? s = some x := by
  have htidy := h.tidy (Builder.tidy_start annotate value)
  have hprune : b.eliminateDeadCode.2.stream.toList =
      prune (deadPositions b.stream.toList) b.stream.toList := rfl
  obtain ⟨code, hcode, hleads, -⟩ := h.code
  obtain rfl : code = b.stream.toList := by simpa using hcode.symm
  -- a machine with enough temporaries runs the whole code
  let temps : Array R := .replicate (max b.temps.next m.temps.size) Scalar.nan
  have hshows : ({ m with temps } : Machine R).Shows (.start value) :=
    Machine.shows_start hm hvalue temps
  obtain ⟨m', hrun, hm', -⟩ := hleads tables _ hshows (by simp [temps])
  have hassign {inst : Instruction R} (hinst : inst ∈ b.stream.toList) {o : Op R}
      (hlive : inst.liveOp? = some o) : inst = .op o ∧ o.pruned = false ∧
        o.stmt.Follows tables := by
    obtain ⟨rfl, hpruned⟩ := Instruction.liveOp?_eq_some.1 hlive
    obtain ⟨-, dst, e, hstmt⟩ := htidy.assigns o hinst
    exact ⟨rfl, hpruned, hstmt ▸ trivial⟩
  have hhas (before : List (Instruction R)) (inst : Instruction R) (after : List (Instruction R))
      (hsplit : b.stream.toList = before ++ inst :: after)
      (hkept : before.length ∉ deadPositions b.stream.toList) (o : Op R)
      (hlive : inst.liveOp? = some o) (s : Symbol) (hs : s ∈ o.outputs) :
      ({ m with temps } : Machine R).Has s ↔ m.Has s := by
    obtain ⟨rfl, hpruned, -⟩ := hassign (by simp [hsplit]) hlive
    refine htemps.has_iff (by simp [temps]) (List.mem_of_getElem? (i := before.length) ?_) hpruned
      hs
    have hget : b.stream.toList[before.length]? = some (.op o) := by simp [hsplit]
    simp [hprune, getElem?_prune, hkept, hget]
  -- the machine itself runs what is left of it, side by side with the other one
  obtain ⟨a, m₂, ha, hm₂, hside⟩ := exists_sideBySide (P := fun s => s.isTemp = false)
    hshows.separate hm ⟨rfl, rfl⟩ (fun inst hinst o hlive => (hassign hinst hlive).2.2)
    (fun s hs => Machine.read_withTemps m temps hs)
    (fun _ _ _ hsplit _ _ hlive _ hs hnone =>
      htidy.ledger.isTemp_eq_false hsplit hlive hs hnone)
    hhas hrun b.stream.toList.length
  rw [List.take_length] at ha hside
  rw [List.take_of_length_le (by simp), ← hprune] at hm₂
  obtain rfl : a = m' := by simpa [ha] using hrun
  refine ⟨m₂, hm₂, hside.shape_right, fun s hs x hx => ?_⟩
  rw [← Machine.read_eq_ok, ← hside.read_eq s ?_, Machine.read_eq_ok]
  · exact hm'.contents hx
  · refine ⟨fun w hw => ?_, fun _ => S.isTemp_of_settled hs⟩
    obtain ⟨o, ho, hmand⟩ := htidy.settled s hs w hw
    exact notMem_deadPositions ho (htidy.assigns o (List.mem_of_getElem? ho)).1 hmand

end Finish

end MixedRadix
