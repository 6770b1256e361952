import MixedRadix.Builder
import MixedRadix.Proofs.DeadCode

/-!
# Lifetimes while code is emitted

A builder keeps its books (`Builder.Ledger`) if temporaries are written only while they are held and
read only after the present holder wrote them. Each operation of a builder preserves this, and a
stream with such books passes the check of its lifetimes (`Builder.Ledger.checkLifetimes_eq_ok`).
-/

namespace MixedRadix

variable {R : Type}

lemma lastWriter_lt {stream : List (Instruction R)} {s : Symbol} {w : ℕ}
    (h : lastWriter stream s = some w) : w < stream.length := by
  obtain ⟨before, inst, after, o, rfl, rfl, -⟩ := lastWriter_eq_some h
  simp

/-- What holds of all entries in their order holds of any two of them. -/
lemma rel_of_pairwise_toList {α : Type} {r : α → α → Prop} {xs : Array α}
    (h : xs.toList.Pairwise r) {i j : ℕ} {x y : α} (hij : i < j) (hx : xs[i]? = some x)
    (hy : xs[j]? = some y) : r x y := by
  obtain ⟨hi, rfl⟩ := Array.getElem?_eq_some_iff.1 hx
  obtain ⟨hj, rfl⟩ := Array.getElem?_eq_some_iff.1 hy
  exact List.pairwise_iff_getElem.1 h i j hi hj hij

namespace Lifetime

lemma contains_iff {l : Lifetime} {p : ℕ} :
    l.contains p = true ↔ l.openedAt ≤ p ∧ ∀ c, l.closedAt = some c → p < c := by
  cases h : l.closedAt <;> simp [contains, h]

/-- No position lies in both lifetimes if they are of one temporary. -/
def Apart (l l' : Lifetime) : Prop :=
  l.temp = l'.temp → ∀ p, ¬ (l.contains p = true ∧ l'.contains p = true)

instance : Std.Symm Apart :=
  ⟨fun _ _ h ht p hp => h ht.symm p hp.symm⟩

/-- One lifetime of a temporary contains both positions. -/
def Spans (lifetimes : List Lifetime) (temp p q : ℕ) : Prop :=
  ∃ l ∈ lifetimes, l.temp = temp ∧ l.contains p = true ∧ l.contains q = true

/-- The lifetime, ended at a position. -/
def closeAt (position : ℕ) (l : Lifetime) : Lifetime :=
  { l with closedAt := some position }

lemma closeAt_contains {l : Lifetime} (hl : l.closedAt = none) {position p : ℕ} :
    (l.closeAt position).contains p = true ↔ l.contains p = true ∧ p < position := by
  simp [contains_iff, closeAt, hl]

/-- Closing one lifetime leaves the others as they are. -/
lemma getElem?_modify_closeAt {lifetimes : Array Lifetime} {i j position : ℕ} {l l' : Lifetime}
    (hl : lifetimes[i]? = some l) (hl' : (lifetimes.modify i (closeAt position))[j]? = some l') :
    (i = j ∧ l' = l.closeAt position) ∨ (i ≠ j ∧ lifetimes[j]? = some l') := by
  rw [Array.getElem?_modify] at hl'
  by_cases hij : i = j
  · subst hij
    simp only [if_true, hl, Option.map_some, Option.some.injEq] at hl'
    exact Or.inl ⟨rfl, hl'.symm⟩
  · exact Or.inr ⟨hij, by simpa [hij] using hl'⟩

/-- A lifetime behind the closing of another one is that lifetime or one of the rest. -/
lemma mem_modify_closeAt {lifetimes : Array Lifetime} {i position : ℕ} {l l' : Lifetime}
    (hl : lifetimes[i]? = some l) (hl' : l' ∈ lifetimes.modify i (closeAt position)) :
    l' = l.closeAt position ∨ ∃ j, i ≠ j ∧ lifetimes[j]? = some l' := by
  obtain ⟨j, hj⟩ := Array.getElem?_of_mem hl'
  rcases getElem?_modify_closeAt hl hj with ⟨-, h⟩ | ⟨hij, h⟩
  · exact Or.inl h
  · exact Or.inr ⟨j, hij, h⟩

/-- A relation between lifetimes in their order survives the closing of one of them if the closed
one still stands in it. -/
lemma pairwise_modify_closeAt {r : Lifetime → Lifetime → Prop} {lifetimes : Array Lifetime}
    {i position : ℕ} {l : Lifetime} (hl : lifetimes[i]? = some l)
    (h : lifetimes.toList.Pairwise r) (hbefore : ∀ l', r l' l → r l' (l.closeAt position))
    (hbehind : ∀ j l', i < j → lifetimes[j]? = some l' → r l l' → r (l.closeAt position) l') :
    (lifetimes.modify i (closeAt position)).toList.Pairwise r := by
  refine List.pairwise_iff_getElem.2 fun j k hj hk hjk => ?_
  have hj' := Array.getElem?_toList.symm.trans (List.getElem?_eq_getElem hj)
  have hk' := Array.getElem?_toList.symm.trans (List.getElem?_eq_getElem hk)
  rcases getElem?_modify_closeAt hl hj' with ⟨rfl, hj'⟩ | ⟨-, hj'⟩
  · rcases getElem?_modify_closeAt hl hk' with ⟨rfl, -⟩ | ⟨-, hk'⟩
    · exact absurd hjk (lt_irrefl _)
    · rw [hj']
      exact hbehind k _ hjk hk' (rel_of_pairwise_toList h hjk hl hk')
  · rcases getElem?_modify_closeAt hl hk' with ⟨rfl, hk'⟩ | ⟨-, hk'⟩
    · rw [hk']
      exact hbefore _ (rel_of_pairwise_toList h hjk hj' hl)
    · exact rel_of_pairwise_toList h hjk hj' hk'

lemma Apart.closeAt_left {l l' : Lifetime} (h : l.Apart l') (hl : l.closedAt = none)
    (position : ℕ) : (l.closeAt position).Apart l' :=
  fun htemp p hp => h htemp p ⟨((closeAt_contains hl).1 hp.1).1, hp.2⟩

/-- Positions before the end stay in the lifetime that is closed. -/
lemma Spans.modify_closeAt {lifetimes : Array Lifetime} {i position : ℕ} {l : Lifetime}
    (hl : lifetimes[i]? = some l) (hclosed : l.closedAt = none) {temp p q : ℕ} (hp : p < position)
    (hq : q < position) (h : Spans lifetimes.toList temp p q) :
    Spans (lifetimes.modify i (closeAt position)).toList temp p q := by
  obtain ⟨l', hl', htemp, hp', hq'⟩ := h
  obtain ⟨j, hj⟩ := Array.getElem?_of_mem (Array.mem_toList_iff.1 hl')
  by_cases hij : i = j
  · subst hij
    obtain rfl : l = l' := Option.some.inj (hl.symm.trans hj)
    refine ⟨l.closeAt position, Array.mem_toList_iff.2 (Array.mem_of_getElem? (i := i) ?_), htemp,
      (closeAt_contains hclosed).2 ⟨hp', hp⟩, (closeAt_contains hclosed).2 ⟨hq', hq⟩⟩
    simp [Array.getElem?_modify, hl]
  · refine ⟨l', Array.mem_toList_iff.2 (Array.mem_of_getElem? (i := j) ?_), htemp, hp', hq'⟩
    simpa [Array.getElem?_modify, hij] using hj

lemma owner?_of_spans {lifetimes : List Lifetime} (h : lifetimes.Pairwise Apart) {temp p q : ℕ}
    (hs : Spans lifetimes temp p q) :
    ∃ l, (LifetimeIndex.ofList lifetimes).owner? temp p = some l ∧ l.contains q = true := by
  obtain ⟨l, hl, htemp, hp, hq⟩ := hs
  rw [LifetimeIndex.owner?_ofList]
  cases hfind : lifetimes.find? fun l => l.temp == temp && l.contains p with
  | none =>
    have := List.find?_eq_none.1 hfind l hl
    simp [htemp, hp] at this
  | some l' =>
    have hl' := List.find?_some hfind
    simp only [Bool.and_eq_true, beq_iff_eq] at hl'
    by_cases heq : l = l'
    · exact ⟨l', rfl, heq ▸ hq⟩
    · have happart := h.forall hl (List.mem_of_find?_eq_some hfind) heq
      exact absurd ⟨hp, hl'.2⟩ (happart (htemp.trans hl'.1.symm) p)

end Lifetime

lemma forM_eq_ok {ε α : Type} {xs : List α} {f : α → Except ε Unit}
    (h : ∀ x ∈ xs, f x = .ok ()) : xs.forM f = .ok () := by
  induction xs with
  | nil => rfl
  | cons x xs ih =>
    have hcons : (x :: xs).forM f = f x >>= fun _ => xs.forM f := rfl
    rw [hcons, h x (by simp)]
    exact ih fun y hy => h y (by simp [hy])

/-- A stream passes the check if every temporary is written inside a lifetime, and every read lies
in the lifetime in which the value was written. -/
lemma Lifetime.check_eq_ok {lifetimes : List Lifetime} {stream : List (Instruction R)}
    (hapart : lifetimes.Pairwise Apart)
    (hwrites : ∀ p o, stream[p]? = some (.op o) → ∀ id, .temp id ∈ o.outputs →
      Spans lifetimes id p p)
    (huses : ∀ p uses, (resolve stream)[p]? = some uses → ∀ id writer,
      ⟨.temp id, writer⟩ ∈ uses → ∃ w, writer = some w ∧ Spans lifetimes id w p) :
    Lifetime.check lifetimes stream = .ok () := by
  have hfirst : (stream.zipIdx.forM fun entry =>
      checkWrites (LifetimeIndex.ofList lifetimes) entry.2 entry.1) = .ok () := by
    refine forM_eq_ok ?_
    rintro ⟨inst, p⟩ hp
    have hinst : stream[p]? = some inst := List.mem_zipIdx_iff_getElem?.1 hp
    cases inst with
    | comment text => rfl
    | op o =>
      refine forM_eq_ok fun id hid => ?_
      obtain ⟨s, hs, hid⟩ := List.mem_filterMap.1 hid
      obtain rfl : s = .temp id := by cases s <;> simp_all [Symbol.tempId?]
      obtain ⟨l, hl, -⟩ := owner?_of_spans hapart (hwrites p o hinst id hs)
      simp [hl]
  have hsecond : ((resolve stream).zipIdx.forM fun entry =>
      entry.1.forM (checkUse (LifetimeIndex.ofList lifetimes) entry.2)) = .ok () := by
    refine forM_eq_ok ?_
    rintro ⟨uses, p⟩ hp
    refine forM_eq_ok ?_
    rintro ⟨s, writer⟩ hu
    cases s with
    | temp id =>
      obtain ⟨w, rfl, hspans⟩ := huses p uses (List.mem_zipIdx_iff_getElem?.1 hp) id writer hu
      obtain ⟨l, hl, hcontains⟩ := owner?_of_spans hapart hspans
      simp [checkUse, Symbol.tempId?, hl, hcontains]
    | _ => rfl
  rw [check]
  exact (congrArg (fun r => r >>= fun _ => _) hfirst).trans hsecond

namespace Builder

lemma closeLifetime_eq {b : Builder R} {id i : ℕ} (h : b.openLifetimes[id]? = some i) :
    b.closeLifetime id =
      { b with
        openLifetimes := b.openLifetimes.erase id
        lifetimes := b.lifetimes.modify i (Lifetime.closeAt b.stream.size) } := by
  unfold closeLifetime
  rw [h]
  rfl

/-- The books of a builder are in order: the temporaries of `held` have a lifetime that is still
open, those of `known` were written in it, and every operation so far keeps to the lifetimes. -/
structure Ledger (b : Builder R) (held known : Set ℕ) : Prop where
  known_subset : known ⊆ held
  apart : b.lifetimes.toList.Pairwise Lifetime.Apart
  begun : ∀ l ∈ b.lifetimes, l.openedAt ≤ b.stream.size
  closed : ∀ l ∈ b.lifetimes, l.temp ∉ held → ∃ c ≤ b.stream.size, l.closedAt = some c
  current : ∀ id ∈ held, ∃ i l, b.openLifetimes[id]? = some i ∧ b.lifetimes[i]? = some l ∧
    l.temp = id ∧ l.closedAt = none ∧
    (id ∈ known → ∃ w, lastWriter b.stream.toList (.temp id) = some w ∧ l.openedAt ≤ w)
  written : ∀ p o, b.stream.toList[p]? = some (.op o) → ∀ id, .temp id ∈ o.outputs →
    Lifetime.Spans b.lifetimes.toList id p p
  used : ∀ p uses, (resolve b.stream.toList)[p]? = some uses → ∀ id writer,
    ⟨.temp id, writer⟩ ∈ uses →
      ∃ w < p, writer = some w ∧ Lifetime.Spans b.lifetimes.toList id w p

namespace Ledger

variable {b : Builder R} {held known : Set ℕ}

lemma checkLifetimes_eq_ok (h : b.Ledger held known) : b.checkLifetimes = .ok () := by
  refine Lifetime.check_eq_ok h.apart h.written fun p uses hp id writer hu => ?_
  obtain ⟨w, -, hw, hspans⟩ := h.used p uses hp id writer hu
  exact ⟨w, hw, hspans⟩

/-- The books of a builder without code. -/
lemma start (annotate : Bool) : ({ annotate } : Builder R).Ledger ∅ ∅ where
  known_subset := by simp
  apart := by simp
  begun := by simp
  closed := by simp
  current := by simp
  written := by simp
  used := by simp [resolve]

/-- From the opening of its lifetime on, a temporary that is held may be written. -/
lemma contains_of_current {l : Lifetime} (hl : l.closedAt = none) {p : ℕ} (hp : l.openedAt ≤ p) :
    l.contains p = true := by
  simp [Lifetime.contains_iff, hl, hp]

lemma comment (h : b.Ledger held known) (text : String) : (b.comment text).Ledger held known := by
  unfold Builder.comment
  split
  · refine ⟨h.known_subset, h.apart, fun l hl => ?_, fun l hl hout => ?_, ?_, ?_, ?_⟩
    · exact (h.begun l hl).trans (by simp)
    · obtain ⟨c, hc, hclosed⟩ := h.closed l hl hout
      exact ⟨c, hc.trans (by simp), hclosed⟩
    · simpa [lastWriter_concat, Instruction.liveOp?] using h.current
    · intro p o hp
      rw [Array.toList_push, List.getElem?_append] at hp
      split at hp
      · exact h.written p o hp
      · simp [List.getElem?_singleton] at hp
    · intro p uses hp
      rw [Array.toList_push, resolve_concat, List.getElem?_append] at hp
      split at hp
      · exact h.used p uses hp
      · obtain ⟨-, rfl⟩ : _ ∧ [] = uses := by
          simpa [List.getElem?_singleton, usesAfter, Instruction.liveOp?] using hp
        simp
  · exact h

/-- An operation writes what is held and reads what was written. -/
lemma push (h : b.Ledger held known) {o : Op R} (hlive : o.pruned = false)
    (hout : ∀ id, .temp id ∈ o.outputs → id ∈ held) (hin : ∀ id, .temp id ∈ o.inputs → id ∈ known) :
    (b.push o).Ledger held (known ∪ {id | .temp id ∈ o.outputs}) := by
  have hlive? : (Instruction.op o).liveOp? = some o :=
    Instruction.liveOp?_eq_some.2 ⟨rfl, hlive⟩
  refine ⟨Set.union_subset h.known_subset hout, h.apart, fun l hl => ?_, fun l hl hnot => ?_,
    fun id hid => ?_, ?_, ?_⟩
  · exact (h.begun l hl).trans (by simp [Builder.push])
  · obtain ⟨c, hc, hclosed⟩ := h.closed l hl hnot
    exact ⟨c, hc.trans (by simp [Builder.push]), hclosed⟩
  · obtain ⟨i, l, hi, hl, htemp, hclosed, hknown⟩ := h.current id hid
    refine ⟨i, l, hi, hl, htemp, hclosed, fun hid' => ?_⟩
    simp only [Builder.push, Array.toList_push, lastWriter_concat, hlive?]
    by_cases hmem : .temp id ∈ o.outputs
    · exact ⟨b.stream.size, by simp [hmem], h.begun l (Array.mem_of_getElem? hl)⟩
    · simpa [hmem] using hknown (by simpa [hmem] using hid')
  · intro p o' hp id hid
    rw [Builder.push, Array.toList_push, List.getElem?_append] at hp
    split at hp
    · exact h.written p o' hp id hid
    · obtain ⟨hp, rfl⟩ : p - b.stream.size = 0 ∧ o = o' := by
        simpa [List.getElem?_singleton] using hp
      obtain ⟨i, l, -, hl, htemp, hclosed, -⟩ := h.current id (hout id hid)
      have hmem := Array.mem_of_getElem? hl
      have hcontains : l.contains p = true :=
        contains_of_current hclosed ((h.begun l hmem).trans (by simp_all))
      exact ⟨l, Array.mem_toList_iff.2 hmem, htemp, hcontains, hcontains⟩
  · intro p uses hp id writer hu
    rw [Builder.push, Array.toList_push, resolve_concat, List.getElem?_append] at hp
    split at hp
    · exact h.used p uses hp id writer hu
    · rename_i hlen
      obtain ⟨hp, rfl⟩ : p - b.stream.size = 0 ∧ usesAfter b.stream.toList (.op o) = uses := by
        simpa [List.getElem?_singleton] using hp
      simp only [usesAfter, hlive?, List.mem_map, Use.mk.injEq] at hu
      obtain ⟨s, hs, rfl, rfl⟩ := hu
      have hknown := hin id hs
      obtain ⟨i, l, -, hl, htemp, hclosed, hlast⟩ := h.current id (h.known_subset hknown)
      obtain ⟨w, hw, hwl⟩ := hlast hknown
      have hmem := Array.mem_of_getElem? hl
      have hwp : w < p := lt_of_lt_of_le (lastWriter_lt hw) (by simp_all)
      exact ⟨w, hwp, hw, l, Array.mem_toList_iff.2 hmem, htemp, contains_of_current hclosed hwl,
        contains_of_current hclosed (hwl.trans hwp.le)⟩

/-- A temporary that nobody holds gets a new lifetime. -/
lemma allocTemp (h : b.Ledger held known) (hid : b.temps.allocate.1 ∉ held) :
    b.allocTemp.2.Ledger (insert b.temps.allocate.1 held) known := by
  have hlifetimes : b.allocTemp.2.lifetimes =
    b.lifetimes.push { temp := b.temps.allocate.1, openedAt := b.stream.size } := rfl
  have hopen : b.allocTemp.2.openLifetimes =
    b.openLifetimes.insert b.temps.allocate.1 b.lifetimes.size := rfl
  have hstream : b.allocTemp.2.stream = b.stream := rfl
  have hspans {id p q : ℕ} (hs : Lifetime.Spans b.lifetimes.toList id p q) :
      Lifetime.Spans b.allocTemp.2.lifetimes.toList id p q := by
    obtain ⟨l, hl, hs⟩ := hs
    exact ⟨l, by simp [hlifetimes, Array.mem_toList_iff.1 hl], hs⟩
  refine ⟨h.known_subset.trans (Set.subset_insert _ _), ?_, ?_, ?_, ?_, ?_, ?_⟩
  · rw [hlifetimes, Array.toList_push, List.pairwise_append]
    refine ⟨h.apart, List.pairwise_singleton _ _, fun l hl l' hl' htemp p hp => ?_⟩
    obtain rfl := List.mem_singleton.1 hl'
    obtain ⟨c, hc, hclosed⟩ := h.closed l (Array.mem_toList_iff.1 hl) (by rw [htemp]; exact hid)
    have h1 := (Lifetime.contains_iff.1 hp.1).2 c hclosed
    have h2 := (Lifetime.contains_iff.1 hp.2).1
    simp only at h2
    omega
  · intro l hl
    rw [hlifetimes, Array.mem_push] at hl
    rcases hl with hl | rfl
    · exact h.begun l hl
    · exact le_rfl
  · intro l hl hnot
    rw [hlifetimes, Array.mem_push] at hl
    rcases hl with hl | rfl
    · exact h.closed l hl fun hheld => hnot (Set.mem_insert_of_mem _ hheld)
    · exact absurd (Set.mem_insert _ _) hnot
  · intro id hmem
    rw [hopen, hlifetimes, hstream, Std.TreeMap.getElem?_insert]
    rcases hmem with rfl | hmem
    · refine ⟨b.lifetimes.size, _, by simp, Array.getElem?_push_size, rfl, rfl, fun hknown => ?_⟩
      exact absurd (h.known_subset hknown) hid
    · obtain ⟨i, l, hi, hl, hrest⟩ := h.current id hmem
      have hne : b.temps.allocate.1 ≠ id := fun e => hid (e ▸ hmem)
      refine ⟨i, l, by simpa [hne] using hi, ?_, hrest⟩
      rw [Array.getElem?_push_lt (Array.getElem?_eq_some_iff.1 hl).1]
      exact congrArg some (Array.getElem?_eq_some_iff.1 hl).2
  · exact fun p o hp id hid => hspans (h.written p o hp id hid)
  · intro p uses hp id writer hu
    obtain ⟨w, hwp, hw, hs⟩ := h.used p uses hp id writer hu
    exact ⟨w, hwp, hw, hspans hs⟩

lemma apart_of_ne (h : b.Ledger held known) {i j : ℕ} {l l' : Lifetime} (hij : i ≠ j)
    (hl : b.lifetimes[i]? = some l) (hl' : b.lifetimes[j]? = some l') : l.Apart l' := by
  rcases lt_or_gt_of_ne hij with hlt | hlt
  · exact rel_of_pairwise_toList h.apart hlt hl hl'
  · exact symm (rel_of_pairwise_toList h.apart hlt hl' hl)

/-- A lifetime beside the open one of the same temporary has ended before. -/
lemma closed_of_ne (h : b.Ledger held known) {i j : ℕ} {l l' : Lifetime} (hij : i ≠ j)
    (hl : b.lifetimes[i]? = some l) (hclosed : l.closedAt = none)
    (hl' : b.lifetimes[j]? = some l') (htemp : l.temp = l'.temp) :
    ∃ c ≤ b.stream.size, l'.closedAt = some c := by
  have hnow : l.contains b.stream.size = true :=
    contains_of_current hclosed (h.begun l (Array.mem_of_getElem? hl))
  have hapart := h.apart_of_ne hij hl hl' htemp b.stream.size
  have hbegun := h.begun l' (Array.mem_of_getElem? hl')
  simp only [hnow, true_and, Lifetime.contains_iff, hbegun] at hapart
  obtain ⟨c, hc, hle⟩ : ∃ c, l'.closedAt = some c ∧ c ≤ b.stream.size := by simpa using hapart
  exact ⟨c, hle, hc⟩

/-- The open lifetime of a temporary ends here; all the others have ended before. -/
lemma closeLifetime (h : b.Ledger held known) {id : ℕ} (hid : id ∈ held) :
    (b.closeLifetime id).Ledger (held \ {id}) (known \ {id}) := by
  obtain ⟨i, l, hopen, hl, htemp, hclosed, -⟩ := h.current id hid
  rw [closeLifetime_eq hopen]
  refine ⟨Set.sdiff_subset_sdiff_left h.known_subset, ?_, fun l' hl' => ?_, fun l' hl' hnot => ?_,
    ?_, fun p o hp id' hid' => ?_, fun p uses hp id' writer hu => ?_⟩
  · refine Lifetime.pairwise_modify_closeAt hl h.apart (fun l' hapart => ?_)
      fun _ _ _ _ hapart => hapart.closeAt_left hclosed _
    exact symm ((symm hapart : l.Apart l').closeAt_left hclosed _)
  · rcases Lifetime.mem_modify_closeAt hl hl' with rfl | ⟨j, -, hl'⟩
    · exact h.begun l (Array.mem_of_getElem? hl)
    · exact h.begun l' (Array.mem_of_getElem? hl')
  · rcases Lifetime.mem_modify_closeAt hl hl' with rfl | ⟨j, hij, hl'⟩
    · exact ⟨b.stream.size, le_rfl, rfl⟩
    · by_cases hheld : l'.temp ∈ held
      · have htemp' : l'.temp = id := by simpa [hheld] using hnot
        exact h.closed_of_ne hij hl hclosed hl' (htemp.trans htemp'.symm)
      · exact h.closed l' (Array.mem_of_getElem? hl') hheld
  · rintro id' ⟨hheld, hne⟩
    obtain ⟨j, l', hj, hl', htemp', hclosed', hknown⟩ := h.current id' hheld
    have hij : i ≠ j := by
      rintro rfl
      exact hne (htemp'.symm.trans ((Option.some.inj (hl'.symm.trans hl)) ▸ htemp))
    refine ⟨j, l', ?_, ?_, htemp', hclosed', fun hid' => hknown hid'.1⟩
    · have : id ≠ id' := fun e => hne e.symm
      simpa [Std.TreeMap.getElem?_erase, this] using hj
    · simpa [Array.getElem?_modify, hij] using hl'
  · have hlt : p < b.stream.size := by simpa using (List.getElem?_eq_some_iff.1 hp).1
    exact (h.written p o hp id' hid').modify_closeAt hl hclosed hlt hlt
  · obtain ⟨w, hwp, hw, hs⟩ := h.used p uses hp id' writer hu
    have hlt : p < b.stream.size := by simpa using (List.getElem?_eq_some_iff.1 hp).1
    exact ⟨w, hwp, hw, hs.modify_closeAt hl hclosed (hwp.trans hlt) hlt⟩

end Ledger

end Builder

end MixedRadix
