import MixedRadix.Proofs.Lifetime
import Mathlib.Data.Set.Function

/-!
# Renaming apart the owners of a temporary

A temporary is recycled, so its name stands for one owner after another. In a stream that passes the
check of its lifetimes, every owner can be given a variable of its own: each temporary that is read
or written belongs to one lifetime there (`Lifetime.owner_of_write`, `Lifetime.owner_of_read`), and
the renamed stream does step by step what the stream did (`Lifetime.Tracks`,
`Lifetime.check_separates`). So no owner ever reads what another one left.
-/

namespace MixedRadix

variable {R : Type}

/-! ### Renaming -/

namespace Expr

/-- The expression with its symbols renamed, if all of them have a new name. -/
def rename? (f : Symbol → Option Symbol) : Expr R → Option (Expr R)
  | sym s => (f s).map sym
  | lit x => some (lit x)
  | neg a => do return neg (← a.rename? f)
  | add a b => do return add (← a.rename? f) (← b.rename? f)
  | sub a b => do return sub (← a.rename? f) (← b.rename? f)
  | mul a b => do return mul (← a.rename? f) (← b.rename? f)

variable {f : Symbol → Option Symbol}

lemma exists_rename? {e : Expr R} (h : ∀ s ∈ e.occurrences, ∃ s', f s = some s') :
    ∃ e', e.rename? f = some e' := by
  induction e with
  | sym s =>
    obtain ⟨s', hs'⟩ := h s (by simp)
    exact ⟨sym s', by simp [rename?, hs']⟩
  | lit x => exact ⟨lit x, rfl⟩
  | neg a iha =>
    obtain ⟨a', ha'⟩ := iha h
    exact ⟨neg a', by simp [rename?, ha']⟩
  | add a b iha ihb | sub a b iha ihb | mul a b iha ihb =>
    obtain ⟨a', ha'⟩ := iha fun s hs => h s (by simp [hs])
    obtain ⟨b', hb'⟩ := ihb fun s hs => h s (by simp [hs])
    exact ⟨_, by simp only [rename?, ha', hb']; rfl⟩

/-- The renamed expression has the same value if the new names stand for the same contents. -/
lemma evalIn_rename? [Scalar R] {ε : Type} {read read' : Symbol → Except ε R} {e e' : Expr R}
    (he : e.rename? f = some e')
    (h : ∀ s ∈ e.occurrences, ∀ s', f s = some s' → read s = read' s') :
    e.evalIn read = e'.evalIn read' := by
  induction e generalizing e' with
  | sym s =>
    obtain ⟨s', hs', rfl⟩ := Option.map_eq_some_iff.1 he
    exact h s (by simp) s' hs'
  | lit x =>
    obtain rfl := Option.some.inj he
    rfl
  | neg a iha =>
    obtain ⟨a', ha', he⟩ := Option.bind_eq_some_iff.1 he
    obtain rfl := Option.some.inj he
    simp only [evalIn]
    rw [iha ha' h]
  | add a b iha ihb | sub a b iha ihb | mul a b iha ihb =>
    obtain ⟨a', ha', he⟩ := Option.bind_eq_some_iff.1 he
    obtain ⟨b', hb', he⟩ := Option.bind_eq_some_iff.1 he
    obtain rfl := Option.some.inj he
    simp only [evalIn]
    rw [iha ha' fun s hs => h s (by simp [hs]), ihb hb' fun s hs => h s (by simp [hs])]

end Expr

/-- The statement with its symbols renamed, if all of them have a new name. Calls only touch slots,
which keep their names. -/
def Stmt.rename? (f : Symbol → Option Symbol) : Stmt R → Option (Stmt R)
  | .assign dst value => do return .assign (← f dst) (← value.rename? f)
  | .call c => some (.call c)

namespace Lifetime

/-- The lifetime of a temporary that contains a position. -/
def ownerAt? (lifetimes : List Lifetime) (temp position : ℕ) : Option Lifetime :=
  lifetimes.find? fun l => l.temp == temp && l.contains position

/-- What a symbol is called at a position when every lifetime has a variable of its own, `name l`
being that of `l`. -/
def nameAt? (name : Lifetime → ℕ) (lifetimes : List Lifetime) (position : ℕ) :
    Symbol → Option Symbol
  | .temp id => (ownerAt? lifetimes id position).map fun l => .temp (name l)
  | s => some s

/-- The entry at a position with its temporaries renamed. Entries that are not run stay as they
are. -/
def renameAt? (name : Lifetime → ℕ) (lifetimes : List Lifetime) (position : ℕ)
    (inst : Instruction R) : Option (Instruction R) :=
  match inst.liveOp? with
  | none => some inst
  | some o => (o.stmt.rename? (nameAt? name lifetimes position)).map fun stmt => .op { o with stmt }

/-- The stream with its temporaries renamed, if every one that is read or written has an owner
there. -/
def rename? (name : Lifetime → ℕ) (lifetimes : List Lifetime) (stream : List (Instruction R)) :
    Option (List (Instruction R)) :=
  stream.zipIdx.mapM fun (inst, position) => renameAt? name lifetimes position inst

variable {name : Lifetime → ℕ} {lifetimes : List Lifetime} {stream : List (Instruction R)}

lemma exists_mapM_eq_some {α β : Type} {f : α → Option β} {xs : List α}
    (h : ∀ x ∈ xs, ∃ y, f x = some y) :
    ∃ ys, xs.mapM f = some ys ∧ ∀ i : ℕ, ys[i]? = xs[i]?.bind f := by
  induction xs with
  | nil => exact ⟨[], rfl, by simp⟩
  | cons x xs ih =>
    obtain ⟨y, hy⟩ := h x (by simp)
    obtain ⟨ys, hys, hget⟩ := ih fun x' hx' => h x' (by simp [hx'])
    refine ⟨y :: ys, by simp [List.mapM_cons, hy, hys], fun i => ?_⟩
    cases i with
    | zero => simp [hy]
    | succ i => simpa using hget i

/-- If each entry can be renamed, so can the stream, entry by entry. -/
lemma exists_rename? (h : ∀ position inst, stream[position]? = some inst →
      ∃ inst', renameAt? name lifetimes position inst = some inst') :
    ∃ renamed, rename? name lifetimes stream = some renamed ∧
      ∀ i : ℕ, renamed[i]? = stream[i]?.bind (renameAt? name lifetimes i) := by
  have hentries : ∀ entry ∈ stream.zipIdx,
      ∃ inst', renameAt? name lifetimes entry.2 entry.1 = some inst' :=
    fun entry hentry => h entry.2 entry.1 (List.mem_zipIdx_iff_getElem?.1 hentry)
  obtain ⟨renamed, hrenamed, hget⟩ := exists_mapM_eq_some hentries
  refine ⟨renamed, hrenamed, fun i => ?_⟩
  rw [hget, List.getElem?_zipIdx, Option.bind_map]
  simp only [Nat.zero_add]
  rfl

/-! ### Owners -/

lemma ownerAt?_eq_some {temp position : ℕ} {l : Lifetime}
    (h : ownerAt? lifetimes temp position = some l) :
    l ∈ lifetimes ∧ l.temp = temp ∧ l.contains position = true := by
  have hl := List.find?_some h
  simp only [Bool.and_eq_true, beq_iff_eq] at hl
  exact ⟨List.mem_of_find?_eq_some h, hl⟩

lemma owner?_eq_ownerAt? (temp position : ℕ) :
    (LifetimeIndex.ofList lifetimes).owner? temp position = ownerAt? lifetimes temp position :=
  LifetimeIndex.owner?_ofList lifetimes temp position

/-- No other lifetime of the temporary contains the position. -/
lemma ownerAt?_of_contains (hapart : lifetimes.Pairwise Apart) {l : Lifetime}
    (hl : l ∈ lifetimes) {position : ℕ} (hcontains : l.contains position = true) :
    ownerAt? lifetimes l.temp position = some l := by
  cases hfind : ownerAt? lifetimes l.temp position with
  | none =>
    have hnone := List.find?_eq_none.1 hfind l hl
    simp [hcontains] at hnone
  | some l' =>
    obtain ⟨hl', htemp, hcontains'⟩ := ownerAt?_eq_some hfind
    by_contra hne
    have hne' : l' ≠ l := fun e => hne (congrArg some e)
    exact hapart.forall hl' hl hne' htemp position ⟨hcontains', hcontains⟩

lemma forM_eq_ok_iff {ε α : Type} {xs : List α} {f : α → Except ε Unit} :
    xs.forM f = .ok () ↔ ∀ x ∈ xs, f x = .ok () := by
  refine ⟨fun h => ?_, forM_eq_ok⟩
  induction xs with
  | nil => simp
  | cons x xs ih =>
    have hcons : (x :: xs).forM f = f x >>= fun _ => xs.forM f := rfl
    rw [hcons] at h
    cases hx : f x with
    | error e => simp [hx, bind, Except.bind] at h
    | ok u =>
      simp only [hx, bind, Except.bind] at h
      simpa [hx] using ih h

/-- The check passes if that of the writes and that of the reads does. -/
lemma check_eq_ok_iff : check lifetimes stream = .ok () ↔
    (∀ position inst, stream[position]? = some inst →
      checkWrites (LifetimeIndex.ofList lifetimes) position inst = .ok ()) ∧
    ∀ position uses, (resolve stream)[position]? = some uses → ∀ u ∈ uses,
      checkUse (LifetimeIndex.ofList lifetimes) position u = .ok () := by
  have hwrites : (stream.zipIdx.forM fun p =>
        checkWrites (LifetimeIndex.ofList lifetimes) p.2 p.1) = .ok () ↔
      ∀ position inst, stream[position]? = some inst →
        checkWrites (LifetimeIndex.ofList lifetimes) position inst = .ok () := by
    simp only [forM_eq_ok_iff, Prod.forall, List.mem_zipIdx_iff_getElem?]
    exact forall_comm
  have huses : ((resolve stream).zipIdx.forM fun p =>
        p.1.forM (checkUse (LifetimeIndex.ofList lifetimes) p.2)) = .ok () ↔
      ∀ position uses, (resolve stream)[position]? = some uses → ∀ u ∈ uses,
        checkUse (LifetimeIndex.ofList lifetimes) position u = .ok () := by
    simp only [forM_eq_ok_iff, Prod.forall, List.mem_zipIdx_iff_getElem?]
    exact forall_comm
  rw [← hwrites, ← huses]
  change (stream.zipIdx.forM fun p => checkWrites (LifetimeIndex.ofList lifetimes) p.2 p.1) >>=
    (fun _ => (resolve stream).zipIdx.forM fun p =>
      p.1.forM (checkUse (LifetimeIndex.ofList lifetimes) p.2)) = .ok () ↔ _
  cases stream.zipIdx.forM fun p => checkWrites (LifetimeIndex.ofList lifetimes) p.2 p.1 with
  | error e => simp [bind, Except.bind]
  | ok u => simp [bind, Except.bind]

/-- A temporary has an owner where it is written. -/
lemma owner_of_write (hcheck : check lifetimes stream = .ok ()) {position : ℕ} {o : Op R}
    (hop : stream[position]? = some (.op o)) {id : ℕ} (hid : .temp id ∈ o.outputs) :
    ∃ l, ownerAt? lifetimes id position = some l := by
  have hwrites := (check_eq_ok_iff.1 hcheck).1 position (.op o) hop
  have hmem : id ∈ temps o.outputs := List.mem_filterMap.2 ⟨.temp id, hid, rfl⟩
  have howner := forM_eq_ok_iff.1 hwrites id hmem
  rw [owner?_eq_ownerAt?] at howner
  refine Option.isSome_iff_exists.1 ?_
  by_contra hnone
  rw [if_neg hnone] at howner
  cases howner

/-- Each use of a symbol passes the check. -/
lemma checkUse_of_read (hcheck : check lifetimes stream = .ok ())
    {before after : List (Instruction R)} {inst : Instruction R}
    (hstream : stream = before ++ inst :: after) {o : Op R} (hlive : inst.liveOp? = some o)
    {s : Symbol} (hs : s ∈ o.inputs) :
    checkUse (LifetimeIndex.ofList lifetimes) before.length ⟨s, lastWriter before s⟩ = .ok () := by
  obtain ⟨rest, hrest⟩ := resolve_append_cons before after inst
  have huses : (resolve stream)[before.length]? = some (usesAfter before inst) := by
    rw [hstream, hrest, List.getElem?_append_right (by simp)]
    simp
  exact (check_eq_ok_iff.1 hcheck).2 _ _ huses ⟨s, lastWriter before s⟩
    (by simpa [usesAfter, hlive] using hs)

/-- A temporary that is read was written before. -/
lemma exists_lastWriter_of_read (hcheck : check lifetimes stream = .ok ())
    {before after : List (Instruction R)} {inst : Instruction R}
    (hstream : stream = before ++ inst :: after) {o : Op R} (hlive : inst.liveOp? = some o)
    {id : ℕ} (hid : .temp id ∈ o.inputs) : ∃ w, lastWriter before (.temp id) = some w := by
  have huse := checkUse_of_read hcheck hstream hlive hid
  cases hlast : lastWriter before (.temp id) with
  | none => simp [checkUse, Symbol.tempId?, hlast] at huse
  | some w => exact ⟨w, rfl⟩

/-- A temporary that is read has an owner there, who also wrote it last. -/
lemma owner_of_read (hapart : lifetimes.Pairwise Apart) (hcheck : check lifetimes stream = .ok ())
    {before after : List (Instruction R)} {inst : Instruction R}
    (hstream : stream = before ++ inst :: after) {o : Op R} (hlive : inst.liveOp? = some o)
    {id : ℕ} (hid : .temp id ∈ o.inputs) :
    ∃ w l, lastWriter before (.temp id) = some w ∧ ownerAt? lifetimes id w = some l ∧
      ownerAt? lifetimes id before.length = some l := by
  obtain ⟨w, hlast⟩ := exists_lastWriter_of_read hcheck hstream hlive hid
  have huse := checkUse_of_read hcheck hstream hlive hid
  simp only [checkUse, Symbol.tempId?, hlast, owner?_eq_ownerAt?] at huse
  cases howner : ownerAt? lifetimes id w with
  | none => simp [howner] at huse
  | some l =>
    obtain ⟨hl, rfl, -⟩ := ownerAt?_eq_some howner
    have hcontains : l.contains before.length = true := by simpa [howner] using huse
    exact ⟨w, l, hlast, howner, ownerAt?_of_contains hapart hl hcontains⟩

/-- What the operation that is run at a position touches has a new name there. -/
lemma exists_nameAt? (name : Lifetime → ℕ) (hapart : lifetimes.Pairwise Apart)
    (hcheck : check lifetimes stream = .ok ()) {before after : List (Instruction R)}
    {inst : Instruction R} (hstream : stream = before ++ inst :: after) {o : Op R}
    (hlive : inst.liveOp? = some o) {s : Symbol} (hs : s ∈ o.inputs ∨ s ∈ o.outputs) :
    ∃ s', nameAt? name lifetimes before.length s = some s' := by
  cases s with
  | temp id =>
    obtain ⟨l, hl⟩ : ∃ l, ownerAt? lifetimes id before.length = some l := by
      rcases hs with hs | hs
      · obtain ⟨w, l, -, -, hl⟩ := owner_of_read hapart hcheck hstream hlive hs
        exact ⟨l, hl⟩
      · obtain ⟨rfl, -⟩ := Instruction.liveOp?_eq_some.1 hlive
        exact owner_of_write hcheck (by simp [hstream]) hs
    exact ⟨.temp (name l), by simp [nameAt?, hl]⟩
  | input i | output i | real i | imag i => exact ⟨_, rfl⟩

/-- Every entry of a stream that passes the check can be renamed. -/
lemma exists_renameAt? (name : Lifetime → ℕ) (hapart : lifetimes.Pairwise Apart)
    (hcheck : check lifetimes stream = .ok ()) {before after : List (Instruction R)}
    {inst : Instruction R} (hstream : stream = before ++ inst :: after) :
    ∃ inst', renameAt? name lifetimes before.length inst = some inst' := by
  cases hlive : inst.liveOp? with
  | none => exact ⟨inst, by simp [renameAt?, hlive]⟩
  | some o =>
    have hname {s : Symbol} (hs : s ∈ o.inputs ∨ s ∈ o.outputs) :=
      exists_nameAt? name hapart hcheck hstream hlive hs
    obtain ⟨stmt', hstmt'⟩ :
        ∃ stmt', o.stmt.rename? (nameAt? name lifetimes before.length) = some stmt' := by
      obtain ⟨stmt, mandatory, pruned⟩ := o
      cases stmt with
      | call c => exact ⟨_, rfl⟩
      | assign dst value =>
        obtain ⟨dst', hdst'⟩ := hname (s := dst) (Or.inr (by simp [Op.outputs, Stmt.outputs]))
        obtain ⟨value', hvalue'⟩ := Expr.exists_rename? (e := value)
          (f := nameAt? name lifetimes before.length)
          fun s hs => hname (Or.inl (by simpa [Op.inputs, Stmt.inputs] using hs))
        exact ⟨.assign dst' value', by simp [Stmt.rename?, hdst', hvalue']⟩
    exact ⟨.op { o with stmt := stmt' }, by simp [renameAt?, hlive, hstmt']⟩

/-! ### Runs side by side -/

/-- The faults of a stream and of the renamed one, with `size` temporaries and `size'` variables:
they are the same, unless a temporary is not there, and then the variable of its owner is not there
either. -/
def SameFault (name : Lifetime → ℕ) (lifetimes : List Lifetime) (size size' : ℕ) (f f' : Fault) :
    Prop :=
  f = f' ∨ ∃ l ∈ lifetimes, f = @Fault.indexOutOfRange l.temp size ∧
    f' = @Fault.indexOutOfRange (name l) size'

/-- Other locations are written without regard to the temporaries. -/
lemma write_withTemps {m : Machine R} {s : Symbol} (hs : s.tempId? = none) (x : R)
    (temps : Array R) :
    (∃ f, m.write s x = .error f ∧ ({ m with temps } : Machine R).write s x = .error f) ∨
    ∃ m', m.write s x = .ok m' ∧ m'.temps = m.temps ∧
      ({ m with temps } : Machine R).write s x = .ok { m' with temps } := by
  obtain ⟨temps₀, input, output, re, im⟩ := m
  -- samples are never written, and other locations only if they exist
  by_cases hin : s.isInput = true
  · cases s <;> simp [Symbol.isInput] at hin
    exact Or.inl ⟨_, rfl, rfl⟩
  rw [Bool.not_eq_true] at hin
  by_cases hhas : (⟨temps₀, input, output, re, im⟩ : Machine R).Has s
  · obtain ⟨m', hm'⟩ := Machine.exists_write hhas hin x
    refine Or.inr ⟨m', hm', ?_⟩
    cases s with
    | temp id => cases hs
    | input i => cases hin
    | output i =>
      cases output with
      | none =>
        obtain ⟨hi, rfl⟩ := checkIndex_bind_eq_ok.1 hm'
        exact ⟨rfl, checkIndex_bind_eq_ok.2 ⟨hi, rfl⟩⟩
      | some output =>
        obtain ⟨hi, rfl⟩ := checkIndex_bind_eq_ok.1 hm'
        exact ⟨rfl, checkIndex_bind_eq_ok.2 ⟨hi, rfl⟩⟩
    | real i | imag i =>
      obtain ⟨hi, rfl⟩ := checkIndex_bind_eq_ok.1 hm'
      exact ⟨rfl, checkIndex_bind_eq_ok.2 ⟨hi, rfl⟩⟩
  · obtain ⟨hhas', hmissing⟩ : ¬ (⟨temps, input, output, re, im⟩ : Machine R).Has s ∧
        (⟨temps, input, output, re, im⟩ : Machine R).missing s =
          (⟨temps₀, input, output, re, im⟩ : Machine R).missing s := by
      cases s with
      | temp id => cases hs
      | input i | output i | real i | imag i => exact ⟨hhas, rfl⟩
    exact Or.inl ⟨_, Machine.write_eq_error hhas hin x,
      hmissing ▸ Machine.write_eq_error hhas' hin x⟩

/-- `temps` has room for the variable of each lifetime whose temporary exists, and each temporary
that was written is there and holds what the variable of its last writer's lifetime does. -/
structure Tracks (name : Lifetime → ℕ) (lifetimes : List Lifetime) (before : List (Instruction R))
    (a : Machine R) (temps : Array R) : Prop where
  room : ∀ l ∈ lifetimes, name l < temps.size ↔ l.temp < a.temps.size
  holds : ∀ id w l, lastWriter before (.temp id) = some w → ownerAt? lifetimes id w = some l →
    ∃ x, a.temps[id]? = some x ∧ temps[name l]? = some x

namespace Tracks

variable {before : List (Instruction R)} {a : Machine R} {temps : Array R}

/-- What an operation reads is the same under its new name. -/
lemma read_eq (h : Tracks name lifetimes before a temps) {position : ℕ} {s s' : Symbol}
    (howner : ∀ id, s = .temp id → ∃ w l, lastWriter before s = some w ∧
      ownerAt? lifetimes id w = some l ∧ ownerAt? lifetimes id position = some l)
    (hs' : nameAt? name lifetimes position s = some s') :
    a.read s = ({ a with temps } : Machine R).read s' := by
  cases s with
  | temp id =>
    obtain ⟨w, l, hw, hl, hl'⟩ := howner id rfl
    obtain rfl : .temp (name l) = s' := by simpa [nameAt?, hl'] using hs'
    obtain ⟨x, hx, hx'⟩ := h.holds id w l hw hl
    exact (getOrFault_eq_ok.2 hx).trans (getOrFault_eq_ok.2 hx').symm
  | input i | output i | real i | imag i =>
    obtain rfl := Option.some.inj hs'
    rfl

/-- A stretch that writes no temporary keeps the books. -/
lemma skip (h : Tracks name lifetimes before a temps) {inst : Instruction R} {a' : Machine R}
    (ha' : a'.temps = a.temps)
    (hout : ∀ o, inst.liveOp? = some o → ∀ id, .temp id ∉ o.outputs) :
    Tracks name lifetimes (before ++ [inst]) a' temps := by
  refine ⟨by simpa only [ha'] using h.room, fun id w l hw hl => ?_⟩
  rw [ha']
  refine h.holds id w l ?_ hl
  rw [lastWriter_concat] at hw
  cases hlive : inst.liveOp? with
  | none => simpa [hlive] using hw
  | some o => simpa [hlive, hout o hlive id] using hw

/-- A temporary and the variable of its owner are written together. No other variable changes,
because different temporaries have different lifetimes and these have different variables. -/
lemma assign (h : Tracks name lifetimes before a temps)
    (hname : Set.InjOn name {l | l ∈ lifetimes}) {inst : Instruction R} {o : Op R}
    (hlive : inst.liveOp? = some o) {id : ℕ} (hout : o.outputs = [.temp id]) {l : Lifetime}
    (hl : ownerAt? lifetimes id before.length = some l) (hid : id < a.temps.size) (x : R) :
    Tracks name lifetimes (before ++ [inst]) { a with temps := a.temps.setIfInBounds id x }
      (temps.setIfInBounds (name l) x) := by
  obtain ⟨hmem, htemp, -⟩ := ownerAt?_eq_some hl
  refine ⟨by simpa using h.room, fun id' w l' hw hl' => ?_⟩
  rw [lastWriter_concat, hlive] at hw
  simp only [hout, List.mem_singleton, Symbol.temp.injEq] at hw
  by_cases heq : id' = id
  · -- its last writer is this operation now
    subst heq
    obtain rfl : before.length = w := by simpa using hw
    obtain rfl : l = l' := Option.some.inj (hl.symm.trans hl')
    have hroom : name l < temps.size := (h.room l hmem).2 (htemp ▸ hid)
    exact ⟨x, by simp [hid], by simp [hroom]⟩
  · obtain ⟨hmem', htemp', -⟩ := ownerAt?_eq_some hl'
    have hne : name l ≠ name l' := by
      intro e
      have hll' : l = l' := hname hmem hmem' e
      exact heq (htemp'.symm.trans (hll' ▸ htemp))
    simp only [Array.getElem?_setIfInBounds, Ne.symm heq, if_false, hne]
    exact h.holds id' w l' (by simpa [heq] using hw) hl'

/-- A write fails in both streams alike, or leaves the books in order. -/
lemma write (h : Tracks name lifetimes before a temps)
    (hname : Set.InjOn name {l | l ∈ lifetimes}) {inst : Instruction R} {o : Op R}
    (hlive : inst.liveOp? = some o) {dst dst' : Symbol} (hout : o.outputs = [dst])
    (hdst' : nameAt? name lifetimes before.length dst = some dst') (x : R) :
    (∃ f f', a.write dst x = .error f ∧ ({ a with temps } : Machine R).write dst' x = .error f' ∧
      SameFault name lifetimes a.temps.size temps.size f f') ∨
    ∃ a' temps', a.write dst x = .ok a' ∧
      ({ a with temps } : Machine R).write dst' x = .ok { a' with temps := temps' } ∧
      Tracks name lifetimes (before ++ [inst]) a' temps' := by
  cases hdst : dst.tempId? with
  | none =>
    obtain rfl : dst = dst' := by
      cases dst with
      | temp id => cases hdst
      | input i | output i | real i | imag i => exact Option.some.inj hdst'
    rcases write_withTemps hdst x temps with ⟨f, hf, hf'⟩ | ⟨a', ha', htemps, hb'⟩
    · exact Or.inl ⟨f, f, hf, hf', Or.inl rfl⟩
    · refine Or.inr ⟨a', temps, ha', hb', h.skip htemps fun o' hlive' id hid => ?_⟩
      obtain rfl : o = o' := Option.some.inj (hlive.symm.trans hlive')
      obtain rfl : .temp id = dst := by simpa [hout] using hid
      cases hdst
  | some id =>
    obtain rfl : dst = .temp id := by cases dst <;> simp_all [Symbol.tempId?]
    obtain ⟨l, hl, rfl⟩ := Option.map_eq_some_iff.1 hdst'
    obtain ⟨hmem, htemp, -⟩ := ownerAt?_eq_some hl
    have hroom := h.room l hmem
    rw [htemp] at hroom
    -- the variable exists if the temporary does
    by_cases hid : id < a.temps.size
    · exact Or.inr ⟨_, _, checkIndex_bind_eq_ok.2 ⟨hid, rfl⟩,
        checkIndex_bind_eq_ok.2 ⟨hroom.2 hid, rfl⟩, h.assign hname hlive hout hl hid x⟩
    · exact Or.inl ⟨_, _, checkIndex_bind_eq_error hid,
        checkIndex_bind_eq_error (mt hroom.1 hid), Or.inr ⟨l, hmem, by rw [htemp], rfl⟩⟩

variable [Scalar R] {tables : Array (List ℕ)}

/-- A call touches no temporary, so it does the same in both streams. -/
lemma call (h : Tracks name lifetimes before a temps) {inst : Instruction R} {o : Op R}
    (hlive : inst.liveOp? = some o) {c : Call R} (hstmt : o.stmt = .call c) :
    (∃ f, a.runStmt tables (.call c) = .error f ∧
      ({ a with temps } : Machine R).runStmt tables (.call c) = .error f) ∨
    ∃ a' temps', a.runStmt tables (.call c) = .ok a' ∧
      ({ a with temps } : Machine R).runStmt tables (.call c) = .ok { a' with temps := temps' } ∧
      Tracks name lifetimes (before ++ [inst]) a' temps' := by
  obtain ⟨temps₀, input, output, lanes⟩ := a
  cases hcall : Machine.callLanes tables lanes c with
  | error f => exact Or.inl ⟨f, by simp [Machine.runStmt, hcall], by simp [Machine.runStmt, hcall]⟩
  | ok lanes' =>
    refine Or.inr ⟨⟨temps₀, input, output, lanes'⟩, temps, by simp [Machine.runStmt, hcall],
      by simp [Machine.runStmt, hcall], h.skip rfl fun o' hlive' id hid => ?_⟩
    obtain rfl : o = o' := Option.some.inj (hlive.symm.trans hlive')
    rw [Op.outputs, hstmt, Stmt.outputs, Call.mem_symbols] at hid
    simp at hid

/-- One operation: it fails in both streams alike, or leaves the books in order. -/
lemma runStmt (h : Tracks name lifetimes before a temps)
    (hname : Set.InjOn name {l | l ∈ lifetimes}) {inst : Instruction R} {o : Op R}
    (hlive : inst.liveOp? = some o)
    (howner : ∀ id, .temp id ∈ o.inputs → ∃ w l, lastWriter before (.temp id) = some w ∧
      ownerAt? lifetimes id w = some l ∧ ownerAt? lifetimes id before.length = some l)
    {stmt' : Stmt R} (hstmt' : o.stmt.rename? (nameAt? name lifetimes before.length) = some stmt') :
    (∃ f f', a.runStmt tables o.stmt = .error f ∧
      ({ a with temps } : Machine R).runStmt tables stmt' = .error f' ∧
      SameFault name lifetimes a.temps.size temps.size f f') ∨
    ∃ a' temps', a.runStmt tables o.stmt = .ok a' ∧
      ({ a with temps } : Machine R).runStmt tables stmt' = .ok { a' with temps := temps' } ∧
      Tracks name lifetimes (before ++ [inst]) a' temps' := by
  cases hstmt : o.stmt with
  | call c =>
    rw [hstmt] at hstmt'
    obtain rfl := Option.some.inj hstmt'
    rcases h.call hlive hstmt with ⟨f, hf, hf'⟩ | hrun
    · exact Or.inl ⟨f, f, hf, hf', Or.inl rfl⟩
    · exact Or.inr hrun
  | assign dst value =>
    rw [hstmt] at hstmt'
    obtain ⟨dst', hdst', hstmt'⟩ := Option.bind_eq_some_iff.1 hstmt'
    obtain ⟨value', hvalue', hstmt'⟩ := Option.bind_eq_some_iff.1 hstmt'
    obtain rfl := Option.some.inj hstmt'
    -- what is read has the same value under both names, by the owner that wrote it
    have heval : value.evalIn a.read = value'.evalIn ({ a with temps } : Machine R).read := by
      refine Expr.evalIn_rename? hvalue' fun s hs s' hs' => h.read_eq ?_ hs'
      rintro id rfl
      exact howner id (by simpa [Op.inputs, hstmt, Stmt.inputs] using hs)
    simp only [Machine.runStmt, ← heval]
    cases value.evalIn a.read with
    | error f => exact Or.inl ⟨f, f, rfl, rfl, Or.inl rfl⟩
    | ok x => exact h.write hname hlive (by rw [Op.outputs, hstmt, Stmt.outputs]) hdst' x

/-- One entry: it fails in both streams alike, or leaves the books in order. -/
lemma step (h : Tracks name lifetimes before a temps)
    (hname : Set.InjOn name {l | l ∈ lifetimes}) {inst inst' : Instruction R}
    (howner : ∀ o, inst.liveOp? = some o → ∀ id, .temp id ∈ o.inputs →
      ∃ w l, lastWriter before (.temp id) = some w ∧ ownerAt? lifetimes id w = some l ∧
        ownerAt? lifetimes id before.length = some l)
    (hinst' : renameAt? name lifetimes before.length inst = some inst') :
    (∃ f f', a.step tables inst = .error f ∧
      ({ a with temps } : Machine R).step tables inst' = .error f' ∧
      SameFault name lifetimes a.temps.size temps.size f f') ∨
    ∃ a' temps', a.step tables inst = .ok a' ∧
      ({ a with temps } : Machine R).step tables inst' = .ok { a' with temps := temps' } ∧
      Tracks name lifetimes (before ++ [inst]) a' temps' := by
  unfold renameAt? at hinst'
  cases hlive : inst.liveOp? with
  | none =>
    rw [hlive] at hinst'
    obtain rfl := Option.some.inj hinst'
    refine Or.inr ⟨a, temps, ?_, ?_, h.skip rfl (by simp [hlive])⟩
    · simp [Machine.step, hlive]
    · simp [Machine.step, hlive]
  | some o =>
    rw [hlive] at hinst'
    obtain ⟨stmt', hstmt', rfl⟩ := Option.map_eq_some_iff.1 hinst'
    have hpruned := (Instruction.liveOp?_eq_some.1 hlive).2
    have hstep : a.step tables inst = a.runStmt tables o.stmt := by simp [Machine.step, hlive]
    have hstep' (b : Machine R) :
        b.step tables (.op { o with stmt := stmt' }) = b.runStmt tables stmt' := by
      simp [Machine.step, Instruction.liveOp?, hpruned]
    rw [hstep, hstep']
    exact h.runStmt hname hlive (howner o hlive) hstmt'

end Tracks

/-- Both streams, run up to any position: they fail alike, or the books are in order. -/
lemma exists_tracks [Scalar R] (tables : Array (List ℕ))
    (hname : Set.InjOn name {l | l ∈ lifetimes}) (hapart : lifetimes.Pairwise Apart)
    (hcheck : check lifetimes stream = .ok ()) {renamed : List (Instruction R)}
    (hrenamed : ∀ i : ℕ, renamed[i]? = stream[i]?.bind (renameAt? name lifetimes i))
    {m : Machine R} {temps : Array R}
    (hroom : ∀ l ∈ lifetimes, name l < temps.size ↔ l.temp < m.temps.size) (i : ℕ) :
    (∃ f f', m.execute tables (stream.take i) = .error f ∧
      ({ m with temps } : Machine R).execute tables (renamed.take i) = .error f' ∧
      SameFault name lifetimes m.temps.size temps.size f f') ∨
    ∃ a temps', m.execute tables (stream.take i) = .ok a ∧
      ({ m with temps } : Machine R).execute tables (renamed.take i) =
        .ok { a with temps := temps' } ∧
      Tracks name lifetimes (stream.take i) a temps' := by
  induction i with
  | zero => exact Or.inr ⟨m, temps, rfl, rfl, hroom, by simp⟩
  | succ i ih =>
    cases hinst : stream[i]? with
    | none =>
      -- behind the end, both prefixes stay as they are
      have hend : renamed[i]? = none := by simp [hrenamed, hinst]
      simpa only [List.take_add_one, hinst, hend, Option.toList_none, List.append_nil] using ih
    | some inst =>
      obtain ⟨hi, rfl⟩ := List.getElem?_eq_some_iff.1 hinst
      have hsplit : stream = stream.take i ++ stream[i] :: stream.drop (i + 1) := by simp
      have hlen : (stream.take i).length = i := by simp; omega
      obtain ⟨inst', hinst'⟩ := exists_renameAt? name hapart hcheck hsplit
      rw [hlen] at hinst'
      have hget : renamed[i]? = some inst' := by simpa [hrenamed, hinst] using hinst'
      rw [List.take_add_one, List.take_add_one, hinst, hget, Option.toList_some, Option.toList_some,
        Machine.execute_concat, Machine.execute_concat]
      rcases ih with ⟨f, f', hf, hf', hsame⟩ | ⟨a, temps', ha, hb, htracks⟩
      · exact Or.inl ⟨f, f', by rw [hf]; rfl, by rw [hf']; rfl, hsame⟩
      · -- neither run changes the number of its temporaries
        have hsize : a.temps.size = m.temps.size := congrArg Prod.fst (Machine.shape_of_execute ha)
        have hsize' : temps'.size = temps.size := congrArg Prod.fst (Machine.shape_of_execute hb)
        rw [ha, hb, ← hsize, ← hsize']
        refine htracks.step hname (fun o hlive id hid => ?_) (by rwa [hlen])
        exact owner_of_read hapart hcheck hsplit hlive hid

/-- A stream that passes the check is free of clobbering. If lifetimes of one temporary are apart,
the temporaries can be renamed to variables of their owners, `name` giving different ones to
different lifetimes. From any state, and whatever the variables hold at first, the renamed stream
fails where the stream does, and by the same fault; otherwise, at every position, all symbols but
the temporaries are the same in both, and the operation that was run last stored the same values. -/
theorem check_separates [Scalar R] (hname : Set.InjOn name {l | l ∈ lifetimes})
    (hapart : lifetimes.Pairwise Apart) (hcheck : check lifetimes stream = .ok ()) :
    ∃ renamed, rename? name lifetimes stream = some renamed ∧
      ∀ (tables : Array (List ℕ)) (m : Machine R) (temps : Array R),
        (∀ l ∈ lifetimes, name l < temps.size ↔ l.temp < m.temps.size) → ∀ i,
        (∃ f f', m.execute tables (stream.take i) = .error f ∧
          ({ m with temps } : Machine R).execute tables (renamed.take i) = .error f' ∧
          SameFault name lifetimes m.temps.size temps.size f f') ∨
        ∃ a b, m.execute tables (stream.take i) = .ok a ∧
          ({ m with temps } : Machine R).execute tables (renamed.take i) = .ok b ∧
          (∀ s, s.tempId? = none → a.read s = b.read s) ∧
          ∀ j o, j + 1 = i → stream[j]? = some (.op o) → o.pruned = false → ∀ s ∈ o.outputs,
            ∃ s', nameAt? name lifetimes j s = some s' ∧ a.read s = b.read s' := by
  have hsplit {position : ℕ} {inst : Instruction R} (hinst : stream[position]? = some inst) :
      stream = stream.take position ++ inst :: stream.drop (position + 1) ∧
        (stream.take position).length = position := by
    obtain ⟨hlt, rfl⟩ := List.getElem?_eq_some_iff.1 hinst
    exact ⟨by simp, by simp; omega⟩
  have hentries (position : ℕ) (inst : Instruction R) (hinst : stream[position]? = some inst) :
      ∃ inst', renameAt? name lifetimes position inst = some inst' := by
    have hentry := exists_renameAt? name hapart hcheck (hsplit hinst).1
    rwa [(hsplit hinst).2] at hentry
  obtain ⟨renamed, hrenamed, hget⟩ := exists_rename? hentries
  refine ⟨renamed, hrenamed, fun tables m temps hroom i => ?_⟩
  rcases exists_tracks tables hname hapart hcheck hget hroom i with hfail | hrun
  · exact Or.inl hfail
  obtain ⟨a, temps', ha, hb, htracks⟩ := hrun
  refine Or.inr ⟨a, _, ha, hb, fun s hs => ?_, ?_⟩
  · cases s with
    | temp id => cases hs
    | input i | output i | real i | imag i => rfl
  · rintro j o rfl hj hpruned s hs
    have hlive := Instruction.liveOp?_eq_some.2 ⟨rfl, hpruned⟩
    obtain ⟨hstream, hlen⟩ := hsplit hj
    obtain ⟨s', hs'⟩ := exists_nameAt? name hapart hcheck hstream hlive (Or.inr hs)
    rw [hlen] at hs'
    refine ⟨s', hs', htracks.read_eq (fun id hid => ?_) hs'⟩
    -- the operation is the last writer of what it writes
    obtain ⟨l, hl⟩ := owner_of_write hcheck hj (hid ▸ hs)
    refine ⟨j, l, ?_, hl, hl⟩
    rw [List.take_add_one, hj, Option.toList_some, lastWriter_concat, hlive]
    simp [hs, hlen]

/-- The first temporary passes to another owner while its old value is kept in the second. -/
def recycling : List (Instruction Float) :=
  [.op { stmt := .assign (.temp 0) (.sym (.input 0)) },
    .op { stmt := .assign (.temp 1) (.sym (.temp 0)) },
    .op { stmt := .assign (.temp 0) (.sym (.input 1)) },
    .op { stmt := .assign (.output 0) (.sub (.sym (.temp 1)) (.sym (.temp 0))), mandatory := true }]

/-- The lifetimes of `recycling`. -/
def recyclingLifetimes : List Lifetime :=
  [⟨0, 0, some 2⟩, ⟨1, 1, none⟩, ⟨0, 2, none⟩]

theorem check_separates_recycling :
    ∃ renamed, rename? openedAt recyclingLifetimes recycling = some renamed ∧
      ∃ b : Machine Float,
        Machine.execute #[] renamed
          ⟨#[0.0, 0.0, 0.0], #[1.5, 2.5], some #[0.0], ⟨#[], #[]⟩⟩ = .ok b ∧
        b.read (.output 0) = .ok (1.5 - 2.5) := by
  have hname : Set.InjOn openedAt {l | l ∈ recyclingLifetimes} := by
    intro l hl l' hl' h
    simp only [recyclingLifetimes, List.mem_cons, List.not_mem_nil, or_false,
      Set.mem_ofPred_eq] at hl hl'
    rcases hl with rfl | rfl | rfl <;> rcases hl' with rfl | rfl | rfl <;> simp_all
  have hapart : recyclingLifetimes.Pairwise Apart := by
    simp [recyclingLifetimes, Apart, contains_iff]
  have hcheck : check recyclingLifetimes recycling = .ok () := by cbv
  obtain ⟨renamed, hrenamed, hruns⟩ := check_separates hname hapart hcheck
  have hlength : renamed.length = 4 := by
    obtain rfl := Option.some.inj (hrenamed.symm.trans rfl)
    rfl
  have hrun := hruns #[] ⟨#[0.0, 0.0], #[1.5, 2.5], some #[0.0], ⟨#[], #[]⟩⟩ #[0.0, 0.0, 0.0]
    (by simp [recyclingLifetimes]) 4
  refine ⟨renamed, hrenamed, ?_⟩
  rcases hrun with ⟨f, _, hf, -⟩ | ⟨a, b, ha, hb, hread, -⟩
  · cases hf
  · rw [List.take_of_length_le hlength.le] at hb
    obtain rfl := Except.ok.inj (ha.symm.trans rfl)
    exact ⟨b, hb, (hread (.output 0) rfl).symm⟩

end Lifetime

end MixedRadix
