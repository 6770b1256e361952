import MixedRadix.Proofs.Lifetime
import MixedRadix.Proofs.Success

/-!
# What emitted code does

A scene says what is known at a point of a stream: which temporaries are held, what locations hold,
and which results are settled. `Emits S x Q` says that the computation `x` succeeds from every
builder that is at the scene `S`, that the code it appends runs on every machine that shows `S`, and
that it leads to a scene of which `Q` holds. Such statements are proved one emitted operation after
the other; they are about the computations that emit code, and the code itself is never named.
-/

namespace MixedRadix

variable {R : Type}

/-! ### Values of expressions -/

section Yields

variable [Scalar R]

/-- The value of an expression whose symbols are known. -/
inductive Expr.Yields (value : Symbol → Option R) : Expr R → R → Prop
  | sym {s : Symbol} {x : R} (h : value s = some x) : Yields value (.sym s) x
  | lit (x : R) : Yields value (.lit x) x
  | neg {a : Expr R} {x : R} (ha : Yields value a x) : Yields value (-a) (-x)
  | add {a b : Expr R} {x y : R} (ha : Yields value a x) (hb : Yields value b y) :
    Yields value (a + b) (x + y)
  | sub {a b : Expr R} {x y : R} (ha : Yields value a x) (hb : Yields value b y) :
    Yields value (a - b) (x - y)
  | mul {a b : Expr R} {x y : R} (ha : Yields value a x) (hb : Yields value b y) :
    Yields value (a * b) (x * y)

lemma Expr.Yields.evalIn {value : Symbol → Option R} {e : Expr R} {x : R} (h : e.Yields value x)
    {ε : Type} {read : Symbol → Except ε R} (hread : ∀ s y, value s = some y → read s = .ok y) :
    e.evalIn read = .ok x := by
  induction h with
  | sym h => exact hread _ _ h
  | lit x => rfl
  | neg ha iha =>
    rw [neg_eq, Expr.evalIn, iha]
    rfl
  | add ha hb iha ihb =>
    rw [add_eq, Expr.evalIn, iha, ihb]
    rfl
  | sub ha hb iha ihb =>
    rw [sub_eq, Expr.evalIn, iha, ihb]
    rfl
  | mul ha hb iha ihb =>
    rw [mul_eq, Expr.evalIn, iha, ihb]
    rfl

lemma Expr.Yields.isSome {value : Symbol → Option R} {e : Expr R} {x : R} (h : e.Yields value x)
    {s : Symbol} (hs : s ∈ e.occurrences) : (value s).isSome := by
  induction h with
  | sym h =>
    obtain rfl := List.mem_singleton.1 hs
    simp [h]
  | lit x => simp at hs
  | neg ha iha => exact iha hs
  | add ha hb iha ihb =>
    rw [add_eq, occurrences_add, List.mem_append] at hs
    exact hs.elim iha ihb
  | sub ha hb iha ihb =>
    rw [sub_eq, occurrences_sub, List.mem_append] at hs
    exact hs.elim iha ihb
  | mul ha hb iha ihb =>
    rw [mul_eq, occurrences_mul, List.mem_append] at hs
    exact hs.elim iha ihb

lemma Expr.Yields.mono {value value' : Symbol → Option R} {e : Expr R} {x : R}
    (h : e.Yields value x) (hv : ∀ s y, value s = some y → value' s = some y) :
    e.Yields value' x := by
  induction h with
  | sym h => exact .sym (hv _ _ h)
  | lit x => exact .lit x
  | neg ha iha => exact .neg iha
  | add ha hb iha ihb => exact .add iha ihb
  | sub ha hb iha ihb => exact .sub iha ihb
  | mul ha hb iha ihb => exact .mul iha ihb

end Yields

/-! ### Scenes -/

/-- What is known at a point of a stream. -/
@[ext]
structure Scene (R : Type) where
  /-- The temporaries in use. -/
  held : Set ℕ
  /-- The contents of the locations of which they are known. -/
  value : Symbol → Option R
  /-- Symbols that no operation wrote, or of which the last writer is mandatory; temporaries
  apart. -/
  settled : Set Symbol
  held_of_value : ∀ {id x}, value (.temp id) = some x → id ∈ held
  isTemp_of_settled : ∀ {s}, s ∈ settled → s.isTemp = false

namespace Scene

variable (S : Scene R)

/-- A temporary is held; no other symbol has an owner. -/
def Owns (s : Symbol) : Prop :=
  ∀ id, s = .temp id → id ∈ S.held

/-- The symbol is a temporary, or its contents are known. -/
def Knows (s : Symbol) : Prop :=
  s.isTemp = true ∨ (S.value s).isSome

/-- A value can be assigned to the symbol. -/
def Writable : Symbol → Prop
  | .temp id => id ∈ S.held
  | .input _ => False
  | s => (S.value s).isSome

open Classical in
/-- A value is assigned to a symbol. -/
noncomputable def assign (s : Symbol) (x : R) : Scene R where
  held := S.held
  value t := if t = s ∧ S.Owns s then some x else S.value t
  settled := S.settled \ {s}
  held_of_value := by
    intro id y h
    split at h
    · rename_i ht
      exact ht.2 id ht.1.symm
    · exact S.held_of_value h
  isTemp_of_settled h := S.isTemp_of_settled h.1

/-- The contents of a symbol are a result. -/
def settle (s : Symbol) : Scene R where
  held := S.held
  value := S.value
  settled := {t | (t = s ∨ t ∈ S.settled) ∧ t.isTemp = false}
  held_of_value := S.held_of_value
  isTemp_of_settled h := h.2

/-- A temporary is handed out. -/
def hold (id : ℕ) : Scene R where
  held := insert id S.held
  value := S.value
  settled := S.settled
  held_of_value h := Set.mem_insert_of_mem _ (S.held_of_value h)
  isTemp_of_settled := S.isTemp_of_settled

/-- A temporary is taken back. -/
def drop (id : ℕ) : Scene R where
  held := S.held \ {id}
  value t := if t = .temp id then none else S.value t
  settled := S.settled
  held_of_value := by
    intro id' x h
    split at h
    · simp at h
    · rename_i hne
      exact ⟨S.held_of_value h, fun e => hne (congrArg Symbol.temp e)⟩
  isTemp_of_settled := S.isTemp_of_settled

variable {S}

lemma owns_of_value {s : Symbol} {x : R} (h : S.value s = some x) : S.Owns s := by
  rintro id rfl
  exact S.held_of_value h

lemma value_eq_none {id : ℕ} (h : id ∉ S.held) : S.value (.temp id) = none :=
  Option.eq_none_iff_forall_ne_some.2 fun _ hx => h (S.held_of_value hx)

lemma Writable.owns {s : Symbol} (h : S.Writable s) : S.Owns s := by
  rintro id rfl
  exact h

lemma Writable.knows {s : Symbol} (h : S.Writable s) : S.Knows s := by
  cases s with
  | temp id => exact Or.inl rfl
  | input i => exact h.elim
  | output i | real i | imag i => exact Or.inr h

lemma Writable.isInput {s : Symbol} (h : S.Writable s) : s.isInput = false := by
  cases s with
  | input i => exact h.elim
  | _ => rfl

@[simp] lemma assign_held (s : Symbol) (x : R) : (S.assign s x).held = S.held := rfl

@[simp] lemma settle_held (s : Symbol) : (S.settle s).held = S.held := rfl

@[simp] lemma settle_value (s : Symbol) : (S.settle s).value = S.value := rfl

@[simp] lemma hold_held (id : ℕ) : (S.hold id).held = insert id S.held := rfl

@[simp] lemma hold_value (id : ℕ) : (S.hold id).value = S.value := rfl

@[simp] lemma hold_settled (id : ℕ) : (S.hold id).settled = S.settled := rfl

@[simp] lemma drop_held (id : ℕ) : (S.drop id).held = S.held \ {id} := rfl

@[simp] lemma drop_settled (id : ℕ) : (S.drop id).settled = S.settled := rfl

lemma drop_value_of_ne {id : ℕ} {t : Symbol} (h : t ≠ .temp id) :
    (S.drop id).value t = S.value t :=
  if_neg h

lemma assign_value_self {s : Symbol} (h : S.Owns s) (x : R) : (S.assign s x).value s = some x :=
  if_pos ⟨rfl, h⟩

lemma assign_value_of_ne {s t : Symbol} (h : t ≠ s) (x : R) : (S.assign s x).value t = S.value t :=
  if_neg fun ht => h ht.1

@[simp] lemma assign_settled (s : Symbol) (x : R) : (S.assign s x).settled = S.settled \ {s} := rfl

lemma assign_settled_temp (id : ℕ) (x : R) : (S.assign (.temp id) x).settled = S.settled :=
  Set.sdiff_singleton_eq_self fun h => Bool.noConfusion (S.isTemp_of_settled h)

lemma Writable.assign {s t : Symbol} (h : S.Writable t) (x : R) : (S.assign s x).Writable t := by
  cases t with
  | temp id => exact h
  | input i => exact h
  | output i | real i | imag i =>
    simp only [Writable, Scene.assign]
    split
    · rfl
    · exact h

lemma Writable.settle {s : Symbol} (h : S.Writable s) (t : Symbol) : (S.settle t).Writable s := by
  cases s <;> exact h

/-- Nothing is different outside of some symbols. -/
structure SameOff (symbols : List Symbol) (S S' : Scene R) : Prop where
  held_eq : S'.held = S.held
  value_eq : ∀ s ∉ symbols, S'.value s = S.value s
  settled_iff : ∀ s ∉ symbols, s ∈ S'.settled ↔ s ∈ S.settled

lemma SameOff.refl (symbols : List Symbol) (S : Scene R) : SameOff symbols S S :=
  ⟨rfl, fun _ _ => rfl, fun _ _ => Iff.rfl⟩

lemma SameOff.trans {symbols : List Symbol} {S₁ S₂ S₃ : Scene R} (h : SameOff symbols S₁ S₂)
    (h' : SameOff symbols S₂ S₃) : SameOff symbols S₁ S₃ :=
  ⟨h'.held_eq.trans h.held_eq, fun s hs => (h'.value_eq s hs).trans (h.value_eq s hs),
    fun s hs => (h'.settled_iff s hs).trans (h.settled_iff s hs)⟩

lemma SameOff.mono {symbols symbols' : List Symbol} {S S' : Scene R} (h : SameOff symbols S S')
    (hsub : symbols ⊆ symbols') : SameOff symbols' S S' :=
  ⟨h.held_eq, fun s hs => h.value_eq s fun hmem => hs (hsub hmem),
    fun s hs => h.settled_iff s fun hmem => hs (hsub hmem)⟩

lemma sameOff_assign {symbols : List Symbol} {s : Symbol} (hs : s ∈ symbols) (x : R) :
    SameOff symbols S (S.assign s x) where
  held_eq := rfl
  value_eq _ ht := assign_value_of_ne (ne_of_mem_of_not_mem hs ht).symm x
  settled_iff _ ht := and_iff_left (ne_of_mem_of_not_mem hs ht).symm

end Scene

/-- The machine holds what the scene knows, each symbol at a place of its own. -/
structure Machine.Shows (m : Machine R) (S : Scene R) : Prop where
  separate : m.Separate
  contents : ∀ {s x}, S.value s = some x → m.contents? s = some x

namespace Builder

/-- The pool of the builder has handed out the temporaries that the scene holds, and will hand out
no name twice. -/
structure Holds (b : Builder R) (S : Scene R) : Prop where
  mem_inUse : ∀ id, id ∈ b.temps.inUse ↔ id ∈ S.held
  lt_next : ∀ id ∈ S.held, id < b.temps.next
  free_lt : ∀ id ∈ b.temps.free.toList, id < b.temps.next
  free_notMem : ∀ id ∈ b.temps.free.toList, id ∉ S.held
  free_nodup : b.temps.free.toList.Nodup

/-- The stream of the builder consists of assignments that keep to the lifetimes of temporaries, and
the settled symbols of the scene are results of mandatory ones. -/
structure Tidy (b : Builder R) (S : Scene R) : Prop where
  ledger : b.Ledger S.held {id | (S.value (.temp id)).isSome}
  assigns : ∀ o, .op o ∈ b.stream.toList → o.pruned = false ∧ ∃ dst e, o.stmt = .assign dst e
  settled : ∀ s ∈ S.settled, ∀ w, lastWriter b.stream.toList s = some w →
    ∃ o, b.stream.toList[w]? = some (.op o) ∧ o.mandatory = true

end Builder

section Emission

variable [Scalar R]

/-- Code that leads from one scene to another on every machine with enough temporaries. -/
def Leads (code : List (Instruction R)) (temps : ℕ) (S S' : Scene R) : Prop :=
  ∀ tables (m : Machine R), m.Shows S → temps ≤ m.temps.size →
    ∃ m', m.execute tables code = .ok m' ∧ m'.Shows S' ∧ m'.shape = m.shape

/-- The second builder comes from the first one by appending code that leads from one scene to the
other, and that touches nothing but temporaries and what the first scene knows. -/
structure Emission (b : Builder R) (S : Scene R) (b' : Builder R) (S' : Scene R) : Prop where
  holds : b'.Holds S'
  tidy : b.Tidy S → b'.Tidy S'
  next_le : b.temps.next ≤ b'.temps.next
  shiftTables : b'.shiftTables = b.shiftTables
  known : ∀ s, S'.Knows s → S.Knows s
  code : ∃ code, b'.stream.toList = b.stream.toList ++ code ∧ Leads code b'.temps.next S S' ∧
    ∀ o, .op o ∈ code → ∀ s ∈ o.inputs ++ o.outputs, S.Knows s

lemma Leads.nil (temps : ℕ) (S : Scene R) : Leads [] temps S S :=
  fun _ m hm _ => ⟨m, rfl, hm, rfl⟩

lemma Leads.append {code code' : List (Instruction R)} {temps : ℕ} {S S₁ S₂ : Scene R}
    (h : Leads code temps S S₁) (h' : Leads code' temps S₁ S₂) :
    Leads (code ++ code') temps S S₂ := by
  intro tables m hm htemps
  obtain ⟨m₁, hrun, hm₁, hshape⟩ := h tables m hm htemps
  have htemps₁ : m₁.temps.size = m.temps.size := congrArg Prod.fst hshape
  obtain ⟨m₂, hrun', hm₂, hshape'⟩ := h' tables m₁ hm₁ (by omega)
  refine ⟨m₂, ?_, hm₂, hshape'.trans hshape⟩
  rw [Machine.execute_append, hrun]
  exact hrun'

lemma Leads.mono {code : List (Instruction R)} {temps temps' : ℕ} {S S' : Scene R}
    (h : Leads code temps S S') (hle : temps ≤ temps') : Leads code temps' S S' :=
  fun tables m hm htemps => h tables m hm (hle.trans htemps)

lemma Emission.refl {b : Builder R} {S : Scene R} (h : b.Holds S) : Emission b S b S :=
  ⟨h, id, le_rfl, rfl, fun _ hs => hs, [], by simp, Leads.nil _ S, by simp⟩

lemma Emission.trans {b₁ b₂ b₃ : Builder R} {S₁ S₂ S₃ : Scene R} (h : Emission b₁ S₁ b₂ S₂)
    (h' : Emission b₂ S₂ b₃ S₃) : Emission b₁ S₁ b₃ S₃ := by
  obtain ⟨code, hcode, hleads, htouched⟩ := h.code
  obtain ⟨code', hcode', hleads', htouched'⟩ := h'.code
  refine ⟨h'.holds, fun ht => h'.tidy (h.tidy ht), h.next_le.trans h'.next_le,
    h'.shiftTables.trans h.shiftTables, fun s hs => h.known s (h'.known s hs), code ++ code',
    by rw [hcode', hcode, List.append_assoc], (hleads.mono h'.next_le).append hleads', ?_⟩
  intro o ho s hs
  rcases List.mem_append.1 ho with ho | ho
  · exact htouched o ho s hs
  · exact h.known s (htouched' o ho s hs)

/-- The computation succeeds from every builder at the scene, and leads to a scene of which `Q`
holds together with the result. -/
def Emits {α : Type} (S : Scene R) (x : Build R α) (Q : α → Scene R → Prop) : Prop :=
  ∀ b : Builder R, b.Holds S →
    ∃ a b' S', x.run.run b = (.ok a, b') ∧ Emission b S b' S' ∧ Q a S'

namespace Emits

variable {α β : Type} {S : Scene R} {x : Build R α} {Q Q' : α → Scene R → Prop}

lemma pure {a : α} (h : Q a S) : Emits S (Pure.pure a : Build R α) Q :=
  fun b hb => ⟨a, b, S, rfl, Emission.refl hb, h⟩

lemma mono (h : Emits S x Q) (hQ : ∀ a S', Q a S' → Q' a S') : Emits S x Q' := by
  intro b hb
  obtain ⟨a, b', S', hrun, hem, hq⟩ := h b hb
  exact ⟨a, b', S', hrun, hem, hQ a S' hq⟩

lemma bind {f : α → Build R β} {P : β → Scene R → Prop} (h : Emits S x Q)
    (hf : ∀ a S', Q a S' → Emits S' (f a) P) : Emits S (x >>= f) P := by
  intro b hb
  obtain ⟨a, b₁, S₁, hrun, hem, hq⟩ := h b hb
  obtain ⟨c, b₂, S₂, hrun', hem', hp⟩ := hf a S₁ hq b₁ hem.holds
  refine ⟨c, b₂, S₂, ?_, hem.trans hem', hp⟩
  simp only [ExceptT.run_bind, StateT.run_bind, hrun]
  exact hrun'

/-- Sequencing with a computation whose final scene is known. -/
lemma then_ {S₁ : Scene R} {f : α → Build R β} {P : β → Scene R → Prop}
    (h : Emits S x fun _ S' => S' = S₁) (hf : ∀ a, Emits S₁ (f a) P) : Emits S (x >>= f) P :=
  h.bind fun a _ hS => hS ▸ hf a

end Emits

/-! ### Operations -/

/-- The scene behind an assignment that is a result or not. -/
noncomputable def Scene.written (S : Scene R) (s : Symbol) (x : R) (mandatory : Bool) : Scene R :=
  if mandatory then (S.assign s x).settle s else S.assign s x

omit [Scalar R] in
@[simp] lemma Scene.written_held (S : Scene R) (s : Symbol) (x : R) (mandatory : Bool) :
    (S.written s x mandatory).held = S.held := by
  cases mandatory <;> rfl

omit [Scalar R] in
@[simp] lemma Scene.written_value (S : Scene R) (s : Symbol) (x : R) (mandatory : Bool) :
    (S.written s x mandatory).value = (S.assign s x).value := by
  cases mandatory <;> rfl

lemma leads_assign {S : Scene R} {s : Symbol} {e : Expr R} {x : R} {temps : ℕ}
    (hs : S.Writable s) (he : e.Yields S.value x) (htemps : ∀ id ∈ S.held, id < temps)
    (mandatory : Bool) :
    Leads [.op { stmt := .assign s e, mandatory }] temps S (S.written s x mandatory) := by
  intro tables m hm hsize
  have hhas : m.Has s := by
    cases s with
    | temp id => simpa [Machine.Has, Machine.contents?] using (htemps id hs).trans_le hsize
    | input i => exact hs.elim
    | output i | real i | imag i =>
      obtain ⟨y, hy⟩ := Option.isSome_iff_exists.1 hs
      simp [Machine.Has, hm.contents hy]
  obtain ⟨m', hwrite⟩ := Machine.exists_write hhas hs.isInput x
  obtain ⟨-, -, hshape, hself, -⟩ := Machine.write_eq_ok hwrite
  have heval : e.evalIn m.read = .ok x :=
    he.evalIn fun t y hy => Machine.read_eq_ok.2 (hm.contents hy)
  have hrun : m.runStmt tables (.assign s e) = .ok m' := by
    rw [Machine.runStmt, heval]
    exact hwrite
  refine ⟨m', ?_, ⟨hm.separate.of_shape hshape, fun {t y} ht => ?_⟩, hshape⟩
  · simp [Machine.execute, Machine.step, Instruction.liveOp?, hrun]
  · rw [Scene.written_value] at ht
    by_cases hts : t = s
    · subst hts
      obtain rfl : x = y := by simpa [Scene.assign_value_self hs.owns] using ht
      exact hself
    · rw [Scene.assign_value_of_ne hts] at ht
      rw [← Machine.read_eq_ok, hm.separate s t x m' (Ne.symm hts) hwrite, Machine.read_eq_ok]
      exact hm.contents ht

omit [Scalar R] in
lemma Builder.Tidy.push_assign {b : Builder R} {S : Scene R} (h : b.Tidy S) {s : Symbol}
    {e : Expr R} {x : R} (hs : S.Writable s) (he : ∀ t ∈ e.occurrences, (S.value t).isSome)
    (mandatory : Bool) :
    (b.push { stmt := .assign s e, mandatory }).Tidy (S.written s x mandatory) where
  ledger := by
    have hledger := h.ledger.push (o := { stmt := .assign s e, mandatory }) rfl
      (fun id hid => hs.owns id (List.mem_singleton.1 hid).symm)
      (fun id hid => he _ (Expr.mem_symbols.1 hid))
    have hknown : {id | ((S.written s x mandatory).value (.temp id)).isSome} =
        {id | (S.value (.temp id)).isSome} ∪ {id | .temp id ∈ [s]} := by
      ext id
      by_cases hid : Symbol.temp id = s
      · subst hid
        simp [Scene.assign_value_self hs.owns]
      · simp [Scene.assign_value_of_ne hid, hid]
    rw [hknown, Scene.written_held]
    exact hledger
  assigns := by
    intro o ho
    rw [Builder.push, Array.toList_push, List.mem_append, List.mem_singleton] at ho
    rcases ho with ho | ho
    · exact h.assigns o ho
    · obtain rfl := Instruction.op.inj ho
      exact ⟨rfl, s, e, rfl⟩
  settled := by
    intro t ht w hw
    simp only [Builder.push, Array.toList_push, lastWriter_concat, Instruction.liveOp?,
      Bool.false_eq_true, if_false] at hw ⊢
    by_cases hts : t = s
    · subst hts
      obtain rfl : b.stream.toList.length = w := by simpa [Op.outputs, Stmt.outputs] using hw
      cases mandatory with
      | true => exact ⟨{ stmt := .assign t e, mandatory := true }, by simp, rfl⟩
      | false => exact absurd rfl ht.2
    · have hw' : lastWriter b.stream.toList t = some w := by
        simpa [Op.outputs, Stmt.outputs, hts] using hw
      have ht' : t ∈ S.settled := by
        cases mandatory with
        | false => exact ht.1
        | true => exact (ht.1.resolve_left hts).1
      obtain ⟨o, ho, hmand⟩ := h.settled t ht' w hw'
      exact ⟨o, by rw [List.getElem?_append_left (lastWriter_lt hw'), ho], hmand⟩

omit [Scalar R] in
/-- A new temporary is one that is not held, and the books stay in order. -/
lemma Builder.Holds.allocTemp {b : Builder R} {S : Scene R} (h : b.Holds S) :
    b.temps.allocate.1 ∉ S.held ∧ b.allocTemp.2.Holds (S.hold b.temps.allocate.1) ∧
      b.temps.next ≤ b.allocTemp.2.temps.next := by
  have htemps : b.allocTemp.2.temps = b.temps.allocate.2 := rfl
  cases hpop : b.temps.free.pop? with
  | none =>
    have halloc : b.temps.allocate =
        (b.temps.next, { b.temps with next := b.temps.next + 1 }.take b.temps.next) := by
      rw [TempPool.allocate, hpop]
    have hfree := Fifo.toList_of_pop?_eq_none hpop
    have hnext : b.temps.next ∉ S.held := fun hmem => lt_irrefl _ (h.lt_next _ hmem)
    refine ⟨by rw [halloc]; exact hnext, ⟨?_, ?_, ?_, ?_, ?_⟩, ?_⟩ <;>
      rw [htemps, halloc] <;> simp only [TempPool.take]
    · intro id
      rw [Std.TreeSet.mem_insert, compare_eq_iff_eq, h.mem_inUse]
      exact or_congr eq_comm Iff.rfl
    · rintro id (rfl | hid)
      · exact Nat.lt_succ_self _
      · exact (h.lt_next id hid).trans (Nat.lt_succ_self _)
    · simp [hfree]
    · simp [hfree]
    · simp [hfree]
    · exact Nat.le_succ _
  | some popped =>
    obtain ⟨id, free⟩ := popped
    have halloc : b.temps.allocate = (id, { b.temps with free }.take id) := by
      rw [TempPool.allocate, hpop]
    have hfree := Fifo.toList_of_pop?_eq_some hpop
    have hmem : id ∈ b.temps.free.toList := by simp [hfree]
    have hnodup := h.free_nodup
    rw [hfree, List.nodup_cons] at hnodup
    refine ⟨by rw [halloc]; exact h.free_notMem id hmem, ⟨?_, ?_, ?_, ?_, ?_⟩, ?_⟩ <;>
      rw [htemps, halloc] <;> simp only [TempPool.take]
    · intro id'
      rw [Std.TreeSet.mem_insert, compare_eq_iff_eq, h.mem_inUse]
      exact or_congr eq_comm Iff.rfl
    · rintro id' (rfl | hid)
      · exact h.free_lt id' hmem
      · exact h.lt_next id' hid
    · exact fun id' hid => h.free_lt id' (by simp [hfree, hid])
    · rintro id' hid (rfl | hheld)
      · exact hnodup.1 hid
      · exact h.free_notMem id' (by simp [hfree, hid]) hheld
    · exact hnodup.2
    · exact le_rfl

omit [Scalar R] in
/-- Closing a lifetime changes the books alone. -/
lemma Builder.afterRelease_temp (b : Builder R) (id : ℕ) (temps : TempPool) :
    (b.afterRelease (.temp id) temps).temps = temps ∧
      (b.afterRelease (.temp id) temps).stream = b.stream ∧
      (b.afterRelease (.temp id) temps).shiftTables = b.shiftTables := by
  simp only [Builder.afterRelease, Symbol.tempId?, Builder.closeLifetime]
  split <;> exact ⟨rfl, rfl, rfl⟩

omit [Scalar R] in
/-- A temporary that is held can be released. -/
lemma Builder.Holds.release {b : Builder R} {S : Scene R} (h : b.Holds S) {id : ℕ}
    (hid : id ∈ S.held) :
    ∃ temps, b.temps.release (.temp id) = .ok temps ∧ temps.next = b.temps.next ∧
      (b.afterRelease (.temp id) temps).Holds (S.drop id) := by
  have hmem : id ∈ b.temps.inUse := (h.mem_inUse id).2 hid
  refine ⟨{ b.temps with inUse := b.temps.inUse.erase id, free := b.temps.free.push id }, ?_, rfl,
    ?_⟩
  · simp [TempPool.release, Symbol.tempId?, hmem]
  refine ⟨?_, ?_, ?_, ?_, ?_⟩ <;> rw [(b.afterRelease_temp id _).1]
  · intro id'
    rw [Std.TreeSet.mem_erase, Ne, compare_eq_iff_eq, h.mem_inUse, and_comm]
    exact and_congr_right fun _ => not_congr eq_comm
  · exact fun id' hid' => h.lt_next id' hid'.1
  · intro id' hid'
    rw [Fifo.toList_push, List.mem_append, List.mem_singleton] at hid'
    rcases hid' with hid' | rfl
    · exact h.free_lt id' hid'
    · exact h.lt_next id' hid
  · rintro id' hid' ⟨hheld, hne⟩
    rw [Fifo.toList_push, List.mem_append, List.mem_singleton] at hid'
    rcases hid' with hid' | rfl
    · exact h.free_notMem id' hid' hheld
    · exact hne rfl
  · rw [Fifo.toList_push]
    refine h.free_nodup.append (List.nodup_singleton id) ?_
    simpa using fun hfree => h.free_notMem id hfree hid

namespace Emits

variable {α : Type} {S : Scene R}

/-- Counting changes nothing else. -/
lemma count {b : Builder R} (hb : b.Holds S) (butterflies : ℕ) (rotations : RotationTally) :
    Emission b S { b with butterflies, rotations } S where
  holds := ⟨hb.mem_inUse, hb.lt_next, hb.free_lt, hb.free_notMem, hb.free_nodup⟩
  tidy h :=
    { ledger :=
        ⟨h.ledger.known_subset, h.ledger.apart, h.ledger.begun, h.ledger.closed, h.ledger.current,
          h.ledger.written, h.ledger.used⟩
      assigns := h.assigns
      settled := h.settled }
  next_le := le_rfl
  shiftTables := rfl
  known _ hs := hs
  code := ⟨[], by simp, Leads.nil _ S, by simp⟩

lemma recordButterfly : Emits S (Build.recordButterfly : Build R Unit) fun _ S' => S' = S :=
  fun _ hb => ⟨(), _, S, rfl, count hb _ _, rfl⟩

lemma recordRotation (turn : Turn) :
    Emits S (Build.recordRotation turn : Build R Unit) fun _ S' => S' = S :=
  fun _ hb => ⟨(), _, S, rfl, count hb _ _, rfl⟩

lemma comment (text : String) : Emits S (Build.comment text : Build R Unit) fun _ S' => S' = S := by
  intro b hb
  refine ⟨(), b.comment text, S, rfl, ?_, rfl⟩
  cases ha : b.annotate with
  | false =>
    have hsame : b.comment text = b := by simp [Builder.comment, ha]
    rw [hsame]
    exact Emission.refl hb
  | true =>
    have hpush : b.comment text = { b with stream := b.stream.push (.comment text) } := by
      simp [Builder.comment, ha]
    have hledger (h : b.Tidy S) := h.ledger.comment text
    rw [hpush] at hledger ⊢
    refine ⟨⟨hb.mem_inUse, hb.lt_next, hb.free_lt, hb.free_notMem, hb.free_nodup⟩,
      fun h => ⟨hledger h, fun o ho => h.assigns o (by simpa using ho), ?_⟩, le_rfl, rfl,
      fun _ hs => hs, [.comment text], by simp, fun _ m hm _ => ⟨m, rfl, hm, rfl⟩, by simp⟩
    intro s hs w hw
    have hw' : lastWriter b.stream.toList s = some w := by
      simpa [lastWriter_concat, Instruction.liveOp?] using hw
    obtain ⟨o, ho, hmand⟩ := h.settled s hs w hw'
    refine ⟨o, ?_, hmand⟩
    rw [Array.toList_push, List.getElem?_append_left (lastWriter_lt hw'), ho]

/-- What assigning and storing have in common. -/
lemma push {s : Symbol} {e : Expr R} {x : R} (hs : S.Writable s) (he : e.Yields S.value x)
    (mandatory : Bool) :
    Emits S (modify fun b => b.push { stmt := .assign s e, mandatory } : Build R Unit)
      fun _ S' => S' = S.written s x mandatory := by
  intro b hb
  refine ⟨(), _, _, rfl, ⟨?_, fun h => h.push_assign hs (fun t ht => he.isSome ht) mandatory,
    le_rfl, rfl, fun t ht => ?_, _, Array.toList_push, leads_assign hs he hb.lt_next mandatory, ?_⟩,
    rfl⟩
  · have hheld := Scene.written_held S s x mandatory
    exact ⟨hheld ▸ hb.mem_inUse, hheld ▸ hb.lt_next, hb.free_lt, hheld ▸ hb.free_notMem,
      hb.free_nodup⟩
  · by_cases hts : t = s
    · exact hts ▸ hs.knows
    · rwa [Scene.Knows, Scene.written_value, Scene.assign_value_of_ne hts] at ht
  · intro o ho t ht
    obtain rfl : o = { stmt := .assign s e, mandatory } := by simpa using ho
    rcases List.mem_append.1 ht with ht | ht
    · exact Or.inr (he.isSome (Expr.mem_symbols.1 ht))
    · exact List.mem_singleton.1 ht ▸ hs.knows

lemma assign {s : Symbol} {e : Expr R} {x : R} (hs : S.Writable s) (he : e.Yields S.value x) :
    Emits S (Build.assign s e) fun _ S' => S' = S.assign s x :=
  push hs he false

lemma store {s : Symbol} {e : Expr R} {x : R} (hs : S.Writable s) (he : e.Yields S.value x) :
    Emits S (Build.store s e) fun _ S' => S' = (S.assign s x).settle s :=
  push hs he true

lemma allocTemp : Emits S (Build.allocTemp : Build R Symbol)
    fun s S' => ∃ id, s = .temp id ∧ id ∉ S.held ∧ S' = S.hold id := by
  intro b hb
  obtain ⟨hid, hholds, hnext⟩ := hb.allocTemp
  refine ⟨.temp b.temps.allocate.1, b.allocTemp.2, _, rfl, ⟨hholds, fun h => ?_, hnext, rfl,
    fun _ hs => hs, [], by simp [Builder.allocTemp],
    fun _ m hm _ => ⟨m, rfl, ⟨hm.separate, hm.contents⟩, rfl⟩, by simp⟩, _, rfl, hid, rfl⟩
  exact ⟨h.ledger.allocTemp hid, h.assigns, h.settled⟩

lemma release {id : ℕ} (hid : id ∈ S.held) :
    Emits S (Build.release (.temp id) : Build R Unit) fun _ S' => S' = S.drop id := by
  intro b hb
  obtain ⟨temps, hrelease, hnext, hholds⟩ := hb.release hid
  have hrun : (Build.release (.temp id) : Build R Unit).run.run b =
      (.ok (), b.afterRelease (.temp id) temps) := by
    rw [Build.run_release, hrelease]
  obtain ⟨htemps, hstream, htables⟩ := b.afterRelease_temp id temps
  refine ⟨(), _, _, hrun, ⟨hholds, fun h => ⟨?_, ?_, ?_⟩, by rw [htemps, hnext], htables,
    fun s hs => ?_, [], by simp [hstream],
    fun _ m hm _ => ⟨m, rfl, ⟨hm.separate, fun {s x} hs => ?_⟩, rfl⟩, by simp⟩, rfl⟩
  · have hknown : {id' | ((S.drop id).value (.temp id')).isSome} =
        {id' | (S.value (.temp id')).isSome} \ {id} := by
      ext id'
      by_cases hne : id' = id <;> simp [Scene.drop, hne]
    have hledger : ({ b with temps } : Builder R).Ledger S.held
        {id' | (S.value (.temp id')).isSome} :=
      ⟨h.ledger.known_subset, h.ledger.apart, h.ledger.begun, h.ledger.closed, h.ledger.current,
        h.ledger.written, h.ledger.used⟩
    rw [hknown]
    exact hledger.closeLifetime hid
  · rw [hstream]
    exact h.assigns
  · rw [hstream]
    exact h.settled
  · by_cases hne : s = .temp id
    · exact Or.inl (hne ▸ rfl)
    · rwa [Scene.Knows, Scene.drop_value_of_ne hne] at hs
  · simp only [Scene.drop] at hs
    split at hs
    · simp at hs
    · exact hm.contents hs

/-! ### Loops and results from elsewhere -/

lemma ofFaulty {r : Except Fault α} {a : α} (h : r = .ok a) :
    Emits S (Build.ofFaulty r : Build R α) fun a' S' => a' = a ∧ S' = S := by
  subst h
  exact Emits.pure ⟨rfl, rfl⟩

lemma ofSized {r : Except BadSize α} {a : α} (h : r = .ok a) :
    Emits S (Build.ofSized r : Build R α) fun a' S' => a' = a ∧ S' = S := by
  subst h
  exact Emits.pure ⟨rfl, rfl⟩

lemma entry {xs : Array α} {i : ℕ} {a : α} (h : xs[i]? = some a) :
    Emits S (Build.entry xs i : Build R α) fun a' S' => a' = a ∧ S' = S :=
  ofFaulty (getOrFault_eq_ok.2 h)

/-- Sequencing with a computation that only reads. -/
lemma read {β : Type} {x : Build R α} {a : α} {f : α → Build R β} {P : β → Scene R → Prop}
    (h : Emits S x fun a' S' => a' = a ∧ S' = S) (hf : Emits S (f a) P) : Emits S (x >>= f) P := by
  refine h.bind ?_
  rintro _ _ ⟨rfl, rfl⟩
  exact hf

/-- A list of results, each of which is only read. -/
lemma mapM {β : Type} {xs : List β} {f : β → Build R α} {P : β → α → Prop}
    (h : ∀ y ∈ xs, Emits S (f y) fun a S' => P y a ∧ S' = S) :
    Emits S (xs.mapM f) fun as S' => List.Forall₂ P xs as ∧ S' = S := by
  induction xs with
  | nil => exact Emits.pure ⟨.nil, rfl⟩
  | cons y ys ih =>
    rw [List.mapM_cons]
    refine (h y (by simp)).bind ?_
    rintro a _ ⟨ha, rfl⟩
    refine (ih fun z hz => h z (by simp [hz])).bind ?_
    rintro as _ ⟨has, rfl⟩
    exact Emits.pure ⟨.cons ha has, rfl⟩

/-- A loop with an invariant that says how many rounds are done. -/
lemma forM {xs : List α} {f : α → Build R Unit} {I : ℕ → Scene R → Prop} (h0 : I 0 S)
    (hstep : ∀ i (hi : i < xs.length) S, I i S → Emits S (f xs[i]) fun _ S' => I (i + 1) S') :
    Emits S (xs.forM f) fun _ S' => I xs.length S' := by
  induction xs generalizing S I with
  | nil => exact Emits.pure h0
  | cons x xs ih =>
    refine (hstep 0 (by simp) S h0).bind fun _ S₁ h₁ => ?_
    exact ih (I := fun i => I (i + 1)) h₁ fun i hi S' hS' =>
      hstep (i + 1) (by simpa using hi) S' hS'

end Emits

end Emission

end MixedRadix
