import MixedRadix.Proofs.Bookkeeping

/-!
# Listings

What a computation appends to a stream, assignment by assignment. `Lists held x Q` says that the
computation `x` succeeds from every builder with exactly the temporaries of `held` in use, and that
`Q` holds of its result, of the temporaries in use behind it and of the assignments that it appends.
The assignments can be priced (`multiplications`), and they can be carried out on a store, which has
a place for every symbol there is (`assignAll`).
-/

namespace MixedRadix

variable {R : Type}

/-! ### Assignments -/

/-- An assignment as an entry of a stream. -/
def Instruction.ofAssignment (a : Symbol × Expr R) : Instruction R :=
  .op { stmt := .assign a.1 a.2 }

/-- How many multiplications some assignments take. -/
def multiplications : List (Symbol × Expr R) → ℕ
  | [] => 0
  | a :: code => a.2.cost.mul + multiplications code

@[simp]
lemma multiplications_nil : multiplications ([] : List (Symbol × Expr R)) = 0 := rfl

@[simp]
lemma multiplications_cons (a : Symbol × Expr R) (code : List (Symbol × Expr R)) :
    multiplications (a :: code) = a.2.cost.mul + multiplications code := rfl

lemma mul_liveCost (code : List (Symbol × Expr R)) :
    (liveCost (code.map Instruction.ofAssignment)).mul = multiplications code := by
  have hfold (total : Cost) :
      (((code.map Instruction.ofAssignment).filterMap Instruction.liveOp?).foldl
        (fun total o => total + o.cost) total).mul = total.mul + multiplications code := by
    induction code generalizing total with
    | nil => rfl
    | cons a code ih =>
      refine (ih (total + a.2.cost)).trans ?_
      rw [multiplications_cons, ← add_assoc]
      rfl
  exact (hfold {}).trans (zero_add _)

section Store

variable [Scalar R]

/-- The store behind some assignments. -/
def assignAll (code : List (Symbol × Expr R)) (σ : Symbol → R) : Symbol → R :=
  code.foldl (fun σ a => Function.update σ a.1 (a.2.eval σ)) σ

@[simp]
lemma assignAll_nil (σ : Symbol → R) : assignAll [] σ = σ := rfl

@[simp]
lemma assignAll_cons (a : Symbol × Expr R) (code : List (Symbol × Expr R)) (σ : Symbol → R) :
    assignAll (a :: code) σ = assignAll code (Function.update σ a.1 (a.2.eval σ)) := rfl

end Store

/-! ### Computations -/

/-- These temporaries are in use and no others, and every other name that was issued is free. -/
structure TempPool.Holds (p : TempPool) (held : Set ℕ) : Prop where
  partitioned : p.Partitioned
  mem_inUse : ∀ id, id ∈ p.inUse ↔ id ∈ held

lemma TempPool.Reachable.holds {p : TempPool} (h : p.Reachable) : p.Holds {id | id ∈ p.inUse} :=
  ⟨h.partitioned, fun _ => Iff.rfl⟩

/-- The computation succeeds from every builder with these temporaries in use, and `Q` holds of its
result, of the temporaries in use behind it and of the assignments that it appends. -/
def Lists {α : Type} (held : Set ℕ) (x : Build R α)
    (Q : α → Set ℕ → List (Symbol × Expr R) → Prop) : Prop :=
  ∀ b : Builder R, b.temps.Holds held →
    ∃ a b' held' code, x.run.run b = (.ok a, b') ∧ b'.temps.Holds held' ∧
      b'.stream.toList = b.stream.toList ++ code.map Instruction.ofAssignment ∧ Q a held' code

namespace Lists

variable {α β : Type} {held : Set ℕ} {x : Build R α}
  {Q : α → Set ℕ → List (Symbol × Expr R) → Prop}

lemma pure {a : α} (h : Q a held []) : Lists held (Pure.pure a : Build R α) Q :=
  fun b hb => ⟨a, b, held, [], rfl, hb, by simp, h⟩

lemma bind {f : α → Build R β} {P : β → Set ℕ → List (Symbol × Expr R) → Prop}
    (h : Lists held x Q) (hf : ∀ a held' code, Q a held' code →
      Lists held' (f a) fun c held'' code' => P c held'' (code ++ code')) :
    Lists held (x >>= f) P := by
  intro b hb
  obtain ⟨a, b₁, held₁, code, hrun, hb₁, hcode, hq⟩ := h b hb
  obtain ⟨c, b₂, held₂, code', hrun', hb₂, hcode', hp⟩ := hf a held₁ code hq b₁ hb₁
  refine ⟨c, b₂, held₂, code ++ code', ?_, hb₂, ?_, hp⟩
  · simp only [ExceptT.run_bind, StateT.run_bind, hrun]
    exact hrun'
  · rw [hcode', hcode, List.map_append, List.append_assoc]

/-- An assignment first. -/
lemma assign_bind {s : Symbol} {e : Expr R} {f : Unit → Build R α}
    (h : Lists held (f ()) fun a held' code => Q a held' ((s, e) :: code)) :
    Lists held (Build.assign s e >>= f) Q := by
  have hassign : Lists held (Build.assign s e) fun _ held' code => held' = held ∧ code = [(s, e)] :=
    fun b hb => ⟨(), b.assign s e, held, [(s, e)], rfl, ⟨hb.partitioned, hb.mem_inUse⟩,
      Array.toList_push, rfl, rfl⟩
  refine hassign.bind ?_
  rintro _ _ _ ⟨rfl, rfl⟩
  exact h

lemma assign {s : Symbol} {e : Expr R} {Q : Unit → Set ℕ → List (Symbol × Expr R) → Prop}
    (h : Q () held [(s, e)]) : Lists held (Build.assign s e) Q :=
  assign_bind (f := fun _ => Pure.pure ()) (pure h)

/-- A new temporary first. -/
lemma allocTemp_bind {f : Symbol → Build R α}
    (h : ∀ id ∉ held, Lists (insert id held) (f (.temp id)) Q) :
    Lists held (Build.allocTemp >>= f) Q := by
  have halloc : Lists held (Build.allocTemp : Build R Symbol) fun s held' code =>
      ∃ id ∉ held, s = .temp id ∧ held' = insert id held ∧ code = [] := by
    intro b hb
    obtain ⟨hnew, hpartitioned⟩ := hb.partitioned.allocate
    refine ⟨_, b.allocTemp.2, insert b.temps.allocate.1 held, [], rfl, ⟨hpartitioned, fun id => ?_⟩,
      by simp [Builder.allocTemp], _, mt (hb.mem_inUse _).2 hnew, rfl, rfl, rfl⟩
    refine TempPool.mem_allocate.trans ?_
    rw [hb.mem_inUse, Set.mem_insert_iff]
  refine halloc.bind ?_
  rintro _ _ _ ⟨id, hid, rfl, rfl, rfl⟩
  exact h id hid

lemma release {id : ℕ} (hid : id ∈ held) {Q : Unit → Set ℕ → List (Symbol × Expr R) → Prop}
    (h : Q () (held \ {id}) []) : Lists held (Build.release (.temp id)) Q := by
  intro b hb
  have hmem : id ∈ b.temps.inUse := (hb.mem_inUse id).2 hid
  set temps : TempPool :=
    { b.temps with inUse := b.temps.inUse.erase id, free := b.temps.free.push id } with htemps
  have hrelease : b.temps.release (.temp id) = .ok temps := by
    simp [TempPool.release, Symbol.tempId?, hmem, htemps]
  obtain ⟨lifetimes, openLifetimes, hafter⟩ := b.afterRelease_frame (.temp id) temps
  refine ⟨(), { b with temps, lifetimes, openLifetimes }, held \ {id}, [], ?_, ?_, by simp, h⟩
  · rw [Build.run_release, hrelease, ← hafter]
  · refine ⟨hb.partitioned.release hmem, fun id' => TempPool.mem_erase_inUse.trans ?_⟩
    rw [hb.mem_inUse, and_comm]
    rfl

/-- A release first. -/
lemma release_bind {id : ℕ} (hid : id ∈ held) {f : Unit → Build R α}
    (h : Lists (held \ {id}) (f ()) Q) : Lists held (Build.release (.temp id) >>= f) Q := by
  refine (release (Q := fun _ held' code => held' = held \ {id} ∧ code = []) hid ⟨rfl, rfl⟩).bind ?_
  rintro _ _ _ ⟨rfl, rfl⟩
  exact h

end Lists

end MixedRadix
