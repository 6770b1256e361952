import MixedRadix.Proofs.Admission

/-!
# Transforms in place

A machine whose outputs share the array of its samples runs a stream to the same results as one with
an array of its own for each, if the stream reads no sample behind the first result that it stores.
The code of cosine transforms comes in two such parts, so its kernels can be run in place, whatever
the arithmetic (`Config.runInPlace_eq_runReal`).
-/

namespace MixedRadix

variable {R : Type}

/-! ### Machines -/

namespace Machine

/-- The second machine is the first one with its outputs in the place of its samples. -/
def Mirrors (m m₁ : Machine R) : Prop :=
  ∃ out, m.output = some out ∧ m₁ = { m with input := out, output := none }

/-- Both machines read the same, but for samples that are gone. -/
lemma Mirrors.read_eq {m m₁ : Machine R} (h : m.Mirrors m₁) {s : Symbol}
    (hs : m.input = m₁.input ∨ s.isInput = false) : m₁.read s = m.read s := by
  obtain ⟨out, hout, rfl⟩ := h
  cases s with
  | input i =>
    rcases hs with hs | hs
    · exact congrArg (getOrFault · i) hs.symm
    · exact Bool.noConfusion hs
  | output i => simp [read, hout]
  | temp id | real i | imag i => rfl

/-- A value that one machine can be given, the other one can be given too. -/
lemma Mirrors.write {m m₁ m' : Machine R} (h : m.Mirrors m₁) {s : Symbol} {x : R}
    (hwrite : m.write s x = .ok m') :
    ∃ m₁', m₁.write s x = .ok m₁' ∧ m'.Mirrors m₁' ∧ m'.input = m.input ∧
      ((∀ i, s ≠ .output i) → m₁'.input = m₁.input) := by
  obtain ⟨out, hout, rfl⟩ := h
  obtain ⟨temps, input, output, re, im⟩ := m
  obtain rfl : output = some out := hout
  cases s with
  | temp id =>
    obtain ⟨hid, rfl⟩ := checkIndex_bind_eq_ok.1 hwrite
    exact ⟨_, checkIndex_bind_eq_ok.2 ⟨hid, rfl⟩, ⟨out, rfl, rfl⟩, rfl, fun _ => rfl⟩
  | input i => cases hwrite
  | output i =>
    -- the only write that changes the samples of the second machine
    obtain ⟨hi, rfl⟩ := checkIndex_bind_eq_ok.1 hwrite
    exact ⟨_, checkIndex_bind_eq_ok.2 ⟨hi, rfl⟩, ⟨_, rfl, rfl⟩, rfl, fun hne => absurd rfl (hne i)⟩
  | real i =>
    obtain ⟨hi, rfl⟩ := checkIndex_bind_eq_ok.1 hwrite
    exact ⟨_, checkIndex_bind_eq_ok.2 ⟨hi, rfl⟩, ⟨out, rfl, rfl⟩, rfl, fun _ => rfl⟩
  | imag i =>
    obtain ⟨hi, rfl⟩ := checkIndex_bind_eq_ok.1 hwrite
    exact ⟨_, checkIndex_bind_eq_ok.2 ⟨hi, rfl⟩, ⟨out, rfl, rfl⟩, rfl, fun _ => rfl⟩

end Machine

/-! ### Streams -/

/-- No operation writes an output. -/
def StoresNothing (code : List (Instruction R)) : Prop :=
  ∀ o, .op o ∈ code → ∀ i, .output i ∉ o.outputs

/-- No operation reads a sample. -/
def LoadsNothing (code : List (Instruction R)) : Prop :=
  ∀ o, .op o ∈ code → ∀ i, .input i ∉ o.inputs

/-- All samples are read before the first result is stored. -/
def LoadsFirst (code : List (Instruction R)) : Prop :=
  ∃ before after, code = before ++ after ∧ StoresNothing before ∧ LoadsNothing after

/-- Pruning changes no statement. -/
lemma exists_of_getElem?_prune {positions : List ℕ} {code : List (Instruction R)} {i : ℕ} {o : Op R}
    (h : (prune positions code)[i]? = some (.op o)) :
    ∃ o', code[i]? = some (.op o') ∧ o'.stmt = o.stmt := by
  rw [getElem?_prune, Option.map_eq_some_iff] at h
  obtain ⟨inst, hinst, h⟩ := h
  split at h
  · cases inst with
    | comment text => cases h
    | op o' =>
      obtain rfl : { o' with pruned := true } = o := Instruction.op.inj h
      exact ⟨o', hinst, rfl⟩
  · exact ⟨o, h ▸ hinst, rfl⟩

lemma LoadsFirst.prune {code : List (Instruction R)} (h : LoadsFirst code) (positions : List ℕ) :
    LoadsFirst (prune positions code) := by
  obtain ⟨before, after, rfl, hbefore, hafter⟩ := h
  -- pruning keeps positions, so the parts are cut where they were
  refine ⟨_, _, (List.take_append_drop before.length _).symm, fun o ho i => ?_, fun o ho i => ?_⟩
  · obtain ⟨k, hk⟩ := List.mem_iff_getElem?.1 ho
    have hklt : k < before.length := by
      have := (List.getElem?_eq_some_iff.1 hk).1
      simp at this
      omega
    rw [List.getElem?_take_of_lt hklt] at hk
    obtain ⟨o', ho', hstmt⟩ := exists_of_getElem?_prune hk
    rw [List.getElem?_append_left hklt] at ho'
    have := hbefore o' (List.mem_of_getElem? ho') i
    rwa [Op.outputs, hstmt] at this
  · obtain ⟨k, hk⟩ := List.mem_iff_getElem?.1 ho
    rw [List.getElem?_drop] at hk
    obtain ⟨o', ho', hstmt⟩ := exists_of_getElem?_prune hk
    rw [List.getElem?_append_right (by omega)] at ho'
    have := hafter o' (List.mem_of_getElem? ho') i
    rwa [Op.inputs, hstmt] at this

/-! ### Scenes without their base -/

/-- The scene with other contents of all symbols but temporaries, none of which were written. -/
def Scene.rebase (S : Scene R) (value : Symbol → Option R) : Scene R where
  held := S.held
  value s := if s.isTemp then S.value s else value s
  settled := {s | s.isTemp = false}
  held_of_value h := S.held_of_value (by simpa [Symbol.isTemp, Symbol.tempId?] using h)
  isTemp_of_settled h := h

lemma Builder.Holds.rebase {b : Builder R} {S : Scene R} (h : b.Holds S)
    (value : Symbol → Option R) : b.Holds (S.rebase value) :=
  ⟨h.mem_inUse, h.lt_next, h.free_lt, h.free_notMem, h.free_nodup⟩

/-- A bundle of temporaries does not depend on what is below it. -/
lemma Bundle.rebase {value value' : Symbol → Option R} {values : List ComplexSymbol}
    {z : ℕ → Option (ComplexPair R)} {S : Scene R} (h : Bundle (.start value) values z S) :
    Bundle (.start value') values z (S.rebase value') where
  nodup := h.nodup
  fresh := h.fresh
  mem_held := h.mem_held
  settled_eq := rfl
  value_base s hs := by
    cases htemp : s.isTemp with
    | false => simp [Scene.rebase, Scene.start, htemp]
    | true => simpa [Scene.rebase, Scene.start, htemp] using h.value_base s hs
  hasPair {i v y} hi hy := by
    have hv := List.mem_of_getElem? hi
    have htemp {s : Symbol} (hs : s ∈ symbolsOf values) :
        (S.rebase value').value s = S.value s := by
      obtain ⟨id, rfl, -⟩ := h.fresh s hs
      rfl
    obtain ⟨hre, him⟩ := h.hasPair hi hy
    exact ⟨(htemp (re_mem_symbolsOf hv)).trans hre, (htemp (im_mem_symbolsOf hv)).trans him⟩

/-- Only the samples are known. -/
def samplesOnly (x : ℕ → R) : Symbol → Option R
  | .input i => some (x i)
  | _ => none

/-- Only the outputs are known. -/
def outputsOnly (x : R) : Symbol → Option R
  | .output _ => some x
  | _ => none

/-! ### Runs -/

variable [Scalar R] {tables : Array (List ℕ)}

namespace Machine

lemma Mirrors.runStmt {m m₁ m' : Machine R} (h : m.Mirrors m₁) {s : Stmt R}
    (hread : m.input = m₁.input ∨ ∀ i, .input i ∉ s.inputs) (hrun : m.runStmt tables s = .ok m') :
    ∃ m₁', m₁.runStmt tables s = .ok m₁' ∧ m'.Mirrors m₁' ∧ m'.input = m.input ∧
      ((∀ i, .output i ∉ s.outputs) → m₁'.input = m₁.input) := by
  cases s with
  | assign dst e =>
    have heval : e.evalIn m₁.read = e.evalIn m.read := Expr.evalIn_congr fun t ht => by
      refine h.read_eq (hread.imp_right fun hnone => ?_)
      cases t with
      | input i => exact absurd (Expr.mem_symbols.2 ht) (hnone i)
      | _ => rfl
    rw [Machine.runStmt] at hrun
    cases hvalue : e.evalIn m.read with
    | error f =>
      rw [hvalue] at hrun
      cases hrun
    | ok x =>
      rw [hvalue] at hrun
      obtain ⟨m₁', hwrite, hmirrors, hinput, hkeep⟩ := h.write hrun
      refine ⟨m₁', ?_, hmirrors, hinput, fun hout => hkeep fun i hi => ?_⟩
      · rw [Machine.runStmt, heval, hvalue]
        exact hwrite
      · exact hout i (by simp [Stmt.outputs, hi])
  | call c =>
    -- calls work on complex slots, which are the same in both machines
    obtain ⟨out, hout, rfl⟩ := h
    obtain ⟨temps, input, output, lanes⟩ := m
    obtain rfl : output = some out := hout
    rw [Machine.runStmt] at hrun ⊢
    cases hcall : callLanes tables lanes c with
    | error f =>
      rw [hcall] at hrun
      cases hrun
    | ok lanes' =>
      rw [hcall] at hrun
      obtain rfl := Except.ok.inj hrun
      exact ⟨_, rfl, ⟨out, rfl, rfl⟩, rfl, fun _ => rfl⟩

lemma Mirrors.step {m m₁ m' : Machine R} (h : m.Mirrors m₁) {inst : Instruction R}
    (hread : m.input = m₁.input ∨ LoadsNothing [inst]) (hstep : m.step tables inst = .ok m') :
    ∃ m₁', m₁.step tables inst = .ok m₁' ∧ m'.Mirrors m₁' ∧ m'.input = m.input ∧
      (StoresNothing [inst] → m₁'.input = m₁.input) := by
  cases hlive : inst.liveOp? with
  | none =>
    simp only [Machine.step, hlive] at hstep ⊢
    obtain rfl := Except.ok.inj hstep
    exact ⟨m₁, rfl, h, rfl, fun _ => rfl⟩
  | some o =>
    obtain ⟨rfl, -⟩ := Instruction.liveOp?_eq_some.1 hlive
    simp only [Machine.step, hlive] at hstep ⊢
    obtain ⟨m₁', hrun, hmirrors, hinput, hkeep⟩ :=
      h.runStmt (hread.imp_right fun hnone => hnone o (by simp)) hstep
    exact ⟨m₁', hrun, hmirrors, hinput, fun hnone => hkeep (hnone o (by simp))⟩

/-- Code that stores nothing keeps the samples of both machines, and code that loads nothing does
not need them. -/
lemma Mirrors.execute {m m₁ m' : Machine R} (h : m.Mirrors m₁) {code : List (Instruction R)}
    (hcode : m.input = m₁.input ∧ StoresNothing code ∨ LoadsNothing code)
    (hrun : m.execute tables code = .ok m') :
    ∃ m₁', m₁.execute tables code = .ok m₁' ∧ m'.Mirrors m₁' ∧
      (m.input = m₁.input → StoresNothing code → m'.input = m₁'.input) := by
  induction code generalizing m m₁ with
  | nil =>
    obtain rfl := Except.ok.inj hrun
    exact ⟨m₁, rfl, h, fun hinput _ => hinput⟩
  | cons inst code ih =>
    have hhead {P : Op R → Prop} (hall : ∀ o, .op o ∈ inst :: code → P o) :
        (∀ o, .op o ∈ [inst] → P o) ∧ ∀ o, .op o ∈ code → P o :=
      ⟨fun o ho => hall o (by simp_all), fun o ho => hall o (by simp [ho])⟩
    simp only [Machine.execute, List.foldlM_cons] at hrun ⊢
    cases hstep : m.step tables inst with
    | error f =>
      rw [hstep] at hrun
      cases hrun
    | ok m₂ =>
      rw [hstep] at hrun
      obtain ⟨m₁₂, hstep₁, hmirrors, hinput, hkeep⟩ :=
        h.step (hcode.imp And.left fun hnone => (hhead hnone).1) hstep
      -- as long as nothing is stored, the samples of both machines stay equal
      have hcode₂ : m₂.input = m₁₂.input ∧ StoresNothing code ∨ LoadsNothing code := by
        rcases hcode with ⟨hsame, hnone⟩ | hnone
        · exact Or.inl ⟨by rw [hinput, hkeep (hhead hnone).1, hsame], (hhead hnone).2⟩
        · exact Or.inr (hhead hnone).2
      obtain ⟨m₁', hrun₁, hmirrors', hsame'⟩ := ih hmirrors hcode₂ hrun
      refine ⟨m₁', ?_, hmirrors', fun hsame hnone => ?_⟩
      · rw [hstep₁]
        exact hrun₁
      · exact hsame' (by rw [hinput, hkeep (hhead hnone).1, hsame]) (hhead hnone).2

/-- A machine with two copies of the samples runs as one that has only one of them. -/
lemma Mirrors.execute_loadsFirst {m m₁ m' : Machine R} (h : m.Mirrors m₁)
    (hinput : m.input = m₁.input) {code : List (Instruction R)} (hcode : LoadsFirst code)
    (hrun : m.execute tables code = .ok m') :
    ∃ m₁', m₁.execute tables code = .ok m₁' ∧ m'.Mirrors m₁' := by
  obtain ⟨before, after, rfl, hbefore, hafter⟩ := hcode
  rw [execute_append] at hrun ⊢
  cases hfirst : m.execute tables before with
  | error f =>
    rw [hfirst] at hrun
    cases hrun
  | ok m₂ =>
    rw [hfirst] at hrun
    obtain ⟨m₁₂, hfirst₁, hmirrors, -⟩ := h.execute (Or.inl ⟨hinput, hbefore⟩) hfirst
    obtain ⟨m₁', hrun₁, hmirrors', -⟩ := hmirrors.execute (Or.inr hafter) hrun
    rw [hfirst₁]
    exact ⟨m₁', hrun₁, hmirrors'⟩

end Machine

/-! ### Code in two parts -/

/-- Code in two parts, of which the first one needs only samples and the second one only outputs. -/
lemma loadsFirst_of_parts {α : Type} {front : Build R α} {back : α → Build R Unit} {x : ℕ → R}
    {y : R} {Q : α → Scene R → Prop} (hfront : Emits (.start (samplesOnly x)) front Q)
    (hback : ∀ a S, Q a S → ∃ P, Emits (S.rebase (outputsOnly y)) (back a) P) {annotate : Bool}
    {b : Builder R} (hrun : (front >>= back).run.run { annotate } = (.ok (), b)) :
    LoadsFirst b.stream.toList := by
  -- the second part is emitted by the same builder, of whose scene all but the temporaries is
  -- forgotten
  obtain ⟨a, b₁, S₁, hrun₁, hem₁, hQ⟩ := hfront { annotate } (Builder.holds_start _ _)
  obtain ⟨_, hem⟩ := hback a S₁ hQ
  obtain ⟨_, b₂, S₂, hrun₂, hem₂, -⟩ := hem b₁ (hem₁.holds.rebase _)
  have hrun' : (front >>= back).run.run { annotate } = (.ok (), b₂) := by
    simp only [ExceptT.run_bind, StateT.run_bind, hrun₁]
    exact hrun₂
  obtain rfl : b₂ = b := congrArg Prod.snd (hrun'.symm.trans hrun)
  obtain ⟨before, hbefore, -, htouched⟩ := hem₁.code
  obtain ⟨after, hafter, -, htouched'⟩ := hem₂.code
  -- code touches only what is known in the scene that it is emitted from
  refine ⟨before, after, ?_, fun o ho i hi => ?_, fun o ho i hi => ?_⟩
  · rw [hafter, hbefore]
    rfl
  · have hknown := htouched o ho _ (List.mem_append_right _ hi)
    simp [Scene.Knows, Scene.start, samplesOnly, Symbol.isTemp, Symbol.tempId?] at hknown
  · have hknown := htouched' o ho _ (List.mem_append_left _ hi)
    simp [Scene.Knows, Scene.rebase, outputsOnly, Symbol.isTemp, Symbol.tempId?] at hknown

namespace Cosine

variable {n : ℕ} {coeffs : Array R} {weight : ℕ → R} (hn : n % 2 = 0)
  (hsmooth : n / 2 ∈ Nat.smoothNumbers 6) (hlt : 2 * n < 2 ^ 62)
  (hc : ∀ k < n, coeffs[k]? = some (weight k)) {annotate : Bool} {b : Builder R}

include hn hsmooth hlt hc

lemma loadsFirst_emitForward (hrun : (emitForward n coeffs).run.run { annotate } = (.ok (), b)) :
    LoadsFirst b.stream.toList := by
  rw [emitForward_eq] at hrun
  refine loadsFirst_of_parts (x := fun _ => Scalar.nan) (y := Scalar.nan)
    (emits_forwardFront hn hsmooth hlt fun _ _ => rfl) ?_ hrun
  rintro values S ⟨hperm, hlength, hbundle⟩
  exact ⟨_, emits_forwardBack hc ⟨hperm, hlength, hbundle.rebase⟩ fun _ _ => rfl⟩

lemma loadsFirst_emitInverse (hrun : (emitInverse n coeffs).run.run { annotate } = (.ok (), b)) :
    LoadsFirst b.stream.toList := by
  rw [emitInverse_eq] at hrun
  refine loadsFirst_of_parts (x := fun _ => Scalar.nan) (y := Scalar.nan)
    (emits_inverseFront hn hsmooth hlt hc fun _ _ => rfl) ?_ hrun
  rintro values S ⟨hlength, hbijective, hsize, g, hbundle, hg⟩
  exact ⟨_, emits_inverseBack hn ⟨hlength, hbijective, hsize, g, hbundle.rebase, hg⟩
    fun _ _ => rfl⟩

end Cosine

/-! ### Kernels -/

namespace Config

variable {c : Config} {k : Kernel R}

lemma compileUnchecked_of_compile (h : c.compile = .ok k) : c.compileUnchecked = .ok k := by
  rw [compile] at h
  cases hk : (c.compileUnchecked : Except (CompileError R) (Kernel R)) with
  | error e =>
    rw [hk] at h
    cases h
  | ok k' =>
    rw [hk] at h
    change (if c.verify then (do
        let _ ← k'.selfCheck.mapError CompileError.ofCheckError
        return k') else return k') = Except.ok k at h
    split at h
    · cases hself : k'.selfCheck with
      | error e =>
        rw [hself] at h
        cases h
      | ok maxError =>
        rw [hself] at h
        exact h
    · exact h

/-- A kernel is what is left of emitted code whose lifetimes are in order. -/
lemma exists_of_compile (h : c.compile = .ok k) :
    c.transform.checkSize c.size = .ok () ∧ ∃ order b,
      (c.emit : Build R _).run.run { annotate := c.annotate } = (.ok order, b) ∧
        b.checkLifetimes = .ok () ∧ k = c.kernel order b.eliminateDeadCode.2 := by
  replace h := compileUnchecked_of_compile h
  unfold compileUnchecked at h
  cases hvalid : c.validate with
  | error p =>
    rw [hvalid] at h
    cases h
  | ok _ =>
    cases hsize : c.transform.checkSize c.size with
    | error e =>
      rw [hvalid, hsize] at h
      cases h
    | ok _ =>
      cases hrun : (c.emit : Build R _).run.run { annotate := c.annotate } with
      | mk result b =>
        rw [hvalid, hsize, hrun] at h
        cases result with
        | error e => cases h
        | ok order =>
          cases hlifetimes : b.checkLifetimes with
          | error e =>
            simp only [hlifetimes] at h
            cases h
          | ok _ =>
            simp only [hlifetimes] at h
            exact ⟨rfl, order, b, rfl, hlifetimes, (Except.ok.inj h).symm⟩

lemma isSplittable_of_checkSize (hsize : c.transform.checkSize c.size = .ok ()) :
    c.IsSplittable := by
  rcases checkSize_cases c with ⟨hsplittable, -⟩ | ⟨-, e, he⟩
  · exact hsplittable
  · rw [he] at hsize
    cases hsize

section Emit

variable {order : Option Permutation} {b : Builder R}

/-- The code of a forward transform, of which the size is not too large for its angles. -/
lemma emitForward_of_emit (htransform : c.transform = .cosineForward)
    (hsize : c.transform.checkSize c.size = .ok ())
    (hrun : (c.emit : Build R _).run.run { annotate := c.annotate } = (.ok order, b)) :
    c.size % 2 = 0 ∧ c.size / 2 ∈ Nat.smoothNumbers 6 ∧ c.size < 2 ^ 61 ∧
      (Cosine.emitForward c.size (Cosine.coefficients c.size c.orthogonal)).run.run
        { annotate := c.annotate } = (.ok (), b) := by
  have hsplittable := isSplittable_of_checkSize hsize
  unfold IsSplittable at hsplittable
  unfold emit coefficients at hrun
  rw [htransform] at hsplittable hrun
  obtain ⟨heven, hsmooth⟩ := hsplittable
  obtain ⟨_, b', hemit, hpure⟩ := run_bind_eq_ok.1 hrun
  obtain rfl : b' = b := congrArg Prod.snd hpure
  have hpos : 0 < c.size / 2 := Nat.pos_of_ne_zero (Nat.ne_zero_of_mem_smoothNumbers hsmooth)
  exact ⟨heven, hsmooth, Cosine.lt_of_succeeds_emitForward hpos ⟨_, _, _, hemit⟩, hemit⟩

/-- The code of an inverse transform, of which the size is not too large for its angles. -/
lemma emitInverse_of_emit (htransform : c.transform = .cosineInverse)
    (hsize : c.transform.checkSize c.size = .ok ())
    (hrun : (c.emit : Build R _).run.run { annotate := c.annotate } = (.ok order, b)) :
    c.size % 2 = 0 ∧ c.size / 2 ∈ Nat.smoothNumbers 6 ∧ c.size < 2 ^ 61 ∧
      (Cosine.emitInverse c.size (Cosine.coefficients c.size c.orthogonal)).run.run
        { annotate := c.annotate } = (.ok (), b) := by
  have hsplittable := isSplittable_of_checkSize hsize
  unfold IsSplittable at hsplittable
  unfold emit coefficients at hrun
  rw [htransform] at hsplittable hrun
  obtain ⟨heven, hsmooth⟩ := hsplittable
  obtain ⟨_, b', hemit, hpure⟩ := run_bind_eq_ok.1 hrun
  obtain rfl : b' = b := congrArg Prod.snd hpure
  exact ⟨heven, hsmooth, Cosine.lt_of_succeeds_emitInverse ⟨_, _, _, hemit⟩, hemit⟩

/-- The code of a cosine transform computes some function of the samples, all of which it loads
before it stores the first result. -/
lemma exists_transforms_of_emit (hcosine : c.transform.isCosine = true)
    (hsize : c.transform.checkSize c.size = .ok ())
    (hrun : (c.emit : Build R _).run.run { annotate := c.annotate } = (.ok order, b)) :
    ∃ results, Cosine.Transforms c.size results b ∧ LoadsFirst b.stream.toList := by
  cases htransform : c.transform with
  | cosineForward =>
    obtain ⟨heven, hsmooth, hlt, hemit⟩ := emitForward_of_emit htransform hsize hrun
    obtain ⟨b', hrun', hb⟩ := Cosine.exists_emitForward (R := R) heven hsmooth hlt c.orthogonal
      c.annotate
    obtain rfl : b = b' := congrArg Prod.snd (hemit.symm.trans hrun')
    exact ⟨_, hb, Cosine.loadsFirst_emitForward heven hsmooth (by omega)
      (fun _ hk => Cosine.getElem?_coefficients c.orthogonal hk) hemit⟩
  | cosineInverse =>
    obtain ⟨heven, hsmooth, hlt, hemit⟩ := emitInverse_of_emit htransform hsize hrun
    obtain ⟨b', hrun', hb⟩ := Cosine.exists_emitInverse (R := R) heven hsmooth hlt c.orthogonal
      c.annotate
    obtain rfl : b = b' := congrArg Prod.snd (hemit.symm.trans hrun')
    exact ⟨_, hb, Cosine.loadsFirst_emitInverse heven hsmooth (by omega)
      (fun _ hk => Cosine.getElem?_coefficients c.orthogonal hk) hemit⟩
  | fourier =>
    rw [htransform] at hcosine
    cases hcosine

end Emit

lemma exists_transforms_of_compile (hcosine : c.transform.isCosine = true) (h : c.compile = .ok k) :
    ∃ order b results, k = c.kernel order b.eliminateDeadCode.2 ∧
      Cosine.Transforms c.size results b ∧ LoadsFirst b.stream.toList := by
  obtain ⟨hsize, order, b, hrun, -, rfl⟩ := exists_of_compile h
  obtain ⟨results, hb, hloads⟩ := exists_transforms_of_emit hcosine hsize hrun
  exact ⟨order, b, results, rfl, hb, hloads⟩

section Runs

variable {b : Builder R} {results : (ℕ → R) → ℕ → R} {samples : Array R}

/-- A machine on which the kernel of a cosine transform is run. -/
def machine (k : Kernel R) (samples : Array R) (output : Option (Array R)) : Machine R :=
  { temps := k.freshTemps, input := samples, output, lanes := ⟨#[], #[]⟩ }

/-- It makes no difference to the results what the outputs hold before. -/
lemma exists_execute (order : Option Permutation) (hb : Cosine.Transforms c.size results b)
    (hsize : samples.size = c.size) {start : Array R} (hstart : start.size = c.size) :
    ∃ m out, (machine (c.kernel order b.eliminateDeadCode.2) samples (some start)).execute
      b.shiftTables b.eliminateDeadCode.2.stream.toList = .ok m ∧ m.output = some out ∧
      out.size = c.size ∧
      ∀ i < c.size, out[i]? = some (results (fun i => samples.getD i Scalar.nan) i) :=
  hb.execute (machine (c.kernel order b.eliminateDeadCode.2) samples (some start))
    (fun i => samples.getD i Scalar.nan) start (fun i hi => by simp [machine, hsize, hi]) rfl hstart
    (Kernel.hasTemps (k := c.kernel order b.eliminateDeadCode.2) rfl)

/-- Run out of place, the kernel gives the results of its code. -/
lemma runReal_of_transforms (order : Option Permutation) (hb : Cosine.Transforms c.size results b)
    (hsize : samples.size = c.size) :
    ∃ out, (c.kernel order b.eliminateDeadCode.2).runReal samples = .ok out ∧ out.size = c.size ∧
      ∀ i < c.size, out[i]? = some (results (fun i => samples.getD i Scalar.nan) i) := by
  obtain ⟨m, out, hexecute, hout, hresults⟩ := exists_execute order hb hsize
    (Array.size_replicate : (Array.replicate c.size Scalar.nan).size = c.size)
  refine ⟨out, ?_, hresults⟩
  rw [Kernel.runReal, if_neg (by simp [kernel, hsize])]
  change (Machine.execute b.shiftTables b.eliminateDeadCode.2.stream.toList (machine _ samples
    (some (Array.replicate c.size Scalar.nan))) >>= fun m => pure (m.output.getD #[])) = _
  rw [hexecute]
  exact congrArg (fun o => Except.ok (o.getD #[])) hout

/-- Run in place, the kernel gives the results of its code if this loads all samples first. -/
lemma runInPlace_of_transforms (order : Option Permutation)
    (hb : Cosine.Transforms c.size results b) (hloads : LoadsFirst b.stream.toList)
    (hsize : samples.size = c.size) :
    ∃ out, (c.kernel order b.eliminateDeadCode.2).runInPlace samples = .ok out ∧
      out.size = c.size ∧
      ∀ i < c.size, out[i]? = some (results (fun i => samples.getD i Scalar.nan) i) := by
  obtain ⟨m, out, hexecute, hout, hresults⟩ := exists_execute order hb hsize hsize
  -- in place, it is as if the outputs held the samples
  have hmirrors : (machine (c.kernel order b.eliminateDeadCode.2) samples (some samples)).Mirrors
      (machine _ samples none) := ⟨samples, rfl, rfl⟩
  have hpruned : LoadsFirst b.eliminateDeadCode.2.stream.toList := hloads.prune _
  obtain ⟨m₁, hexecute₁, out₁, hout₁, rfl⟩ := hmirrors.execute_loadsFirst rfl hpruned hexecute
  obtain rfl : out₁ = out := Option.some.inj (hout₁.symm.trans hout)
  refine ⟨out₁, ?_, hresults⟩
  rw [Kernel.runInPlace, if_neg (by simp [kernel, hsize])]
  change (Machine.execute b.shiftTables b.eliminateDeadCode.2.stream.toList (machine _ samples none)
    >>= fun m => pure m.input) = _
  rw [hexecute₁]
  rfl

end Runs

/-- The kernel of a cosine transform can be run in place: it leaves in the array of the samples what
it would give in an array of its own. -/
theorem runInPlace_eq_runReal (hcosine : c.transform.isCosine = true) (h : c.compile = .ok k)
    {samples : Array R} (hsize : samples.size = c.size) :
    ∃ out, k.runReal samples = .ok out ∧ k.runInPlace samples = .ok out := by
  obtain ⟨order, b, results, rfl, hb, hloads⟩ := exists_transforms_of_compile hcosine h
  obtain ⟨out, hrun, houtsize, hresults⟩ := runReal_of_transforms order hb hsize
  obtain ⟨out', hrun', houtsize', hresults'⟩ := runInPlace_of_transforms order hb hloads hsize
  obtain rfl : out = out' := by
    refine Array.ext_getElem? fun i => ?_
    rcases lt_or_ge i c.size with hi | hi
    · rw [hresults i hi, hresults' i hi]
    · rw [Array.getElem?_eq_none (by omega), Array.getElem?_eq_none (by omega)]
  exact ⟨out, hrun, hrun'⟩

/-- A forward transform of six samples. -/
theorem runInPlace_eq_runReal_six : ∃ k : Kernel ℝ,
    ({ size := 6, verify := false } : Config).compile = .ok k ∧
      ∃ out, k.runReal #[3, 1, 4, 1, 5, 9] = .ok out ∧
        k.runInPlace #[3, 1, 4, 1, 5, 9] = .ok out := by
  have hsmooth : 6 / 2 ∈ Nat.smoothNumbers 6 := Nat.mem_smoothNumbers_of_lt (by decide) (by decide)
  rcases compile_cases (R := ℝ) (c := { size := 6, verify := false }) rfl (by decide) with
    ⟨hinvalid, -⟩ | ⟨⟨-, hrough⟩, -⟩ | ⟨-, k, hk⟩
  · simp [IsInvalid] at hinvalid
  · exact absurd ⟨rfl, hsmooth⟩ hrough
  · exact ⟨k, hk, runInPlace_eq_runReal rfl hk rfl⟩

end Config

end MixedRadix
