import MixedRadix.Instruction.Text
import MixedRadix.Proofs.References
import MixedRadix.Proofs.Safety
import Mathlib.Data.List.TakeWhile

/-!
# Statements read back

A rendered assignment is read back as its destination and its expression: words are resolved to the
locations they name, all other words are literals, and a literal in parentheses keeps its sign. An
assignment of a plain expression is read back as it is (`Stmt.readAssignment?_text`), and every
assignment that a compiled kernel runs is one (`Config.isPlain_of_compile`), so its source text does
the same operations in the same order.
-/

namespace MixedRadix

/-! ### Locations -/

/-- A number in decimal digits. -/
def ofDecimal? (w : List Char) : Option ℕ :=
  if !w.isEmpty && w.all Char.isDigit then some (Nat.ofDigitChars 10 w 0) else none

lemma ofDecimal?_toDigits (n : ℕ) : ofDecimal? (Nat.toDigits 10 n) = some n := by
  have hdigits : (Nat.toDigits 10 n).all Char.isDigit = true :=
    List.all_eq_true.2 fun c hc => Nat.isDigit_of_mem_toDigits (by decide) (by decide) hc
  simp [ofDecimal?, hdigits, Nat.ofDigitChars_ten_toDigits]

lemma toDigits_injective : Function.Injective (Nat.toDigits 10) := by
  intro m n h
  simpa [ofDecimal?_toDigits] using congrArg ofDecimal? h

namespace SlotNames

/-- The arrays and what their elements are. -/
def arrays (names : SlotNames) : List (String × (ℕ → Symbol)) :=
  [(names.input, .input), (names.output, .output), (names.real, .real), (names.imag, .imag)]

/-- The location that a word names: an element of an array, or a temporary. -/
def symbol? (names : SlotNames) (text : String) : Option Symbol :=
  match text.toList.takeWhile (· != '['), text.toList.dropWhile (· != '[') with
  | name, '[' :: rest => do
    guard (rest.getLast? = some ']')
    let element ← names.arrays.lookup (String.ofList name)
    let i ← ofDecimal? rest.dropLast
    return element i
  | 't' :: digits, [] => (ofDecimal? digits).map .temp
  | _, _ => none

/-- The arrays can be told apart by their names. -/
structure AreReadable (names : SlotNames) : Prop where
  areWords : names.AreWords
  bracket_notMem : ∀ name ∈ names.arrays.map Prod.fst, '[' ∉ name.toList
  nodup : (names.arrays.map Prod.fst).Nodup

variable {names : SlotNames}

lemma symbol?_of_bracket {text : String} {name rest : List Char} (hname : '[' ∉ name)
    (htext : text.toList = name ++ '[' :: rest) {element : ℕ → Symbol} {i : ℕ}
    (helement : names.arrays.lookup (String.ofList name) = some element)
    (hrest : rest = Nat.toDigits 10 i ++ [']']) : names.symbol? text = some (element i) := by
  have hfree : ∀ c ∈ name, (c != '[') = true := by
    intro c hc
    simpa using ne_of_mem_of_not_mem hc hname
  have hfront : text.toList.takeWhile (· != '[') = name := by
    rw [htext, List.takeWhile_append_of_pos hfree]
    simp
  have hback : text.toList.dropWhile (· != '[') = '[' :: rest := by
    rw [htext, List.dropWhile_append_of_pos hfree]
    simp
  simp [symbol?, hfront, hback, helement, hrest, ofDecimal?_toDigits]

lemma symbol?_element (h : names.AreReadable) {name : String} {element : ℕ → Symbol}
    (hname : (name, element) ∈ names.arrays) (i : ℕ) :
    names.symbol? s!"{name}[{i}]" = some (element i) := by
  have hfree := h.bracket_notMem name (List.mem_map_of_mem hname)
  refine symbol?_of_bracket hfree (Symbol.toList_element name i) ?_ rfl
  obtain ⟨front, back, hsplit⟩ := List.append_of_mem hname
  have hnodup := h.nodup
  rw [hsplit, List.map_append, List.nodup_append] at hnodup
  rw [String.ofList_toList, List.lookup_eq_some_iff]
  refine ⟨front, back, hsplit, fun p hp => ?_⟩
  simpa using (hnodup.2.2 p.1 (List.mem_map_of_mem hp) name (by simp)).symm

lemma symbol?_of_bracket_notMem {text : String} (h : '[' ∉ text.toList) :
    names.symbol? text = match text.toList with
      | 't' :: digits => (ofDecimal? digits).map .temp
      | _ => none := by
  have hfree : ∀ c ∈ text.toList, (c != '[') = true := by
    intro c hc
    simpa using ne_of_mem_of_not_mem hc h
  rw [symbol?, List.takeWhile_eq_self_iff.2 hfree, List.dropWhile_eq_nil_iff.2 hfree]
  split <;> simp_all

lemma symbol?_text (h : names.AreReadable) (s : Symbol) :
    names.symbol? (s.text names) = some s := by
  cases s with
  | temp id =>
    have htext := Symbol.toList_temp id
    have hfree : '[' ∉ s!"t{id}".toList := by
      rw [htext]
      simp [Source.bracket_notMem_toDigits]
    rw [Symbol.text, symbol?_of_bracket_notMem hfree, htext]
    simp [ofDecimal?_toDigits]
  | input i | output i | real i | imag i => exact symbol?_element h (by simp [arrays]) i

lemma symbol?_of_isNumeral {text : String} (h : Source.IsNumeral text.toList) :
    names.symbol? text = none := by
  rw [symbol?_of_bracket_notMem h.2.1]
  split
  case h_1 digits htext => exact absurd (by simp [htext]) h.2.2
  case h_2 => rfl

end SlotNames

lemma Transform.areReadable (t : Transform) : t.slotNames.AreReadable := by
  constructor
  · cases t <;> simp [slotNames, SlotNames.cosineForward, SlotNames.cosineInverse,
      SlotNames.fourier, SlotNames.AreWords, Source.isDelimiter, Source.symbolToken?]
  · cases t <;> simp [slotNames, SlotNames.cosineForward, SlotNames.cosineInverse,
      SlotNames.fourier, SlotNames.arrays]
  · cases t <;> simp [slotNames, SlotNames.cosineForward, SlotNames.cosineInverse,
      SlotNames.fourier, SlotNames.arrays]

/-! ### Expressions -/

namespace Source

/-- A number behind a minus sign. -/
def signedNumber? (names : SlotNames) : Source → Option String
  | neg (word text) => if (names.symbol? text).isNone then some ("-" ++ text) else none
  | _ => none

/-- The expression that a tree stands for. Words that name no location are literals, and a signed
number in parentheses is a literal too. -/
def toExpr (names : SlotNames) : Source → Expr String
  | word text => (names.symbol? text).elim (.lit text) .sym
  | paren a => (a.signedNumber? names).elim (a.toExpr names) .lit
  | neg a => .neg (a.toExpr names)
  | add a b => .add (a.toExpr names) (b.toExpr names)
  | sub a b => .sub (a.toExpr names) (b.toExpr names)
  | mul a b => .mul (a.toExpr names) (b.toExpr names)

lemma toExpr_parenIf {names : SlotNames} {t : Source} {needed : Bool}
    (h : needed = true → t.signedNumber? names = none) :
    (parenIf needed t).toExpr names = t.toExpr names := by
  cases needed with
  | false => rfl
  | true =>
    show (t.signedNumber? names).elim (t.toExpr names) Expr.lit = t.toExpr names
    rw [h rfl]
    rfl

end Source

namespace Expr

variable {L : Type} [ScalarText L] {names : SlotNames}

open Source

/-- What stands in parentheses is no signed number. -/
lemma signedNumber?_source (hnames : names.AreReadable) {e : Expr L} (hplain : e.isPlain = true)
    (hwraps : e.wrapsOnRight = true) : (e.source names).signedNumber? names = none := by
  cases e with
  | sym | lit | mul => simp [wrapsOnRight, isSum, isNeg] at hwraps
  | add | sub => rfl
  | neg a =>
    cases a with
    | sym s =>
      show (if (names.symbol? (s.text names)).isNone then _ else none) = none
      rw [SlotNames.symbol?_text hnames]
      rfl
    | neg | add | sub => rfl
    | lit | mul => simp [isPlain, isLiteral, isProduct] at hplain

variable [LawfulScalarText L]

lemma toExpr_literal (x : L) :
    ((lit x : Expr L).source names).toExpr names = lit (ScalarText.digits x) := by
  rcases LawfulScalarText.isNumeral_digits x with h | ⟨hnegative, w, hw, h⟩
  · rw [source, ofDigits_of_isWord h.1, toExpr_parenIf fun _ => rfl, toExpr,
      SlotNames.symbol?_of_isNumeral h]
    rfl
  · have hword : names.symbol? (String.ofList w) = none :=
      SlotNames.symbol?_of_isNumeral (by simpa using h)
    have hdigits : "-" ++ String.ofList w = ScalarText.digits x := by
      rw [← String.toList_inj, hw]
      simp
    rw [source, ofDigits_of_minus hw, hnegative]
    simp [parenIf, toExpr, signedNumber?, hword, hdigits]

/-- A plain expression is read back as it is. -/
lemma toExpr_source (hnames : names.AreReadable) {e : Expr L} (hplain : e.isPlain = true) :
    (e.source names).toExpr names = e.map ScalarText.digits := by
  have hright {b : Expr L} (hb : b.isPlain = true) :
      (parenIf b.wrapsOnRight (b.source names)).toExpr names = (b.source names).toExpr names :=
    toExpr_parenIf (signedNumber?_source hnames hb)
  induction e with
  | sym s => simp [source, toExpr, SlotNames.symbol?_text hnames, map]
  | lit x => exact toExpr_literal x
  | neg a iha =>
    obtain ⟨⟨ha, -⟩, hproduct⟩ :
        (a.isPlain = true ∧ a.isLiteral = false) ∧ a.isProduct = false := by
      simpa [isPlain] using hplain
    rw [source, negated_of_rank (rank_factor hproduct), toExpr, hright ha, iha ha, map]
  | add a b iha ihb | sub a b iha ihb =>
    obtain ⟨ha, hb⟩ : a.isPlain = true ∧ b.isPlain = true := by simpa [isPlain] using hplain
    rw [source, toExpr, hright hb, iha ha, ihb hb, map]
  | mul a b iha ihb =>
    obtain ⟨⟨ha, hb⟩, hproduct⟩ : (a.isPlain = true ∧ b.isPlain = true) ∧ b.isProduct = false := by
      simpa [isPlain] using hplain
    have hleft : (parenIf a.isSum (a.source names)).toExpr names = (a.source names).toExpr names :=
      toExpr_parenIf fun hsum => signedNumber?_source hnames ha (by simp [wrapsOnRight, hsum])
    rw [source, times_of_rank _ (rank_factor hproduct), toExpr, hleft, hright hb, iha ha, ihb hb,
      map]

end Expr

/-! ### Assignments -/

/-- Reads the source text of an assignment. -/
def readAssignment? (names : SlotNames) (text : String) : Option (Symbol × Expr String) :=
  match Source.tokenize text with
  | .word target :: .equals :: rest => do
    guard (rest.getLast? = some .semicolon)
    let dst ← names.symbol? target
    let value ← Source.read? rest.dropLast
    return (dst, value.toExpr names)
  | _ => none

section

variable {R : Type} [ScalarText R] [LawfulScalarText R] {names : SlotNames}

open Source

lemma tokenize_assign (hnames : names.AreWords) (dst : Symbol) (e : Expr R) :
    tokenize ((Stmt.assign dst e).text names) =
      .word (dst.text names) :: .equals :: ((e.source names).tokens ++ [.semicolon]) := by
  have htarget := writes_word (dst.isWord_text hnames)
    (' ' :: '=' :: ' ' :: ((e.text names).toList ++ [';'])) (by simp [Stops])
  have hvalue := e.writes_text hnames [';'] (by simp [Stops])
  simp [tokenize, Stmt.text, htarget, hvalue, tokens, scan_symbol (c := '=') rfl,
    scan_symbol (c := ';') rfl]

lemma Stmt.readAssignment?_text (hnames : names.AreReadable) (dst : Symbol) {e : Expr R}
    (hplain : e.isPlain = true) :
    readAssignment? names ((Stmt.assign dst e).text names) =
      some (dst, e.map ScalarText.digits) := by
  rw [readAssignment?, tokenize_assign hnames.areWords]
  simp [SlotNames.symbol?_text hnames, (Expr.isGrammatical_source names e).read?_tokens,
    Expr.toExpr_source hnames hplain]

end

/-! ### Kernels -/

namespace Config

variable {R : Type} [Scalar R] {c : Config} {k : Kernel R}

/-- Without calls, a kernel runs nothing but assignments of plain expressions. -/
lemma op_isPlain_of_compile (h : c.compile = .ok k)
    (hstrategy : c.transform = .fourier → c.strategy = .unrolled) {o : Op R}
    (ho : .op o ∈ k.stream) (hpruned : o.pruned = false) : o.IsPlain := by
  have hemitted {results : List Symbol}
      (happends : Build.Appends Op.IsPlain results (c.emit : Build R (Option Permutation))) :
      o.IsPlain := by
    obtain ⟨b, -, hplain, hstream, -⟩ := exists_emitted_of_compile h happends
    exact hplain o (mem_of_mem_eliminateDeadCode (hstream ▸ ho)
      (by simp [Instruction.isLive, hpruned]))
  cases htransform : c.transform with
  | cosineForward | cosineInverse =>
    exact hemitted (appends_emit_of_isCosine (by simp [htransform, Transform.isCosine]))
  | fourier => exact hemitted (appends_emit_of_unrolled htransform (hstrategy htransform))

/-- Every assignment that a kernel runs is one of a plain expression. -/
lemma isPlain_of_compile (h : c.compile = .ok k) {o : Op R} (ho : .op o ∈ k.stream)
    (hpruned : o.pruned = false) {dst : Symbol} {e : Expr R} (hstmt : o.stmt = .assign dst e) :
    e.isPlain = true := by
  by_cases hstrategy : c.transform = .fourier → c.strategy = .unrolled
  · obtain ⟨-, dst', e', hassign, he⟩ := op_isPlain_of_compile h hstrategy ho hpruned
    cases hstmt.symm.trans hassign
    exact he
  · obtain ⟨htransform, hcalls⟩ : c.transform = .fourier ∧ c.strategy = .calls := by
      cases hc : c.strategy <;> simp_all
    obtain ⟨b, -, hcall, hstream, -⟩ :=
      exists_emitted_of_compile h (appends_emit_of_calls htransform hcalls)
    obtain ⟨-, -, call, hcall⟩ :=
      hcall o (mem_of_mem_eliminateDeadCode (hstream ▸ ho) (by simp [Instruction.isLive, hpruned]))
    cases hstmt.symm.trans hcall

/-- Every result of a cosine transform is stored by an assignment that is printed. -/
lemma exists_store_of_compile (hcosine : c.transform.isCosine = true) (h : c.compile = .ok k)
    {slot : ℕ} (hslot : slot < c.size) :
    ∃ o e, .op o ∈ k.liveEntries ∧ o.stmt = .assign (.output slot) e := by
  obtain ⟨hsize, order, b, hrun, -, rfl⟩ := exists_of_compile h
  have hcount := countP_stores_of_emit order (appends_emit_of_isCosine hcosine) hrun (by simp)
    (fun i j hij => by simp [Ne.symm hij]) hslot (s := .output slot) (by simp)
  obtain ⟨inst, hinst, hstores⟩ := List.countP_pos_iff.1 (hcount.symm ▸ one_pos)
  cases hlive : inst.liveOp? with
  | none => simp [Instruction.stores, hlive] at hstores
  | some o =>
    obtain ⟨rfl, hpruned⟩ := Instruction.liveOp?_eq_some.1 hlive
    obtain ⟨-, hout⟩ : o.mandatory = true ∧ Symbol.output slot ∈ o.outputs := by
      simpa [Instruction.stores, hlive] using hstores
    have hprinted : .op o ∈ (c.kernel order b.eliminateDeadCode.2).liveEntries :=
      List.mem_filter.2 ⟨hinst, by simp [Instruction.isLive, hpruned]⟩
    cases hstmt : o.stmt with
    | assign dst e =>
      obtain rfl : .output slot = dst := by simpa [Op.outputs, hstmt, Stmt.outputs] using hout
      exact ⟨o, e, hprinted, hstmt⟩
    | call call => simp [Op.outputs, hstmt, Stmt.outputs, Call.symbols] at hout

variable [ScalarText R] [LawfulScalarText R]

/-- Every assignment that a kernel prints is read back as its destination and its expression, with
the literals as they are written. -/
theorem printed_assignment_reads_back (h : c.compile = .ok k) {o : Op R}
    (ho : .op o ∈ k.liveEntries) {dst : Symbol} {e : Expr R} (hstmt : o.stmt = .assign dst e) :
    readAssignment? k.slotNames ((Instruction.op o).text k.slotNames) =
      some (dst, e.map ScalarText.digits) := by
  obtain ⟨hmem, hlive⟩ := List.mem_filter.1 ho
  have hplain := isPlain_of_compile h hmem (by simpa [Instruction.isLive] using hlive) hstmt
  rw [Instruction.text, hstmt]
  exact Stmt.readAssignment?_text k.transform.areReadable dst hplain

/-- The last result of a forward cosine transform of six samples. -/
theorem printed_assignment_reads_back_six : ∃ (k : Kernel Float) (o : Op Float) (e : Expr Float),
    ({ size := 6, verify := false } : Config).compile = .ok k ∧ .op o ∈ k.liveEntries ∧
      o.stmt = .assign (.output 5) e ∧
      readAssignment? k.slotNames ((Instruction.op o).text k.slotNames) =
        some (.output 5, e.map ScalarText.digits) := by
  have hsmooth : 6 / 2 ∈ Nat.smoothNumbers 6 := Nat.mem_smoothNumbers_of_lt (by decide) (by decide)
  obtain ⟨k, hk⟩ := exists_compile_of_isSplittable (R := Float)
    (c := { size := 6, verify := false }) rfl (by decide) (by simp [IsInvalid]) ⟨rfl, hsmooth⟩
  obtain ⟨o, e, ho, hstmt⟩ := exists_store_of_compile (by rfl) hk (by decide : 5 < 6)
  exact ⟨k, o, e, hk, ho, hstmt, printed_assignment_reads_back hk ho hstmt⟩

end Config

end MixedRadix
