import MixedRadix.Proofs.References
import MixedRadix.Proofs.Scope
import MixedRadix.Proofs.SourceFile

/-!
# The layout of kernels

The source of a kernel is read with no knowledge of the kernel (`Outline.read`), and what is read
is compared with the kernel. Without calls there is a function that declares the temporaries it uses
and goes on with the live stream, and one that calls it in place (`Kernel.IsUnrolledIn`); with calls
the live stream is cut into parts, and what calls refer to is imported or declared
(`Kernel.IsCalledIn`). In both cases every name in the bodies resolves. The source of every kernel
that is compiled is laid out like this (`Config.source_isLaidOut`).
-/

namespace MixedRadix

variable {R : Type}

open Outline

/-! ### Names -/

lemma Routine.mem_all (r : Routine) : r ∈ Routine.all := by
  cases r with
  | butterfly radix => cases radix <;> simp [all]
  | rotate | swap | cyclicShift => simp [all]

lemma Routine.name_injective : Function.Injective Routine.name := by
  -- a routine is found by its name
  have hfind (r : Routine) : all.find? (fun s => s.name == r.name) = some r := by
    cases r with
    | butterfly radix => cases radix <;> decide
    | rotate | swap | cyclicShift => decide
  intro r r' h
  have hr := hfind r
  rw [h, hfind r'] at hr
  exact (Option.some.inj hr).symm

lemma Outline.tableName_injective : Function.Injective tableName := fun i j h =>
  toDigits_injective (by simpa [tableName] using congrArg (·.toList) h)

/-- The functions that are called. -/
def Outline.called (file : Outline) : List String :=
  file.functions.flatMap (·.called)

namespace Kernel

variable [ScalarText R]

/-- The lines that print the live stream. -/
def printedLines (k : Kernel R) : List String :=
  k.liveEntries.map fun inst => indented (inst.text k.slotNames)

/-- The function of a kernel without calls: it is given the arrays of the transform, declares the
temporaries that are used in its body, and goes on with the live stream. -/
structure IsMainOf (k : Kernel R) (f : FunctionSource) : Prop where
  name_eq : f.name = k.functionName
  parameters_eq : f.parameters =
    if k.transform.isCosine then [⟨k.slotNames.input, false⟩, ⟨k.slotNames.output, true⟩]
    else [⟨k.slotNames.real, true⟩, ⟨k.slotNames.imag, true⟩]
  body_eq : f.body = f.declared.map (fun name => indented ("let mut " ++ name ++ ": f64;")) ++
    k.printedLines
  nodup_declared : f.declared.Nodup
  mem_declared : ∀ name, name ∈ f.declared ↔
    ∃ id : ℕ, name = s!"t{id}" ∧ ∃ line ∈ f.lines, name ∈ line.operands

/-- The function that transforms one array: it declares a copy, fills it from the array, and calls
the kernel's function on both. -/
structure IsInPlaceOf (k : Kernel R) (f : FunctionSource) : Prop where
  name_eq : f.name = k.functionName ++ "_in_place"
  parameters_eq : f.parameters = [⟨"buf", true⟩]
  lines_eq : f.lines = [{ bound := some "input" }, { operands := ["input", "buf"] },
    { callee := some k.functionName, operands := ["input", "buf"] }]

/-- The outline of a kernel without calls. There is the kernel's function and, for a cosine
transform, the one that works in place. -/
structure IsUnrolledIn (k : Kernel R) (file : Outline) : Prop where
  imports_eq : file.imports = []
  tables_eq : file.tables = []
  nodup_names : (file.functions.map (·.name)).Nodup
  /-- Every name in a body resolves; in particular, no temporary is declared twice. -/
  isClosed : ∀ f ∈ file.functions, f.IsClosedIn file
  exists_main : ∃ main, k.IsMainOf main ∧
    (k.transform.isCosine = false ∧ file.functions = [main] ∨
      k.transform.isCosine = true ∧
        ∃ inPlace, k.IsInPlaceOf inPlace ∧ file.functions = [main, inPlace])

/-- The outline of a kernel made of calls, whose functions have at most `maxLines` entries. -/
structure IsCalledIn (k : Kernel R) (maxLines : ℕ) (file : Outline) : Prop where
  /-- The routines that are called are imported, each once, in the order of the library. -/
  imports_eq : file.imports = (Routine.all.map Routine.name).filter (· ∈ file.called)
  /-- Each call works on both arrays, and refers to the tables that go with it. -/
  operands_eq : ∀ o c, .op o ∈ k.liveEntries → o.stmt = .call c →
    (LineSource.read (indented (o.stmt.text k.slotNames))).operands =
      k.slotNames.real :: k.slotNames.imag :: c.tables.map Prod.fst
  /-- They are declared with the slots of the call. -/
  mem_tables : ∀ o c, .op o ∈ k.liveEntries → o.stmt = .call c → ∀ t ∈ c.tables, t ∈ file.tables
  /-- No table is declared twice. -/
  nodup_tables : (file.tables.map Prod.fst).Nodup
  /-- No function is imported or defined twice. -/
  nodup_names : (file.imports ++ file.functions.map (·.name)).Nodup
  /-- Every name in a body resolves. -/
  isClosed : ∀ f ∈ file.functions, f.IsClosedIn file
  /-- All functions are given both arrays. -/
  parameters_eq : ∀ f ∈ file.functions,
    f.parameters = [⟨k.slotNames.real, true⟩, ⟨k.slotNames.imag, true⟩]
  /-- The live stream is cut into parts. A single part is the kernel's function; several are called
  by it one after the other. -/
  exists_parts : ∃ parts main, parts ≠ [] ∧ main.name = k.functionName ∧
    (file.functions = [main] ∧ parts = [main] ∨
      file.functions = parts ++ [main] ∧ main.body = parts.map fun part =>
        indented s!"{part.name}({k.slotNames.real}, {k.slotNames.imag});") ∧
    parts.flatMap (·.body) = k.printedLines ∧
    ∀ part ∈ parts, part.body.length ≤ maxLines ∧ (k.printedLines ≠ [] → part.body ≠ [])

lemma map_read_printedLines [PlainScalarText R] (k : Kernel R) :
    k.printedLines.map LineSource.read = k.liveEntries.map (·.lineSource k.slotNames) := by
  rw [printedLines, List.map_map]
  exact List.map_congr_left fun inst _ => LineSource.read_text k.areIdentifiers inst

/-- The function of a kernel without calls. -/
def unrolledSource (k : Kernel R) : FunctionSource where
  name := k.functionName
  parameters := k.parameters
  body := k.usedTemps.map (fun id => indented (FunctionText.declaration id)) ++ k.printedLines

/-- The function that works in place. -/
def inPlaceSource (k : Kernel R) : FunctionSource :=
  k.inPlaceFunction.outline k.slotNames

/-- What is read of a kernel without calls. -/
lemma outline_of_unrolled {k : Kernel R} (h : k.strategy = .unrolled) :
    k.sourceFile.outline k.slotNames = ⟨[], [], k.unrolledSource ::
      if k.transform.isCosine then [k.inPlaceSource] else []⟩ := by
  have hmain : (k.usedTemps.map FunctionText.declaration ++ (k.parts.flatten.map .entry).map
      (BodyLine.text k.slotNames)).map indented = k.unrolledSource.body := by
    simp only [unrolledSource, printedLines, flatten_parts, List.map_append, List.map_map]
    rfl
  rw [sourceFile, h]
  simp only [SourceFile.outline, unrolledFunctions, List.map_cons, FunctionText.outline, hmain]
  cases k.transform.isCosine <;> rfl

/-! ### In place -/

/-- The line that declares the copy. -/
lemma read_copyDeclaration (size : ℕ) :
    LineSource.read (indented s!"let mut input = [0.0f64; {size}];") =
      { bound := some "input" } := by
  have hline : s!"let mut input = [0.0f64; {size}];" =
      "let mut input = [0.0f64; " ++ (toString size ++ "];") := by
    simp [String.append_assoc]
  have hfront : words "let mut input = [0.0f64; " = ["let", "mut", "input", "=", "0.0f64"] := by
    decide
  have hwords : (words ("let mut input = [0.0f64; " ++ (toString size ++ "];"))).head? =
      some "let" := by
    rw [words_append (.inl (by decide)), hfront]
    rfl
  have hname : namesIn "let mut input = [0.0f64; " = ["input"] := by decide
  have hend : namesIn "];" = [] := by decide
  have hnames : namesIn ("let mut input = [0.0f64; " ++ (toString size ++ "];")) = ["input"] := by
    rw [namesIn_append (.inl (by decide)), hname, namesIn_append (.inr (by decide)),
      namesIn_toString, hend]
    rfl
  simp only [hline, LineSource.read, LineSource.words_indented, LineSource.namesIn_indented, hwords,
    hnames]
  rfl

lemma isName_range (stop : ℕ) : IsName (".." ++ toString stop) := by
  have hpoints : IsName ".." := ⟨by simp, by simp [isSeparator, separators]⟩
  exact hpoints.append (isName_toString stop)

lemma namesIn_range (stop : ℕ) : namesIn (".." ++ toString stop) = [] := by
  refine namesIn_of_head (by simp [isLetter]) fun c hc => ?_
  rw [String.toList_append, List.mem_append] at hc
  have hpoints : "..".toList.all (!isPunctuation ·) = true := by decide
  exact hc.elim (fun hc => by simpa using List.all_eq_true.1 hpoints c hc) fun hc =>
    isPunctuation_of_isNameChar (isNameChar_of_mem_toString c hc)

/-- The line that fills the copy. It calls a member, and no function of the file. -/
lemma read_copyFill (size : ℕ) :
    LineSource.read (indented s!"input.copy_from_slice(&buf[..{size}]);") =
      { operands := ["input", "buf"] } := by
  have hline : s!"input.copy_from_slice(&buf[..{size}]);" =
      "input.copy_from_slice(&buf[" ++ ((".." ++ toString size) ++ "]);") := by
    rw [← String.toList_inj]
    simp
  have hcallee : LineSource.callee? (indented ("input.copy_from_slice(&buf[" ++
      ((".." ++ toString size) ++ "]);"))) = none := by
    have hinput : IsIdentifier "input" := isIdentifier_of_startsIdentifier (by decide)
    have hmember : "input.copy_from_slice(&buf[" = "input" ++ ".copy_from_slice(&buf[" := rfl
    rw [hmember, String.append_assoc,
      LineSource.callee?_append hinput (c := '.') (by simp) (by decide), if_neg (by decide)]
  have hwords : words ("input.copy_from_slice(&buf[" ++ ((".." ++ toString size) ++ "]);")) =
      ["input.copy_from_slice", "&buf", ".." ++ toString size] := by
    have hfront : words "input.copy_from_slice(&buf[" = ["input.copy_from_slice", "&buf"] := by
      decide
    have hend : words "]);" = [] := by decide
    rw [words_append (.inl (by decide)), hfront, words_append (.inr (by decide)),
      (isName_range size).words_eq, hend]
    rfl
  have hequals : ["input.copy_from_slice", "&buf", ".." ++ toString size].contains "=" = false := by
    have hne : "=" ≠ ".." ++ toString size := by
      intro heq
      simpa using congrArg (·.toList.head?) heq
    simpa using hne
  have hnames : namesIn ("input.copy_from_slice(&buf[" ++ ((".." ++ toString size) ++ "]);")) =
      ["input", "buf"] := by
    have hfront : namesIn "input.copy_from_slice(&buf[" = ["input", "buf"] := by decide
    have hend : namesIn "]);" = [] := by decide
    rw [namesIn_append (.inl (by decide)), hfront, namesIn_append (.inr (by decide)),
      namesIn_range, hend]
    rfl
  simp only [hline, LineSource.read, LineSource.words_indented, LineSource.namesIn_indented, hwords,
    hnames, hcallee, hequals]
  rfl

omit [ScalarText R] in
/-- The line that calls the kernel's function. -/
lemma read_copyCall (k : Kernel R) :
    LineSource.read (indented s!"{k.functionName}(&input, buf);") =
      { callee := some k.functionName, operands := ["input", "buf"] } := by
  have hoperands : namesIn "&input, buf);" = ["input", "buf"] := by decide
  have hline : s!"{k.functionName}(&input, buf);" = k.functionName ++ ("(" ++ "&input, buf);") := by
    rw [← String.toList_inj]
    simp
  rw [hline, LineSource.read_call k.isIdentifier_functionName, hoperands]

lemma lines_inPlaceSource (k : Kernel R) : k.inPlaceSource.lines =
    [{ bound := some "input" }, { operands := ["input", "buf"] },
      { callee := some k.functionName, operands := ["input", "buf"] }] := by
  have hlines : k.inPlaceSource.lines =
      [LineSource.read (indented s!"let mut input = [0.0f64; {k.size}];"),
        LineSource.read (indented s!"input.copy_from_slice(&buf[..{k.size}]);"),
        LineSource.read (indented s!"{k.functionName}(&input, buf);")] := rfl
  rw [hlines, read_copyDeclaration, read_copyFill, read_copyCall]

lemma isInPlaceOf_inPlaceSource (k : Kernel R) : k.IsInPlaceOf k.inPlaceSource :=
  ⟨rfl, rfl, k.lines_inPlaceSource⟩

section Unrolled

variable [PlainScalarText R] {k : Kernel R}

/-- The temporaries are declared, and nothing else. -/
lemma lines_unrolledSource (k : Kernel R) : k.unrolledSource.lines =
    k.usedTemps.map (fun id => { bound := some s!"t{id}" }) ++
      k.liveEntries.map (·.lineSource k.slotNames) := by
  rw [FunctionSource.lines, unrolledSource, List.map_append, map_read_printedLines, List.map_map]
  simp only [Function.comp_def, LineSource.read_declaration]

omit [ScalarText R] [PlainScalarText R] in
/-- Entries declare nothing. -/
lemma filterMap_bound_entries (names : SlotNames) (entries : List (Instruction R)) :
    (entries.map (·.lineSource names)).filterMap (·.bound) = [] := by
  rw [List.filterMap_eq_nil_iff]
  simpa using fun inst _ => inst.bound_lineSource names

lemma declared_unrolledSource (k : Kernel R) :
    k.unrolledSource.declared = k.usedTemps.map fun id => s!"t{id}" := by
  rw [FunctionSource.declared, lines_unrolledSource, List.filterMap_append,
    filterMap_bound_entries, List.append_nil, List.filterMap_map]
  exact congrFun (List.filterMap_eq_map (f := fun id : ℕ => s!"t{id}")) k.usedTemps

/-- No temporary is declared twice, and none has the name of an array. -/
lemma nodup_scope (k : Kernel R) :
    (k.parameters.map (·.name) ++ k.unrolledSource.declared).Nodup := by
  rw [declared_unrolledSource, List.nodup_append]
  refine ⟨?_, ?_, ?_⟩
  · unfold parameters laneParameters slotNames
    cases k.transform <;> decide
  · refine List.Nodup.map (fun id other h => ?_) (k.ordered_usedTemps.imp fun h => h.ne)
    have hhome : (Symbol.temp id).home k.slotNames = s!"t{other}" := h
    exact Symbol.temp.inj ((Symbol.home_eq_temp_iff k.areIdentifiers).1 hhome)
  · intro name hname name' hname' heq
    obtain ⟨p, hp, rfl⟩ := List.mem_map.1 hname
    obtain ⟨id, -, rfl⟩ := List.mem_map.1 hname'
    refine k.areIdentifiers.head?_ne _ (k.name_mem_of_mem_parameters hp) ?_
    simp [heq]

lemma home_mem_declared {s : Symbol} (hs : s.isTemp = true)
    (htemp : ∀ id, s = .temp id → id ∈ k.usedTemps) :
    s.home k.slotNames ∈ k.unrolledSource.declared := by
  cases s with
  | temp id =>
    rw [declared_unrolledSource]
    exact List.mem_map_of_mem (htemp id rfl)
  | input i | output i | real i | imag i => cases hs

variable (h : k.IsMadeOfAssignments)

include h

omit [ScalarText R] [PlainScalarText R] in
/-- The line of an entry says nothing, or it is an assignment whose locations are in scope. -/
lemma lineSource_cases {inst : Instruction R} (hinst : inst ∈ k.liveEntries) :
    inst.lineSource k.slotNames = {} ∨ ∃ (dst : Symbol) (symbols : List Symbol),
      dst.isInput = false ∧ dst ∈ symbols ∧ inst.lineSource k.slotNames =
        { target := some (dst.home k.slotNames), operands := symbols.map (·.home k.slotNames) } ∧
      ∀ s ∈ symbols, k.Gives s ∧ ∀ id, s = .temp id → id ∈ k.usedTemps := by
  cases inst with
  | comment text => exact .inl rfl
  | op o =>
    obtain ⟨dst, e, hstmt, hinput, hgives⟩ := h.exists_assign o hinst
    refine .inr ⟨dst, dst :: e.occurrences, hinput, by simp, ?_, fun s hs => ⟨hgives s hs, ?_⟩⟩
    · rw [Instruction.lineSource, hstmt, Stmt.lineSource]
    · rintro id rfl
      refine mem_usedTemps.2 ⟨o, hinst, ?_⟩
      simpa [Op.inputs, Op.outputs, hstmt, Stmt.inputs, Stmt.outputs, or_comm] using hs

/-- The temporaries that are used are those that operations read or write. -/
lemma exists_operand_iff (id : ℕ) :
    (∃ line ∈ k.unrolledSource.lines, s!"t{id}" ∈ line.operands) ↔ id ∈ k.usedTemps := by
  rw [lines_unrolledSource]
  constructor
  · rintro ⟨line, hline, hmem⟩
    rcases List.mem_append.1 hline with hline | hline
    · obtain ⟨id', -, rfl⟩ := List.mem_map.1 hline
      cases hmem
    · obtain ⟨inst, hinst, rfl⟩ := List.mem_map.1 hline
      rcases lineSource_cases h hinst with hempty | ⟨dst, symbols, -, -, hread, hsymbols⟩
      · rw [hempty] at hmem
        cases hmem
      · rw [hread] at hmem
        obtain ⟨s, hs, hhome⟩ := List.mem_map.1 hmem
        rw [Symbol.home_eq_temp_iff k.areIdentifiers] at hhome
        exact (hsymbols s hs).2 id hhome
  · intro hid
    obtain ⟨o, ho, hmem⟩ := mem_usedTemps.1 hid
    obtain ⟨dst, e, hstmt, -⟩ := h.exists_assign o ho
    refine ⟨_, List.mem_append_right _ (List.mem_map_of_mem ho), ?_⟩
    have hsymbol : .temp id ∈ dst :: e.occurrences := by
      simpa [Op.inputs, Op.outputs, hstmt, Stmt.inputs, Stmt.outputs, or_comm] using hmem
    rw [Instruction.lineSource, hstmt]
    exact List.mem_map_of_mem hsymbol

lemma isMainOf_unrolledSource : k.IsMainOf k.unrolledSource := by
  refine ⟨rfl, rfl, ?_, k.nodup_scope.of_append_right, fun name => ?_⟩
  · have hline (id : ℕ) : "let mut " ++ s!"t{id}" ++ ": f64;" = FunctionText.declaration id := by
      rw [FunctionText.declaration, ← String.toList_inj]
      simp
    rw [declared_unrolledSource, List.map_map, unrolledSource]
    have hdeclarations := List.map_congr_left fun id (_ : id ∈ k.usedTemps) =>
      congrArg indented (hline id).symm
    exact congrArg (· ++ k.printedLines) hdeclarations
  · rw [declared_unrolledSource, List.mem_map]
    constructor
    · rintro ⟨id, hid, rfl⟩
      exact ⟨id, rfl, (exists_operand_iff h id).2 hid⟩
    · rintro ⟨id, rfl, hused⟩
      exact ⟨id, (exists_operand_iff h id).1 hused, rfl⟩

/-- A line of the kernel's function calls nothing, uses what is in scope, and assigns to what can be
written. -/
lemma line_unrolledSource {line : LineSource} (hline : line ∈ k.unrolledSource.lines) :
    line.callee = none ∧
      line.operands ⊆ k.parameters.map (·.name) ++ k.unrolledSource.declared ∧
      ∀ name ∈ line.target, name ∈ k.unrolledSource.declared ∨ ⟨name, true⟩ ∈ k.parameters := by
  rw [lines_unrolledSource] at hline
  rcases List.mem_append.1 hline with hline | hline
  · obtain ⟨id, -, rfl⟩ := List.mem_map.1 hline
    simp
  · obtain ⟨inst, hinst, rfl⟩ := List.mem_map.1 hline
    rcases lineSource_cases h hinst with hempty | ⟨dst, symbols, hinput, hdst, hread, hsymbols⟩
    · simp [hempty]
    · rw [hread]
      refine ⟨rfl, fun name hname => ?_, fun name hname => ?_⟩
      · obtain ⟨s, hs, rfl⟩ := List.mem_map.1 hname
        obtain ⟨hlocal | ⟨p, hp, hhome, -⟩, htemp⟩ := hsymbols s hs
        · exact List.mem_append_right _ (home_mem_declared hlocal htemp)
        · exact List.mem_append_left _ (hhome ▸ List.mem_map_of_mem hp)
      · obtain rfl : dst.home k.slotNames = name := by simpa using hname
        obtain ⟨hlocal | ⟨⟨name, isWritten⟩, hp, rfl, hwritten⟩, htemp⟩ := hsymbols dst hdst
        · exact .inl (home_mem_declared hlocal htemp)
        · obtain rfl : isWritten = true := hwritten hinput
          exact .inr hp

/-- Every name in the kernel's function resolves, whatever else is in the file. -/
lemma isClosedIn_unrolledSource {file : Outline} (htables : file.tables = []) :
    k.unrolledSource.IsClosedIn file := by
  refine ⟨?_, fun line hline name hname => ?_, ?_, fun line hline =>
    (line_unrolledSource h hline).2.2⟩
  · rw [htables]
    exact k.nodup_scope
  · rw [(line_unrolledSource h hline).1] at hname
    cases hname
  · have hdeclared :
        (k.usedTemps.map fun id => ({ bound := some s!"t{id}" } : LineSource)).filterMap (·.bound) =
          k.unrolledSource.declared := by
      rw [FunctionSource.declared, lines_unrolledSource, List.filterMap_append,
        filterMap_bound_entries, List.append_nil]
    have hlines := k.lines_unrolledSource
    rw [htables, hlines, LineSource.scoped_append, hdeclared]
    refine ⟨LineSource.scoped_of_subset (by simp), LineSource.scoped_of_subset fun line hline => ?_⟩
    exact (line_unrolledSource h (hlines ▸ List.mem_append_right _ hline)).2.1

omit h [PlainScalarText R] in
/-- The function that works in place calls the kernel's function, which has as many parameters. -/
lemma isClosedIn_inPlaceSource {file : Outline} (hcosine : k.transform.isCosine = true)
    (htables : file.tables = []) (hmain : k.unrolledSource ∈ file.functions) :
    k.inPlaceSource.IsClosedIn file := by
  have hlines := k.lines_inPlaceSource
  have hdeclared : k.inPlaceSource.declared = ["input"] := by
    rw [FunctionSource.declared, hlines]
    rfl
  have hparameters : k.inPlaceSource.parameters = [⟨"buf", true⟩] := rfl
  refine ⟨?_, fun line hline name hname => ?_, ?_, fun line hline name hname => ?_⟩
  · rw [htables, hdeclared, hparameters]
    decide
  · rw [hlines] at hline
    simp only [List.mem_cons, List.not_mem_nil, or_false] at hline
    rcases hline with rfl | rfl | rfl
    · cases hname
    · cases hname
    · obtain rfl : k.functionName = name := by simpa using hname
      exact .inr ⟨k.unrolledSource, hmain, rfl, by simp [unrolledSource, parameters, hcosine]⟩
  · rw [htables, hlines, hparameters]
    simp [LineSource.Scoped]
  · rw [hlines] at hline
    simp only [List.mem_cons, List.not_mem_nil, or_false] at hline
    rcases hline with rfl | rfl | rfl <;> cases hname

lemma isUnrolledIn_outline : k.IsUnrolledIn (k.sourceFile.outline k.slotNames) := by
  have hmain := isMainOf_unrolledSource h
  rw [outline_of_unrolled h.strategy_eq]
  cases hcosine : k.transform.isCosine with
  | false =>
    refine ⟨rfl, rfl, by simp, fun f hf => ?_, _, hmain, .inl ⟨hcosine, rfl⟩⟩
    obtain rfl : f = k.unrolledSource := by simpa using hf
    exact isClosedIn_unrolledSource h rfl
  | true =>
    refine ⟨rfl, rfl, ?_, fun f hf => ?_, _, hmain,
      .inr ⟨hcosine, _, k.isInPlaceOf_inPlaceSource, rfl⟩⟩
    · have hne : k.functionName ≠ k.functionName ++ "_in_place" := by
        intro heq
        simpa using congrArg (·.toList) heq
      simpa [unrolledSource, inPlaceSource, FunctionText.outline, inPlaceFunction] using hne
    · have hcases : f = k.unrolledSource ∨ f = k.inPlaceSource := by simpa using hf
      rcases hcases with rfl | rfl
      · exact isClosedIn_unrolledSource h rfl
      · exact isClosedIn_inPlaceSource hcosine rfl (by simp)

end Unrolled

section Calls

variable {k : Kernel R}

/-- Kernels of Fourier transforms in which all operations are calls, and what these refer to is
recorded. -/
structure IsMadeOfCalls (k : Kernel R) : Prop where
  transform_eq : k.transform = .fourier
  strategy_eq : k.strategy = .calls
  maxFunctionLines_ne_zero : k.maxFunctionLines ≠ 0
  exists_call : ∀ o, .op o ∈ k.liveEntries → ∃ c, o.stmt = .call c
  mem_routines : ∀ r, r ∈ k.routines ↔
    ∃ o c, .op o ∈ k.liveEntries ∧ o.stmt = .call c ∧ c.routine = r
  getElem?_shiftTables : ∀ o table slots, .op o ∈ k.liveEntries →
    o.stmt = .call (.cyclicShift table slots) → k.shiftTables[table]? = some slots

/-- The function of a part. -/
def partSource (k : Kernel R) (j : ℕ) (part : List (Instruction R)) : FunctionSource where
  name := k.partName j
  parameters := k.laneParameters
  body := part.map fun inst => indented (inst.text k.slotNames)

/-- The function that calls the parts. -/
def callingSource (k : Kernel R) : FunctionSource where
  name := k.functionName
  parameters := k.laneParameters
  body := (List.range k.parts.length).map fun j => indented (k.partCall j)

/-- A kernel made of calls is a single function, or its parts are called by one. -/
lemma functions_cases (h : k.strategy = .calls) :
    (k.sourceFile.outline k.slotNames).functions =
        [⟨k.functionName, k.laneParameters, k.printedLines⟩] ∧ k.parts = [k.liveEntries] ∨
      (k.sourceFile.outline k.slotNames).functions =
        (k.parts.zipIdx.map fun p => k.partSource p.2 p.1) ++ [k.callingSource] := by
  have hfunctions : (k.sourceFile.outline k.slotNames).functions =
      k.calledFunctions.map (·.outline k.slotNames) := by
    rw [sourceFile, h]
    rfl
  rw [hfunctions]
  unfold calledFunctions
  split
  case h_1 part hpart =>
    obtain rfl : part = k.liveEntries := by simpa [hpart] using k.flatten_parts
    refine .inl ⟨?_, hpart⟩
    simp [FunctionText.outline, printedLines, BodyLine.text, Function.comp_def]
  case h_2 =>
    refine .inr ?_
    simp [FunctionText.outline, partFunction, partSource, callingSource, BodyLine.text,
      Function.comp_def]

lemma parameters_of_mem_functions (h : k.strategy = .calls) {f : FunctionSource}
    (hf : f ∈ (k.sourceFile.outline k.slotNames).functions) : f.parameters = k.laneParameters := by
  rcases functions_cases h with ⟨hsingle, -⟩ | hparts
  · rw [hsingle, List.mem_singleton] at hf
    rw [hf]
  · rw [hparts, List.mem_append, List.mem_map, List.mem_singleton] at hf
    rcases hf with ⟨p, -, rfl⟩ | rfl <;> rfl

lemma flatMap_partSource (k : Kernel R) :
    (k.parts.zipIdx.map fun p => k.partSource p.2 p.1).flatMap (·.body) = k.printedLines := by
  have hparts : k.parts.flatMap (fun part => part.map fun inst =>
      indented (inst.text k.slotNames)) = k.printedLines := by
    rw [printedLines, ← k.flatten_parts, List.map_flatten, List.flatMap_def]
  rw [← hparts, List.flatMap_map]
  nth_rewrite 2 [← List.zipIdx_map_fst 0 k.parts]
  rw [List.flatMap_map]
  rfl

lemma map_name_partSource (k : Kernel R) :
    (k.parts.zipIdx.map fun p => k.partSource p.2 p.1).map (·.name) =
      (List.range k.parts.length).map k.partName := by
  rw [List.range_eq_range', ← List.zipIdx_map_snd 0 k.parts, List.map_map, List.map_map]
  rfl

omit [ScalarText R] in
lemma partName_injective (k : Kernel R) : Function.Injective k.partName := fun i j h =>
  toDigits_injective (by simpa [partName] using congrArg (·.toList) h)

omit [ScalarText R] in
lemma functionName_ne_partName (k : Kernel R) (j : ℕ) : k.functionName ≠ k.partName j := by
  intro h
  simpa [partName] using congrArg (·.toList.length) h

lemma nodup_names (h : k.strategy = .calls) :
    ((k.sourceFile.outline k.slotNames).functions.map (·.name)).Nodup := by
  rcases functions_cases h with ⟨hsingle, -⟩ | hparts
  · simp [hsingle]
  · rw [hparts, List.map_append, map_name_partSource, List.nodup_append]
    refine ⟨List.nodup_range.map k.partName_injective, by simp, ?_⟩
    intro name hname name' hname'
    obtain ⟨j, -, rfl⟩ := List.mem_map.1 hname
    obtain rfl : name' = k.functionName := by simpa [callingSource] using hname'
    exact (k.functionName_ne_partName j).symm

/-- Every part has lines, unless there are none at all, and not too many. -/
lemma length_of_mem_parts (h : k.strategy = .calls) (hmax : k.maxFunctionLines ≠ 0)
    {part : List (Instruction R)} (hpart : part ∈ k.parts) :
    part.length ≤ k.maxFunctionLines ∧ (k.printedLines ≠ [] → part ≠ []) := by
  rw [parts, h] at hpart
  obtain ⟨hle, hne⟩ := length_of_mem_liveParts hmax hpart
  exact ⟨hle, fun hlines => hne fun hnil => hlines (congrArg (List.map _) hnil)⟩

omit [ScalarText R] in
lemma parts_ne_nil (h : k.strategy = .calls) : k.parts ≠ [] := by
  rw [parts, h]
  exact liveParts_ne_nil

lemma exists_parts (h : k.strategy = .calls) (hmax : k.maxFunctionLines ≠ 0) :
    ∃ parts main, parts ≠ [] ∧ main.name = k.functionName ∧
      ((k.sourceFile.outline k.slotNames).functions = [main] ∧ parts = [main] ∨
        (k.sourceFile.outline k.slotNames).functions = parts ++ [main] ∧
          main.body = parts.map fun part =>
            indented s!"{part.name}({k.slotNames.real}, {k.slotNames.imag});") ∧
      parts.flatMap (·.body) = k.printedLines ∧
      ∀ part ∈ parts, part.body.length ≤ k.maxFunctionLines ∧
        (k.printedLines ≠ [] → part.body ≠ []) := by
  rcases functions_cases h with ⟨hsingle, hpart⟩ | hparts
  · have hmem : k.liveEntries ∈ k.parts := by simp [hpart]
    obtain ⟨hle, -⟩ := length_of_mem_parts h hmax hmem
    refine ⟨[⟨k.functionName, k.laneParameters, k.printedLines⟩], _, by simp, rfl,
      .inl ⟨hsingle, rfl⟩, by simp, ?_⟩
    simpa [printedLines] using hle
  · refine ⟨_, k.callingSource, ?_, rfl, .inr ⟨hparts, ?_⟩, k.flatMap_partSource, ?_⟩
    · simpa using parts_ne_nil h
    · let call (name : String) := indented s!"{name}({k.slotNames.real}, {k.slotNames.imag});"
      have hbody : k.callingSource.body =
          ((List.range k.parts.length).map k.partName).map call := by
        rw [List.map_map]
        rfl
      rw [hbody, ← map_name_partSource, List.map_map]
      rfl
    · intro part hpart
      obtain ⟨⟨entries, j⟩, hmem, rfl⟩ := List.mem_map.1 hpart
      have hlength := length_of_mem_parts h hmax (List.fst_mem_of_mem_zipIdx hmem)
      simpa [partSource] using hlength

omit [ScalarText R] in
/-- A line that calls a part hands over both arrays. -/
lemma read_partCall (k : Kernel R) (j : ℕ) : LineSource.read (indented (k.partCall j)) =
    { callee := some (k.partName j), operands := [k.slotNames.real, k.slotNames.imag] } := by
  have hreal := k.areIdentifiers.isIdentifier k.slotNames.real (by simp)
  have himag := k.areIdentifiers.isIdentifier k.slotNames.imag (by simp)
  have hline : k.partCall j = k.partName j ++ ("(" ++ (k.slotNames.real ++ (", " ++
      (k.slotNames.imag ++ ");")))) := by
    simp [partCall, String.append_assoc]
  have hcomma : namesIn ", " = [] := by decide
  have hend : namesIn ");" = [] := by decide
  rw [hline, LineSource.read_call (k.isIdentifier_partName j),
    namesIn_append (isApart_append (by decide) _ _), hreal.namesIn_eq,
    namesIn_append (.inl (by decide)), hcomma, namesIn_append (.inr (by decide)),
    himag.namesIn_eq, hend]
  rfl

omit [ScalarText R] in
lemma lines_callingSource (k : Kernel R) : k.callingSource.lines =
    (List.range k.parts.length).map fun j =>
      { callee := some (k.partName j), operands := [k.slotNames.real, k.slotNames.imag] } := by
  rw [FunctionSource.lines, callingSource, List.map_map]
  simp only [Function.comp_def, read_partCall]

/-- The lines of a function print entries of the kernel, or call parts that are there. -/
lemma line_cases [PlainScalarText R] (h : k.strategy = .calls) {f : FunctionSource}
    (hf : f ∈ (k.sourceFile.outline k.slotNames).functions) {line : LineSource}
    (hline : line ∈ f.lines) :
    (∃ inst ∈ k.liveEntries, line = inst.lineSource k.slotNames) ∨
      ∃ g ∈ (k.sourceFile.outline k.slotNames).functions, ∃ j, g.name = k.partName j ∧
        line = { callee := some g.name, operands := [k.slotNames.real, k.slotNames.imag] } := by
  rcases functions_cases h with ⟨hsingle, -⟩ | hparts
  · obtain rfl : f = _ := List.mem_singleton.1 (hsingle ▸ hf)
    rw [FunctionSource.lines, map_read_printedLines] at hline
    obtain ⟨inst, hinst, rfl⟩ := List.mem_map.1 hline
    exact .inl ⟨inst, hinst, rfl⟩
  rw [hparts, List.mem_append, List.mem_singleton] at hf
  rcases hf with hf | rfl
  · obtain ⟨⟨part, j⟩, hpart, rfl⟩ := List.mem_map.1 hf
    rw [FunctionSource.lines, partSource, List.map_map] at hline
    obtain ⟨inst, hinst, rfl⟩ := List.mem_map.1 hline
    refine .inl ⟨inst, ?_, LineSource.read_text k.areIdentifiers inst⟩
    rw [← k.flatten_parts]
    exact List.mem_flatten.2 ⟨part, List.fst_mem_of_mem_zipIdx hpart, hinst⟩
  · rw [lines_callingSource] at hline
    obtain ⟨j, hj, rfl⟩ := List.mem_map.1 hline
    have hname :
        k.partName j ∈ (k.parts.zipIdx.map fun p => k.partSource p.2 p.1).map (·.name) := by
      rw [map_name_partSource]
      exact List.mem_map_of_mem hj
    obtain ⟨g, hg, hname⟩ := List.mem_map.1 hname
    rw [hparts, ← hname]
    exact .inr ⟨g, List.mem_append_left _ hg, j, hname, rfl⟩

lemma imports_outline (h : k.strategy = .calls) : (k.sourceFile.outline k.slotNames).imports =
    (Routine.all.filter (· ∈ k.routines)).map Routine.name := by
  rw [sourceFile, h]
  rfl

lemma tables_outline (h : k.strategy = .calls) : (k.sourceFile.outline k.slotNames).tables =
    k.shiftTables.toList.zipIdx.map fun p => (tableName p.2, p.1) := by
  rw [sourceFile, h]
  rfl

lemma map_fst_tables_outline (h : k.strategy = .calls) :
    (k.sourceFile.outline k.slotNames).tables.map Prod.fst =
      (List.range' 0 k.shiftTables.toList.length).map tableName := by
  rw [tables_outline h, ← List.zipIdx_map_snd 0 k.shiftTables.toList, List.map_map, List.map_map]
  rfl

lemma mem_tables_outline (h : k.IsMadeOfCalls) {o : Op R} {c : Call R} (ho : .op o ∈ k.liveEntries)
    (hc : o.stmt = .call c) {t : String × List ℕ} (ht : t ∈ c.tables) :
    t ∈ (k.sourceFile.outline k.slotNames).tables := by
  cases c with
  | cyclicShift table slots =>
    obtain rfl : t = (tableName table, slots) := by simpa [Call.tables] using ht
    have htable := h.getElem?_shiftTables o table slots ho hc
    have hmem : (slots, table) ∈ k.shiftTables.toList.zipIdx := by
      simpa [List.mem_zipIdx_iff_getElem?] using htable
    rw [tables_outline h.strategy_eq]
    exact List.mem_map.2 ⟨(slots, table), hmem, rfl⟩
  | butterfly | rotate | swap => simp [Call.tables] at ht

/-- A line that prints an entry is empty or calls a routine that is imported, on both arrays and on
tables of the file. -/
lemma lineSource_of_isMadeOfCalls (h : k.IsMadeOfCalls) {inst : Instruction R}
    (hinst : inst ∈ k.liveEntries) : inst.lineSource k.slotNames = {} ∨
      ∃ r ∈ k.routines, ∃ tables ⊆ (k.sourceFile.outline k.slotNames).tables.map Prod.fst,
        inst.lineSource k.slotNames =
          { callee := some r.name
            operands := k.slotNames.real :: k.slotNames.imag :: tables } := by
  cases inst with
  | comment text => exact .inl rfl
  | op o =>
    obtain ⟨c, hc⟩ := h.exists_call o hinst
    refine .inr ⟨c.routine, (h.mem_routines _).2 ⟨o, c, hinst, hc, rfl⟩, c.tables.map Prod.fst,
      List.map_subset _ fun t ht => mem_tables_outline h hinst hc ht, ?_⟩
    rw [Instruction.lineSource, hc, Stmt.lineSource]

lemma name_mem_imports (h : k.strategy = .calls) {r : Routine} (hr : r ∈ k.routines) :
    r.name ∈ (k.sourceFile.outline k.slotNames).imports := by
  rw [imports_outline h]
  exact List.mem_map_of_mem (List.mem_filter.2 ⟨r.mem_all, by simpa using hr⟩)

/-- No table has the name of an array, and no two have the same. -/
lemma nodup_tables_append (h : k.IsMadeOfCalls) :
    ((k.sourceFile.outline k.slotNames).tables.map Prod.fst ++
      [k.slotNames.real, k.slotNames.imag]).Nodup := by
  rw [map_fst_tables_outline h.strategy_eq, List.nodup_append]
  refine ⟨List.Nodup.map tableName_injective List.nodup_range', ?_, ?_⟩
  · rw [slotNames, h.transform_eq]
    decide
  · intro name hname name' hname' heq
    obtain ⟨id, -, rfl⟩ := List.mem_map.1 hname
    have hfirst : name'.toList.head? = some 'C' := by simp [← heq, tableName]
    rw [slotNames, h.transform_eq] at hname'
    have hcases : name' = "re" ∨ name' = "im" := by
      simpa [Transform.slotNames, SlotNames.fourier] using hname'
    rcases hcases with rfl | rfl <;> simp at hfirst

/-- A line of a function declares nothing and assigns nothing, uses the arrays and the tables of the
file, and calls what is imported or defined. -/
lemma line_of_mem_functions [PlainScalarText R] (h : k.IsMadeOfCalls) {f : FunctionSource}
    (hf : f ∈ (k.sourceFile.outline k.slotNames).functions) {line : LineSource}
    (hline : line ∈ f.lines) :
    line.bound = none ∧ line.target = none ∧
      line.operands ⊆ (k.sourceFile.outline k.slotNames).tables.map Prod.fst ++
        [k.slotNames.real, k.slotNames.imag] ∧
      ∀ name ∈ line.callee, name ∈ (k.sourceFile.outline k.slotNames).imports ∨
        ∃ g ∈ (k.sourceFile.outline k.slotNames).functions, g.name = name ∧
          g.parameters.length = line.operands.length := by
  rcases line_cases h.strategy_eq hf hline with ⟨inst, hinst, rfl⟩ | ⟨g, hg, j, -, rfl⟩
  · rcases lineSource_of_isMadeOfCalls h hinst with hempty | ⟨r, hr, tables, htables, hread⟩
    · simp [hempty]
    · rw [hread]
      refine ⟨rfl, rfl, ?_, fun name hname => .inl ?_⟩
      · simp [List.cons_subset, List.subset_append_of_subset_left _ htables]
      · obtain rfl : r.name = name := by simpa using hname
        exact name_mem_imports h.strategy_eq hr
  · refine ⟨rfl, rfl, by simp, fun name hname => .inr ⟨g, hg, ?_, ?_⟩⟩
    · simpa using hname
    · rw [parameters_of_mem_functions h.strategy_eq hg]
      rfl

lemma isClosedIn_of_mem_functions [PlainScalarText R] (h : k.IsMadeOfCalls) {f : FunctionSource}
    (hf : f ∈ (k.sourceFile.outline k.slotNames).functions) :
    f.IsClosedIn (k.sourceFile.outline k.slotNames) := by
  have hnames : f.parameters.map (·.name) = [k.slotNames.real, k.slotNames.imag] := by
    rw [parameters_of_mem_functions h.strategy_eq hf]
    rfl
  have hdeclared : f.declared = [] :=
    List.filterMap_eq_nil_iff.2 fun line hline => (line_of_mem_functions h hf hline).1
  refine ⟨?_, fun line hline => (line_of_mem_functions h hf hline).2.2.2, ?_,
    fun line hline name hname => ?_⟩
  · rw [hdeclared, List.append_nil, hnames]
    exact nodup_tables_append h
  · rw [hnames]
    exact LineSource.scoped_of_subset fun line hline =>
      (line_of_mem_functions h hf hline).2.2.1
  · rw [(line_of_mem_functions h hf hline).2.1] at hname
    cases hname

omit [ScalarText R] in
/-- A routine is never taken for a function of the kernel. -/
lemma routineName_ne (h : k.IsMadeOfCalls) (r : Routine) (back : String) :
    r.name ≠ k.functionName ++ back := by
  intro heq
  have hfirst : r.name.toList.head? = some 'm' := by
    cases r with
    | butterfly radix => cases radix <;> rfl
    | rotate | swap | cyclicShift => rfl
  rw [heq] at hfirst
  simp [functionName, h.transform_eq] at hfirst

/-- Every function of the file is named after the kernel. -/
lemma exists_name_eq (h : k.strategy = .calls) {f : FunctionSource}
    (hf : f ∈ (k.sourceFile.outline k.slotNames).functions) :
    ∃ back, f.name = k.functionName ++ back := by
  rcases functions_cases h with ⟨hsingle, -⟩ | hparts
  · obtain rfl : f = _ := List.mem_singleton.1 (hsingle ▸ hf)
    exact ⟨"", by simp⟩
  · rw [hparts, List.mem_append, List.mem_map, List.mem_singleton] at hf
    rcases hf with ⟨p, -, rfl⟩ | rfl
    · exact ⟨"_part" ++ toString p.2, String.append_assoc ..⟩
    · exact ⟨"", by simp [callingSource]⟩

/-- Every entry of the stream is printed in one of the functions. -/
lemma exists_mem_lines [PlainScalarText R] (h : k.strategy = .calls) {inst : Instruction R}
    (hinst : inst ∈ k.liveEntries) : ∃ f ∈ (k.sourceFile.outline k.slotNames).functions,
      inst.lineSource k.slotNames ∈ f.lines := by
  rcases functions_cases h with ⟨hsingle, -⟩ | hparts
  · refine ⟨_, hsingle ▸ List.mem_singleton_self _, ?_⟩
    rw [FunctionSource.lines, map_read_printedLines]
    exact List.mem_map_of_mem hinst
  · rw [← k.flatten_parts] at hinst
    obtain ⟨part, hpart, hinst⟩ := List.mem_flatten.1 hinst
    obtain ⟨j, hj⟩ := List.mem_iff_getElem?.1 hpart
    have hmem : (part, j) ∈ k.parts.zipIdx := List.mem_zipIdx_iff_getElem?.2 hj
    refine ⟨k.partSource j part, ?_, ?_⟩
    · rw [hparts]
      exact List.mem_append_left _ (List.mem_map.2 ⟨(part, j), hmem, rfl⟩)
    · rw [FunctionSource.lines, partSource, ← LineSource.read_text k.areIdentifiers]
      exact List.mem_map_of_mem (List.mem_map_of_mem hinst)

/-- The routines that are called are those that were recorded. -/
lemma mem_called [PlainScalarText R] (h : k.IsMadeOfCalls) (r : Routine) :
    r.name ∈ (k.sourceFile.outline k.slotNames).called ↔ r ∈ k.routines := by
  simp only [called, FunctionSource.called, List.mem_flatMap, List.mem_filterMap]
  constructor
  · rintro ⟨f, hf, line, hline, hcallee⟩
    rcases line_cases h.strategy_eq hf hline with ⟨inst, hinst, rfl⟩ | ⟨g, hg, j, -, rfl⟩
    · rcases lineSource_of_isMadeOfCalls h hinst with hempty | ⟨r', hr', tables, -, hread⟩
      · rw [hempty] at hcallee
        cases hcallee
      · rw [hread] at hcallee
        exact Routine.name_injective (Option.some.inj hcallee) ▸ hr'
    · obtain ⟨back, hback⟩ := exists_name_eq h.strategy_eq hg
      exact absurd ((Option.some.inj hcallee).symm.trans hback) (routineName_ne h r back)
  · intro hr
    obtain ⟨o, c, ho, hc, rfl⟩ := (h.mem_routines r).1 hr
    obtain ⟨f, hf, hline⟩ := exists_mem_lines h.strategy_eq ho
    exact ⟨f, hf, _, hline, by rw [Instruction.lineSource, hc, Stmt.lineSource]⟩

lemma isCalledIn_outline [PlainScalarText R] (h : k.IsMadeOfCalls) :
    k.IsCalledIn k.maxFunctionLines (k.sourceFile.outline k.slotNames) := by
  refine ⟨?_, fun o c ho hc => ?_, fun o c ho hc t ht => mem_tables_outline h ho hc ht, ?_, ?_,
    fun f hf => isClosedIn_of_mem_functions h hf,
    fun f hf => parameters_of_mem_functions h.strategy_eq hf,
    exists_parts h.strategy_eq h.maxFunctionLines_ne_zero⟩
  · rw [imports_outline h.strategy_eq, List.filter_map]
    exact congrArg _ (List.filter_congr fun r _ => by simp [mem_called h])
  · rw [hc, LineSource.read_callText k.areIdentifiers]
  · rw [map_fst_tables_outline h.strategy_eq]
    exact List.Nodup.map tableName_injective List.nodup_range'
  · rw [List.nodup_append]
    refine ⟨?_, nodup_names h.strategy_eq, ?_⟩
    · have hall : Routine.all.Nodup := by decide
      rw [imports_outline h.strategy_eq]
      exact (hall.filter _).map Routine.name_injective
    · intro name hname name' hname' heq
      rw [imports_outline h.strategy_eq] at hname
      obtain ⟨r, -, rfl⟩ := List.mem_map.1 hname
      obtain ⟨f, hf, rfl⟩ := List.mem_map.1 hname'
      obtain ⟨back, hback⟩ := exists_name_eq h.strategy_eq hf
      exact routineName_ne h r back (heq.trans hback)

end Calls

end Kernel

namespace Config

variable [Scalar R] {c : Config} {k : Kernel R}

lemma isLine_comment_of_compile (h : c.compile = .ok k) {text : String}
    (htext : .comment text ∈ k.liveEntries) : IsLine text := by
  obtain ⟨results, happends⟩ := exists_appends_emit (R := R) c
  obtain ⟨b, hrecorded, -, hstream, -⟩ := exists_emitted_of_compile h happends
  obtain ⟨hmem, hlive⟩ := List.mem_filter.1 htext
  exact hrecorded.isLine_comment text (mem_of_mem_eliminateDeadCode (hstream ▸ hmem) hlive)

lemma not_isInvalid_of_compile (h : c.compile = .ok k) : ¬c.IsInvalid := by
  rcases validate_cases c with ⟨-, p, hp⟩ | ⟨hvalid, -⟩
  · have herror := compileUnchecked_of_validate (R := R) hp
    rw [compileUnchecked_of_compile h] at herror
    cases herror
  · exact hvalid

/-- A kernel made of calls has recorded what they refer to. -/
lemma isMadeOfCalls_of_compile (h : c.compile = .ok k) (hstrategy : c.strategy = .calls) :
    k.IsMadeOfCalls := by
  obtain ⟨-, hmax, hcosine⟩ :
      c.size ≠ 0 ∧ c.maxFunctionLines ≠ 0 ∧ c.transform.isCosine ≠ true := by
    simpa [IsInvalid, hstrategy] using not_isInvalid_of_compile h
  have htransform : c.transform = .fourier := by
    cases hc : c.transform <;> simp_all [Transform.isCosine]
  obtain ⟨b, hrecorded, hcall, hstream, hroutines, htables⟩ :=
    exists_emitted_of_compile h (appends_emit_of_calls htransform hstrategy)
  rw [eliminateDeadCode_of_isCall hcall] at hstream
  have hlive (o : Op R) : .op o ∈ k.liveEntries ↔ .op o ∈ b.stream.toList := by
    rw [Kernel.op_mem_liveEntries, hstream]
    exact ⟨And.left, fun ho => ⟨ho, (hcall o ho).2.1⟩⟩
  obtain ⟨-, order, b', -, -, rfl⟩ := exists_of_compile h
  refine ⟨htransform, hstrategy, hmax, fun o ho => (hcall o ((hlive o).1 ho)).2.2, fun r => ?_,
    fun o table slots ho hstmt => ?_⟩
  · rw [hroutines, hrecorded.mem_routines]
    simp only [hlive]
  · rw [htables]
    exact hrecorded.getElem?_shiftTables o table slots ((hlive o).1 ho) hstmt

variable [ScalarText R] [PlainScalarText R]

/-- A Fourier transform of twelve points in parts of four calls. -/
def twelveInParts : Config :=
  { size := 12, transform := .fourier, strategy := .calls, maxFunctionLines := 4, verify := false }

end Config

end MixedRadix
