import MixedRadix.SourceFile
import MixedRadix.Proofs.Lines
import MixedRadix.Proofs.Statements

/-!
# Outlines of source files

The outline of a source text is what it declares: imported names, tables, and functions with their
parameters and the lines of their bodies. It is read off the text alone (`Outline.read`): the first
words of a line that is not indented say what the line is, and a body goes on to the next brace that
is not indented. The text of a well-formed file is read back as the file was laid out
(`SourceFile.read_text`).
-/

namespace MixedRadix

variable {R : Type}

/-- A function in source text. -/
structure FunctionSource where
  name : String
  parameters : List Parameter
  /-- The lines of its body. -/
  body : List String

/-- What a source text declares. -/
@[ext]
structure Outline where
  /-- The names that are imported. -/
  imports : List String
  /-- The tables, each with what it holds. -/
  tables : List (String × List ℕ)
  functions : List FunctionSource

namespace Outline

/-! ### Reading -/

/-- The words of a line that is not indented. -/
def heading (line : String) : List String :=
  if line.toList.head? = some ' ' then [] else words line

/-- The names that a line imports. -/
def importedBy (line : String) : List String :=
  match heading line with
  | "use" :: "tkgen" :: "fft" :: "baseop" :: names => names
  | _ => []

/-- The table that a line declares. It holds as many numbers as its type says. -/
def table? (line : String) : Option (String × List ℕ) :=
  match heading line with
  | "const" :: name :: "usize" :: length :: "=" :: slots => do
    let slots ← slots.mapM fun slot => ofDecimal? slot.toList
    guard (ofDecimal? length.toList = some slots.length)
    return (name, slots)
  | _ => none

/-- The parameters that some words declare, all of which are arrays. -/
def parameters? : List String → Option (List Parameter)
  | [] => some []
  | name :: "&" :: "f64" :: rest => (parameters? rest).map (⟨name, false⟩ :: ·)
  | name :: "&mut" :: "f64" :: rest => (parameters? rest).map (⟨name, true⟩ :: ·)
  | _ => none

/-- The function that a line opens, with its parameters. -/
def opened? (line : String) : Option (String × List Parameter) :=
  match heading line with
  | "pub" :: "fn" :: name :: rest => (parameters? rest).map (name, ·)
  | "fn" :: name :: rest => (parameters? rest).map (name, ·)
  | _ => none

/-- The functions among some lines. A body ends at the brace that is not indented. -/
def functionsOf : List String → List FunctionSource
  | [] => []
  | line :: rest =>
    (opened? line).toList.map (fun f => ⟨f.1, f.2, rest.takeWhile (· != "\x7d")⟩) ++
      functionsOf rest

/-- The outline of some lines. -/
def ofLines (lines : List String) : Outline where
  imports := lines.flatMap importedBy
  tables := lines.filterMap table?
  functions := functionsOf lines

/-- The outline of a source text. -/
def read (text : String) : Outline :=
  ofLines (linesOf text)

instance : EmptyCollection Outline :=
  ⟨⟨[], [], []⟩⟩

instance : Append Outline :=
  ⟨fun a b => ⟨a.imports ++ b.imports, a.tables ++ b.tables, a.functions ++ b.functions⟩⟩

lemma append_def (a b : Outline) :
    a ++ b = ⟨a.imports ++ b.imports, a.tables ++ b.tables, a.functions ++ b.functions⟩ :=
  rfl

@[simp]
lemma empty_append (a : Outline) : ∅ ++ a = a :=
  rfl

@[simp]
lemma append_empty (a : Outline) : a ++ ∅ = a := by
  ext1 <;> exact List.append_nil _

lemma append_assoc (a b c : Outline) : a ++ b ++ c = a ++ (b ++ c) := by
  simp [append_def]

/-! ### Lines that declare nothing -/

/-- The line opens and declares nothing. -/
structure IsQuiet (line : String) : Prop where
  importedBy_eq : importedBy line = []
  table?_eq : table? line = none
  opened?_eq : opened? line = none

lemma isQuiet_of_heading {line : String}
    (h : ∀ w ∈ (heading line).head?, w ∉ ["use", "const", "pub", "fn"]) : IsQuiet line := by
  constructor
  · unfold importedBy
    split <;> simp_all
  · unfold table?
    split <;> simp_all
  · unfold opened?
    split <;> simp_all

lemma isQuiet_of_first {line : String} {c : Char} (hline : line.toList.head? = some c)
    (hc : c ∉ ['u', 'c', 'p', 'f']) (hseparator : isSeparator c = false) : IsQuiet line := by
  obtain ⟨cs, hcs⟩ := List.head?_eq_some_iff.1 hline
  obtain ⟨w, hw⟩ := exists_head?_words hcs hseparator
  have hblank : c ≠ ' ' := by
    rintro rfl
    cases hseparator
  refine isQuiet_of_heading fun v hv hmem => hc ?_
  obtain rfl : v = String.ofList (c :: w) := by simpa [heading, hline, hblank, hw] using hv.symm
  simpa using List.mem_map_of_mem (f := (·.toList.head?)) hmem

lemma isQuiet_indented (line : String) : IsQuiet (indented line) :=
  isQuiet_of_heading (by simp [heading, indented])

lemma isQuiet_empty : IsQuiet "" := by
  have hheading : heading "" = [] := by decide
  exact isQuiet_of_heading (by simp [hheading])

lemma isQuiet_brace : IsQuiet "\x7d" := by
  have hheading : heading "\x7d" = [] := by decide
  exact isQuiet_of_heading (by simp [hheading])

lemma isQuiet_docLine (text : String) : IsQuiet (FunctionText.docLine text) := by
  unfold FunctionText.docLine
  split
  · exact isQuiet_of_first (c := '/') (by simp) (by decide) rfl
  · exact isQuiet_of_first (c := '/') (by simp) (by decide) rfl

lemma isQuiet_silencingAttribute : IsQuiet silencingAttribute :=
  isQuiet_of_first (c := '#') (by simp [silencingAttribute]) (by decide) rfl

/-! ### Lines one after the other -/

/-- The lines are read as the outline, whatever follows them. -/
def Reads (lines : List String) (a : Outline) : Prop :=
  ∀ rest, ofLines (lines ++ rest) = a ++ ofLines rest

lemma ofLines_cons (line : String) (rest : List String) :
    ofLines (line :: rest) =
      ⟨importedBy line, (table? line).toList,
        (opened? line).toList.map fun f => ⟨f.1, f.2, rest.takeWhile (· != "\x7d")⟩⟩ ++
        ofLines rest := by
  cases htable : table? line <;> simp [ofLines, functionsOf, append_def, htable]

lemma IsQuiet.ofLines_cons {line : String} (h : IsQuiet line) (rest : List String) :
    ofLines (line :: rest) = ofLines rest := by
  rw [Outline.ofLines_cons, h.importedBy_eq, h.table?_eq, h.opened?_eq]
  rfl

lemma reads_of_isQuiet {lines : List String} (h : ∀ line ∈ lines, IsQuiet line) :
    Reads lines ∅ := by
  intro rest
  induction lines with
  | nil => rfl
  | cons line lines ih =>
    rw [List.cons_append, (h line (by simp)).ofLines_cons]
    exact ih fun l hl => h l (by simp [hl])

lemma Reads.append {lines lines' : List String} {a b : Outline} (h : Reads lines a)
    (h' : Reads lines' b) : Reads (lines ++ lines') (a ++ b) := by
  intro rest
  rw [List.append_assoc, h, h', append_assoc]

/-- A section in front of others. -/
lemma Reads.cons_section {lines : List String} {sections : List (List String)} {a b : Outline}
    (h : Reads lines a) (hrest : Reads ([""].intercalate sections) b) :
    Reads ([""].intercalate (lines :: sections)) (a ++ b) := by
  have hempty : Reads [""] ∅ := reads_of_isQuiet (by simpa using isQuiet_empty)
  cases sections with
  | nil => simpa using h.append hrest
  | cons lines' sections =>
    rw [List.intercalate_cons_cons]
    simpa using (h.append hempty).append hrest

/-- A section that is left out if it says nothing. -/
lemma Reads.section_unless {lines : List String} {sections : List (List String)} {a b : Outline}
    {idle : Bool} (h : Reads lines a) (hidle : idle = true → a = ∅)
    (hrest : Reads ([""].intercalate sections) b) :
    Reads ([""].intercalate ((if idle then [] else [lines]) ++ sections)) (a ++ b) := by
  cases idle with
  | true =>
    rw [hidle rfl]
    exact hrest
  | false => exact h.cons_section hrest

/-! ### Lines that declare something -/

/-- The first word of a line decides what it is. -/
lemma heading_append {front back : String} (hfirst : front.toList.head?.all (· != ' ') = true)
    (hne : front.toList ≠ []) (h : IsApart isSeparator front back) :
    heading (front ++ back) = words front ++ words back := by
  have hblank : (front ++ back).toList.head? ≠ some ' ' := by
    rw [String.toList_append, List.head?_append_of_ne_nil _ hne]
    intro hhead
    simp [hhead] at hfirst
  rw [heading, if_neg hblank, words_append h]

lemma isIdentifier_routine (r : Routine) : IsIdentifier r.name := by
  refine isIdentifier_of_startsIdentifier ?_
  cases r with
  | butterfly radix => cases radix <;> decide
  | rotate | swap | cyclicShift => decide

lemma heading_importLine (routines : List Routine) : heading (SourceFile.importLine routines) =
    ["use", "tkgen", "fft", "baseop"] ++ routines.map Routine.name := by
  have hnames : ∀ name ∈ routines.map Routine.name, IsName name := by
    simpa using fun r _ => (isIdentifier_routine r).isName
  have hfront : words "use tkgen::fft::baseop::\x7b" = ["use", "tkgen", "fft", "baseop"] := by
    decide
  have hend : words "\x7d;" = [] := by decide
  unfold SourceFile.importLine
  rw [String.append_assoc, heading_append (by decide) (by simp) (.inl (by decide)), hfront,
    words_append (.inr (by decide)), words_intercalate hnames, hend, List.append_nil]

lemma reads_importLine (routines : List Routine) :
    Reads [SourceFile.importLine routines] ⟨routines.map Routine.name, [], []⟩ := by
  intro rest
  rw [List.singleton_append, ofLines_cons, importedBy, table?, opened?, heading_importLine]
  rfl

/-- The name of a table. -/
def tableName (id : ℕ) : String :=
  s!"CSHFT_INDEXES_{id}"

lemma isIdentifier_tableName (id : ℕ) : IsIdentifier (tableName id) := by
  have hfront : startsIdentifier "CSHFT_INDEXES_" = true := by decide
  exact isIdentifier_append hfront isNameChar_of_mem_toString

lemma heading_tableLine (id : ℕ) (slots : List ℕ) : heading (SourceFile.tableLine id slots) =
    "const" :: tableName id :: "usize" :: toString slots.length :: "=" :: slots.map toString := by
  have hslots : ∀ slot ∈ slots.map toString, IsName slot := by
    simpa using fun slot _ => isName_toString slot
  have hline : SourceFile.tableLine id slots =
      "const " ++ (tableName id ++ (": [usize; " ++ (toString slots.length ++ ("] = [" ++
        (", ".intercalate (slots.map toString) ++ "];"))))) := by
    unfold SourceFile.tableLine tableName
    rw [← String.toList_inj]
    simp
  have hconst : words "const " = ["const"] := by decide
  have htype : words ": [usize; " = ["usize"] := by decide
  have hequals : words "] = [" = ["="] := by decide
  have hend : words "];" = [] := by decide
  rw [hline, heading_append (by decide) (by simp) (.inl (by decide)), hconst,
    words_append (isApart_append (by decide) _ _), (isIdentifier_tableName id).isName.words_eq,
    words_append (.inl (by decide)), htype, words_append (isApart_append (by decide) _ _),
    (isName_toString _).words_eq, words_append (.inl (by decide)), hequals,
    words_append (.inr (by decide)), words_intercalate hslots, hend, List.append_nil]
  rfl

lemma mapM_ofDecimal? (slots : List ℕ) :
    (slots.map toString).mapM (fun slot => ofDecimal? slot.toList) = some slots := by
  induction slots with
  | nil => rfl
  | cons slot slots ih =>
    rw [List.map_cons, List.mapM_cons, ih]
    simp [ofDecimal?_toDigits]

lemma reads_tableLine (id : ℕ) (slots : List ℕ) :
    Reads [SourceFile.tableLine id slots] ⟨[], [(tableName id, slots)], []⟩ := by
  intro rest
  have htable : table? (SourceFile.tableLine id slots) = some (tableName id, slots) := by
    rw [table?, heading_tableLine]
    simp only [mapM_ofDecimal?]
    simp [ofDecimal?_toDigits]
  rw [List.singleton_append, ofLines_cons, htable, importedBy, opened?, heading_tableLine]
  rfl

/-- A run of tables, numbered from `start`. -/
lemma reads_tables (tables : List (List ℕ)) (start : ℕ) :
    Reads ((tables.zipIdx start).map fun p => SourceFile.tableLine p.2 p.1)
      ⟨[], (tables.zipIdx start).map fun p => (tableName p.2, p.1), []⟩ := by
  induction tables generalizing start with
  | nil => exact fun _ => rfl
  | cons slots tables ih => exact (reads_tableLine start slots).append (ih (start + 1))

lemma words_parameter {p : Parameter} (h : IsName p.name) :
    words p.text = [p.name, if p.isWritten then "&mut" else "&", "f64"] := by
  unfold Parameter.text
  split
  · have htype : words ": &mut [f64]" = ["&mut", "f64"] := by decide
    rw [words_append (.inr (by decide)), h.words_eq, htype]
    rfl
  · have htype : words ": &[f64]" = ["&", "f64"] := by decide
    rw [words_append (.inr (by decide)), h.words_eq, htype]
    rfl

lemma parameters?_words {ps : List Parameter} (h : ∀ p ∈ ps, IsName p.name) :
    parameters? (ps.flatMap fun p => words p.text) = some ps := by
  induction ps with
  | nil => rfl
  | cons p ps ih =>
    have hrest := ih fun q hq => h q (by simp [hq])
    obtain ⟨name, isWritten⟩ := p
    rw [List.flatMap_cons, words_parameter (h _ (by simp))]
    cases isWritten with
    | true => exact congrArg (Option.map _) hrest
    | false => exact congrArg (Option.map _) hrest

lemma heading_signature {f : FunctionText R} (hname : IsName f.name) : heading f.signature =
    (if f.visible then ["pub", "fn"] else ["fn"]) ++
      f.name :: f.parameters.flatMap fun p => words p.text := by
  have hparameters : words ("(" ++ (", ".intercalate (f.parameters.map Parameter.text) ++
      ") \x7b")) = f.parameters.flatMap fun p => words p.text := by
    have hopen : words "(" = [] := by decide
    have hend : words ") \x7b" = [] := by decide
    rw [words_append (.inl (by decide)), hopen, words_append (.inr (by decide)), hend,
      List.append_nil, words, runs_intercalate rfl rfl, List.flatMap_map]
    rfl
  unfold FunctionText.signature
  rw [String.append_assoc, String.append_assoc, String.append_assoc]
  cases f.visible with
  | true =>
    have hfront : words "pub fn " = ["pub", "fn"] := by decide
    rw [if_pos rfl, heading_append (by decide) (by simp) (.inl (by decide)), hfront,
      words_append (isApart_append (by decide) _ _), hname.words_eq, hparameters]
    rfl
  | false =>
    have hfront : words "fn " = ["fn"] := by decide
    rw [if_neg (by simp), heading_append (by decide) (by simp) (.inl (by decide)), hfront,
      words_append (isApart_append (by decide) _ _), hname.words_eq, hparameters]
    rfl

lemma ofLines_signature {f : FunctionText R} (hname : IsName f.name)
    (hparameters : ∀ p ∈ f.parameters, IsName p.name) (rest : List String) :
    ofLines (f.signature :: rest) =
      ⟨[], [], [⟨f.name, f.parameters, rest.takeWhile (· != "\x7d")⟩]⟩ ++ ofLines rest := by
  have hopened : opened? f.signature = some (f.name, f.parameters) := by
    rw [opened?, heading_signature hname]
    cases f.visible <;> exact congrArg (Option.map _) (parameters?_words hparameters)
  rw [ofLines_cons, importedBy, table?, hopened, heading_signature hname]
  cases f.visible <;> rfl

end Outline

/-! ### Files -/

open Outline

variable [ScalarText R]

namespace FunctionText

/-- What is read of the function. -/
def outline (names : SlotNames) (f : FunctionText R) : FunctionSource where
  name := f.name
  parameters := f.parameters
  body := (f.temps.map declaration ++ f.body.map (·.text names)).map indented

/-- The function and its parameters have names, and no line break stands inside of a line. -/
structure IsWellFormed (names : SlotNames) (f : FunctionText R) : Prop where
  isName : IsName f.name
  parameters : ∀ p ∈ f.parameters, IsName p.name
  doc : ∀ text ∈ f.doc, IsLine text
  body : ∀ line ∈ f.body, IsLine (line.text names)

variable {names : SlotNames} {f : FunctionText R}

lemma takeWhile_indented (lines rest : List String) :
    (lines.map indented ++ "\x7d" :: rest).takeWhile (· != "\x7d") = lines.map indented := by
  rw [List.takeWhile_append_of_pos]
  · simp
  · simp only [List.mem_map, bne_iff_ne]
    rintro _ ⟨line, -, rfl⟩ h
    simpa [indented] using congrArg (·.toList.head?) h

lemma reads_lines (h : f.IsWellFormed names) :
    Reads (f.lines names) ⟨[], [], [f.outline names]⟩ := by
  have hfront : Reads (f.doc.map docLine ++ if f.silent then [silencingAttribute] else []) ∅ := by
    refine reads_of_isQuiet fun line hline => ?_
    rcases List.mem_append.1 hline with hline | hline
    · obtain ⟨text, -, rfl⟩ := List.mem_map.1 hline
      exact isQuiet_docLine text
    · obtain ⟨-, rfl⟩ : f.silent = true ∧ line = silencingAttribute := by simpa using hline
      exact isQuiet_silencingAttribute
  have hback : Reads ((f.outline names).body ++ ["\x7d"]) ∅ := by
    refine reads_of_isQuiet fun line hline => ?_
    rcases List.mem_append.1 hline with hline | hline
    · obtain ⟨line, -, rfl⟩ := List.mem_map.1 hline
      exact isQuiet_indented line
    · rw [List.mem_singleton.1 hline]
      exact isQuiet_brace
  intro rest
  have hlines : f.lines names ++ rest = (f.doc.map docLine ++ if f.silent then [silencingAttribute]
      else []) ++ f.signature :: ((f.outline names).body ++ ["\x7d"] ++ rest) := by
    simp [lines, outline]
  have hbody : ((f.outline names).body ++ ["\x7d"] ++ rest).takeWhile (· != "\x7d") =
      (f.outline names).body := by
    rw [List.append_assoc]
    exact takeWhile_indented _ rest
  rw [hlines, hfront, empty_append, ofLines_signature h.isName h.parameters, hbody, hback]
  rfl

lemma isLine_of_mem_lines (h : f.IsWellFormed names) {line : String}
    (hline : line ∈ f.lines names) : IsLine line := by
  have hindented {line : String} (hline : IsLine line) : IsLine (indented line) :=
    IsLine.append (by simp [IsLine]) hline
  simp only [lines, List.mem_append, List.mem_map, List.mem_singleton] at hline
  rcases hline with (((⟨text, htext, rfl⟩ | hline) | rfl) | ⟨line, hline, rfl⟩) | rfl
  · unfold docLine
    split
    · simp [IsLine]
    · exact IsLine.append (by simp [IsLine]) (h.doc text htext)
  · obtain ⟨-, rfl⟩ : f.silent = true ∧ line = silencingAttribute := by simpa using hline
    simp [IsLine, silencingAttribute]
  · have htype (p : Parameter) : IsLine (if p.isWritten then ": &mut [f64]" else ": &[f64]") := by
      split <;> simp [IsLine]
    have hparameters : IsLine (", ".intercalate (f.parameters.map Parameter.text)) := by
      refine isLine_intercalate (by simp [IsLine]) fun text htext => ?_
      obtain ⟨p, hp, rfl⟩ := List.mem_map.1 htext
      exact (h.parameters p hp).isLine.append (htype p)
    have hvisible : IsLine (if f.visible then "pub fn " else "fn ") := by
      split <;> simp [IsLine]
    exact (((hvisible.append h.isName.isLine).append (by simp [IsLine])).append hparameters).append
      (by simp [IsLine])
  · rcases hline with ⟨temp, -, rfl⟩ | ⟨line, hline, rfl⟩
    · refine hindented ?_
      simp [declaration, IsLine]
    · exact hindented (h.body line hline)
  · simp [IsLine]

end FunctionText

namespace SourceFile

/-- What is read of the file. -/
def outline (names : SlotNames) (file : SourceFile R) : Outline where
  imports := file.imports.map Routine.name
  tables := file.tables.zipIdx.map fun p => (tableName p.2, p.1)
  functions := file.functions.map (·.outline names)

/-- The header declares nothing, the functions have names, and no line break stands inside of a
line. -/
structure IsWellFormed (names : SlotNames) (file : SourceFile R) : Prop where
  header : ∀ line ∈ file.header, IsLine line ∧ IsQuiet line
  functions : ∀ f ∈ file.functions, f.IsWellFormed names

variable {names : SlotNames} {file : SourceFile R}

lemma reads_functions {fs : List (FunctionText R)} (h : ∀ f ∈ fs, f.IsWellFormed names) :
    Reads ([""].intercalate (fs.map (·.lines names))) ⟨[], [], fs.map (·.outline names)⟩ := by
  induction fs with
  | nil => exact fun _ => rfl
  | cons f fs ih =>
    have hrest := ih fun g hg => h g (by simp [hg])
    exact (FunctionText.reads_lines (h f (by simp))).cons_section hrest

lemma reads_lines (h : file.IsWellFormed names) :
    Reads (file.lines names) (file.outline names) := by
  have hheader : Reads file.header ∅ := reads_of_isQuiet fun line hline => (h.header line hline).2
  have hfunctions : Reads ([""].intercalate (file.functions.map (·.lines names)))
      ⟨[], [], file.functions.map (·.outline names)⟩ :=
    reads_functions h.functions
  have hnoTables (hidle : file.tables.isEmpty = true) :
      Outline.mk [] (file.tables.zipIdx.map fun p => (tableName p.2, p.1)) [] = ∅ := by
    simp_all
    rfl
  have hnoImports (hidle : file.imports.isEmpty = true) :
      Outline.mk (file.imports.map Routine.name) [] [] = ∅ := by
    simp_all
    rfl
  have htables := (reads_tables file.tables 0).section_unless hnoTables hfunctions
  have himports := (reads_importLine file.imports).section_unless hnoImports htables
  have houtline : file.outline names = ⟨file.imports.map Routine.name, [], []⟩ ++
      (⟨[], file.tables.zipIdx.map fun p => (tableName p.2, p.1), []⟩ ++
        ⟨[], [], file.functions.map (·.outline names)⟩) := by
    simp [outline, append_def]
  rw [houtline, ← empty_append (_ ++ _)]
  simpa [lines, sections] using hheader.cons_section himports

lemma exists_section_of_mem {sections : List (List String)} {line : String}
    (h : line ∈ [""].intercalate sections) : line = "" ∨ ∃ lines ∈ sections, line ∈ lines := by
  induction sections with
  | nil => simp at h
  | cons lines sections ih =>
    cases sections with
    | nil => exact .inr ⟨lines, by simp, by simpa using h⟩
    | cons lines' sections =>
      rw [List.intercalate_cons_cons, List.mem_append, List.mem_append, List.mem_singleton] at h
      rcases h with (hline | rfl) | hrest
      · exact .inr ⟨lines, by simp, hline⟩
      · exact .inl rfl
      · obtain hempty | ⟨lines'', hmem, hline⟩ := ih hrest
        · exact .inl hempty
        · exact .inr ⟨lines'', List.mem_cons_of_mem _ hmem, hline⟩

lemma isLine_importLine (routines : List Routine) : IsLine (importLine routines) := by
  have hnames : IsLine (", ".intercalate (routines.map Routine.name)) :=
    isLine_intercalate (by simp [IsLine])
      (by simpa using fun r _ => (isIdentifier_routine r).isName.isLine)
  have hfront : IsLine "use tkgen::fft::baseop::\x7b" := by simp [IsLine]
  exact (hfront.append hnames).append (by simp [IsLine])

lemma isLine_tableLine (id : ℕ) (slots : List ℕ) : IsLine (tableLine id slots) := by
  have hslots : IsLine (", ".intercalate (slots.map toString)) := by
    refine isLine_intercalate (by simp [IsLine]) ?_
    simpa using fun slot _ => (isName_toString slot).isLine
  refine (IsLine.append ?_ hslots).append (by simp [IsLine])
  simp [IsLine]

lemma isLine_of_mem_lines (h : file.IsWellFormed names) {line : String}
    (hline : line ∈ file.lines names) : IsLine line := by
  rcases exists_section_of_mem hline with rfl | ⟨lines, hlines, hline⟩
  · simp [IsLine]
  simp only [sections, List.mem_append, List.mem_singleton, List.mem_map] at hlines
  rcases hlines with ((rfl | himports) | htables) | ⟨f, hf, rfl⟩
  · exact (h.header line hline).1
  · obtain ⟨-, rfl⟩ : file.imports ≠ [] ∧ lines = [importLine file.imports] := by
      simpa using himports
    rw [List.mem_singleton.1 hline]
    exact isLine_importLine _
  · obtain ⟨-, rfl⟩ : file.tables ≠ [] ∧ lines = _ := by simpa using htables
    obtain ⟨p, -, rfl⟩ := List.mem_map.1 hline
    exact isLine_tableLine _ _
  · exact FunctionText.isLine_of_mem_lines (h.functions f hf) hline

/-- What is written is read. -/
theorem read_text (h : file.IsWellFormed names) :
    Outline.read (file.text names) = file.outline names := by
  have hread := reads_lines h []
  have hend : ofLines [] = ∅ := rfl
  rw [List.append_nil, hend, append_empty] at hread
  unfold Outline.read text
  rw [linesOf_join fun _ => isLine_of_mem_lines h, hread]

end SourceFile

end MixedRadix
