import MixedRadix.Proofs.Footprint
import MixedRadix.Proofs.Outline

/-!
# Lines of code

What a line in the body of a function says to a reader who has nothing but the text
(`LineSource.read`): which variable it declares, which function it calls, what it assigns to, and
which other names it uses. For every kind of line that is printed this is known: comments say
nothing, a declaration names its temporary, an assignment uses the locations of its statement, and a
call the two arrays and its own tables (`LineSource.read_text`). No statement takes more than a
line.
-/

namespace MixedRadix

variable {R : Type}

open Outline

/-! ### Reading -/

/-- What a line of code declares, calls, assigns to and uses. -/
structure LineSource where
  /-- The variable that it declares. -/
  bound : Option String := none
  /-- The function that it calls. -/
  callee : Option String := none
  /-- The variable or array that it assigns to. -/
  target : Option String := none
  /-- The names that it uses, other than the one it declares or calls. -/
  operands : List String := []

namespace LineSource

/-- The name at the start of a line, if a parenthesis opens right behind it. -/
def callee? (line : String) : Option String :=
  let code := line.toList.dropWhile (· == ' ')
  match code.dropWhile isNameChar with
  | '(' :: _ => some (String.ofList (code.takeWhile isNameChar))
  | _ => none

/-- What is read of a line: nothing of a comment, and else the names in it, of which the first one
is declared, called or assigned to. -/
def read (line : String) : LineSource :=
  match (words line).head? with
  | some "//" => {}
  | some "let" => { bound := (namesIn line).head?, operands := (namesIn line).tail }
  | _ =>
    match callee? line with
    | some name => { callee := some name, operands := (namesIn line).tail }
    | none =>
      { target := if (words line).contains "=" then (namesIn line).head? else none
        operands := namesIn line }

lemma words_indented (text : String) : words (indented text) = words text := by
  have hblank : words "    " = [] := by decide
  rw [indented, words_append (.inl (by decide)), hblank, List.nil_append]

lemma namesIn_indented (text : String) : namesIn (indented text) = namesIn text := by
  have hblank : namesIn "    " = [] := by decide
  rw [indented, namesIn_append (.inl (by decide)), hblank, List.nil_append]

lemma read_comment (text : String) : read (indented ("// " ++ text)) = {} := by
  have hslashes : words "// " = ["//"] := by decide
  simp only [read, words_indented, words_append (.inl (by decide) : IsApart isSeparator "// " text),
    hslashes]
  rfl

section Identifiers

variable {name rest : String} {c : Char}

/-- Separators stand between names. -/
lemma isPunctuation_of_isSeparator (hc : isSeparator c = true) :
    isPunctuation c = true ∧ isNameChar c = false := by
  have hname : isNameChar c = false := by
    by_contra h
    rw [isSeparator_eq_false (p := isNameChar) (by decide) (by simpa using h)] at hc
    cases hc
  refine ⟨?_, hname⟩
  have hpoint : c ≠ '.' := by
    rintro rfl
    exact absurd hc (by decide)
  simp [isPunctuation, hname, hpoint]

/-- A parenthesis behind the first name makes it the name of a function. -/
lemma callee?_append (hname : IsIdentifier name) (hrest : rest.toList.head? = some c)
    (hc : isNameChar c = false) :
    callee? (indented (name ++ rest)) = if c = '(' then some name else none := by
  obtain ⟨cs, hrest⟩ := List.head?_eq_some_iff.1 hrest
  have hcode : (indented (name ++ rest)).toList.dropWhile (· == ' ') = name.toList ++ c :: cs := by
    obtain ⟨d, ds, hds⟩ := List.exists_cons_of_ne_nil hname.isRun.ne_nil
    have hd : d ≠ ' ' := by
      rintro rfl
      exact absurd (hname.mem ' ' (by simp [hds])) (by decide)
    simp [indented, hds, hd, hrest]
  simp only [callee?, hcode]
  rw [List.dropWhile_append_of_pos hname.mem, List.takeWhile_append_of_pos hname.mem]
  split
  case h_1 hparen =>
    obtain ⟨rfl, -⟩ : c = '(' ∧ cs = _ := by simpa [hc] using hparen
    simp [hc]
  case h_2 hother =>
    have hne : c ≠ '(' := by
      rintro rfl
      exact hother cs (by simp [hc])
    simp [hne]

lemma namesIn_name_append (hname : IsIdentifier name) (hrest : rest.toList.head? = some c)
    (hc : isSeparator c = true) : namesIn (name ++ rest) = name :: namesIn rest := by
  have hapart : IsApart isPunctuation name rest :=
    .inr (by simp [hrest, (isPunctuation_of_isSeparator hc).1])
  rw [namesIn_append hapart, hname.namesIn_eq]
  rfl

/-- A line that starts with a name is no comment and no declaration. -/
lemma read_append (hname : IsIdentifier name) (hrest : rest.toList.head? = some c)
    (hc : isSeparator c = true) : read (indented (name ++ rest)) =
      if c = '(' then { callee := some name, operands := namesIn rest }
      else
        { target := if (words (name ++ rest)).contains "=" then some name else none
          operands := name :: namesIn rest } := by
  have hhead : (words (indented (name ++ rest))).head? = some name := by
    rw [words_indented, words_append (.inr (by simp [hrest, hc])), hname.isName.words_eq]
    rfl
  have hslash : name ≠ "//" := by
    rintro rfl
    exact absurd hname.head (by decide)
  have hlet : name ≠ "let" := by
    rintro rfl
    exact hname.notMem_reserved (by decide)
  unfold read
  rw [hhead, callee?_append hname hrest (isPunctuation_of_isSeparator hc).2, namesIn_indented,
    words_indented, namesIn_name_append hname hrest hc]
  split
  · simp_all
  · simp_all
  · by_cases hparen : c = '(' <;> simp [hparen]

lemma read_call (hname : IsIdentifier name) (rest : String) :
    read (indented (name ++ ("(" ++ rest))) =
      { callee := some name, operands := namesIn rest } := by
  have hparen : namesIn "(" = [] := by decide
  have hrest : namesIn ("(" ++ rest) = namesIn rest := by
    rw [namesIn_append (.inl (by decide)), hparen, List.nil_append]
  rw [read_append hname (c := '(') (by simp) (by decide), if_pos rfl, hrest]

end Identifiers

end LineSource

/-! ### Arrays and temporaries -/

/-- The variable or the array in which a location is. -/
def Symbol.home (names : SlotNames) : Symbol → String
  | temp id => s!"t{id}"
  | input _ => names.input
  | output _ => names.output
  | real _ => names.real
  | imag _ => names.imag

/-- The arrays have names that can stand in code, and that cannot be taken for temporaries. -/
structure SlotNames.AreIdentifiers (names : SlotNames) : Prop where
  isIdentifier : ∀ name ∈ [names.input, names.output, names.real, names.imag], IsIdentifier name
  head?_ne : ∀ name ∈ [names.input, names.output, names.real, names.imag],
    name.toList.head? ≠ some 't'

lemma Transform.areIdentifiers (t : Transform) : t.slotNames.AreIdentifiers := by
  have hall : ([t.slotNames.input, t.slotNames.output, t.slotNames.real,
      t.slotNames.imag].all startsIdentifier) = true := by
    cases t <;> decide
  refine ⟨fun name hname => ?_, ?_⟩
  · exact isIdentifier_of_startsIdentifier (List.all_eq_true.1 hall name hname)
  · cases t <;> decide

lemma isIdentifier_temp (id : ℕ) : IsIdentifier s!"t{id}" := by
  have hfront : startsIdentifier "t" = true := by decide
  exact isIdentifier_append hfront isNameChar_of_mem_toString

namespace Symbol

variable {names : SlotNames}

lemma isIdentifier_home (hnames : names.AreIdentifiers) (s : Symbol) :
    IsIdentifier (s.home names) := by
  cases s with
  | temp id => exact isIdentifier_temp id
  | input i | output i | real i | imag i => exact hnames.isIdentifier _ (by simp [home])

/-- Only temporaries are where temporaries are. -/
lemma home_eq_temp_iff (hnames : names.AreIdentifiers) {s : Symbol} {id : ℕ} :
    s.home names = s!"t{id}" ↔ s = .temp id := by
  refine ⟨fun h => ?_, fun h => h ▸ rfl⟩
  cases s with
  | temp id' =>
    have hdigits : Nat.toDigits 10 id' = Nat.toDigits 10 id := by
      simpa [home] using congrArg (·.toList) h
    rw [toDigits_injective hdigits]
  | input i | output i | real i | imag i =>
    have hhead := congrArg (·.toList.head?) h
    exact absurd (by simpa [home] using hhead) (hnames.head?_ne _ (by simp))

/-- A location is written as its array, with an index if it is no temporary. -/
lemma exists_text_eq (names : SlotNames) (s : Symbol) :
    ∃ suffix, s.text names = s.home names ++ suffix ∧
      (suffix = "" ∨ ∃ i : ℕ, suffix = "[" ++ (toString i ++ "]")) := by
  cases s with
  | temp id => exact ⟨"", by simp [text, home], .inl rfl⟩
  | input i | output i | real i | imag i =>
    refine ⟨_, ?_, .inr ⟨i, rfl⟩⟩
    simp [text, home, String.append_assoc]

lemma namesIn_index (i : ℕ) : namesIn ("[" ++ (toString i ++ "]")) = [] := by
  have hopen : namesIn "[" = [] := by decide
  have hclose : namesIn "]" = [] := by decide
  rw [namesIn_append (.inl (by decide)), hopen, namesIn_append (.inr (by decide)),
    namesIn_toString, hclose]
  rfl

lemma namesIn_text (hnames : names.AreIdentifiers) (s : Symbol) :
    namesIn (s.text names) = [s.home names] := by
  have hhome := s.isIdentifier_home hnames
  obtain ⟨suffix, htext, rfl | ⟨i, rfl⟩⟩ := s.exists_text_eq names
  · rw [htext, String.append_empty, hhome.namesIn_eq]
  · rw [htext, LineSource.namesIn_name_append hhome (c := '[') (by simp) (by decide),
      namesIn_index]

end Symbol

/-! ### Calls -/

variable [ScalarText R]

namespace Call

/-- The tables that the call refers to, with their slots. -/
def tables : Call R → List (String × List ℕ)
  | cyclicShift table slots => [(tableName table, slots)]
  | _ => []

lemma flatMap_namesIn_arguments [PlainScalarText R] (c : Call R) :
    c.arguments.flatMap namesIn = c.tables.map Prod.fst := by
  have hnumber (n : ℕ) : namesIn n.repr = [] := namesIn_toString n
  cases c with
  | butterfly radix slots => simp [arguments, tables, List.flatMap_map, hnumber]
  | rotate slot cos sin => simp [arguments, tables, hnumber, PlainScalarText.namesIn_digits]
  | swap a b => simp [arguments, tables, hnumber]
  | cyclicShift table slots =>
    have hampersand : namesIn "&" = [] := by decide
    have hargument : s!"&CSHFT_INDEXES_{table}" = "&" ++ tableName table := by
      rw [tableName, ← String.toList_inj]
      simp
    rw [arguments, hargument, List.flatMap_singleton, namesIn_append (.inl (by decide)),
      hampersand, (isIdentifier_tableName table).namesIn_eq]
    rfl

end Call

/-- A call uses both arrays and its tables, and nothing else. -/
lemma LineSource.read_callText [PlainScalarText R] {names : SlotNames}
    (hnames : names.AreIdentifiers) (c : Call R) :
    read (indented ((Stmt.call c).text names)) =
      { callee := some c.routine.name
        operands := names.real :: names.imag :: c.tables.map Prod.fst } := by
  have hreal : namesIn names.real = [names.real] :=
    (hnames.isIdentifier _ (by simp)).namesIn_eq
  have himag : namesIn names.imag = [names.imag] :=
    (hnames.isIdentifier _ (by simp)).namesIn_eq
  have hend : namesIn ");" = [] := by decide
  have hoperands : namesIn (", ".intercalate (names.real :: names.imag :: c.arguments) ++ ");") =
      names.real :: names.imag :: c.tables.map Prod.fst := by
    rw [namesIn_append (.inr (by decide)), hend, List.append_nil, namesIn_intercalate,
      List.flatMap_cons, List.flatMap_cons, hreal, himag, Call.flatMap_namesIn_arguments]
    rfl
  rw [Stmt.text, String.append_assoc, String.append_assoc,
    read_call (isIdentifier_routine c.routine), hoperands]

/-! ### Declarations and assignments -/

lemma LineSource.read_declaration (id : ℕ) :
    read (indented (FunctionText.declaration id)) = { bound := some s!"t{id}" } := by
  have htext : FunctionText.declaration id = "let mut " ++ (s!"t{id}" ++ ": f64;") := by
    rw [FunctionText.declaration, ← String.toList_inj]
    simp
  have hlet : words "let mut " = ["let", "mut"] := by decide
  have hfront : namesIn "let mut " = [] := by decide
  have hend : namesIn ": f64;" = [] := by decide
  have hnames : namesIn ("let mut " ++ (s!"t{id}" ++ ": f64;")) = [s!"t{id}"] := by
    rw [namesIn_append (.inl (by decide)), hfront, List.nil_append,
      namesIn_name_append (isIdentifier_temp id) (c := ':') (by simp) (by decide), hend]
  have hwords : (words ("let mut " ++ (s!"t{id}" ++ ": f64;"))).head? = some "let" := by
    rw [words_append (.inl (by decide)), hlet]
    rfl
  simp only [read, htext, words_indented, namesIn_indented, hnames, hwords]
  rfl

section Assignments

variable [PlainScalarText R] {names : SlotNames}

omit [ScalarText R] [PlainScalarText R] in
lemma namesIn_parenthesizedIf (needed : Bool) (text : String) :
    namesIn (parenthesizedIf needed text) = namesIn text := by
  cases needed with
  | false => rfl
  | true =>
    have hopen : namesIn "(" = [] := by decide
    have hclose : namesIn ")" = [] := by decide
    have hwrapped : parenthesizedIf true text = "(" ++ text ++ ")" := rfl
    rw [hwrapped, namesIn_append (.inr (by decide)), hclose, namesIn_append (.inl (by decide)),
      hopen]
    simp

/-- An expression names the locations that occur in it, one after the other. -/
lemma Expr.namesIn_text (hnames : names.AreIdentifiers) (e : Expr R) :
    namesIn (e.text names) = e.occurrences.map (·.home names) := by
  have hbinary {operator : String} (hoperator : namesIn operator = [])
      (hfirst : operator.toList.head?.any isPunctuation = true)
      (hlast : operator.toList.getLast?.all isPunctuation = true) (s t : String) :
      namesIn (s ++ operator ++ t) = namesIn s ++ namesIn t := by
    rw [String.append_assoc, namesIn_append (isApart_append hfirst _ _),
      namesIn_append (.inl hlast), hoperator, List.nil_append]
  induction e with
  | sym s => exact s.namesIn_text hnames
  | lit x =>
    rw [text, literalText, namesIn_parenthesizedIf, PlainScalarText.namesIn_digits]
    rfl
  | neg a iha =>
    have hminus : namesIn "-" = [] := by decide
    rw [text, namesIn_append (.inl (by decide)), hminus, namesIn_parenthesizedIf, iha]
    rfl
  | add a b iha ihb | sub a b iha ihb | mul a b iha ihb =>
    rw [text, hbinary (by decide) (by decide) (by decide)]
    simp [namesIn_parenthesizedIf, iha, ihb]

/-- An assignment uses the locations of its statement, the one it assigns to in front. -/
lemma LineSource.read_assign (hnames : names.AreIdentifiers) (dst : Symbol) (e : Expr R) :
    read (indented ((Stmt.assign dst e).text names)) =
      { target := some (dst.home names)
        operands := (dst :: e.occurrences).map (·.home names) } := by
  have hend : namesIn ";" = [] := by decide
  have hequals : namesIn " = " = [] := by decide
  have hvalue : namesIn (" = " ++ (e.text names ++ ";")) = e.occurrences.map (·.home names) := by
    rw [namesIn_append (.inl (by decide)), hequals, namesIn_append (.inr (by decide)), hend,
      e.namesIn_text hnames, List.nil_append, List.append_nil]
  have hcontains (front : String) :
      (words (front ++ (" = " ++ (e.text names ++ ";")))).contains "=" = true := by
    have hword : words " = " = ["="] := by decide
    rw [words_append (isApart_append (by decide) _ _), words_append (.inl (by decide)), hword]
    simp
  obtain ⟨suffix, htext, hsuffix⟩ := dst.exists_text_eq names
  have hline : (Stmt.assign dst e).text names =
      dst.home names ++ (suffix ++ (" = " ++ (e.text names ++ ";"))) := by
    rw [Stmt.text, htext]
    simp only [String.append_assoc]
  have hhome := dst.isIdentifier_home hnames
  rcases hsuffix with rfl | ⟨i, rfl⟩
  · rw [hline, String.empty_append, read_append hhome (c := ' ') (by simp) (by decide),
      if_neg (by decide), hcontains, hvalue]
    rfl
  · have hindex : IsApart isPunctuation ("[" ++ (toString i ++ "]"))
        (" = " ++ (e.text names ++ ";")) := isApart_append (by decide) _ _
    rw [hline, read_append hhome (c := '[') (by simp) (by decide), if_neg (by decide),
      ← String.append_assoc, hcontains, namesIn_append hindex, Symbol.namesIn_index, hvalue]
    rfl

end Assignments

/-! ### Entries -/

/-- What the line of a statement says. -/
def Stmt.lineSource (names : SlotNames) : Stmt R → LineSource
  | assign dst e =>
    { target := some (dst.home names), operands := (dst :: e.occurrences).map (·.home names) }
  | call c =>
    { callee := some c.routine.name
      operands := names.real :: names.imag :: c.tables.map Prod.fst }

/-- What the line of an entry says. -/
def Instruction.lineSource (names : SlotNames) : Instruction R → LineSource
  | comment _ => {}
  | op o => o.stmt.lineSource names

/-- Every entry that is printed is read as what it says. -/
lemma LineSource.read_text [PlainScalarText R] {names : SlotNames} (hnames : names.AreIdentifiers)
    (inst : Instruction R) : read (indented (inst.text names)) = inst.lineSource names := by
  cases inst with
  | comment text => exact read_comment text
  | op o =>
    rw [Instruction.text, Instruction.lineSource]
    cases o.stmt with
    | assign dst e => exact read_assign hnames dst e
    | call c => exact read_callText hnames c

omit [ScalarText R] in
lemma Instruction.bound_lineSource (names : SlotNames) (inst : Instruction R) :
    (inst.lineSource names).bound = none := by
  cases inst with
  | comment text => rfl
  | op o =>
    rw [lineSource]
    cases o.stmt <;> rfl

/-! ### Single lines -/

section SingleLines

variable {names : SlotNames}

omit [ScalarText R] in
lemma Symbol.isLine_text (hnames : names.AreIdentifiers) (s : Symbol) : IsLine (s.text names) := by
  obtain ⟨suffix, htext, hsuffix⟩ := s.exists_text_eq names
  rw [htext]
  refine (s.isIdentifier_home hnames).isName.isLine.append ?_
  rcases hsuffix with rfl | ⟨i, rfl⟩ <;> simp [IsLine]

variable [PlainScalarText R]

lemma isLine_digits (x : R) : IsLine (ScalarText.digits x) := fun hmem =>
  absurd (List.all_eq_true.1 (PlainScalarText.all_digits x) _ hmem) (by decide)

omit [ScalarText R] [PlainScalarText R] in
lemma isLine_parenthesizedIf {text : String} (h : IsLine text) (needed : Bool) :
    IsLine (parenthesizedIf needed text) := by
  cases needed with
  | true => exact (IsLine.append (by simp [IsLine]) h).append (by simp [IsLine])
  | false => exact h

lemma Expr.isLine_text (hnames : names.AreIdentifiers) (e : Expr R) : IsLine (e.text names) := by
  induction e with
  | sym s => exact s.isLine_text hnames
  | lit x => exact isLine_parenthesizedIf (isLine_digits x) _
  | neg a iha => exact IsLine.append (by simp [IsLine]) (isLine_parenthesizedIf iha _)
  | add a b iha ihb | sub a b iha ihb =>
    exact (iha.append (by simp [IsLine])).append (isLine_parenthesizedIf ihb _)
  | mul a b iha ihb =>
    exact ((isLine_parenthesizedIf iha _).append (by simp [IsLine])).append
      (isLine_parenthesizedIf ihb _)

lemma Call.isLine_of_mem_arguments {c : Call R} {argument : String} (h : argument ∈ c.arguments) :
    IsLine argument := by
  have hnumber (n : ℕ) : IsLine n.repr := (isName_toString n).isLine
  cases c with
  | butterfly radix slots =>
    obtain ⟨slot, -, rfl⟩ := List.mem_map.1 h
    exact hnumber slot
  | rotate slot cos sin =>
    have hcases : argument = slot.repr ∨ argument = ScalarText.digits cos ∨
        argument = ScalarText.digits sin := by simpa [arguments] using h
    rcases hcases with rfl | rfl | rfl
    · exact hnumber slot
    · exact isLine_digits cos
    · exact isLine_digits sin
  | swap a b =>
    have hcases : argument = a.repr ∨ argument = b.repr := by simpa [arguments] using h
    rcases hcases with rfl | rfl
    · exact hnumber a
    · exact hnumber b
  | cyclicShift table slots =>
    obtain rfl : argument = s!"&CSHFT_INDEXES_{table}" := by simpa [arguments] using h
    simp [IsLine]

lemma Stmt.isLine_text (hnames : names.AreIdentifiers) (stmt : Stmt R) :
    IsLine (stmt.text names) := by
  cases stmt with
  | assign dst e =>
    exact (((dst.isLine_text hnames).append (by simp [IsLine])).append
      (e.isLine_text hnames)).append (by simp [IsLine])
  | call c =>
    have harguments : ∀ item ∈ names.real :: names.imag :: c.arguments, IsLine item := by
      intro item hitem
      rcases List.mem_cons.1 hitem with rfl | hitem
      · exact (hnames.isIdentifier _ (by simp)).isName.isLine
      rcases List.mem_cons.1 hitem with rfl | hitem
      · exact (hnames.isIdentifier _ (by simp)).isName.isLine
      · exact Call.isLine_of_mem_arguments hitem
    have hroutine := (isIdentifier_routine c.routine).isName.isLine
    exact ((hroutine.append (by simp [IsLine])).append
      (isLine_intercalate (by simp [IsLine]) harguments)).append (by simp [IsLine])

end SingleLines

end MixedRadix
