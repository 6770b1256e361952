import MixedRadix.Instruction.Text
import MixedRadix.Kernel

/-!
# Source files

The source text of a kernel. It is laid out first, as a header, the routines and tables that calls
refer to, and functions, and then written section by section. The text depends on the kernel alone.
-/

namespace MixedRadix

/-- A line in the body of a function. -/
inductive BodyLine (R : Type) where
  /-- An entry of the stream. -/
  | entry (inst : Instruction R)
  /-- Any other line. -/
  | plain (text : String)

/-- An array that a function works on. -/
structure Parameter where
  name : String
  /-- Whether the function writes to it. -/
  isWritten : Bool
  deriving DecidableEq, Repr

/-- A function of a source file. -/
structure FunctionText (R : Type) where
  /-- Lines of its documentation. -/
  doc : List String := []
  /-- Whether the warnings that generated code gives rise to are turned off. -/
  silent : Bool := false
  /-- Whether it can be called from outside of the file. -/
  visible : Bool := true
  name : String
  parameters : List Parameter
  /-- The temporaries that it declares. -/
  temps : List Nat := []
  body : List (BodyLine R)

/-- A source file. -/
structure SourceFile (R : Type) where
  header : List String
  /-- The routines that it imports. -/
  imports : List Routine := []
  /-- The slots of cyclic shifts, which it declares in this order. -/
  tables : List (List Nat) := []
  functions : List (FunctionText R)

/-- A line one level further in. -/
def indented (line : String) : String :=
  "    " ++ line

/-- The attribute that turns warnings off: temporaries are declared ahead of their first write, and
a kernel of one point never touches its arrays. -/
def silencingAttribute : String :=
  "#[allow(unused_mut, unused_assignments, unused_variables, clippy::all)]"

/-- The declaration of a parameter. -/
def Parameter.text (p : Parameter) : String :=
  p.name ++ if p.isWritten then ": &mut [f64]" else ": &[f64]"

namespace BodyLine

variable {R : Type} [ScalarText R]

/-- The line in source text. -/
def text (names : SlotNames) : BodyLine R → String
  | entry inst => inst.text names
  | plain text => text

end BodyLine

namespace FunctionText

variable {R : Type} [ScalarText R]

/-- The line that opens the function. -/
def signature (f : FunctionText R) : String :=
  (if f.visible then "pub fn " else "fn ") ++ f.name ++ "(" ++
    ", ".intercalate (f.parameters.map Parameter.text) ++ ") \x7b"

/-- A line of documentation. -/
def docLine (text : String) : String :=
  if text.isEmpty then "///" else "/// " ++ text

/-- The declaration of a temporary. -/
def declaration (temp : Nat) : String :=
  s!"let mut t{temp}: f64;"

/-- The lines of the function. -/
def lines (names : SlotNames) (f : FunctionText R) : List String :=
  f.doc.map docLine ++ (if f.silent then [silencingAttribute] else []) ++ [f.signature] ++
    (f.temps.map declaration ++ f.body.map (·.text names)).map indented ++ ["\x7d"]

end FunctionText

namespace SourceFile

variable {R : Type} [ScalarText R]

/-- The line that imports routines. -/
def importLine (routines : List Routine) : String :=
  "use tkgen::fft::baseop::\x7b" ++ ", ".intercalate (routines.map Routine.name) ++ "\x7d;"

/-- The line that declares the slots of a cyclic shift. -/
def tableLine (id : Nat) (slots : List Nat) : String :=
  s!"const CSHFT_INDEXES_{id}: [usize; {slots.length}] = [" ++
    ", ".intercalate (slots.map toString) ++ "];"

/-- The lines of the file by section. -/
def sections (names : SlotNames) (file : SourceFile R) : List (List String) :=
  [file.header] ++
    (if file.imports.isEmpty then [] else [[importLine file.imports]]) ++
    (if file.tables.isEmpty then []
      else [file.tables.zipIdx.map fun (slots, id) => tableLine id slots]) ++
    file.functions.map (·.lines names)

/-- The lines of the file; sections are separated by an empty line. -/
def lines (names : SlotNames) (file : SourceFile R) : List String :=
  [""].intercalate (file.sections names)

/-- The text of the file. -/
def text (names : SlotNames) (file : SourceFile R) : String :=
  String.join ((file.lines names).map (· ++ "\n"))

end SourceFile

namespace Kernel

variable {R : Type}

/-- The header of the kernel's source file. -/
def header (k : Kernel R) : List String :=
  ["// Generated by tkgen. Do not edit.",
    "//",
    s!"// {k.size}-point {k.transform.name} kernel, Mul/Add/Neg = " ++
      s!"{k.cost.mul}/{k.cost.add}/{k.cost.neg}."]

/-- What kind of transform the kernel is, in words. -/
def title (k : Kernel R) : String :=
  match k.transform with
  | .cosineForward => "Type-II forward DCT"
  | .cosineInverse => "Type-II inverse DCT"
  | .fourier => "mixed-radix FFT"

/-- What the kernel computes. -/
def formula (k : Kernel R) : String :=
  match k.transform with
  | .cosineForward => "dct_out[k] = C[k] * sum(n = 0..N-1, dct_in[n] * cos((2n + 1)kπ / 2N))"
  | .cosineInverse => "idct_out[n] = sum(k = 0..N-1, C[k] * idct_in[k] * cos((2n + 1)kπ / 2N))"
  | .fourier => "X[k] = sum(n = 0..N-1, x[n] * exp(-2πi nk / N))"

/-- How the kernel uses its arrays, or how it is scaled. -/
def remark (k : Kernel R) : String :=
  if !k.transform.isCosine then "Transforms `re`/`im` in place; both must hold N values."
  else if k.orthogonal then
    "Orthogonal scaling: `C[0] = sqrt(1 / N)`, `C[k] = sqrt(2 / N)`."
  else "Not orthogonalized: `C[k] = 1`."

/-- The lines of a documentation that describe the kernel. -/
def docLines (k : Kernel R) : List String :=
  [s!"{k.size}-point {k.title}.", "",
    "Expected output: `" ++ k.formula ++ s!"`, N = {k.size}.", k.remark]

/-- The arrays that a Fourier transform works on. -/
def laneParameters (k : Kernel R) : List Parameter :=
  [⟨k.slotNames.real, true⟩, ⟨k.slotNames.imag, true⟩]

/-- The arrays that the kernel works on. -/
def parameters (k : Kernel R) : List Parameter :=
  if k.transform.isCosine then [⟨k.slotNames.input, false⟩, ⟨k.slotNames.output, true⟩]
  else k.laneParameters

/-- The function that runs a cosine transform over one array: it copies the samples first. -/
def inPlaceFunction (k : Kernel R) : FunctionText R where
  doc := [s!"In-place variant of [`{k.functionName}`]."]
  name := k.functionName ++ "_in_place"
  parameters := [⟨"buf", true⟩]
  body :=
    [.plain s!"let mut input = [0.0f64; {k.size}];",
      .plain s!"input.copy_from_slice(&buf[..{k.size}]);",
      .plain s!"{k.functionName}(&input, buf);"]

/-- The functions of an unrolled kernel. -/
def unrolledFunctions (k : Kernel R) : List (FunctionText R) :=
  { doc := k.docLines
    silent := true
    name := k.functionName
    parameters := k.parameters
    temps := k.usedTemps
    body := k.parts.flatten.map .entry } ::
  if k.transform.isCosine then [k.inPlaceFunction] else []

/-- The name of the function of a part. -/
def partName (k : Kernel R) (j : Nat) : String :=
  s!"{k.functionName}_part{j}"

/-- The function of a part. -/
def partFunction (k : Kernel R) (j : Nat) (part : List (Instruction R)) : FunctionText R where
  silent := true
  visible := false
  name := k.partName j
  parameters := k.laneParameters
  body := part.map .entry

/-- The line that calls the function of a part. -/
def partCall (k : Kernel R) (j : Nat) : String :=
  s!"{k.partName j}({k.slotNames.real}, {k.slotNames.imag});"

/-- The functions of a kernel made of calls: a single one, or one for every part and one that runs
them in order. -/
def calledFunctions (k : Kernel R) : List (FunctionText R) :=
  match k.parts with
  | [part] =>
    [{ doc := k.docLines
       silent := true
       name := k.functionName
       parameters := k.laneParameters
       body := part.map .entry }]
  | parts =>
    parts.zipIdx.map (fun (part, j) => k.partFunction j part) ++
    [{ doc := k.docLines
       name := k.functionName
       parameters := k.laneParameters
       body := (List.range parts.length).map fun j => .plain (k.partCall j) }]

/-- The source file of the kernel. -/
def sourceFile (k : Kernel R) : SourceFile R :=
  match k.strategy with
  | .unrolled => { header := k.header, functions := k.unrolledFunctions }
  | .calls =>
    { header := k.header
      imports := Routine.all.filter (· ∈ k.routines)
      tables := k.shiftTables.toList
      functions := k.calledFunctions }

/-- The source text of the kernel. -/
def source [ScalarText R] (k : Kernel R) : String :=
  k.sourceFile.text k.slotNames

end Kernel

end MixedRadix
