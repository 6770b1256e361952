import MixedRadix.Symbol

/-!
# Configurations

What kernel is wanted, and where it goes.
-/

namespace MixedRadix

/-- Kind of transform. -/
inductive Transform where
  | cosineForward
  | cosineInverse
  | fourier
  deriving DecidableEq, Repr

namespace Transform

/-- All kinds of transforms. -/
def all : List Transform :=
  [cosineForward, cosineInverse, fourier]

/-- The name of the kind. -/
def name : Transform → String
  | cosineForward => "dct-forward"
  | cosineInverse => "dct-inverse"
  | fourier => "fft"

/-- The kind with a name. -/
def ofName? (name : String) : Option Transform :=
  all.find? fun t => t.name == name

/-- Whether the transform is a cosine transform. -/
def isCosine : Transform → Bool
  | cosineForward | cosineInverse => true
  | fourier => false

/-- The arrays of kernels of this kind. -/
def slotNames : Transform → SlotNames
  | cosineForward => .cosineForward
  | cosineInverse => .cosineInverse
  | fourier => .fourier

end Transform

/-- How the code of a Fourier transform is laid out. -/
inductive Strategy where
  /-- Straight-line scalar code. -/
  | unrolled
  /-- Calls of routines. -/
  | calls
  deriving DecidableEq, Repr

namespace Strategy

/-- All strategies. -/
def all : List Strategy :=
  [unrolled, calls]

/-- The name of the strategy. -/
def name : Strategy → String
  | unrolled => "inline"
  | calls => "subroutine"

/-- The strategy with a name. -/
def ofName? (name : String) : Option Strategy :=
  all.find? fun s => s.name == name

end Strategy

/-- A request for a kernel. -/
structure Config where
  /-- Number of points. -/
  size : Nat
  /-- Whether a cosine transform is scaled to be orthogonal. -/
  orthogonal : Bool := false
  /-- Path of the file to write. -/
  output : Option String := none
  transform : Transform := .cosineForward
  strategy : Strategy := .unrolled
  /-- Most entries of a function in a kernel made of calls. -/
  maxFunctionLines : Nat := 500
  /-- Whether comments are kept. -/
  annotate : Bool := false
  /-- Whether the kernel is measured against the direct sums. -/
  verify : Bool := true
  deriving DecidableEq, Repr

/-- A field of a configuration. -/
inductive Field where
  | size
  | orthogonal
  | output
  | transform
  | strategy
  | maxFunctionLines
  | annotate
  | verify
  deriving DecidableEq, Repr

namespace Field

/-- All fields in the order in which they are written. -/
def all : List Field :=
  [size, orthogonal, output, transform, strategy, maxFunctionLines, annotate, verify]

/-- The key of the field. -/
def name : Field → String
  | size => "N"
  | orthogonal => "orthogon"
  | output => "output"
  | transform => "transform"
  | strategy => "strategy"
  | maxFunctionLines => "max_function_lines"
  | annotate => "annotate"
  | verify => "verify"

/-- The field with a key. -/
def ofName? (name : String) : Option Field :=
  all.find? fun f => f.name == name

end Field

end MixedRadix
