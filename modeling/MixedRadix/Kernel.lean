import MixedRadix.Config
import MixedRadix.Machine
import MixedRadix.Permutation
import MixedRadix.Statistics
import Std.Data.TreeSet

/-!
# Kernels

A kernel is a finished stream with what is needed to run and to print it. A kernel of a cosine
transform reads `n` samples and gives `n` results, out of place or over the same array; a kernel of
a Fourier transform works in place on `n` complex values.
-/

namespace MixedRadix

/-- A finished kernel. -/
structure Kernel (R : Type) where
  transform : Transform
  /-- Number of points. -/
  size : Nat
  strategy : Strategy
  /-- Whether a cosine transform is orthogonal. -/
  orthogonal : Bool
  /-- Coefficients of a cosine transform; none for a Fourier transform. -/
  coefficients : Array R
  /-- The whole stream, pruned operations included. -/
  stream : List (Instruction R)
  /-- The slots of cyclic shifts. -/
  shiftTables : Array (List Nat)
  /-- The routines that are called. -/
  routines : List Routine
  /-- The permutation that the last calls of a kernel made of calls undo. -/
  order : Option Permutation := none
  statistics : Statistics
  /-- Most entries of a function in a kernel made of calls. -/
  maxFunctionLines : Nat

namespace Kernel

variable {R : Type}

/-- The arrays of the kernel. -/
def slotNames (k : Kernel R) : SlotNames :=
  k.transform.slotNames

/-- The entries that are printed. -/
def liveEntries (k : Kernel R) : List (Instruction R) :=
  k.stream.filter (·.isLive)

/-- The cost that was counted when the kernel was finished. -/
def cost (k : Kernel R) : Cost :=
  k.statistics.cost

/-- The entries that are printed, by function. A kernel without calls is a single function. -/
def parts (k : Kernel R) : List (List (Instruction R)) :=
  match k.strategy with
  | .calls => liveParts k.maxFunctionLines k.stream
  | .unrolled => [k.liveEntries]

/-- The temporaries that operations which are run read or write, each once, in increasing order. -/
def usedTemps (k : Kernel R) : List Nat :=
  let symbols := (k.stream.filterMap Instruction.liveOp?).flatMap fun o => o.inputs ++ o.outputs
  (Std.TreeSet.ofList (symbols.filterMap Symbol.tempId?)).toList

/-- A bound of all temporaries in use. -/
def tempCount (k : Kernel R) : Nat :=
  k.usedTemps.getLast?.elim 0 (· + 1)

/-- The name of the kernel's function. -/
def functionName (k : Kernel R) : String :=
  match k.transform with
  | .cosineForward => s!"dct2_forward_{k.size}"
  | .cosineInverse => s!"dct2_inverse_{k.size}"
  | .fourier => s!"fft_mixed_radix_{k.size}"

section Run

variable [Scalar R]

/-- Runs the stream. -/
def execute (k : Kernel R) (m : Machine R) : Except Fault (Machine R) :=
  m.execute k.shiftTables k.stream

/-- Temporaries to which nothing was written. -/
def freshTemps (k : Kernel R) : Array R :=
  Array.replicate k.tempCount Scalar.nan

/-- The results for `n` samples, in an array of their own. -/
def runReal (k : Kernel R) (samples : Array R) : Except Fault (Array R) := do
  if samples.size ≠ k.size then throw (.sampleCount k.size)
  let m ← k.execute
    { temps := k.freshTemps
      input := samples
      output := some (Array.replicate k.size Scalar.nan)
      lanes := ⟨#[], #[]⟩ }
  return m.output.getD #[]

/-- The results for `n` samples, written over the samples. -/
def runInPlace (k : Kernel R) (samples : Array R) : Except Fault (Array R) := do
  if samples.size ≠ k.size then throw (.sampleCount k.size)
  let m ← k.execute
    { temps := k.freshTemps
      input := samples
      output := none
      lanes := ⟨#[], #[]⟩ }
  return m.input

/-- The transform of `n` complex values. -/
def runComplex (k : Kernel R) (values : Lanes R) : Except Fault (Lanes R) := do
  if values.re.size ≠ k.size then throw (.realCount k.size)
  if values.im.size ≠ k.size then throw (.imaginaryCount k.size)
  let m ← k.execute
    { temps := k.freshTemps
      input := #[]
      output := none
      lanes := values }
  return m.lanes

end Run

end Kernel

end MixedRadix
