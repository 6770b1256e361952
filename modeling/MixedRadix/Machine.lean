import MixedRadix.Instruction
import MixedRadix.Lanes

/-!
# Machines

What runs a stream: the contents of every location that a symbol can name, one step per
instruction. Reading or writing outside of an array is a fault.
-/

namespace MixedRadix

/-- The contents of all locations. -/
structure Machine (R : Type) where
  /-- Temporaries by number. -/
  temps : Array R
  /-- Input samples. -/
  input : Array R
  /-- Output samples. Without an array of their own they share the one of the input, as in a
  transform in place. -/
  output : Option (Array R)
  /-- Complex slots. -/
  lanes : Lanes R

namespace Machine

variable {R : Type}

/-- The contents of a location. An output with an array of its own is read there, whether or not
there is such a sample; the machines that run a kernel have as many outputs as samples. -/
def read (m : Machine R) : Symbol → Except Fault R
  | .temp id => getOrFault m.temps id
  | .input i => getOrFault m.input i
  | .output i => getOrFault (m.output.getD m.input) i
  | .real i => getOrFault m.lanes.re i
  | .imag i => getOrFault m.lanes.im i

/-- Replaces the contents of a location. The input can only be changed through an output that
shares its array. -/
def write (m : Machine R) (s : Symbol) (x : R) : Except Fault (Machine R) :=
  match s, m with
  | .temp id, m => do
    checkIndex m.temps id
    return { m with temps := m.temps.setIfInBounds id x }
  | .input i, _ => .error (.inputWritten i)
  | .output i, ⟨temps, input, some output, lanes⟩ => do
    checkIndex output i
    return ⟨temps, input, some (output.setIfInBounds i x), lanes⟩
  | .output i, ⟨temps, input, none, lanes⟩ => do
    checkIndex input i
    return ⟨temps, input.setIfInBounds i x, none, lanes⟩
  | .real i, ⟨temps, input, output, ⟨re, im⟩⟩ => do
    checkIndex re i
    return ⟨temps, input, output, ⟨re.setIfInBounds i x, im⟩⟩
  | .imag i, ⟨temps, input, output, ⟨re, im⟩⟩ => do
    checkIndex im i
    return ⟨temps, input, output, ⟨re, im.setIfInBounds i x⟩⟩

variable [Scalar R]

/-- Runs a routine on the complex slots. A cyclic shift follows its table. -/
def callLanes (tables : Array (List Nat)) (l : Lanes R) : Call R → Except Fault (Lanes R)
  | .butterfly _ slots => l.butterfly slots
  | .rotate slot cos sin => l.rotate slot cos sin
  | .swap a b => l.swap a b
  | .cyclicShift table _ => do l.cyclicShift (← getOrFault tables table)

/-- Runs a statement. -/
def runStmt (tables : Array (List Nat)) (m : Machine R) (s : Stmt R) : Except Fault (Machine R) :=
  match s, m with
  | .assign dst value, m => do m.write dst (← value.evalIn m.read)
  | .call c, ⟨temps, input, output, lanes⟩ => do
    return ⟨temps, input, output, ← callLanes tables lanes c⟩

/-- Runs an entry of a stream; comments and pruned operations do nothing. -/
def step (tables : Array (List Nat)) (m : Machine R) (inst : Instruction R) :
    Except Fault (Machine R) :=
  match inst.liveOp? with
  | none => .ok m
  | some o => m.runStmt tables o.stmt

/-- Runs a stream. -/
def execute (tables : Array (List Nat)) (stream : List (Instruction R)) (m : Machine R) :
    Except Fault (Machine R) :=
  stream.foldlM (step tables) m

end Machine

end MixedRadix
