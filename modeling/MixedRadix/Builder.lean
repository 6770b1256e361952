import MixedRadix.DeadCode
import MixedRadix.Factorization
import MixedRadix.Fault
import MixedRadix.Lifetime.Check
import MixedRadix.Statistics
import MixedRadix.TempPool

/-!
# Builders

A builder is the state of one compilation: the stream emitted so far, the pool of temporaries and
when each of them was held, the routines and shift tables that calls refer to, and counters.
Everything that emits code is a `Build`, a computation on a builder. A failed computation leaves the
builder as it was at the failure.
-/

namespace MixedRadix

/-- The state of a compilation. -/
structure Builder (R : Type) where
  /-- The instructions emitted so far. -/
  stream : Array (Instruction R) := #[]
  /-- The pool of temporaries. -/
  temps : TempPool := {}
  /-- All lifetimes in the order in which they were opened. -/
  lifetimes : Array Lifetime := #[]
  /-- For every temporary in use, the index of its open lifetime. -/
  openLifetimes : Std.TreeMap Nat Nat := {}
  /-- The routines that were called, in order of first call. -/
  routines : List Routine := []
  /-- The slots of cyclic shifts. -/
  shiftTables : Array (List Nat) := #[]
  /-- Whether comments are kept. -/
  annotate : Bool := false
  /-- Number of operations emitted. -/
  emitted : Nat := 0
  /-- Number of operations pruned. -/
  pruned : Nat := 0
  /-- Number of butterflies. -/
  butterflies : Nat := 0
  /-- Number of rotations by shape. -/
  rotations : RotationTally := {}

/-- Why code cannot be emitted. -/
inductive BuildError where
  | badSize (e : BadSize)
  | release (e : ReleaseError)
  | fault (f : Fault)
  deriving DecidableEq, Repr

namespace Builder

variable {R : Type}

/-- Appends an operation. -/
def push (b : Builder R) (op : Op R) : Builder R :=
  { b with stream := b.stream.push (.op op), emitted := b.emitted + 1 }

/-- Appends an assignment. -/
def assign (b : Builder R) (dst : Symbol) (value : Expr R) : Builder R :=
  b.push { stmt := .assign dst value }

/-- Appends an assignment to a result of the kernel. -/
def store (b : Builder R) (dst : Symbol) (value : Expr R) : Builder R :=
  b.push { stmt := .assign dst value, mandatory := true }

/-- Appends a call. Calls write the slots of the kernel, so they are always mandatory. -/
def call (b : Builder R) (c : Call R) : Builder R :=
  let routines := if c.routine ∈ b.routines then b.routines else b.routines ++ [c.routine]
  { b with routines }.push { stmt := .call c, mandatory := true }

/-- Appends a comment if comments are kept. It takes a position of the stream but is not counted. -/
def comment (b : Builder R) (text : String) : Builder R :=
  if b.annotate then { b with stream := b.stream.push (.comment text) } else b

/-- Adds a shift table. -/
def addShiftTable (b : Builder R) (slots : List Nat) : Nat × Builder R :=
  (b.shiftTables.size, { b with shiftTables := b.shiftTables.push slots })

/-- Takes a temporary from the pool and opens a lifetime at the end of the stream. -/
def allocTemp (b : Builder R) : Symbol × Builder R :=
  let (id, temps) := b.temps.allocate
  let openLifetimes := b.openLifetimes.insert id b.lifetimes.size
  let lifetimes := b.lifetimes.push { temp := id, openedAt := b.stream.size }
  (.temp id, { b with temps, openLifetimes, lifetimes })

/-- Closes the open lifetime of a temporary at the end of the stream. -/
def closeLifetime (b : Builder R) (id : Nat) : Builder R :=
  match b.openLifetimes[id]? with
  | none => b
  | some i =>
    let now := b.stream.size
    { b with
      openLifetimes := b.openLifetimes.erase id
      lifetimes := b.lifetimes.modify i fun l => { l with closedAt := some now } }

/-- The builder whose pool has become `temps` by taking a temporary back; its lifetime is closed. -/
def afterRelease (b : Builder R) (s : Symbol) (temps : TempPool) : Builder R :=
  match s.tempId? with
  | none => { b with temps }
  | some id => { b with temps }.closeLifetime id

/-- Counts a butterfly. -/
def recordButterfly (b : Builder R) : Builder R :=
  { b with butterflies := b.butterflies + 1 }

/-- Counts a rotation. -/
def recordRotation (b : Builder R) (turn : Turn) : Builder R :=
  { b with rotations := b.rotations.count turn }

/-- Prunes the dead operations of the stream. -/
def eliminateDeadCode (b : Builder R) : Nat × Builder R :=
  let (stream, count) := MixedRadix.eliminateDeadCode b.stream.toList
  (count, { b with stream := stream.toArray, pruned := b.pruned + count })

/-- Whether the stream respects the lifetimes. -/
def checkLifetimes (b : Builder R) : Except LifetimeError Unit :=
  Lifetime.check b.lifetimes.toList b.stream.toList

/-- The statistics so far. -/
def statistics (b : Builder R) : Statistics where
  emitted := b.emitted
  pruned := b.pruned
  issued := b.temps.issuedCount
  peak := b.temps.peak
  cost := liveCost b.stream.toList
  butterflies := b.butterflies
  rotations := b.rotations

end Builder

/-- A computation that emits code. -/
abbrev Build (R : Type) := ExceptT BuildError (StateM (Builder R))

namespace Build

variable {R : Type}

/-- Appends an assignment. -/
def assign (dst : Symbol) (value : Expr R) : Build R Unit :=
  modify (·.assign dst value)

/-- Appends an assignment to a result of the kernel. -/
def store (dst : Symbol) (value : Expr R) : Build R Unit :=
  modify (·.store dst value)

/-- Appends a call. -/
def call (c : Call R) : Build R Unit :=
  modify (·.call c)

/-- Appends a comment if comments are kept. -/
def comment (text : String) : Build R Unit :=
  modify (·.comment text)

/-- Adds a shift table and gives its number. -/
def addShiftTable (slots : List Nat) : Build R Nat :=
  modifyGet (·.addShiftTable slots)

/-- A fresh temporary. -/
def allocTemp : Build R Symbol :=
  modifyGet (·.allocTemp)

/-- A pair of fresh temporaries. -/
def allocComplex : Build R ComplexSymbol := do
  let re ← allocTemp
  let im ← allocTemp
  return ⟨re, im⟩

/-- That many pairs of fresh temporaries. -/
def allocComplexes : Nat → Build R (List ComplexSymbol)
  | 0 => return []
  | n + 1 => do
    let first ← allocComplex
    let others ← allocComplexes n
    return first :: others

/-- Returns a temporary to the pool and closes its lifetime. -/
def release (s : Symbol) : Build R Unit := do
  match (← get).temps.release s with
  | .ok temps => modify (·.afterRelease s temps)
  | .error e => throw (.release e)

/-- Releases a pair of temporaries. If the second cannot be released, the first one is. -/
def releaseComplex (value : ComplexSymbol) : Build R Unit := do
  release value.re
  release value.im

/-- Counts a butterfly. -/
def recordButterfly : Build R Unit :=
  modify (·.recordButterfly)

/-- Counts a rotation. -/
def recordRotation (turn : Turn) : Build R Unit :=
  modify (·.recordRotation turn)

/-- The result of a computation that may fault. -/
def ofFaulty {α : Type} : Except Fault α → Build R α
  | .ok a => pure a
  | .error f => throw (.fault f)

/-- The result of a computation that may reject a size. -/
def ofSized {α : Type} : Except BadSize α → Build R α
  | .ok a => pure a
  | .error e => throw (.badSize e)

/-- Entry `i` of an array. -/
def entry {α : Type} (xs : Array α) (i : Nat) : Build R α :=
  ofFaulty (getOrFault xs i)

end Build

end MixedRadix
