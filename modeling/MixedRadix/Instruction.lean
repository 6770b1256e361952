import MixedRadix.Routine

/-!
# Instructions

A kernel body is a straight line of instructions: comments, and operations that assign to a symbol
or call a routine. What an operation reads, writes and costs is read off its statement, so that
analyses and reports cannot disagree with what is printed.
-/

namespace MixedRadix

/-- A statement of a kernel body. -/
inductive Stmt (R : Type) where
  | assign (dst : Symbol) (value : Expr R)
  | call (c : Call R)
  deriving DecidableEq, Repr

namespace Stmt

variable {R : Type}

/-- The locations read. -/
def inputs : Stmt R → List Symbol
  | assign _ value => value.symbols
  | call c => c.symbols

/-- The locations written. -/
def outputs : Stmt R → List Symbol
  | assign dst _ => [dst]
  | call c => c.symbols

/-- Number of operations. -/
def cost : Stmt R → Cost
  | assign _ value => value.cost
  | call c => c.routine.cost

end Stmt

/-- A statement in a stream. What an operation declares to read and to write is not stored but read
off the statement, so whatever holds for all operations holds for those that declare just that. -/
structure Op (R : Type) where
  stmt : Stmt R
  /-- The statement writes a result of the kernel. -/
  mandatory : Bool := false
  /-- The statement was found dead and is neither run nor printed. -/
  pruned : Bool := false
  deriving DecidableEq, Repr

namespace Op

variable {R : Type}

/-- The locations read. -/
def inputs (op : Op R) : List Symbol := op.stmt.inputs

/-- The locations written. -/
def outputs (op : Op R) : List Symbol := op.stmt.outputs

/-- Number of operations. -/
def cost (op : Op R) : Cost := op.stmt.cost

end Op

/-- An entry of a stream. -/
inductive Instruction (R : Type) where
  | comment (text : String)
  | op (op : Op R)
  deriving DecidableEq, Repr

namespace Instruction

variable {R : Type}

/-- The operation of an entry that is none of the comments. -/
def op? : Instruction R → Option (Op R)
  | comment _ => none
  | op o => some o

/-- Whether the entry is printed. -/
def isLive : Instruction R → Bool
  | comment _ => true
  | op o => !o.pruned

/-- The operation of an entry, if it is run. -/
def liveOp? : Instruction R → Option (Op R)
  | comment _ => none
  | op o => if o.pruned then none else some o

/-- The entry with the pruned mark of its operation set. -/
def setPruned (pruned : Bool) : Instruction R → Instruction R
  | comment text => comment text
  | op o => op { o with pruned }

end Instruction

variable {R : Type}

/-- Total cost of the operations that are run. -/
def liveCost (stream : List (Instruction R)) : Cost :=
  (stream.filterMap Instruction.liveOp?).foldl (fun total o => total + o.cost) {}

/-- Consecutive pieces of `k + 1` entries; the last one may be shorter. -/
def chunks {α : Type} (k : Nat) (xs : List α) : List (List α) :=
  if xs.isEmpty then [] else xs.take (k + 1) :: chunks k (xs.drop (k + 1))
termination_by xs.length
decreasing_by
  rename_i h
  have : xs.length ≠ 0 := fun h0 => h (by simp [List.length_eq_zero_iff.1 h0])
  simp only [List.length_drop]
  omega

/-- The entries that are printed, at most `maxLines` in a part. There is always a part, and a limit
of zero counts as one. -/
def liveParts (maxLines : Nat) (stream : List (Instruction R)) : List (List (Instruction R)) :=
  let live := stream.filter (·.isLive)
  if live.isEmpty then [[]] else chunks (maxLines - 1) live

end MixedRadix
