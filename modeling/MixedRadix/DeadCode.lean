import MixedRadix.DefUse
import MixedRadix.Fifo

/-!
# Dead code

An operation is needed if it is mandatory or if a needed operation reads its result. All others are
pruned. Each operation counts its readers, a mandatory one counts once more; an operation without
readers is dead, and when it is pruned the operations that it reads lose a reader.
-/

namespace MixedRadix

/-- Dead operations on their way to being pruned. -/
structure Worklist where
  /-- Number of readers that are left, by position. It has no bound, as the numbers of a `Cost`. -/
  readers : Array Nat
  /-- Positions of dead operations that are still to be pruned, oldest first. -/
  queue : Fifo Nat
  /-- Positions pruned so far, latest first. -/
  pruned : List Nat := []
  deriving DecidableEq, Repr

namespace Worklist

/-- One reader fewer for the operation at `position`; without any left, the operation is dead. -/
def dropReader (w : Worklist) (position : Nat) : Worklist :=
  match w.readers[position]? with
  | some 1 =>
    { w with readers := w.readers.setIfInBounds position 0, queue := w.queue.push position }
  | some count => { w with readers := w.readers.setIfInBounds position (count - 1) }
  | none => w

/-- Prunes the oldest dead operation, which reads the results at `deps position`. -/
def step (deps : Array (List Nat)) (w : Worklist) : Worklist :=
  match w.queue.pop? with
  | none => w
  | some (position, queue) =>
    (deps.getD position []).foldl dropReader
      { w with queue, pruned := position :: w.pruned }

/-- That many steps. -/
def run (deps : Array (List Nat)) : Nat → Worklist → Worklist
  | 0, w => w
  | n + 1, w => run deps n (w.step deps)

end Worklist

variable {R : Type}

/-- The positions of operations that are neither pruned nor read. -/
def unreadPositions (readers : Array Nat) (stream : List (Instruction R)) : List Nat :=
  (stream.zipIdx.filter fun (inst, i) =>
    inst.liveOp?.isSome && readers[i]? == some 0).map (·.2)

/-- Number of readers by position, a mandatory operation counted once more. -/
def readerCounts (stream : List (Instruction R)) (deps : List (List Nat)) : Array Nat :=
  let mandatory := stream.map fun inst =>
    match inst.liveOp? with
    | some o => if o.mandatory then 1 else 0
    | none => 0
  deps.flatten.foldl (fun counts i => counts.modify i (· + 1)) mandatory.toArray

/-- Where a stream stands before its first dead operation is pruned, if `deps` are its
dependencies. -/
def Worklist.start (stream : List (Instruction R)) (deps : List (List Nat)) : Worklist :=
  let readers := readerCounts stream deps
  { readers, queue := .ofList (unreadPositions readers stream) }

/-- The positions of dead operations. Each is queued at most once, so as many steps as there are
entries empty the queue. -/
def deadPositions (stream : List (Instruction R)) : List Nat :=
  let deps := dependencies stream
  ((Worklist.start stream deps).run deps.toArray stream.length).pruned

/-- The stream with the operations at some positions pruned. -/
def prune (positions : List Nat) (stream : List (Instruction R)) : List (Instruction R) :=
  let marks := positions.foldl (fun (marks : Array Bool) i => marks.setIfInBounds i true)
    (Array.replicate stream.length false)
  stream.zipIdx.map fun (inst, i) => if marks.getD i false then inst.setPruned true else inst

/-- The stream with all its dead operations pruned, and how many there were. -/
def eliminateDeadCode (stream : List (Instruction R)) : List (Instruction R) × Nat :=
  let dead := deadPositions stream
  (prune dead stream, dead.length)

end MixedRadix
