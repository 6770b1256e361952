import MixedRadix.Distinct
import MixedRadix.Instruction
import Std.Data.TreeMap

/-!
# Definitions and uses

Every input of an operation is resolved to the latest operation before it that wrote it. Pruned
operations neither read nor write. An input without a writer comes from outside.
-/

namespace MixedRadix

/-- Who wrote which symbol so far, by position in the stream. -/
structure Writers where
  /-- The latest writer by the code of the symbol. -/
  latest : Std.TreeMap Nat Nat := {}

namespace Writers

/-- The latest writer of a symbol. -/
def find? (w : Writers) (s : Symbol) : Option Nat :=
  w.latest[s.code]?

/-- Makes `position` the latest writer of a symbol. -/
def record (w : Writers) (position : Nat) (s : Symbol) : Writers :=
  ⟨w.latest.insert s.code position⟩

@[simp] theorem find?_empty (s : Symbol) : ({} : Writers).find? s = none := by
  simp [find?]

theorem find?_record (w : Writers) (position : Nat) (s t : Symbol) :
    (w.record position s).find? t = if s = t then some position else w.find? t := by
  simp [find?, record, Std.TreeMap.getElem?_insert]

/-- Makes `position` the latest writer of some symbols. -/
def recordAll (w : Writers) (position : Nat) (symbols : List Symbol) : Writers :=
  symbols.foldl (fun w s => w.record position s) w

end Writers

/-- An input of an operation and the position of its writer. -/
structure Use where
  symbol : Symbol
  writer : Option Nat
  deriving DecidableEq, Repr

variable {R : Type}

/-- What is known behind the first entries of a stream. -/
structure Resolution where
  writers : Writers := {}
  /-- The uses of these entries. -/
  uses : Array (List Use) := #[]

namespace Resolution

/-- Goes on by one entry. -/
def step (r : Resolution) (inst : Instruction R) : Resolution :=
  match inst.liveOp? with
  | none => { r with uses := r.uses.push [] }
  | some o =>
    let uses := o.inputs.map fun s => ⟨s, r.writers.find? s⟩
    { writers := r.writers.recordAll r.uses.size o.outputs, uses := r.uses.push uses }

end Resolution

/-- The uses of every entry of a stream. -/
def resolve (stream : List (Instruction R)) : List (List Use) :=
  (stream.foldl Resolution.step {}).uses.toList

/-- For every entry of a stream, the entries whose results it reads, each once. -/
def dependencies (stream : List (Instruction R)) : List (List Nat) :=
  (resolve stream).map fun uses => distinct id (uses.filterMap (·.writer))

theorem dependencies_eq (stream : List (Instruction R)) :
    dependencies stream = (resolve stream).map fun uses => (uses.filterMap (·.writer)).eraseDups :=
  List.map_congr_left fun _ _ => distinct_eq_eraseDups (fun h => h) _

end MixedRadix
