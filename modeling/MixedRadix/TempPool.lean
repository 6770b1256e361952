import MixedRadix.Fifo
import MixedRadix.Symbol
import Std.Data.TreeSet

/-!
# Temporary pool

Hands out the temporaries of a kernel. A released name is used again, the one released longest ago
first; a new name is issued only if none is free. Names are natural numbers without a bound: a pool
that numbers them by 32-bit words does the same as long as it has words left.
-/

namespace MixedRadix

/-- Names of temporaries. Every name that was issued is either in use or free. -/
structure TempPool where
  /-- The next name that was never issued. -/
  next : Nat := 0
  /-- Released names, oldest first. -/
  free : Fifo Nat := {}
  /-- Names handed out at present. -/
  inUse : Std.TreeSet Nat := {}
  /-- The largest number of names that were in use at once. -/
  peak : Nat := 0

/-- Why a symbol cannot be released. -/
inductive ReleaseError where
  /-- The symbol is no temporary. -/
  | notTemporary (s : Symbol)
  /-- The temporary is not in use. -/
  | notInUse (id : Nat)
  deriving DecidableEq, Repr

namespace ReleaseError

/-- What went wrong. -/
def reason : ReleaseError → String
  | notTemporary s => s!"{s.description} is an I/O slot, not a temporary"
  | notInUse id => s!"t{id} released while not in use"

end ReleaseError

namespace TempPool

/-- Hands `id` out. -/
def take (p : TempPool) (id : Nat) : TempPool :=
  let inUse := p.inUse.insert id
  { p with inUse, peak := max p.peak inUse.size }

/-- A temporary that is not in use, and the pool in which it is. -/
def allocate (p : TempPool) : Nat × TempPool :=
  match p.free.pop? with
  | some (id, free) => (id, { p with free }.take id)
  | none => (p.next, { p with next := p.next + 1 }.take p.next)

/-- Takes a temporary back. -/
def release (p : TempPool) (s : Symbol) : Except ReleaseError TempPool :=
  match s.tempId? with
  | none => .error (.notTemporary s)
  | some id =>
    if id ∈ p.inUse then .ok { p with inUse := p.inUse.erase id, free := p.free.push id }
    else .error (.notInUse id)

/-- Whether a symbol is a temporary in use. -/
def isAllocated (p : TempPool) (s : Symbol) : Bool :=
  match s.tempId? with
  | some id => p.inUse.contains id
  | none => false

/-- Number of temporaries in use. -/
def inUseCount (p : TempPool) : Nat := p.inUse.size

/-- Number of names ever issued. -/
def issuedCount (p : TempPool) : Nat := p.next

end TempPool

end MixedRadix
