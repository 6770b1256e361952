import MixedRadix.DefUse
import MixedRadix.Lifetime.Index

/-!
# Checking lifetimes

A stream respects its lifetimes if every temporary is written by an owner and every read finds a
value that the same owner wrote.
-/

namespace MixedRadix

/-- How a stream breaks its lifetimes. -/
inductive LifetimeError where
  /-- A temporary is written while nobody holds it. -/
  | writtenUnallocated (temp position : Nat)
  /-- A temporary is read that nothing wrote. -/
  | readUnwritten (temp position : Nat)
  /-- A temporary is read whose value belongs to an owner that released it. -/
  | readReleased (temp position released : Nat)
  deriving DecidableEq, Repr

namespace LifetimeError

/-- What went wrong. -/
def reason : LifetimeError → String
  | writtenUnallocated temp i => s!"t{temp} written at instruction {i} while not allocated"
  | readUnwritten temp i => s!"t{temp} read at instruction {i} before any write"
  | readReleased temp i released =>
    s!"t{temp} read at instruction {i} after its owner released it at {released}"

end LifetimeError

namespace Lifetime

variable {R : Type}

/-- The temporaries among some symbols. -/
def temps (symbols : List Symbol) : List Nat :=
  symbols.filterMap Symbol.tempId?

/-- Every temporary that an entry writes is held there. Pruned operations are checked too. -/
def checkWrites (index : LifetimeIndex) (position : Nat) (inst : Instruction R) :
    Except LifetimeError Unit :=
  match inst.op? with
  | none => .ok ()
  | some o => (temps o.outputs).forM fun temp =>
    if (index.owner? temp position).isSome then .ok ()
    else .error (.writtenUnallocated temp position)

/-- The value that a use reads was written by the owner who holds the temporary now. -/
def checkUse (index : LifetimeIndex) (position : Nat) (u : Use) : Except LifetimeError Unit :=
  match u.symbol.tempId?, u.writer with
  | none, _ => .ok ()
  | some temp, none => .error (.readUnwritten temp position)
  | some temp, some writer =>
    match index.owner? temp writer with
    | none => .error (.writtenUnallocated temp writer)
    | some l =>
      if l.contains position then .ok ()
      else .error (.readReleased temp position (l.closedAt.getD position))

/-- Whether a stream respects its lifetimes: first all writes are checked, then all reads. -/
def check (lifetimes : List Lifetime) (stream : List (Instruction R)) :
    Except LifetimeError Unit := do
  let index := LifetimeIndex.ofList lifetimes
  stream.zipIdx.forM fun (inst, i) => checkWrites index i inst
  (resolve stream).zipIdx.forM fun (uses, i) => uses.forM (checkUse index i)

end Lifetime

end MixedRadix
