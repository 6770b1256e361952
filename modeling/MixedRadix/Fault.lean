/-!
# Faults

A fault is a broken promise of a caller: an index outside of its array, a map that is no
permutation, an input vector of the wrong length. It ends the computation at once, unlike the
errors that a compilation reports about its own input.
-/

namespace MixedRadix

/-- Why a computation cannot go on. -/
inductive Fault where
  /-- An index lies outside of its array, which has this length. -/
  | indexOutOfRange {index length : Nat}
  /-- An integer leaves the range of 64-bit signed words. -/
  | overflow
  /-- A map of `0 … n - 1` repeats or misses an index. -/
  | notBijective
  /-- A real kernel of this many points was given another number of samples. -/
  | sampleCount (expected : Nat)
  /-- A complex kernel of this many points was given another number of real parts. -/
  | realCount (expected : Nat)
  /-- A complex kernel of this many points was given another number of imaginary parts. -/
  | imaginaryCount (expected : Nat)
  /-- A rotation angle has denominator zero. -/
  | zeroDenominator
  /-- A kernel stores to an input slot. -/
  | inputWritten (slot : Nat)
  /-- A butterfly call lists a number of slots for which there is no routine. -/
  | butterflySize (slots : Nat)
  /-- A plan has more requests than are accepted. -/
  | requestLimit
  deriving DecidableEq, Repr

namespace Fault

/-- The text of a fault; faults of indexing, range, bijectivity and planning have none. -/
def message? : Fault → Option String
  | indexOutOfRange | overflow | notBijective | requestLimit => none
  | sampleCount n => some s!"kernel expects {n} samples"
  | realCount n => some s!"kernel expects {n} real parts"
  | imaginaryCount n => some s!"kernel expects {n} imaginary parts"
  | zeroDenominator => some "rotation angle with zero denominator"
  | inputWritten i => some s!"kernel writes input slot {i}"
  | butterflySize n => some s!"butterfly over {n} slots"

end Fault

/-- The entry at index `i`, or a fault. -/
def getOrFault {α : Type} (xs : Array α) (i : Nat) : Except Fault α :=
  match xs[i]? with
  | some x => .ok x
  | none => .error (@Fault.indexOutOfRange i xs.size)

/-- A fault unless there is an entry at index `i`. -/
def checkIndex {α : Type} (xs : Array α) (i : Nat) : Except Fault Unit :=
  if i < xs.size then .ok () else .error (@Fault.indexOutOfRange i xs.size)

/-- The array with entry `i` replaced, or a fault. -/
def setOrFault {α : Type} (xs : Array α) (i : Nat) (x : α) : Except Fault (Array α) :=
  if i < xs.size then .ok (xs.setIfInBounds i x) else .error (@Fault.indexOutOfRange i xs.size)

end MixedRadix
