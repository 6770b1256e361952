import MixedRadix.Routine

/-!
# Factorizations

A size is split into radices: 5 as long as it divides, then 4, then 3, then 2, and a size of two to
five points is a butterfly of its own. Exactly the sizes without a prime factor above 5 can be
split, and each of them in one way.
-/

namespace MixedRadix

/-- How a transform is taken apart. -/
inductive Factorization where
  /-- One point; nothing is to be done. -/
  | unit
  /-- A single butterfly. -/
  | base (radix : Radix)
  /-- Size `n` is the size of `outer` times the inner radix. -/
  | split (n : Nat) (outer : Factorization) (inner : Radix)
  deriving DecidableEq, Repr

/-- A size that has no factorization, or the part of it that is left over. -/
structure BadSize where
  size : Nat
  deriving DecidableEq, Repr

namespace BadSize

/-- The text of the error. -/
def message (e : BadSize) : String :=
  s!"Bad radix: {e.size} has no mixed-radix factorization over \x7b5, 4, 3, 2\x7d"

end BadSize

namespace Factorization

/-- The factorization of a size. The error names the part without a factor 2, 3 or 5. -/
def ofSize (n : Nat) : Except BadSize Factorization :=
  if n = 0 then .error ⟨0⟩
  else if n = 1 then .ok .unit
  else
    match Radix.ofSize? n with
    | some radix => .ok (.base radix)
    | none =>
      match Radix.priority.find? fun r => n % r.size == 0 with
      | none => .error ⟨n⟩
      | some inner => do
        let outer ← ofSize (n / inner.size)
        return .split n outer inner
termination_by n
decreasing_by exact Nat.div_lt_self (by omega) inner.two_le_size

/-- Number of points. -/
def size : Factorization → Nat
  | unit => 1
  | base radix => radix.size
  | split n _ _ => n

/-- The radices from the outermost split inwards. -/
def radices : Factorization → List Nat
  | unit => []
  | base radix => [radix.size]
  | split _ outer inner => inner.size :: outer.radices

/-- The radices as a product. -/
def text (f : Factorization) : String :=
  if f.radices.isEmpty then "1" else " x ".intercalate (f.radices.map toString)

end Factorization

end MixedRadix
