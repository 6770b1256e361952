import MixedRadix.Builder
import MixedRadix.Plan

/-!
# Fourier transforms made of calls

Every request of a plan becomes one call, so that a kernel stays small. At the end the results are
moved to their natural order, cycle by cycle.
-/

namespace MixedRadix.Fourier

open Build

variable {R : Type} [Scalar R]

/-- Whether a factor `cos + i sin` is so near to one that the rotation is left out. -/
def isNegligible (cos sin : R) : Bool :=
  Scalar.lt (Scalar.sqrt ((cos - 1.0) * (cos - 1.0) + sin * sin)) 1e-32

/-- Emits the call for a request. -/
def callRequest : Request → Build R Unit
  | .butterfly radix slots => do
    recordButterfly
    call (.butterfly radix slots)
  | .twiddle slot angle => do
    let radians : R := angle.radians
    let cos := Scalar.cos radians
    let sin := Scalar.sin radians
    if isNegligible cos sin then return
    recordRotation angle.turn
    call (.rotate slot cos sin)

/-- Emits the call that moves the values of one cycle: a swap for two slots, a shift along a table
for more. -/
def callCycle : List Nat → Build R Unit
  | [] | [_] => return
  | [a, b] => call (.swap a b)
  | slots => do
    let table ← addShiftTable slots
    call (.cyclicShift table slots)

/-- Moves the value at slot `order[k]` to slot `k`, for all `k`. -/
def restoreOrder (order : Permutation) : Build R Unit :=
  order.cycles.forM callCycle

/-- A kernel that transforms the complex slots `0 … n - 1` in place by calls. Gives the permutation
that the last calls undo. -/
def emitCalled (n : Nat) : Build R Permutation := do
  comment s!"{n}-point transform"
  let plan ← ofSized (Plan.ofSize n)
  plan.requests.forM callRequest
  let order ← ofFaulty plan.outcome
  comment "reorder"
  restoreOrder order
  return order

end MixedRadix.Fourier
