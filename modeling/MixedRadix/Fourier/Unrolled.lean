import MixedRadix.Butterfly
import MixedRadix.Plan
import MixedRadix.Rotation

/-!
# Unrolled Fourier transforms

Every request of a plan becomes scalar assignments.
-/

namespace MixedRadix.Fourier

open Build

variable {R : Type} [Scalar R]

/-- Emits the code of a request over complex values, of which `values[i]` is slot `i`. -/
def unrollRequest (values : Array ComplexSymbol) : Request → Build R Unit
  | .butterfly _ slots => do Butterfly.emit (← slots.mapM (entry values))
  | .twiddle slot angle => do Rotation.emit (← entry values slot) angle none

/-- Transforms complex values in place. Result `k` ends up in the value that the permutation gives
for `k`. -/
def unroll (values : Array ComplexSymbol) : Build R Permutation := do
  let plan ← ofSized (Plan.ofSize values.size)
  plan.requests.forM (unrollRequest values)
  ofFaulty plan.outcome

/-- A kernel that transforms the complex slots `0 … n - 1` in place. They are loaded into
temporaries, so that the results can be stored in their natural order. -/
def emitUnrolled (n : Nat) : Build R Permutation := do
  let loaded ← allocComplexes n
  let values := loaded.toArray
  comment "load"
  loaded.zipIdx.forM fun (value, i) => do
    assign value.re (Symbol.real i)
    assign value.im (Symbol.imag i)
  comment s!"{n}-point transform"
  let order ← unroll values
  comment "store"
  (List.range n).forM fun k => do
    let value ← entry values (← entry order.map k)
    store (.real k) value.re
    store (.imag k) value.im
  loaded.forM releaseComplex
  return order

end MixedRadix.Fourier
