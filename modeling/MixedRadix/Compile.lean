import MixedRadix.Config.Problem
import MixedRadix.Cosine.Forward
import MixedRadix.Cosine.Inverse
import MixedRadix.Expr.Text
import MixedRadix.Fourier.Called
import MixedRadix.SelfCheck

/-!
# Compilation

From a configuration to a kernel: the configuration and the size are checked, the code of the
transform is emitted, the lifetimes of its temporaries are checked, dead operations are pruned, and
if the configuration asks for it the kernel is compared with the direct sum.
-/

namespace MixedRadix

/-- Why there is no kernel. -/
inductive CompileError (R : Type) where
  | invalidConfig (p : Config.Problem)
  | badSize (e : BadSize)
  | release (e : ReleaseError)
  | lifetime (e : LifetimeError)
  /-- The kernel fails its self-check by this error. -/
  | mismatch (maxError : R)
  | fault (f : Fault)

namespace CompileError

variable {R : Type}

/-- The error of a failed emission. -/
def ofBuildError : BuildError → CompileError R
  | .badSize e => .badSize e
  | .release e => .release e
  | .fault f => .fault f

/-- The error of a failed self-check. -/
def ofCheckError : CheckError R → CompileError R
  | .fault f => .fault f
  | .mismatch maxError => .mismatch maxError

/-- The text of the error, if it has one. -/
def message? [ScalarText R] : CompileError R → Option String
  | invalidConfig p => some p.message
  | badSize e => some e.message
  | release e => some ("Allocator invariant violated: " ++ e.reason)
  | lifetime e => some ("Allocator invariant violated: " ++ e.reason)
  | mismatch maxError =>
    some ("Kernel self-check failed: max error " ++ ScalarText.scientific maxError ++
      " exceeds tolerance")
  | fault f => f.message?

end CompileError

variable {R : Type} [Scalar R]

/-- Whether there are kernels of a size. -/
def Transform.checkSize : Transform → Nat → Except BadSize Unit
  | .cosineForward, n | .cosineInverse, n => Cosine.checkSize n
  | .fourier, n => do
    let _ ← Factorization.ofSize n
    return

namespace Config

/-- The coefficients of the transform. -/
def coefficients (c : Config) : Array R :=
  if c.transform.isCosine then Cosine.coefficients c.size c.orthogonal else #[]

/-- Emits the code of the transform. Gives the permutation that a kernel made of calls undoes. -/
def emit (c : Config) : Build R (Option Permutation) :=
  match c.transform, c.strategy with
  | .cosineForward, _ => do
    Cosine.emitForward c.size c.coefficients
    return none
  | .cosineInverse, _ => do
    Cosine.emitInverse c.size c.coefficients
    return none
  | .fourier, .unrolled => do
    let _ ← Fourier.emitUnrolled c.size
    return none
  | .fourier, .calls => do
    return some (← Fourier.emitCalled c.size)

/-- The kernel of a finished builder. -/
def kernel (c : Config) (order : Option Permutation) (b : Builder R) : Kernel R where
  transform := c.transform
  size := c.size
  strategy := c.strategy
  orthogonal := c.orthogonal
  coefficients := c.coefficients
  stream := b.stream.toList
  shiftTables := b.shiftTables
  routines := b.routines
  order := order
  statistics := b.statistics
  maxFunctionLines := c.maxFunctionLines

/-- The kernel without its self-check. -/
def compileUnchecked (c : Config) : Except (CompileError R) (Kernel R) := do
  c.validate.mapError .invalidConfig
  (c.transform.checkSize c.size).mapError .badSize
  let (result, b) := (c.emit (R := R)).run.run { annotate := c.annotate }
  let order ← result.mapError .ofBuildError
  b.checkLifetimes.mapError .lifetime
  return c.kernel order b.eliminateDeadCode.2

/-- The kernel that a configuration asks for. -/
def compile (c : Config) : Except (CompileError R) (Kernel R) := do
  let k ← c.compileUnchecked
  if c.verify then
    let _ ← k.selfCheck.mapError .ofCheckError
  return k

end Config

end MixedRadix
