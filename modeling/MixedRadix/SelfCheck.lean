import MixedRadix.DirectSum
import MixedRadix.Kernel

/-!
# Self-check

A kernel is run on a test signal and compared with the direct sum. The largest difference has to be
small against the largest result.
-/

namespace MixedRadix

/-- Why a kernel does not pass. -/
inductive CheckError (R : Type) where
  /-- The kernel cannot be run. -/
  | fault (f : Fault)
  /-- The results differ by this much. -/
  | mismatch (maxError : R)
  deriving DecidableEq, Repr

namespace Kernel

variable {R : Type} [Scalar R]

/-- The largest distance between corresponding entries; an undefined one makes it undefined. -/
def maxDistance (xs ys : List R) : R :=
  ((xs.zip ys).map fun (x, y) => Scalar.abs (x - y)).foldl
    (fun largest d =>
      if Scalar.isNaN d || Scalar.isNaN largest then Scalar.nan else Scalar.max largest d)
    0.0

/-- The largest absolute value, but at least one. -/
def magnitude (xs : List R) : R :=
  xs.foldl (fun largest x => Scalar.max largest (Scalar.abs x)) 1.0

/-- The error of a cosine transform on the test signal, and the magnitude of its results. -/
def cosineError (k : Kernel R) (direct : Array R → Array R → Except Fault (List R)) :
    Except Fault (R × R) := do
  let x := DirectSum.testSignal k.size 0.3
  let got ← k.runReal x
  let want ← direct x k.coefficients
  return (maxDistance got.toList want, magnitude want)

/-- The error of a Fourier transform on the test signal, and the magnitude of its results. Of the
errors of the real and of the imaginary parts an undefined one gives way to the other. -/
def fourierError (k : Kernel R) : Except Fault (R × R) := do
  let re := DirectSum.testSignal k.size 0.3
  let im := DirectSum.testSignal k.size 1.1
  let (wantRe, wantIm) ← DirectSum.fourier re im
  let got ← k.runComplex ⟨re, im⟩
  let maxError :=
    Scalar.max (maxDistance got.re.toList wantRe) (maxDistance got.im.toList wantIm)
  return (maxError, magnitude (wantRe ++ wantIm))

/-- The error of the kernel on the test signal, and the magnitude of its results. -/
def measuredError (k : Kernel R) : Except Fault (R × R) :=
  match k.transform with
  | .cosineForward => k.cosineError DirectSum.cosineForward
  | .cosineInverse => k.cosineError DirectSum.cosineInverse
  | .fourier => k.fourierError

/-- The error of the kernel on the test signal, if it is defined and small. -/
def selfCheck (k : Kernel R) : Except (CheckError R) R :=
  match k.measuredError with
  | .error f => .error (.fault f)
  | .ok (maxError, scale) =>
    if Scalar.isNaN maxError || Scalar.lt (1e-9 * scale) maxError then .error (.mismatch maxError)
    else .ok maxError

end Kernel

end MixedRadix
