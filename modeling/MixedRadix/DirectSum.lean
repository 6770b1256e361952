import MixedRadix.Fault
import MixedRadix.Scalar

/-!
# Direct sums

The transforms by their definitions, one sum for every result. Kernels are measured against them.
-/

namespace MixedRadix.DirectSum

variable {R : Type} [Scalar R]

/-- `cos ((2i + 1) k π / 2n)` -/
def cosine (n i k : Nat) : R :=
  Scalar.cos (Scalar.pi * Scalar.ofNat ((2 * i + 1) * k) / Scalar.ofNat (2 * n))

/-- `out[k] = C[k] * Σ x[i] * cos ((2i + 1) k π / 2n)` -/
def cosineForward (x c : Array R) : Except Fault (List R) :=
  let samples := x.toList.zipIdx
  (List.range x.size).mapM fun k => do
    let sum := Scalar.sum (samples.map fun (v, i) => v * cosine x.size i k)
    return (← getOrFault c k) * sum

/-- `out[i] = Σ C[k] * y[k] * cos ((2i + 1) k π / 2n)` -/
def cosineInverse (y c : Array R) : Except Fault (List R) :=
  let bins := y.toList.zipIdx
  (List.range y.size).mapM fun i => do
    let terms ← bins.mapM fun (v, k) => do
      return (← getOrFault c k) * v * cosine y.size i k
    return Scalar.sum terms

/-- Result `k` of a Fourier transform of `n` values: the sums of the real and of the imaginary
parts. -/
def fourierBin (n : Nat) (x : List ((R × R) × Nat)) (k : Nat) : R × R :=
  let circle : R := -(2.0) * Scalar.pi
  x.foldl
    (fun (sum : R × R) ((re, im), j) =>
      let angle := circle * Scalar.ofNat (j * k % n) / Scalar.ofNat n
      let s := Scalar.sin angle
      let c := Scalar.cos angle
      (sum.1 + (re * c - im * s), sum.2 + (re * s + im * c)))
    (0.0, 0.0)

/-- `X[k] = Σ x[j] * e ^ (-2πi jk / n)`, by the real and the imaginary parts. There may be more
imaginary than real parts; those behind are not read. -/
def fourier (re im : Array R) : Except Fault (List R × List R) :=
  if im.size < re.size then .error (@Fault.indexOutOfRange im.size im.size)
  else
    let x := (re.toList.zip im.toList).zipIdx
    .ok ((List.range re.size).map fun k => fourierBin re.size x k).unzip

/-- A signal without symmetries, for measurements. -/
def testSignal (n : Nat) (seed : R) : Array R :=
  (Array.range n).map fun i =>
    Scalar.sin (0.7 * Scalar.ofNat i + seed) + 0.05 * Scalar.ofNat i - 0.3

end MixedRadix.DirectSum
