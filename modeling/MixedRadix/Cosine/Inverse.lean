import MixedRadix.Cosine.Scaling
import MixedRadix.Fourier.Unrolled

/-!
# Inverse cosine transform

`out[i] = Σ C[k] * in[k] * cos ((2i + 1) k π / 2n)` by a complex transform of half the size: the
steps of the forward transform, backwards. The bins are rotated and folded into half as many complex
values, bins `k` and `n/2 - k` together; the transform of these holds the samples in pairs.
-/

namespace MixedRadix.Cosine

open Build

variable {R : Type} [Scalar R]

/-- Folds the bins `0` and `n/2` into the first value. -/
def foldFirst (c : Array R) (m : Nat) (z : ComplexSymbol) : Build R Unit := do
  let t1 ← allocTemp
  let t2 ← allocTemp
  assign t1 (scaled (← entry c 0) (.input 0))
  assign t2 (scaled (Scalar.invSqrtTwo * (← entry c m)) (.input m))
  assign z.re (t1 + t2)
  assign z.im (t1 - t2)
  release t1
  release t2

/-- Loads the bins `k1` and `k2` as a complex value and rotates it. -/
def loadRotated (c : Array R) (z : ComplexSymbol) (gain : R) (k1 k2 : Nat) (angle : Angle) :
    Build R Unit := do
  let g := foldGain gain (← entry c k1) (← entry c k2)
  assign z.re (scaled g.re (.input k1))
  assign z.im (scaled g.im (.input k2))
  Rotation.emit z angle g.gain

/-- Folds the bins `k`, `n - k`, `n/2 - k` and `n/2 + k` into the values at `k` and `n/2 - k`. -/
def foldPair (n : Nat) (c : Array R) (k : Nat) (zk zmk : ComplexSymbol) : Build R Unit := do
  let m := n / 2
  let z1 ← allocComplex
  let z2 ← allocComplex
  let angle1 ← ofFaulty (Angle.ofRatio (-Int.ofNat k) (2 * Int.ofNat n))
  loadRotated c z1 0.5 k (n - k) angle1
  let angle2 ← ofFaulty (Angle.ofRatio (Int.ofNat k - Int.ofNat m) (2 * Int.ofNat n))
  loadRotated c z2 0.5 (m - k) (m + k) angle2
  let s ← allocComplex
  let d ← allocComplex
  assign s.re (z1.re + z2.re)
  assign s.im (z1.im - z2.im)
  assign d.re (-(z1.im + z2.im))
  assign d.im (z1.re - z2.re)
  releaseComplex z1
  releaseComplex z2
  let angle ← ofFaulty (Angle.ofRatio (-2 * Int.ofNat k) (Int.ofNat n))
  Rotation.emit d angle none
  assign zk.re (s.re + d.re)
  assign zk.im (s.im + d.im)
  assign zmk.re (s.re - d.re)
  assign zmk.im (d.im - s.im)
  releaseComplex s
  releaseComplex d

/-- Folds all bins, those at `k` and `n/2 - k` together. -/
def foldAll (n : Nat) (c : Array R) (values : Array ComplexSymbol) : Build R Unit :=
  (List.range (n / 2 / 2 + 1)).forM fun k => do
    if k = 0 then foldFirst c (n / 2) (← entry values 0)
    else if 2 * k = n / 2 then
      let angle ← ofFaulty (Angle.ofRatio (-Int.ofNat k) (2 * Int.ofNat n))
      loadRotated c (← entry values k) 1.0 k (n - k) angle
    else foldPair n c k (← entry values k) (← entry values (n / 2 - k))

/-- At which place of the packed samples sample `i` is found. -/
def packedPlace (n i : Nat) : Nat :=
  if i % 2 = 0 then i / 2 else n - 1 - (i - 1) / 2

/-- Stores the samples, of which pair `p` is the value at `order.map[p]`. -/
def storeSamples (n : Nat) (values : Array ComplexSymbol) (order : Permutation) : Build R Unit :=
  (List.range n).forM fun i => do
    let place := packedPlace n i
    let value ← entry values (← entry order.map (place / 2))
    store (.output i) (if place % 2 = 0 then value.re else value.im)

/-- The inverse cosine transform from the input to the output slots, with coefficients `c`. -/
def emitInverse (n : Nat) (c : Array R) : Build R Unit := do
  ofSized (checkSize n)
  let folded ← allocComplexes (n / 2)
  let values := folded.toArray
  comment "pre-rotation"
  foldAll n c values
  comment s!"{n / 2}-point FFT"
  let order ← Fourier.unroll values
  comment "unpack"
  storeSamples n values order
  folded.forM releaseComplex

end MixedRadix.Cosine
