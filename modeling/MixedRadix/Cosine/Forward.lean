import MixedRadix.Cosine.Scaling
import MixedRadix.Fourier.Unrolled

/-!
# Forward cosine transform

`out[k] = C[k] * Σ in[i] * cos ((2i + 1) k π / 2n)` by a complex transform of half the size. The
samples, even ones first and odd ones backwards behind them, are packed in pairs; the spectrum of
the pairs is split into the spectrum of the samples, bins `k` and `n/2 - k` together; and a rotation
by `-k π / 2n` gives bin `k` as its real part and bin `n - k` as its negated imaginary part.
-/

namespace MixedRadix.Cosine

open Build

variable {R : Type} [Scalar R]

/-- Which sample comes at place `i` when the even ones come first and the odd ones backwards behind
them. -/
def evenOdd (n i : Nat) : Nat :=
  if i < n / 2 then 2 * i else 2 * n - 1 - 2 * i

/-- Splits the first value into the bins `0` and `n/2`, of which the second goes to `last`. -/
def splitFirst (first last : ComplexSymbol) : Build R Unit := do
  let t0 ← allocTemp
  let t1 ← allocTemp
  assign t0 (first.re + first.im)
  assign t1 (first.re - first.im)
  assign first.re t0
  assign first.im (Expr.lit 0.0)
  assign last.re t1
  assign last.im (Expr.lit 0.0)
  release t0
  release t1

/-- Splits the values at `k` and `n/2 - k` into two bins. -/
def splitPair (x1 x2 : ComplexSymbol) (angle : Angle) : Build R Unit := do
  let t1 ← allocTemp
  let t2 ← allocTemp
  let t3 ← allocTemp
  let t4 ← allocTemp
  assign t1 (x1.re + x2.re)
  assign t2 (x1.im - x2.im)
  assign t3 (x1.im + x2.im)
  assign t4 (x2.re - x1.re)
  Rotation.emit ⟨t3, t4⟩ angle none
  assign x1.re (t1 + t3)
  assign x1.im (t2 + t4)
  assign x2.re (t1 - t3)
  assign x2.im (t4 - t2)
  [t1, t2, t3, t4].forM release

/-- Splits the value in the middle, which is its own partner. -/
def splitMiddle (x : ComplexSymbol) (angle : Angle) : Build R Unit := do
  let t1 ← allocTemp
  let t3 ← allocTemp
  let t4 ← allocTemp
  assign t1 (x.re + x.re)
  assign t3 (x.im + x.im)
  assign t4 (x.re - x.re)
  Rotation.emit ⟨t3, t4⟩ angle none
  assign x.re (t1 + t3)
  assign x.im t4
  [t1, t3, t4].forM release

/-- Splits the bins behind the first one, those at `k` and `n/2 - k` together. -/
def splitRest (n : Nat) (bins : Array ComplexSymbol) : Build R Unit :=
  (List.range' 1 (n / 2 - 1)).forM fun k => do
    let angle ← ofFaulty (Angle.ofRatio (-2 * Int.ofNat k) (Int.ofNat n))
    if k < n / 2 - k then splitPair (← entry bins k) (← entry bins (n / 2 - k)) angle
    else if k = n / 2 - k then splitMiddle (← entry bins k) angle

/-- Rotates bin `k` by `-k π / 2n`. Those that were split in pairs are twice as large as they should
be. -/
def rotateBins (n : Nat) (bins : Array ComplexSymbol) : Build R Unit :=
  (List.range' 1 (n / 2)).forM fun k => do
    let angle ← ofFaulty (Angle.ofRatio (-Int.ofNat k) (2 * Int.ofNat n))
    Rotation.emit (← entry bins k) angle (if k = n / 2 then none else some 0.5)

/-- Bin `k ≤ n/2`: a real part times its coefficient. -/
def binAsIs (c : R) (s : Symbol) : Expr R :=
  if isEqual c 1.0 then s
  else if isEqual c (-(1.0)) then -s
  else Expr.lit c * s

/-- Bin `k > n/2`: a negated imaginary part times its coefficient. -/
def binNegated (c : R) (s : Symbol) : Expr R :=
  if isEqual c 1.0 then -s
  else if isEqual c (-(1.0)) then s
  else Expr.lit (-c) * s

/-- Stores the parts of the bins, each times its coefficient. -/
def storeBins (n : Nat) (c : Array R) (bins : Array ComplexSymbol) : Build R Unit :=
  (List.range n).forM fun k => do
    if k ≤ n / 2 then
      let bin ← entry bins k
      store (.output k) (binAsIs (← entry c k) bin.re)
    else
      let bin ← entry bins (n - k)
      store (.output k) (binNegated (← entry c k) bin.im)

/-- The forward cosine transform from the input to the output slots, with coefficients `c`. -/
def emitForward (n : Nat) (c : Array R) : Build R Unit := do
  ofSized (checkSize n)
  let m := n / 2
  comment "pack"
  let packed ← allocComplexes m
  packed.zipIdx.forM fun (value, i) => do
    assign value.re (Symbol.input (evenOdd n (2 * i)))
    assign value.im (Symbol.input (evenOdd n (2 * i + 1)))
  comment s!"{m}-point FFT"
  let values := packed.toArray
  let order ← Fourier.unroll values
  let found ← (List.range m).mapM fun k => do entry values (← entry order.map k)
  let last ← allocComplex
  let bins := (found ++ [last]).toArray
  comment "split"
  splitFirst (← entry bins 0) last
  splitRest n bins
  comment "post-rotation"
  rotateBins n bins
  comment "store"
  storeBins n c bins
  packed.forM releaseComplex
  releaseComplex last

end MixedRadix.Cosine
