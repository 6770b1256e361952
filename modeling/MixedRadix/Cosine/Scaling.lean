import MixedRadix.Builder

/-!
# Scaling of cosine transforms

The coefficients of a cosine transform, and the rules by which code for them is saved: a coefficient
of one costs no multiplication, and two equal coefficients become part of the gain of a rotation.
-/

namespace MixedRadix.Cosine

variable {R : Type} [Scalar R]

/-- Whether two coefficients are taken as equal. -/
def isEqual (a b : R) : Bool :=
  Scalar.lt (Scalar.abs (a - b)) 1e-8

/-- The coefficients of an `n`-point transform: all ones, or those that make it orthogonal. -/
def coefficients (n : Nat) (orthogonal : Bool) : Array R :=
  if orthogonal then
    (Array.range n).map fun k =>
      if k = 0 then Scalar.sqrt (1.0 / Scalar.ofNat n) else Scalar.sqrt (2.0 / Scalar.ofNat n)
  else Array.replicate n 1.0

/-- A size has a cosine transform if it is even and its half can be split into radices. -/
def checkSize (n : Nat) : Except BadSize Unit :=
  if n = 0 ∨ n % 2 ≠ 0 then .error ⟨n⟩
  else do
    let _ ← Factorization.ofSize (n / 2)
    return

/-- A symbol times a coefficient. -/
def scaled (coefficient : R) (s : Symbol) : Expr R :=
  if isEqual coefficient 1.0 then s else Expr.lit coefficient * s

/-- A rotation's gain, `none` for one, and what is left to scale the two parts with. -/
structure Gain (R : Type) where
  gain : Option R
  re : R
  im : R

/-- Moves two equal coefficients into the gain of the rotation behind them. -/
def foldGain (gain c1 c2 : R) : Gain R :=
  let (gain, c1, c2) := if isEqual c1 c2 then (gain * c1, 1.0, 1.0) else (gain, c1, c2)
  { gain := if isEqual gain 1.0 then none else some gain, re := c1, im := c2 }

end MixedRadix.Cosine
