/-!
# Scalars

The arithmetic that kernels are built from and run on. `Scalar R` fixes which operations exist and
which constants they need; it assumes no law. A kernel is therefore the same straight-line program
over doubles, over the reals, or over any other reading of the operations, and a statement about
all scalars is a statement about the order of operations alone.
-/

namespace MixedRadix

/-- Arithmetic for building and running kernels. Decimal literals such as `0.5` are read by
`OfScientific`; the irrational constants are named, so that an exact reading can give the numbers
themselves and a rounded reading their nearest values. -/
class Scalar (R : Type) where
  add : R → R → R
  sub : R → R → R
  mul : R → R → R
  div : R → R → R
  neg : R → R
  /-- The scalar nearest to a decimal fraction. -/
  ofScientific : Nat → Bool → Nat → R
  /-- The scalar nearest to a natural number. -/
  ofNat : Nat → R
  /-- `π` -/
  pi : R
  /-- `1 / √2`, the cosine of an eighth of a turn. -/
  invSqrtTwo : R
  /-- `√3 / 2`, the sine of a third of a half turn. -/
  sinThird : R
  /-- `(cos (2π/5) - cos (4π/5)) / 2` -/
  cosFifthGap : R
  /-- `sin (2π/5)` -/
  sinFifth : R
  /-- `sin (4π/5)` -/
  sinTwoFifths : R
  /-- Sine of an angle in radians. -/
  sin : R → R
  /-- Cosine of an angle in radians. -/
  cos : R → R
  /-- Square root. -/
  sqrt : R → R
  /-- Absolute value. -/
  abs : R → R
  /-- Whether the first scalar is strictly less than the second. -/
  lt : R → R → Bool
  /-- Whether the scalar is the result of an undefined operation. -/
  isNaN : R → Bool
  /-- What a place holds that nothing was written to. -/
  nan : R

namespace Scalar

variable {R : Type} [Scalar R]

-- a type that has such operations of its own, as the real numbers do, keeps them
instance (priority := 100) : Add R := ⟨add⟩
instance (priority := 100) : Sub R := ⟨sub⟩
instance (priority := 100) : Mul R := ⟨mul⟩
instance (priority := 100) : Div R := ⟨div⟩
instance (priority := 100) : Neg R := ⟨neg⟩
instance (priority := 100) : OfScientific R := ⟨ofScientific⟩

/-- The larger of two scalars. A NaN gives way to the other operand, so that the result is a NaN
only if both are. -/
def max (a b : R) : R :=
  if isNaN a then b else if isNaN b then a else if lt a b then b else a

/-- Sum from left to right. The sum of nothing is negative zero, which is neutral also for an
arithmetic that tells the two zeros apart. -/
def sum (xs : List R) : R :=
  xs.foldl (· + ·) (-(0.0 : R))

end Scalar

end MixedRadix
