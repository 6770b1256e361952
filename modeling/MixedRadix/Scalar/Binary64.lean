import MixedRadix.Scalar

/-!
# Double-precision scalars

The rounded reading of `Scalar`: every constant is the double nearest to the number it stands for.
-/

namespace MixedRadix

/-- The double nearest to a natural number. A 64-bit word is converted at once. -/
def nearestDouble (n : Nat) : Float :=
  if n < 0x10000000000000000 then n.toUInt64.toFloat else Float.ofNat n

instance : Scalar Float where
  add x y := x + y
  sub x y := x - y
  mul x y := x * y
  div x y := x / y
  neg x := -x
  ofScientific := OfScientific.ofScientific
  ofNat := nearestDouble
  pi := 3.141592653589793
  invSqrtTwo := 0.7071067811865476
  sinThird := 0.8660254037844386
  cosFifthGap := 0.5590169943749475
  sinFifth := 0.9510565162951535
  sinTwoFifths := 0.5877852522924731
  sin := Float.sin
  cos := Float.cos
  sqrt := Float.sqrt
  abs := Float.abs
  lt a b := a < b
  isNaN := Float.isNaN
  nan := 0.0 / 0.0

end MixedRadix
