import MixedRadix.Builder

/-!
# Butterflies

Code for discrete Fourier transforms of two to five points, in place on complex values. The formulas
and the order of their operations are those of the routines in `Lanes`, so that unrolled kernels and
kernels made of calls round alike.
-/

namespace MixedRadix.Butterfly

open Build

variable {R : Type} [Scalar R]

/-- Assigns the same formula to the real and to the imaginary part of `dst`; the formula is given
the part to take of a complex value. -/
def lanewise (dst : ComplexSymbol) (formula : (ComplexSymbol → Expr R) → Expr R) :
    Build R Unit := do
  assign dst.re (formula fun v => v.re)
  assign dst.im (formula fun v => v.im)

/-- Two points. -/
def two (x0 x1 : ComplexSymbol) : Build R Unit := do
  let t1 ← allocComplex
  let t2 ← allocComplex
  lanewise t1 fun p => p x0
  lanewise t2 fun p => p x1
  lanewise x0 fun p => p t1 + p t2
  lanewise x1 fun p => p t1 - p t2
  [t1, t2].forM releaseComplex

/-- Three points. -/
def three (x0 x1 x2 : ComplexSymbol) : Build R Unit := do
  let t1 ← allocComplex
  let t2 ← allocComplex
  let t3 ← allocComplex
  lanewise t1 fun p => p x1 + p x2
  lanewise t2 fun p => p x0 - Expr.lit 0.5 * p t1
  lanewise t3 fun p => Expr.lit Scalar.sinThird * (p x1 - p x2)
  lanewise x0 fun p => p x0 + p t1
  assign x1.re (t2.re + t3.im)
  assign x1.im (t2.im - t3.re)
  assign x2.re (t2.re - t3.im)
  assign x2.im (t2.im + t3.re)
  [t1, t2, t3].forM releaseComplex

/-- Four points. -/
def four (x0 x1 x2 x3 : ComplexSymbol) : Build R Unit := do
  let t1 ← allocComplex
  let t2 ← allocComplex
  let t3 ← allocComplex
  let t4 ← allocComplex
  lanewise t1 fun p => p x0 + p x2
  lanewise t2 fun p => p x1 + p x3
  lanewise t3 fun p => p x0 - p x2
  lanewise t4 fun p => p x1 - p x3
  lanewise x0 fun p => p t1 + p t2
  assign x1.re (t3.re + t4.im)
  assign x1.im (t3.im - t4.re)
  lanewise x2 fun p => p t1 - p t2
  assign x3.re (t3.re - t4.im)
  assign x3.im (t3.im + t4.re)
  [t1, t2, t3, t4].forM releaseComplex

/-- Five points. -/
def five (x0 x1 x2 x3 x4 : ComplexSymbol) : Build R Unit := do
  let t1 ← allocComplex
  let t2 ← allocComplex
  let t3 ← allocComplex
  let t4 ← allocComplex
  let t5 ← allocComplex
  let t6 ← allocComplex
  let t7 ← allocComplex
  let t8 ← allocComplex
  let t9 ← allocComplex
  let t10 ← allocComplex
  let t11 ← allocComplex
  lanewise t1 fun p => p x1 + p x4
  lanewise t2 fun p => p x2 + p x3
  lanewise t3 fun p => p x1 - p x4
  lanewise t4 fun p => p x2 - p x3
  lanewise t5 fun p => p t1 + p t2
  lanewise t6 fun p => Expr.lit Scalar.cosFifthGap * (p t1 - p t2)
  lanewise t7 fun p => p x0 - Expr.lit 0.25 * p t5
  lanewise t8 fun p => p t7 + p t6
  lanewise t9 fun p => p t7 - p t6
  lanewise t10 fun p => Expr.lit Scalar.sinFifth * p t3 + Expr.lit Scalar.sinTwoFifths * p t4
  lanewise t11 fun p => Expr.lit Scalar.sinTwoFifths * p t3 - Expr.lit Scalar.sinFifth * p t4
  lanewise x0 fun p => p x0 + p t5
  assign x1.re (t8.re + t10.im)
  assign x1.im (t8.im - t10.re)
  assign x2.re (t9.re + t11.im)
  assign x2.im (t9.im - t11.re)
  assign x3.re (t9.re - t11.im)
  assign x3.im (t9.im + t11.re)
  assign x4.re (t8.re - t10.im)
  assign x4.im (t8.im + t10.re)
  [t1, t2, t3, t4, t5, t6, t7, t8, t9, t10, t11].forM releaseComplex

/-- The transform of as many points as there are values, for two to five of them. -/
def emit : List ComplexSymbol → Build R Unit
  | [x0, x1] => do recordButterfly; two x0 x1
  | [x0, x1, x2] => do recordButterfly; three x0 x1 x2
  | [x0, x1, x2, x3] => do recordButterfly; four x0 x1 x2 x3
  | [x0, x1, x2, x3, x4] => do recordButterfly; five x0 x1 x2 x3 x4
  | values => throw (.badSize ⟨values.length⟩)

end MixedRadix.Butterfly
