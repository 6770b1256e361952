import MixedRadix.Builder

/-!
# Rotations

Code for the multiplication of a complex value by `gain * e ^ (i * angle)`, in place. Multiples of a
quarter turn are moves and sign changes, odd multiples of an eighth share one scale factor, and all
others take three multiplications:

`re' = c (re + im) - (c + d) im` and `im' = c (re + im) + (d - c) re` for `c + i d` the factor.
-/

namespace MixedRadix.Rotation

open Build

variable {R : Type} [Scalar R]

/-- No rotation: scales both parts. -/
def identity (v : ComplexSymbol) (gain : R) : Build R Unit := do
  assign v.re (v.re * Expr.lit gain)
  assign v.im (v.im * Expr.lit gain)

/-- Half a turn: changes both signs. -/
def half (v : ComplexSymbol) : Option R → Build R Unit
  | some c => do
    assign v.re (Expr.lit (-c) * v.re)
    assign v.im (Expr.lit (-c) * v.im)
  | none => do
    assign v.re (-v.re)
    assign v.im (-v.im)

/-- A quarter turn: exchanges the parts and changes one sign. -/
def quarter (v : ComplexSymbol) (positive : Bool) (gain : Option R) : Build R Unit := do
  let t ← allocTemp
  match positive, gain with
  | true, some c =>
    assign t (Expr.lit c * v.re)
    assign v.re (Expr.lit (-c) * v.im)
    assign v.im t
  | true, none =>
    assign t v.re
    assign v.re (-v.im)
    assign v.im t
  | false, some c =>
    assign t (Expr.lit (-c) * v.re)
    assign v.re (Expr.lit c * v.im)
    assign v.im t
  | false, none =>
    assign t v.re
    assign v.re v.im
    assign v.im (-t)
  release t

/-- The parts of `√2 e ^ (i π octant / 4) (re + i im)`. -/
def diagonalParts (v : ComplexSymbol) : Nat → Expr R × Expr R
  | 1 => (v.re - v.im, v.re + v.im)
  | 3 => (-v.re - v.im, v.re - v.im)
  | 5 => (v.im - v.re, -v.re - v.im)
  | _ => (v.re + v.im, v.im - v.re)

/-- An odd multiple of an eighth of a turn. -/
def diagonal (v : ComplexSymbol) (octant : Nat) (gain : Option R) : Build R Unit := do
  let t0 ← allocTemp
  let t1 ← allocTemp
  let parts := diagonalParts v octant
  let scale := Scalar.invSqrtTwo * gain.getD 1.0
  assign t0 parts.1
  assign t1 parts.2
  assign v.re (t0 * Expr.lit scale)
  assign v.im (t1 * Expr.lit scale)
  release t0
  release t1

/-- Any angle. -/
def general (v : ComplexSymbol) (angle : Angle) (gain : Option R) : Build R Unit := do
  let radians : R := angle.radians
  let scale := gain.getD 1.0
  let c := Scalar.cos radians * scale
  let d := Scalar.sin radians * scale
  let t0 ← allocTemp
  let t1 ← allocTemp
  let t2 ← allocTemp
  assign t0 (Expr.lit c * (v.re + v.im))
  assign t1 (v.re * Expr.lit (d - c))
  assign t2 (v.im * Expr.lit (c + d))
  assign v.re (t0 - t2)
  assign v.im (t0 + t1)
  release t0
  release t1
  release t2

/-- Multiplies `v` by `gain * e ^ (i * angle)`, where no gain is a gain of one. Nothing is emitted
or counted for an identity without gain. -/
def emit (v : ComplexSymbol) (angle : Angle) (gain : Option R) : Build R Unit := do
  match angle.turn, gain with
  | .identity, none => return
  | .identity, some c => identity v c
  | .half, gain => half v gain
  | .quarter positive, gain => quarter v positive gain
  | .diagonal octant, gain => diagonal v octant gain
  | .general, gain => general v angle gain
  recordRotation angle.turn

end MixedRadix.Rotation
