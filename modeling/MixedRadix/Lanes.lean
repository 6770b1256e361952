import MixedRadix.Fault
import MixedRadix.Scalar

/-!
# Lanes

The routines that call-style kernels are made of, on numbers: discrete Fourier transforms of two to
five points, a complex multiplication, a swap and a cyclic shift. Each works in place on complex
values whose real and imaginary parts lie in two arrays, and reads all its points before it writes
the first, so that slots may coincide.
-/

namespace MixedRadix

/-- A complex number by its parts. -/
structure ComplexPair (R : Type) where
  re : R
  im : R
  deriving DecidableEq, Repr

namespace ComplexPair

variable {R : Type} [Scalar R]

instance : Add (ComplexPair R) := ⟨fun a b => ⟨a.re + b.re, a.im + b.im⟩⟩
instance : Sub (ComplexPair R) := ⟨fun a b => ⟨a.re - b.re, a.im - b.im⟩⟩

/-- A real multiple. -/
def scale (c : R) (a : ComplexPair R) : ComplexPair R :=
  ⟨c * a.re, c * a.im⟩

/-- `a + i b` -/
def addI (a b : ComplexPair R) : ComplexPair R :=
  ⟨a.re - b.im, a.im + b.re⟩

/-- `a - i b` -/
def subI (a b : ComplexPair R) : ComplexPair R :=
  ⟨a.re + b.im, a.im - b.re⟩

/-- `a * (cos + i sin)` -/
def rotate (cos sin : R) (a : ComplexPair R) : ComplexPair R :=
  ⟨a.re * cos - a.im * sin, a.re * sin + a.im * cos⟩

/-- The transform of two points. -/
def dft2 (x0 x1 : ComplexPair R) : ComplexPair R × ComplexPair R :=
  (x0 + x1, x0 - x1)

/-- The transform of three points. -/
def dft3 (x0 x1 x2 : ComplexPair R) : ComplexPair R × ComplexPair R × ComplexPair R :=
  let t1 := x1 + x2
  let t2 := x0 - scale 0.5 t1
  let t3 := scale Scalar.sinThird (x1 - x2)
  (x0 + t1, subI t2 t3, addI t2 t3)

/-- The transform of four points. -/
def dft4 (x0 x1 x2 x3 : ComplexPair R) :
    ComplexPair R × ComplexPair R × ComplexPair R × ComplexPair R :=
  let t1 := x0 + x2
  let t2 := x1 + x3
  let t3 := x0 - x2
  let t4 := x1 - x3
  (t1 + t2, subI t3 t4, t1 - t2, addI t3 t4)

/-- The transform of five points. -/
def dft5 (x0 x1 x2 x3 x4 : ComplexPair R) :
    ComplexPair R × ComplexPair R × ComplexPair R × ComplexPair R × ComplexPair R :=
  let t1 := x1 + x4
  let t2 := x2 + x3
  let t3 := x1 - x4
  let t4 := x2 - x3
  let t5 := t1 + t2
  let t6 := scale Scalar.cosFifthGap (t1 - t2)
  let t7 := x0 - scale 0.25 t5
  let t8 := t7 + t6
  let t9 := t7 - t6
  let t10 := scale Scalar.sinFifth t3 + scale Scalar.sinTwoFifths t4
  let t11 := scale Scalar.sinTwoFifths t3 - scale Scalar.sinFifth t4
  (x0 + t5, subI t8 t10, subI t9 t11, addI t9 t11, addI t8 t10)

end ComplexPair

/-- Complex values in two arrays. -/
structure Lanes (R : Type) where
  re : Array R
  im : Array R
  deriving DecidableEq, Repr

namespace Lanes

variable {R : Type}

/-- The value at a slot. -/
def get (l : Lanes R) (slot : Nat) : Except Fault (ComplexPair R) := do
  return ⟨← getOrFault l.re slot, ← getOrFault l.im slot⟩

/-- Replaces the value at a slot. -/
def put (slot : Nat) (x : ComplexPair R) : Lanes R → Except Fault (Lanes R)
  | ⟨re, im⟩ => do
    checkIndex re slot
    checkIndex im slot
    return ⟨re.setIfInBounds slot x.re, im.setIfInBounds slot x.im⟩

/-- Exchanges two slots. -/
def swap (l : Lanes R) (a b : Nat) : Except Fault (Lanes R) := do
  let xa ← l.get a
  let xb ← l.get b
  (← l.put a xb).put b xa

/-- Lets `slot` take the value of the next slot and so on; the last one takes `first`. -/
def shiftFrom (first : ComplexPair R) (slot : Nat) : List Nat → Lanes R → Except Fault (Lanes R)
  | [], l => l.put slot first
  | next :: rest, l => do
    let x ← l.get next
    shiftFrom first next rest (← l.put slot x)

/-- Lets every slot of a list take the value of its successor, and the last one that of the
first. -/
def cyclicShift (l : Lanes R) : List Nat → Except Fault (Lanes R)
  | [] => .ok l
  | slot :: rest => do shiftFrom (← l.get slot) slot rest l

variable [Scalar R]

/-- Multiplies a slot by `cos + i sin`. -/
def rotate (l : Lanes R) (slot : Nat) (cos sin : R) : Except Fault (Lanes R) := do
  l.put slot ((← l.get slot).rotate cos sin)

/-- Two points. -/
def butterfly2 (l : Lanes R) (i0 i1 : Nat) : Except Fault (Lanes R) := do
  let (y0, y1) := (← l.get i0).dft2 (← l.get i1)
  (← l.put i0 y0).put i1 y1

/-- Three points. -/
def butterfly3 (l : Lanes R) (i0 i1 i2 : Nat) : Except Fault (Lanes R) := do
  let (y0, y1, y2) := (← l.get i0).dft3 (← l.get i1) (← l.get i2)
  (← (← l.put i0 y0).put i1 y1).put i2 y2

/-- Four points. -/
def butterfly4 (l : Lanes R) (i0 i1 i2 i3 : Nat) : Except Fault (Lanes R) := do
  let (y0, y1, y2, y3) := (← l.get i0).dft4 (← l.get i1) (← l.get i2) (← l.get i3)
  (← (← (← l.put i0 y0).put i1 y1).put i2 y2).put i3 y3

/-- Five points. -/
def butterfly5 (l : Lanes R) (i0 i1 i2 i3 i4 : Nat) : Except Fault (Lanes R) := do
  let (y0, y1, y2, y3, y4) :=
    (← l.get i0).dft5 (← l.get i1) (← l.get i2) (← l.get i3) (← l.get i4)
  (← (← (← (← l.put i0 y0).put i1 y1).put i2 y2).put i3 y3).put i4 y4

/-- The butterfly over as many points as there are slots. -/
def butterfly (l : Lanes R) : List Nat → Except Fault (Lanes R)
  | [i0, i1] => l.butterfly2 i0 i1
  | [i0, i1, i2] => l.butterfly3 i0 i1 i2
  | [i0, i1, i2, i3] => l.butterfly4 i0 i1 i2 i3
  | [i0, i1, i2, i3, i4] => l.butterfly5 i0 i1 i2 i3 i4
  | slots => .error (.butterflySize slots.length)

end Lanes

end MixedRadix
