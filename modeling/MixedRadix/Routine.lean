import MixedRadix.Expr

/-!
# Routines

The fixed library that call-style Fourier kernels are written against: butterflies of two to five
points, a rotation, a swap and a cyclic shift, all in place on complex slots.
-/

namespace MixedRadix

/-- Number of points of a butterfly. -/
inductive Radix where
  | two
  | three
  | four
  | five
  deriving DecidableEq, Repr

namespace Radix

/-- The number of points. -/
def size : Radix → Nat
  | two => 2
  | three => 3
  | four => 4
  | five => 5

/-- The radix with a number of points. -/
def ofSize? : Nat → Option Radix
  | 2 => some two
  | 3 => some three
  | 4 => some four
  | 5 => some five
  | _ => none

/-- The order in which radices are split off a composite size. -/
def priority : List Radix :=
  [five, four, three, two]

theorem two_le_size (r : Radix) : 2 ≤ r.size := by
  cases r <;> decide

end Radix

/-- A routine of the library. -/
inductive Routine where
  | butterfly (radix : Radix)
  | rotate
  | swap
  | cyclicShift
  deriving DecidableEq, Repr

namespace Routine

/-- All routines in the order in which they are imported. -/
def all : List Routine :=
  [butterfly .two, butterfly .three, butterfly .four, butterfly .five, rotate, swap, cyclicShift]

/-- The name under which the routine is called. -/
def name : Routine → String
  | butterfly .two => "mx_tr2"
  | butterfly .three => "mx_tr3"
  | butterfly .four => "mx_tr4"
  | butterfly .five => "mx_tr5"
  | rotate => "mx_rot"
  | swap => "mx_swap"
  | cyclicShift => "mx_cshft"

/-- Number of operations of one call. -/
def cost : Routine → Cost
  | butterfly .two => { add := 4 }
  | butterfly .three => { add := 12, mul := 4 }
  | butterfly .four => { add := 16 }
  | butterfly .five => { add := 32, mul := 12 }
  | rotate => { add := 2, mul := 4 }
  | swap | cyclicShift => {}

end Routine

/-- A call of a routine on complex slots. -/
inductive Call (R : Type) where
  /-- A discrete Fourier transform over `slots`. -/
  | butterfly (radix : Radix) (slots : List Nat)
  /-- Multiplication of a slot by `cos + i sin`. -/
  | rotate (slot : Nat) (cos sin : R)
  /-- Exchange of two slots. -/
  | swap (a b : Nat)
  /-- A shift along the slots of a table, which are listed again in `slots`. -/
  | cyclicShift (table : Nat) (slots : List Nat)
  deriving DecidableEq, Repr

namespace Call

variable {R : Type}

/-- The routine that is called. -/
def routine : Call R → Routine
  | butterfly radix _ => .butterfly radix
  | rotate _ _ _ => .rotate
  | swap _ _ => .swap
  | cyclicShift _ _ => .cyclicShift

/-- The complex slots that are read and written. -/
def slots : Call R → List Nat
  | butterfly _ slots | cyclicShift _ slots => slots
  | rotate slot _ _ => [slot]
  | swap a b => [a, b]

/-- The scalar locations that are read and written. -/
def symbols (c : Call R) : List Symbol :=
  c.slots.flatMap fun slot => [.real slot, .imag slot]

end Call

end MixedRadix
