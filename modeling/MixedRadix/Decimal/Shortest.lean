/-!
# Shortest decimals

A finite binary floating-point number stands for all the reals that round to it. Of the decimals
in that interval, `Binary.shortest` picks one with the fewest digits and, of those, the one nearest
to the number. All arithmetic is exact, on natural numbers.

The interval of `m * 2 ^ q` reaches half way to the two neighbours. Its ends belong to it exactly
if `m` is even. On a grid of decimals `c * 10 ^ e` only the two multiples next to the number have
to be tried: if any multiple lies in the interval, then one of those two does.
-/

namespace MixedRadix.Decimal

/-- Which of two equally near decimals is taken. -/
inductive Tie where
  /-- The larger. -/
  | up
  /-- The one whose last digit is even. -/
  | toEven
  deriving DecidableEq, Repr

/-- The decimal `digits * 10 ^ exponent`. -/
structure Digits where
  digits : Nat
  exponent : Int
  deriving DecidableEq, Repr

/-- The positive number `mantissa * 2 ^ exponent` of a binary floating-point format. -/
structure Binary where
  mantissa : Nat
  exponent : Int
  /-- The next smaller number is only half as far away as the next larger. -/
  narrowBelow : Bool
  deriving DecidableEq, Repr

namespace Binary

/-- `2 ^ 52`, by which the fields of a double above its fraction are shifted. -/
def fractionUnit : Nat := 0x10000000000000

/-- `2 ^ 63`, by which the sign of a double is shifted. -/
def signUnit : Nat := 0x8000000000000000

/-- The fraction of a double, given by its bits. -/
def fractionField (bits : Nat) : Nat :=
  bits % fractionUnit

/-- The biased exponent of a double, given by its bits. -/
def exponentField (bits : Nat) : Nat :=
  bits / fractionUnit % 2048

/-- Whether a double has a minus sign, given by its bits. -/
def signField (bits : Nat) : Bool :=
  bits / signUnit % 2 == 1

/-- The absolute value of a finite double, given by its bits. -/
def ofBits (bits : Nat) : Binary :=
  let fraction := fractionField bits
  let field := exponentField bits
  if field = 0 then
    { mantissa := fraction, exponent := -1074, narrowBelow := false }
  else
    { mantissa := fraction + fractionUnit, exponent := Int.ofNat field - 1075
      narrowBelow := fraction == 0 && field != 1 }

/-- Natural numbers `(a, b)` with `a / b = 2 ^ q / 10 ^ e`. -/
def ratio (q e : Int) : Nat × Nat :=
  (Nat.pow 2 q.toNat * Nat.pow 10 (-e).toNat, Nat.pow 2 (-q).toNat * Nat.pow 10 e.toNat)

/-- The least `e ≥ k` with `x < 10 ^ (e + 1)`, if it is reached within `fuel` steps. -/
def leadAtLeast (num den : Nat) : Nat → Nat → Nat
  | 0, k => k
  | fuel + 1, k => if num < den * Nat.pow 10 (k + 1) then k else leadAtLeast num den fuel (k + 1)

/-- The least `k' ≥ k` with `1 ≤ x * 10 ^ k'`, if it is reached within `fuel` steps. -/
def shiftAtLeast (num den : Nat) : Nat → Nat → Nat
  | 0, k => k
  | fuel + 1, k => if den ≤ num * Nat.pow 10 k then k else shiftAtLeast num den fuel (k + 1)

/-- An exponent `e` with `10 ^ e ≤ 2 ^ bits`, which is nearly the largest, since `10 ^ 1233` is
slightly less than `2 ^ 4096`. -/
def decimalsIn (bits : Nat) : Nat :=
  bits * 1233 / 4096

/-- The exponent of the leading decimal digit. The search starts at an exponent that is not too
large and ends after a few steps. -/
def lead (x : Binary) : Int :=
  let (a, b) := ratio x.exponent 0
  let num := x.mantissa * a
  -- The number lies between `2 ^ bits` and `2 ^ (bits + 1)`.
  let bits := Int.ofNat x.mantissa.log2 + x.exponent
  if b ≤ num then Int.ofNat (leadAtLeast num b 400 (decimalsIn bits.toNat))
  else -Int.ofNat (shiftAtLeast num b 400 (max 1 (decimalsIn (-bits - 1).toNat)))

/-- Of the two multiples of `10 ^ e` next to the number, the nearer one that rounds to it. -/
def nearestOn (x : Binary) (tie : Tie) (e : Int) : Option Digits :=
  -- In units of a quarter of the last binary place: the number is `4m`, its interval `low … high`.
  let low := 4 * x.mantissa - (if x.narrowBelow then 1 else 2)
  let high := 4 * x.mantissa + 2
  let (a, b) := ratio (x.exponent - 2) e
  let isIn (c : Nat) : Bool :=
    if x.mantissa % 2 == 0 then decide (low * a ≤ c * b) && decide (c * b ≤ high * a)
    else decide (low * a < c * b) && decide (c * b < high * a)
  let scaled := 4 * x.mantissa * a
  let below := scaled / b
  let above := below + 1
  if isIn below then
    if isIn above then
      -- Both round to the number: compare the two distances.
      let fromBelow := scaled - below * b
      let toAbove := above * b - scaled
      let takeAbove := decide (toAbove < fromBelow) ||
        (toAbove == fromBelow && (tie == .up || below % 2 == 1))
      some ⟨if takeAbove then above else below, e⟩
    else some ⟨below, e⟩
  else if isIn above then some ⟨above, e⟩
  else none

/-- The first hit on the grids with `18 - fuel` up to `17` digits. -/
def shortestFrom (x : Binary) (tie : Tie) (lead : Int) : Nat → Digits
  | 0 => ⟨0, 0⟩
  | fuel + 1 =>
    let places : Int := 17 - (Int.ofNat fuel + 1)
    match x.nearestOn tie (lead - places) with
    | some d => d
    | none => shortestFrom x tie lead fuel

/-- A decimal with the fewest digits that rounds to the number, the nearest of those. Seventeen
digits always suffice for a double. A finer grid contains every coarser one, so if there is no hit
with fifteen digits, then there is none with fewer. -/
def shortest (x : Binary) (tie : Tie) : Digits :=
  let lead := x.lead
  let grids := if (x.nearestOn tie (lead - 14)).isSome then 17 else 2
  let d := x.shortestFrom tie lead grids
  -- A grid of one digit may round up to the next power of ten.
  if d.digits = 10 then ⟨1, d.exponent + 1⟩ else d

end Binary

end MixedRadix.Decimal
