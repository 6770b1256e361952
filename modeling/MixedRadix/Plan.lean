import MixedRadix.Angle
import MixedRadix.Factorization
import MixedRadix.Permutation

/-!
# Plans

A plan lists what has to be done to transform `n` values in place: butterflies over slots and
rotations of single slots, in this order. No value is moved. Where a split would reorder its
results, the addresses of the logical positions are relabelled instead, and the plan ends with the
permutation that tells at which slot each result is found.

A plan does not depend on how its requests are carried out, so it is computed first and handed to
whatever carries it out. Planning may be limited to a number of requests; it stops at the first one
beyond.
-/

namespace MixedRadix

/-- One step of a transform on slots. -/
inductive Request where
  /-- The transform of as many points as there are slots, in place. -/
  | butterfly (radix : Radix) (slots : List Nat)
  /-- Multiplication of a slot by `e ^ (i * angle)`. -/
  | twiddle (slot : Nat) (angle : Angle)
  deriving DecidableEq, Repr

/-- The address of every logical position, and the requests issued so far. -/
structure Planner where
  addresses : Array Nat
  requests : Array Request := #[]
  /-- How many requests are accepted, unless all are. -/
  limit : Option Nat := none
  deriving DecidableEq, Repr

/-- Planning keeps the requests issued before a fault. -/
abbrev Planning := ExceptT Fault (StateM Planner)

namespace Planner

/-- A planner for `n` positions, each at its own address. -/
def start (n : Nat) : Planner :=
  { addresses := Array.range n }

/-- Whether one more request is accepted. -/
def accepts (s : Planner) : Bool :=
  s.limit.all (s.requests.size < ·)

/-- Adds a request. -/
def issue (r : Request) : Planning Unit := do
  if (← get).accepts then modify fun s => { s with requests := s.requests.push r }
  else throw .requestLimit

/-- The address of a logical position. -/
def address (position : Nat) : Planning Nat := do
  MonadExcept.ofExcept (getOrFault (← get).addresses position)

/-- Moves a logical position to another address. -/
def relabel (position target : Nat) : Planning Unit := do
  MonadExcept.ofExcept (checkIndex (← get).addresses position)
  modify fun s => { s with addresses := s.addresses.setIfInBounds position target }

/-- Entry `k` of an array of positions. -/
def pick (positions : Array Nat) (k : Nat) : Planning Nat :=
  MonadExcept.ofExcept (getOrFault positions k)

/-- `step i` for `count` indices from `i` on. -/
def forFrom (step : Nat → Planning Unit) : Nat → Nat → Planning Unit
  | 0, _ => pure ()
  | count + 1, i => do
    step i
    forFrom step count (i + 1)

/-- `step i` for every `i < n`, in this order. -/
def forBelow (n : Nat) (step : Nat → Planning Unit) : Planning Unit :=
  forFrom step n 0

theorem forFrom_eq_forM (step : Nat → Planning Unit) (count i : Nat) :
    forFrom step count i = (List.range' i count).forM step := by
  induction count generalizing i with
  | zero => rfl
  | succ count ih => exact congrArg (step i >>= fun _ => ·) (ih (i + 1))

theorem forBelow_eq_forM (n : Nat) (step : Nat → Planning Unit) :
    forBelow n step = (List.range n).forM step := by
  rw [forBelow, forFrom_eq_forM, List.range_eq_range']

/-- A butterfly over the present addresses of some positions. -/
def butterfly (radix : Radix) (positions : List Nat) : Planning Unit := do
  issue (.butterfly radix (← positions.mapM address))

/-- Where result `m` of a split into `r1` times `r2` points is computed. -/
def reorder (r1 r2 m : Nat) : Nat :=
  r1 * (m % r2) + m / r2

/-- Lets every position of a cycle take the address of its successor, and the last one `first`. -/
def shiftAddresses (positions : Array Nat) (first : Nat) : List Nat → Planning Unit
  | [] => pure ()
  | [last] => do relabel (← pick positions last) first
  | a :: b :: rest => do
    let target ← address (← pick positions b)
    relabel (← pick positions a) target
    shiftAddresses positions first (b :: rest)

/-- Relabels the addresses along one cycle of the order of results. -/
def shiftCycle (positions : Array Nat) : List Nat → Planning Unit
  | a :: b :: rest => do
    let first ← address (← pick positions a)
    shiftAddresses positions first (a :: b :: rest)
  | _ => pure ()

/-- Column `i1` of a split into `r1` times `r2` points: the inner butterfly and its twiddles. The
numerator of an angle has no bound; for `n < 2 ^ 62` it is a 64-bit word, since `i1 * i2 < n`. -/
def column (n r1 : Nat) (inner : Radix) (positions : Array Nat) (i1 : Nat) : Planning Unit := do
  let group ← (List.range inner.size).mapM fun i2 => pick positions (r1 * i2 + i1)
  butterfly inner group
  group.zipIdx.forM fun (position, i2) => do
    let angle ← MonadExcept.ofExcept (Angle.ofRatio (-2 * Int.ofNat (i1 * i2)) (Int.ofNat n))
    issue (.twiddle (← address position) angle)

/-- Row `i2` of positions that are split into rows of `r1`. -/
def row (r1 : Nat) (positions : Array Nat) (i2 : Nat) : Planning (Array Nat) :=
  let stop := r1 * i2 + r1
  if stop ≤ positions.size then pure (positions.extract (r1 * i2) stop)
  else throw (@Fault.indexOutOfRange stop positions.size)

/-- Transforms the values at some logical positions. Afterwards result `k` of that transform is at
the address of position `positions[k]`. -/
def compose : Factorization → Array Nat → Planning Unit
  | .unit, _ => pure ()
  | .base radix, positions => butterfly radix positions.toList
  | .split n outer inner, positions => do
    let r2 := inner.size
    let r1 := n / r2
    forBelow r1 (column n r1 inner positions)
    forBelow r2 fun i2 => do compose outer (← row r1 positions i2)
    let order ← MonadExcept.ofExcept (Permutation.ofMap ((Array.range n).map (reorder r1 r2)))
    order.cycles.forM (shiftCycle positions)

end Planner

/-- The steps of a transform, and at which slot each result ends up. -/
structure Plan where
  requests : List Request
  outcome : Except Fault Permutation

namespace Plan

/-- The plan of an `n`-point transform over the slots `0 … n - 1`, up to a limit of requests. -/
def ofSize (n : Nat) (limit : Option Nat := none) : Except BadSize Plan := do
  let f ← Factorization.ofSize n
  let start := { Planner.start n with limit }
  let (result, planner) := (Planner.compose f start.addresses).run.run start
  return {
    requests := planner.requests.toList
    outcome := result.bind fun _ => Permutation.ofMap planner.addresses }

end Plan

end MixedRadix
