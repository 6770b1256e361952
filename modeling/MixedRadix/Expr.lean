import MixedRadix.Distinct
import MixedRadix.Scalar
import MixedRadix.Symbol

/-!
# Expressions

The right-hand side of an assignment: sums, differences, products and negations of symbols and
literals. An expression has a cost, the symbols it reads, and a value for every reading of its
symbols.
-/

namespace MixedRadix

/-- Numbers of arithmetic operations. Subtractions count as additions. The numbers have no bound;
32-bit counters agree with them as long as none overflows. -/
structure Cost where
  add : Nat := 0
  mul : Nat := 0
  neg : Nat := 0
  deriving DecidableEq, Repr

instance : Add Cost where
  add a b := ⟨a.add + b.add, a.mul + b.mul, a.neg + b.neg⟩

/-- An expression over scalars of type `R`. -/
inductive Expr (R : Type) where
  | sym (s : Symbol)
  | lit (value : R)
  | neg (a : Expr R)
  | add (a b : Expr R)
  | sub (a b : Expr R)
  | mul (a b : Expr R)
  deriving DecidableEq, Repr

namespace Expr

variable {R : Type}

instance : Coe Symbol (Expr R) := ⟨sym⟩
instance : Neg (Expr R) := ⟨neg⟩
instance : Add (Expr R) := ⟨add⟩
instance : Sub (Expr R) := ⟨sub⟩
instance : Mul (Expr R) := ⟨mul⟩

theorem neg_eq (a : Expr R) : -a = neg a := rfl
theorem add_eq (a b : Expr R) : a + b = add a b := rfl
theorem sub_eq (a b : Expr R) : a - b = sub a b := rfl
theorem mul_eq (a b : Expr R) : a * b = mul a b := rfl

/-- Number of operations for one evaluation. -/
def cost : Expr R → Cost
  | sym _ | lit _ => {}
  | neg a => a.cost + { neg := 1 }
  | add a b | sub a b => a.cost + b.cost + { add := 1 }
  | mul a b => a.cost + b.cost + { mul := 1 }

/-- The symbols of the expression from left to right, with repetitions, in front of some others. -/
def occurrencesBefore : Expr R → List Symbol → List Symbol
  | sym s, others => s :: others
  | lit _, others => others
  | neg a, others => a.occurrencesBefore others
  | add a b, others | sub a b, others | mul a b, others =>
    a.occurrencesBefore (b.occurrencesBefore others)

/-- The symbols of the expression from left to right, with repetitions. -/
def occurrences (e : Expr R) : List Symbol :=
  e.occurrencesBefore []

theorem occurrencesBefore_eq (e : Expr R) (others : List Symbol) :
    e.occurrencesBefore others = e.occurrences ++ others := by
  induction e generalizing others with
  | sym | lit => rfl
  | neg a iha => exact iha others
  | add a b iha ihb | sub a b iha ihb | mul a b iha ihb =>
    simp only [occurrences, occurrencesBefore]
    rw [ihb, ihb [], List.append_nil, iha, iha b.occurrences, List.append_assoc]

/-- The symbols read by the expression, each once, in order of first use. -/
def symbols (e : Expr R) : List Symbol :=
  distinct Symbol.code e.occurrences

theorem symbols_eq (e : Expr R) : e.symbols = e.occurrences.eraseDups :=
  distinct_eq_eraseDups Symbol.code_inj.1 e.occurrences

/-- Whether the expression is a sum or a difference. -/
def isSum : Expr R → Bool
  | add _ _ | sub _ _ => true
  | _ => false

/-- Whether the expression is a negation. -/
def isNeg : Expr R → Bool
  | neg _ => true
  | _ => false

section Eval

variable [Scalar R]

/-- The value of the expression for a reading of its symbols. -/
def eval (read : Symbol → R) : Expr R → R
  | sym s => read s
  | lit value => value
  | neg a => -a.eval read
  | add a b => a.eval read + b.eval read
  | sub a b => a.eval read - b.eval read
  | mul a b => a.eval read * b.eval read

/-- The value of the expression if every symbol can be read, and otherwise the first failure. -/
def evalIn {ε : Type} (read : Symbol → Except ε R) : Expr R → Except ε R
  | sym s => read s
  | lit value => .ok value
  | neg a => do return -(← a.evalIn read)
  | add a b => do return (← a.evalIn read) + (← b.evalIn read)
  | sub a b => do return (← a.evalIn read) - (← b.evalIn read)
  | mul a b => do return (← a.evalIn read) * (← b.evalIn read)

end Eval

end Expr

end MixedRadix
