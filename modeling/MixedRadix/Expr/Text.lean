import MixedRadix.Decimal.Style
import MixedRadix.Expr

/-!
# Expression text

Expressions are written for the usual precedence: `*` binds tighter than `+` and `-`, all three
associate to the left, and a minus sign in front binds tightest. Sums and negations stand in
parentheses where this asks for it. A product never does, so that one on the right of another is
written as further factors.
-/

namespace MixedRadix

/-- How a scalar is written. -/
class ScalarText (R : Type) where
  /-- The digits of a literal, with its sign. -/
  digits : R → String
  /-- Whether the text starts with a minus sign. -/
  isNegative : R → Bool
  /-- The scalar in scientific notation. -/
  scientific : R → String

/-- Literals of source text: the shortest digits, positional from `0.0001` up to `10 ^ 16`. -/
def literalStyle : Decimal.Style :=
  { positional := some (-4, 16), plus := false, tie := .up }

/-- Measured errors: the shortest digits, always scientific. -/
def errorStyle : Decimal.Style :=
  { positional := none, plus := false, tie := .up }

instance : ScalarText Float where
  digits := literalStyle.text
  isNegative x := Decimal.Binary.signField x.toBits.toNat
  scientific := errorStyle.text

/-- Text in parentheses. -/
def parenthesized (text : String) : String :=
  "(" ++ text ++ ")"

/-- Text in parentheses where they are needed. -/
def parenthesizedIf (needed : Bool) (text : String) : String :=
  if needed then parenthesized text else text

/-- A literal inside of an expression; one with a minus sign stands in parentheses. -/
def literalText {R : Type} [ScalarText R] (value : R) : String :=
  parenthesizedIf (ScalarText.isNegative value) (ScalarText.digits value)

namespace Expr

variable {R : Type} [ScalarText R]

/-- Whether the expression stands in parentheses as an operand on the right of an operator or behind
a minus sign. -/
def wrapsOnRight (e : Expr R) : Bool :=
  e.isSum || e.isNeg

/-- The expression in source text. -/
def text (names : SlotNames) : Expr R → String
  | sym s => s.text names
  | lit value => literalText value
  | neg a => "-" ++ parenthesizedIf a.wrapsOnRight (a.text names)
  | add a b => a.text names ++ " + " ++ parenthesizedIf b.wrapsOnRight (b.text names)
  | sub a b => a.text names ++ " - " ++ parenthesizedIf b.wrapsOnRight (b.text names)
  | mul a b =>
    parenthesizedIf a.isSum (a.text names) ++ " * " ++
      parenthesizedIf b.wrapsOnRight (b.text names)

end Expr

end MixedRadix
