import MixedRadix.Expr.Text
import MixedRadix.Instruction

/-!
# Statement text

The source line of a statement. Arguments of calls are separated by commas, so negative ones need no
parentheses.
-/

namespace MixedRadix

variable {R : Type} [ScalarText R]

namespace Call

/-- What follows the two arrays in the argument list. -/
def arguments : Call R → List String
  | butterfly _ slots => slots.map toString
  | rotate slot cos sin => [toString slot, ScalarText.digits cos, ScalarText.digits sin]
  | swap a b => [toString a, toString b]
  | cyclicShift table _ => [s!"&CSHFT_INDEXES_{table}"]

end Call

namespace Stmt

/-- The statement in source text. -/
def text (names : SlotNames) : Stmt R → String
  | assign dst value => dst.text names ++ " = " ++ value.text names ++ ";"
  | call c =>
    c.routine.name ++ "(" ++ ", ".intercalate (names.real :: names.imag :: c.arguments) ++ ");"

end Stmt

namespace Instruction

/-- The entry in source text. -/
def text (names : SlotNames) : Instruction R → String
  | comment text => "// " ++ text
  | op o => o.stmt.text names

end Instruction

end MixedRadix
