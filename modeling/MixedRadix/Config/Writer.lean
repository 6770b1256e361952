import MixedRadix.Config
import MixedRadix.Text.Quoted

/-!
# Writing configurations

A configuration as a document: an object without blanks, its fields in their order. An output that
is not set is left out.
-/

namespace MixedRadix.Config

/-- How values are written in a document. -/
structure Literals where
  string : String → String
  natural : Nat → String
  boolean : Bool → String

/-- Quoted strings, decimal digits and the words `true` and `false`. -/
def Literals.plain : Literals where
  string := Text.inDocument
  natural := toString
  boolean := toString

/-- The value of a field in a document, if it is set. -/
def fieldText? (w : Literals) (c : Config) : Field → Option String
  | .size => some (w.natural c.size)
  | .orthogonal => some (w.boolean c.orthogonal)
  | .output => c.output.map w.string
  | .transform => some (w.string c.transform.name)
  | .strategy => some (w.string c.strategy.name)
  | .maxFunctionLines => some (w.natural c.maxFunctionLines)
  | .annotate => some (w.boolean c.annotate)
  | .verify => some (w.boolean c.verify)

/-- An object with some fields of a configuration, in this order. -/
def textOf (w : Literals) (c : Config) (fields : List Field) : String :=
  let members := fields.filterMap fun f =>
    (c.fieldText? w f).map fun value => w.string f.name ++ ":" ++ value
  "\x7b" ++ ",".intercalate members ++ "\x7d"

/-- The configuration as a document. -/
def text (c : Config) : String :=
  c.textOf .plain Field.all

end MixedRadix.Config
