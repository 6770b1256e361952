import MixedRadix.Config
import MixedRadix.Decimal.Style
import MixedRadix.Text.Quoted

/-!
# Problems of configurations

Everything that can be wrong with a configuration, as a document, as a combination of options, or as
something to be written to a file.
-/

namespace MixedRadix.Config

/-- What a document ends in the middle of. -/
inductive Construct where
  | value
  | object
  | list
  | string
  deriving DecidableEq, Repr

namespace Construct

/-- The construct in a message. -/
def description : Construct → String
  | value => "a value"
  | object => "an object"
  | list => "a list"
  | string => "a string"

end Construct

/-- What stands where another type of value is expected. -/
inductive Found where
  | integer (value : Int)
  | float (value : Float)
  | string (value : String)
  | boolean (value : Bool)
  | null
  | sequence
  | map

/-- Numbers in messages: the shortest digits, positional from `0.00001` up to `10 ^ 16`, and a plus
sign in front of a positive exponent. -/
def numberStyle : Decimal.Style :=
  { positional := some (-5, 16), plus := true, tie := .toEven }

namespace Found

/-- The value in a message. -/
def description : Found → String
  | integer value => "integer `" ++ toString value ++ "`"
  | float value => "floating point `" ++ numberStyle.text value ++ "`"
  | string value => "string " ++ Text.inMessage value
  | boolean value => "boolean `" ++ toString value ++ "`"
  | null => "null"
  | sequence => "sequence"
  | map => "map"

end Found

/-- What type of value is expected. -/
inductive Expected where
  | config
  | natural
  | boolean
  | path
  | unit
  deriving DecidableEq, Repr

namespace Expected

/-- The type in a message. -/
def description : Expected → String
  | config => "struct KernelConfig"
  | natural => "usize"
  | boolean => "a boolean"
  | path => "path string"
  | unit => "unit"

end Expected

/-- What is wrong with a configuration. -/
inductive Problem where
  /-- The document ends too early. -/
  | endOf (c : Construct)
  | expectedColon
  | expectedCommaOrBrace
  | expectedCommaOrBracket
  | trailingComma
  | trailingCharacters
  | keyNotString
  | expectedValue
  | expectedWord
  | invalidNumber
  | numberOutOfRange
  | controlCharacter
  | invalidEscape
  | endOfHexEscape
  | loneSurrogate
  /-- A value of another type. -/
  | wrongType (found : Found) (expected : Expected)
  /-- A negative integer instead of a natural number. -/
  | negative (value : Int)
  | unknownField (name : String)
  | repeatedField (f : Field)
  | missingSize
  | noElements
  | unknownTransform (name : String)
  | unknownStrategy (name : String)
  /-- A kernel without points. -/
  | zeroSize
  /-- Functions without entries. -/
  | zeroFunctionLines
  /-- Calls are asked for, but the transform is no Fourier transform. -/
  | callsWithout (t : Transform)
  /-- A file is to be written, but no path is given. -/
  | missingOutput

namespace Problem

/-- A name in backquotes. -/
def quote (name : String) : String :=
  "`" ++ name ++ "`"

/-- Names in backquotes, separated by commas. -/
def quotes (names : List String) : String :=
  ", ".intercalate (names.map quote)

/-- What is wrong, in words. -/
def reason : Problem → String
  | endOf c => "EOF while parsing " ++ c.description
  | expectedColon => "expected `:`"
  | expectedCommaOrBrace => "expected `,` or `\x7d`"
  | expectedCommaOrBracket => "expected `,` or `]`"
  | trailingComma => "trailing comma"
  | trailingCharacters => "trailing characters"
  | keyNotString => "key must be a string"
  | expectedValue => "expected value"
  | expectedWord => "expected ident"
  | invalidNumber => "invalid number"
  | numberOutOfRange => "number out of range"
  | controlCharacter => "control character (\\u0000-\\u001F) found while parsing a string"
  | invalidEscape => "invalid escape"
  | endOfHexEscape => "unexpected end of hex escape"
  | loneSurrogate => "lone leading surrogate in hex escape"
  | wrongType found expected =>
    "invalid type: " ++ found.description ++ ", expected " ++ expected.description
  | negative value =>
    "invalid value: " ++ (Found.integer value).description ++ ", expected " ++
      Expected.natural.description
  | unknownField name =>
    "unknown field " ++ quote name ++ ", expected one of " ++ quotes (Field.all.map Field.name)
  | repeatedField f => "duplicate field " ++ quote f.name
  | missingSize => "missing field " ++ quote Field.size.name
  | noElements => "invalid length 0, expected struct KernelConfig with 8 elements"
  | unknownTransform name =>
    "unknown variant " ++ quote name ++ ", expected one of " ++
      quotes (Transform.all.map Transform.name)
  | unknownStrategy name =>
    "unknown variant " ++ quote name ++ ", expected " ++
      " or ".intercalate (Strategy.all.map fun s => quote s.name)
  | zeroSize => "`N` must be a positive integer"
  | zeroFunctionLines => "`max_function_lines` must be positive"
  | callsWithout t => "strategy `subroutine` only applies to `fft`, not " ++ quote t.name
  | missingOutput => "missing `output`"

/-- The text of the error. -/
def message (p : Problem) : String :=
  "Invalid configuration: " ++ p.reason

end Problem

/-- Refuses combinations of options for which there is no kernel. Whether the size can be split is
not looked at. -/
def validate (c : Config) : Except Problem Unit :=
  if c.size = 0 then .error .zeroSize
  else if c.maxFunctionLines = 0 then .error .zeroFunctionLines
  else if c.transform.isCosine ∧ c.strategy = .calls then .error (.callsWithout c.transform)
  else .ok ()

end MixedRadix.Config
