import MixedRadix.Config.Problem

/-!
# Reading configurations

A document is an object with the fields of a configuration, or an array of their values in order. It
is read from left to right, every value by the type that its field asks for, and the first problem
ends the reading. What is read completely is then validated.
-/

namespace MixedRadix.Config

/-- A computation on the rest of a document. -/
abbrev Reader := StateT (List Char) (Except Problem)

namespace Reader

/-- Whether a character may stand between any two parts of a document. -/
def isBlank (c : Char) : Bool :=
  c == ' ' || c == '\t' || c == '\n' || c == '\r'

/-- The next character, which stays. -/
def next? : Reader (Option Char) := do
  return (← get).head?

/-- The next character that is not blank, which stays. -/
def peek? : Reader (Option Char) := do
  modify (·.dropWhile isBlank)
  next?

/-- Goes past a character. -/
def advance : Reader Unit :=
  modify (·.drop 1)

/-- The next character that is not blank; there has to be one. -/
def peekIn (c : Construct) : Reader Char := do
  match ← peek? with
  | some ch => return ch
  | none => throw (.endOf c)

/-! ### Words and strings -/

/-- Reads the rest of a word. -/
def word : List Char → Reader Unit
  | [] => return
  | c :: rest => do
    match ← next? with
    | none => throw (.endOf .value)
    | some ch =>
      advance
      if ch = c then word rest else throw .expectedWord

/-- The value of a hexadecimal digit. -/
def hexDigit? (c : Char) : Option Nat :=
  if '0' ≤ c ∧ c ≤ '9' then some (c.toNat - '0'.toNat)
  else if 'a' ≤ c ∧ c ≤ 'f' then some (c.toNat - 'a'.toNat + 10)
  else if 'A' ≤ c ∧ c ≤ 'F' then some (c.toNat - 'A'.toNat + 10)
  else none

/-- A number of four hexadecimal digits at the front of a text, and the rest. Four bytes have to be
left, whatever they are. -/
def hexCode (s : List Char) : Except Problem (Nat × List Char) :=
  if (String.ofList (s.take 4)).utf8ByteSize < 4 then .error (.endOf .string)
  else
    match (s.take 4).mapM hexDigit? with
    | some [a, b, c, d] => .ok (((a * 16 + b) * 16 + c) * 16 + d, s.drop 4)
    | _ => .error .invalidEscape

/-- Whether a code is the first of a pair that stands for one character. -/
def isHighSurrogate (n : Nat) : Bool := 0xD800 ≤ n && n ≤ 0xDBFF

/-- Whether a code is the second of a pair that stands for one character. -/
def isLowSurrogate (n : Nat) : Bool := 0xDC00 ≤ n && n ≤ 0xDFFF

/-- A character by its code, or by the two codes of a pair. -/
def unicodeEscape (s : List Char) : Except Problem (Char × List Char) := do
  let (high, s) ← hexCode s
  if isLowSurrogate high then throw .loneSurrogate
  if !isHighSurrogate high then return (Char.ofNat high, s)
  match s with
  | [] => throw (.endOf .string)
  | '\\' :: [] => throw (.endOf .string)
  | '\\' :: 'u' :: s =>
    let (low, s) ← hexCode s
    if isLowSurrogate low then
      return (Char.ofNat ((high - 0xD800) * 0x400 + (low - 0xDC00) + 0x10000), s)
    else throw .loneSurrogate
  | _ => throw .endOfHexEscape

/-- The character of an escape with one letter. -/
def simpleEscape? : Char → Option Char
  | '"' => some '"'
  | '\\' => some '\\'
  | '/' => some '/'
  | 'b' => some '\x08'
  | 'f' => some '\x0c'
  | 'n' => some '\n'
  | 'r' => some '\r'
  | 't' => some '\t'
  | _ => none

/-- A character that is written by an escape, behind the backslash. -/
def escape : List Char → Except Problem (Char × List Char)
  | [] => .error (.endOf .string)
  | c :: s =>
    if c = 'u' then unicodeEscape s
    else
      match simpleEscape? c with
      | some e => .ok (e, s)
      | none => .error .invalidEscape

/-- The characters of a string up to its closing quote, behind those in `before`, which are kept
latest first; and what follows. Every character takes at least one step, so `fuel` may be the length
of the text. -/
def stringBody (before : List Char) : Nat → List Char → Except Problem (List Char × List Char)
  | 0, _ => .error (.endOf .string)
  | _, [] => .error (.endOf .string)
  | fuel + 1, c :: s => do
    if c = '"' then return (before.reverse, s)
    else if c = '\\' then
      let (e, s) ← escape s
      stringBody (e :: before) fuel s
    else if c.toNat < 0x20 then throw .controlCharacter
    else stringBody (c :: before) fuel s

/-- A string whose opening quote is next. -/
def string : Reader String := do
  advance
  let s ← get
  let (body, rest) ← stringBody [] s.length s
  set rest
  return String.ofList body

/-! ### Numbers -/

/-- A number of a document. -/
inductive Number where
  | natural (value : Nat)
  | negative (value : Int)
  | float (value : Float)

/-- `2 ^ 64 - 1`, the largest 64-bit natural number. -/
def maxWord : Nat := 0xFFFFFFFFFFFFFFFF

/-- `2 ^ 63`, the largest size of a negative 64-bit integer. -/
def maxNegative : Nat := 0x8000000000000000

/-- `2 ^ 31 - 1`, the largest 32-bit integer. -/
def maxExponent : Nat := 0x7FFFFFFF

/-- The digits at the front of a text. -/
def leadingDigits (s : List Char) : List Nat :=
  (s.takeWhile Char.isDigit).map fun c => c.toNat - '0'.toNat

/-- Appends digits to a number as long as it stays a 64-bit word. Gives the number and how many
digits were left out; after the first of these all others are left out too. -/
def appendDigits (n : Nat) : List Nat → Nat × Nat
  | [] => (n, 0)
  | d :: ds => if maxWord < n * 10 + d then (n, ds.length + 1) else appendDigits (n * 10 + d) ds

/-- `f / 10 ^ 308` for as many times as `exponent` holds it, at most `fuel` times. -/
def shrink : Nat → Float → Nat → Float × Nat
  | 0, f, exponent => (f, exponent)
  | fuel + 1, f, exponent =>
    if exponent ≤ 308 ∨ f == 0.0 then (f, exponent)
    else shrink fuel (f / Float.ofScientific 1 false 308) (exponent - 308)

/-- `significand * 10 ^ exponent` by one rounded multiplication, or by rounded divisions. Three
divisions by `10 ^ 308` leave nothing of a 64-bit word. -/
def floatOf (positive : Bool) (significand : Nat) (exponent : Int) : Except Problem Float := do
  let f := Float.ofNat significand
  let magnitude ←
    if 0 ≤ exponent then
      if exponent ≤ 308 then
        let scaled := f * Float.ofScientific 1 false exponent.toNat
        if scaled.isInf then throw .numberOutOfRange else pure scaled
      else if f == 0.0 then pure f
      else throw .numberOutOfRange
    else
      let (f, e) := shrink 3 f (-exponent).toNat
      pure (if e ≤ 308 then f / Float.ofScientific 1 false e else f)
  return if positive then magnitude else -magnitude

/-- A problem of a number that lacks a digit. -/
def missingDigit : Reader Problem := do
  match ← next? with
  | some _ => return .invalidNumber
  | none => return .endOf .value

/-- The number with some decimal digits, or `bound` if it is larger. -/
def numberUpTo (bound : Nat) (digits : List Nat) : Nat :=
  digits.foldl (fun n d => min (n * 10 + d) bound) 0

/-- The exponent of a number, behind its mark. One that is no 32-bit number makes the number zero or
puts it out of range. -/
def exponentPart (positive : Bool) (significand : Nat) (start : Int) : Reader Float := do
  advance
  let sign ← next?
  if sign = some '+' ∨ sign = some '-' then advance
  let digits := leadingDigits (← get)
  if digits.isEmpty then throw (← missingDigit)
  modify (·.dropWhile Char.isDigit)
  let size := numberUpTo (maxExponent + 1) digits
  let raises := sign ≠ some '-'
  if maxExponent < size then
    if significand ≠ 0 ∧ raises then throw .numberOutOfRange
    else return if positive then 0.0 else -0.0
  else if raises then floatOf positive significand (start + Int.ofNat size)
  else floatOf positive significand (start - Int.ofNat size)

/-- The fraction of a number, from its point on, and the exponent if there is one. -/
def fractionPart (positive : Bool) (significand : Nat) (start : Int) : Reader Float := do
  advance
  let digits := leadingDigits (← get)
  if digits.isEmpty then throw (← missingDigit)
  modify (·.dropWhile Char.isDigit)
  let (significand, dropped) := appendDigits significand digits
  let exponent := start - Int.ofNat (digits.length - dropped)
  match ← next? with
  | some 'e' | some 'E' => exponentPart positive significand exponent
  | _ => floatOf positive significand exponent

/-- An integer, unless it is negative zero or no 64-bit word. -/
def integerOf (positive : Bool) (significand : Nat) : Number :=
  if positive then .natural significand
  else if significand = 0 ∨ maxNegative < significand then .float (-Float.ofNat significand)
  else .negative (-Int.ofNat significand)

/-- A number behind its sign. -/
def number (positive : Bool) : Reader Number := do
  let digits := leadingDigits (← get)
  match digits with
  | [] => throw (← missingDigit)
  | 0 :: _ :: _ => throw .invalidNumber
  | _ =>
    modify (·.dropWhile Char.isDigit)
    let (significand, dropped) := appendDigits 0 digits
    match ← next? with
    | some '.' => return .float (← fractionPart positive significand (Int.ofNat dropped))
    | some 'e' | some 'E' =>
      return .float (← exponentPart positive significand (Int.ofNat dropped))
    | _ =>
      if dropped = 0 then return integerOf positive significand
      else return .float (← floatOf positive significand (Int.ofNat dropped))

namespace Number

/-- The number in a message. -/
def found : Number → Found
  | natural value => .integer (Int.ofNat value)
  | negative value => .integer value
  | float value => .float value

end Number

/-! ### Values -/

/-- The problem of a value that has another type than expected. What can be read of the value comes
first. -/
def mismatch {α : Type} (expected : Expected) : Reader α := do
  let c := (← next?).getD '\x00'
  if c = 'n' then
    advance
    word "ull".toList
    throw (.wrongType .null expected)
  else if c = 't' then
    advance
    word "rue".toList
    throw (.wrongType (.boolean true) expected)
  else if c = 'f' then
    advance
    word "alse".toList
    throw (.wrongType (.boolean false) expected)
  else if c = '-' then
    advance
    throw (.wrongType (← number false).found expected)
  else if c.isDigit then throw (.wrongType (← number true).found expected)
  else if c = '"' then throw (.wrongType (.string (← string)) expected)
  else if c = '[' then throw (.wrongType .sequence expected)
  else if c = '\x7b' then throw (.wrongType .map expected)
  else throw .expectedValue

/-- A natural number. -/
def natural : Reader Nat := do
  let c ← peekIn .value
  if c = '-' then
    advance
    natural? (← number false)
  else if c.isDigit then natural? (← number true)
  else mismatch .natural
where
  /-- The number if it is natural. -/
  natural? : Number → Reader Nat
    | .natural value => return value
    | .negative value => throw (.negative value)
    | .float value => throw (.wrongType (.float value) .natural)

/-- A truth value. -/
def boolean : Reader Bool := do
  let c ← peekIn .value
  if c = 't' then
    advance
    word "rue".toList
    return true
  else if c = 'f' then
    advance
    word "alse".toList
    return false
  else mismatch .boolean

/-- A path, or null for none. -/
def path : Reader (Option String) := do
  match ← peek? with
  | some 'n' =>
    advance
    word "ull".toList
    return none
  | none => throw (.endOf .value)
  | some '"' => return some (← string)
  | some _ => mismatch .path

/-- The colon behind a key. -/
def colon : Reader Unit := do
  let c ← peekIn .object
  if c = ':' then advance else throw .expectedColon

/-- Null, which is all that may stand behind the name of an option in an object. -/
def unit : Reader Unit := do
  let c ← peekIn .value
  if c = 'n' then
    advance
    word "ull".toList
  else mismatch .unit

/-- An option by its name: a string, or an object with the name as its key and null as its value. -/
def variant {α : Type} (ofName? : String → Option α) (unknown : String → Problem) : Reader α := do
  let c ← peekIn .value
  if c = '"' then named
  else if c = '\x7b' then
    advance
    let c ← peekIn .object
    let value ←
      if c = '"' then named
      else if c = '\x7d' then throw .expectedValue
      else throw .keyNotString
    colon
    unit
    let c ← peekIn .object
    if c = '\x7d' then
      advance
      return value
    else throw .expectedValue
  else throw .expectedValue
where
  /-- The option with the name that is next. -/
  named : Reader α := do
    let name ← string
    match ofName? name with
    | some value => return value
    | none => throw (unknown name)

/-! ### Documents -/

/-- The fields read so far. -/
structure Draft where
  size : Option Nat := none
  orthogonal : Option Bool := none
  output : Option (Option String) := none
  transform : Option Transform := none
  strategy : Option Strategy := none
  maxFunctionLines : Option Nat := none
  annotate : Option Bool := none
  verify : Option Bool := none

/-- How the values of the fields are read. -/
structure Values where
  natural : Reader Nat
  boolean : Reader Bool
  path : Reader (Option String)
  transform : Reader Transform
  strategy : Reader Strategy

/-- The values of a document. -/
def values : Values where
  natural := natural
  boolean := boolean
  path := path
  transform := variant Transform.ofName? .unknownTransform
  strategy := variant Strategy.ofName? .unknownStrategy

/-- Reads the value of a field. -/
def Values.field (v : Values) (d : Draft) : Field → Reader Draft
  | .size => do return { d with size := some (← v.natural) }
  | .orthogonal => do return { d with orthogonal := some (← v.boolean) }
  | .output => do return { d with output := some (← v.path) }
  | .transform => do return { d with transform := some (← v.transform) }
  | .strategy => do return { d with strategy := some (← v.strategy) }
  | .maxFunctionLines => do return { d with maxFunctionLines := some (← v.natural) }
  | .annotate => do return { d with annotate := some (← v.boolean) }
  | .verify => do return { d with verify := some (← v.boolean) }

/-- The configuration, with the defaults of the fields that were not read. -/
def Draft.config (d : Draft) (size : Nat) : Config :=
  let defaults : Config := { size }
  { size
    orthogonal := d.orthogonal.getD defaults.orthogonal
    output := d.output.getD defaults.output
    transform := d.transform.getD defaults.transform
    strategy := d.strategy.getD defaults.strategy
    maxFunctionLines := d.maxFunctionLines.getD defaults.maxFunctionLines
    annotate := d.annotate.getD defaults.annotate
    verify := d.verify.getD defaults.verify }

/-- Whether a key is next in an object; a comma comes before every key but the first. -/
def hasKey (first : Bool) : Reader Bool := do
  let c ← peekIn .object
  if c = '\x7d' then return false
  else if first then
    if c = '"' then return true else throw .keyNotString
  else if c = ',' then
    advance
    let c ← peekIn .value
    if c = '"' then return true
    else if c = '\x7d' then throw .trailingComma
    else throw .keyNotString
  else throw .expectedCommaOrBrace

/-- Whether a value is next in an array; a comma comes before every value but the first. -/
def hasElement (first : Bool) : Reader Bool := do
  let c ← peekIn .list
  if c = ']' then return false
  else if first then return true
  else if c = ',' then
    advance
    let c ← peekIn .value
    if c = ']' then throw .trailingComma else return true
  else throw .expectedCommaOrBracket

theorem length_erase_lt {unseen : List Field} {f : Field} (h : f ∈ unseen) :
    (unseen.erase f).length < unseen.length := by
  rw [List.length_erase_of_mem h]
  have := List.length_pos_of_mem h
  omega

/-- The members of an object. A key is looked at before its value is read. -/
def members (first : Bool) (unseen : List Field) (d : Draft) : Reader Draft := do
  if !(← hasKey first) then return d
  let key ← string
  match Field.ofName? key with
  | none => throw (.unknownField key)
  | some f =>
    if h : f ∈ unseen then
      colon
      let d ← values.field d f
      have := length_erase_lt h
      members false (unseen.erase f) d
    else throw (.repeatedField f)
termination_by unseen.length

/-- The values of an array, for the fields in their order. -/
def elements (first : Bool) (d : Draft) : List Field → Reader Draft
  | [] => return d
  | f :: rest => do
    if ← hasElement first then
      let d ← values.field d f
      elements false d rest
    else return d

/-- The end of an array. -/
def endOfArray : Reader Unit := do
  let c ← peekIn .list
  if c = ']' then advance
  else if c = ',' then
    advance
    match ← peek? with
    | some ']' => throw .trailingComma
    | _ => throw .trailingCharacters
  else throw .trailingCharacters

/-- An object or an array of the fields of a configuration. -/
def document : Reader Config := do
  let c ← peekIn .value
  if c = '\x7b' then
    advance
    let d ← members true Field.all {}
    match d.size with
    | none => throw .missingSize
    | some size =>
      advance
      return d.config size
  else if c = '[' then
    advance
    let d ← elements true {} Field.all
    match d.size with
    | none => throw .noElements
    | some size =>
      endOfArray
      return d.config size
  else mismatch .config

/-- The configuration that a text describes. -/
def decode (text : String) : Except Problem Config := do
  let (config, rest) ← document.run text.toList
  if !(rest.dropWhile isBlank).isEmpty then throw .trailingCharacters
  return config

end Reader

/-- What is decoded of a text, validated. -/
def ofTextBy (decode : String → Except Problem Config) (text : String) : Except Problem Config := do
  let config ← decode text
  config.validate
  return config

/-- The configuration that a text describes, validated. -/
def ofText (text : String) : Except Problem Config :=
  ofTextBy Reader.decode text

end MixedRadix.Config
