import MixedRadix.Text.Printable

/-!
# Quoted text

Two ways of putting a text between double quotes: in messages, where every character that does not
print is written by its number, and in documents, where only controls are.
-/

namespace MixedRadix.Text

/-- A number in hexadecimal, padded with zeros to a least width. -/
def hex (width n : Nat) : String :=
  let digits := Nat.toDigits 16 n
  String.ofList (List.replicate (width - digits.length) '0' ++ digits)

/-- A character of a text that is quoted in a message. -/
def messageChar (c : Char) : String :=
  if c = '\x00' then "\\0"
  else if c = '\t' then "\\t"
  else if c = '\r' then "\\r"
  else if c = '\n' then "\\n"
  else if c = '\\' then "\\\\"
  else if c = '"' then "\\\""
  else if isPrintable c then String.singleton c
  else "\\u\x7b" ++ hex 1 c.toNat ++ "\x7d"

/-- A text quoted in a message. -/
def inMessage (s : String) : String :=
  "\"" ++ String.join (s.toList.map messageChar) ++ "\""

/-- A character of a text that is quoted in a document. -/
def documentChar (c : Char) : String :=
  if c = '"' then "\\\""
  else if c = '\\' then "\\\\"
  else if c = '\x08' then "\\b"
  else if c = '\x0c' then "\\f"
  else if c = '\n' then "\\n"
  else if c = '\r' then "\\r"
  else if c = '\t' then "\\t"
  else if c.toNat < 0x20 then "\\u" ++ hex 4 c.toNat
  else String.singleton c

/-- A text quoted in a document. -/
def inDocument (s : String) : String :=
  "\"" ++ String.join (s.toList.map documentChar) ++ "\""

end MixedRadix.Text
