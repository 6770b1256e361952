import MixedRadix.Decimal.Shortest

/-!
# Decimal text

How a double is written: which digits it gets is fixed by `Binary.shortest`; a `Style` decides
between positional and scientific notation and how an exponent is signed.
-/

namespace MixedRadix.Decimal

/-- A way of writing doubles with their shortest digits. -/
structure Style where
  /-- A number whose leading digit stands at `10 ^ e` is written positionally, with at least one
  digit behind the point, if `fst ≤ e < snd`; `none` is always scientific. -/
  positional : Option (Int × Int)
  /-- Whether a positive exponent carries a plus sign. -/
  plus : Bool
  /-- Which of two equally near digit strings is taken. -/
  tie : Tie

/-- `n` zeros. -/
def zeros (n : Nat) : String :=
  String.ofList (List.replicate n '0')

/-- The digits written out around the decimal point, for a leading digit at `10 ^ lead`. -/
def positionalText (digits : List Char) (lead : Int) : String :=
  if lead < 0 then
    "0." ++ zeros ((-lead).toNat - 1) ++ String.ofList digits
  else
    let whole := lead.toNat + 1
    let fraction := digits.drop whole
    String.ofList (digits.take whole) ++ zeros (whole - digits.length) ++ "." ++
      (if fraction.isEmpty then "0" else String.ofList fraction)

/-- One digit, the others behind a point, and the exponent. -/
def scientificText (digits : List Char) (lead : Int) (plus : Bool) : String :=
  String.ofList (digits.take 1) ++
    (if digits.length ≤ 1 then "" else "." ++ String.ofList (digits.drop 1)) ++
    "e" ++ (if plus && decide (0 < lead) then "+" else "") ++ toString lead

namespace Style

/-- The text of the absolute value of a finite double, given by its bits. -/
def magnitude (s : Style) (bits : Nat) : String :=
  let x := Binary.ofBits bits
  if x.mantissa = 0 then
    match s.positional with
    | some _ => "0.0"
    | none => "0e0"
  else
    let d := x.shortest s.tie
    let digits := Nat.toDigits 10 d.digits
    let lead := d.exponent + Int.ofNat digits.length - 1
    match s.positional with
    | some (least, bound) =>
      if least ≤ lead ∧ lead < bound then positionalText digits lead
      else scientificText digits lead s.plus
    | none => scientificText digits lead s.plus

/-- The text of a double. A NaN has no sign. -/
def text (s : Style) (x : Float) : String :=
  let bits := x.toBits.toNat
  let sign := if Binary.signField bits then "-" else ""
  if Binary.exponentField bits = 2047 then
    if Binary.fractionField bits = 0 then sign ++ "inf" else "NaN"
  else sign ++ s.magnitude bits

end Style

end MixedRadix.Decimal
