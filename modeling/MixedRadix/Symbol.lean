/-!
# Symbols

A symbol names a scalar location of a kernel: a recyclable temporary, a sample of a real kernel's
input or output, or one part of a complex slot that is transformed in place.
-/

namespace MixedRadix

/-- A scalar location. -/
inductive Symbol where
  /-- A recyclable temporary. -/
  | temp (id : Nat)
  /-- An input sample of a real kernel. -/
  | input (slot : Nat)
  /-- An output sample of a real kernel. -/
  | output (slot : Nat)
  /-- The real part of a complex slot. -/
  | real (slot : Nat)
  /-- The imaginary part of a complex slot. -/
  | imag (slot : Nat)
  deriving DecidableEq, Repr

/-- The arrays in which a kernel's slots live. -/
structure SlotNames where
  input : String
  output : String
  real : String
  imag : String
  deriving DecidableEq, Repr

namespace SlotNames

/-- Arrays of a forward cosine transform. -/
def cosineForward : SlotNames := ⟨"dct_in", "dct_out", "re", "im"⟩

/-- Arrays of an inverse cosine transform. -/
def cosineInverse : SlotNames := ⟨"idct_in", "idct_out", "re", "im"⟩

/-- Arrays of a Fourier transform. -/
def fourier : SlotNames := ⟨"x_in", "x_out", "re", "im"⟩

end SlotNames

namespace Symbol

/-- The number of a temporary. -/
def tempId? : Symbol → Option Nat
  | temp id => some id
  | _ => none

/-- Whether the symbol is a temporary. -/
def isTemp (s : Symbol) : Bool :=
  s.tempId?.isSome

/-- A number of its own for every symbol, by which symbols are ordered in tables. -/
def code : Symbol → Nat
  | temp id => 5 * id
  | input i => 5 * i + 1
  | output i => 5 * i + 2
  | real i => 5 * i + 3
  | imag i => 5 * i + 4

@[simp] theorem code_inj {s t : Symbol} : s.code = t.code ↔ s = t := by
  cases s <;> cases t <;> simp [code] <;> omega

/-- The symbol in source text. -/
def text (names : SlotNames) : Symbol → String
  | temp id => s!"t{id}"
  | input i => s!"{names.input}[{i}]"
  | output i => s!"{names.output}[{i}]"
  | real i => s!"{names.real}[{i}]"
  | imag i => s!"{names.imag}[{i}]"

/-- The symbol in messages, where no arrays are named. -/
def description : Symbol → String
  | temp id => s!"Temp({id})"
  | input i => s!"Input({i})"
  | output i => s!"Output({i})"
  | real i => s!"Real({i})"
  | imag i => s!"Imag({i})"

end Symbol

/-- A complex value held in two scalar locations. -/
structure ComplexSymbol where
  re : Symbol
  im : Symbol
  deriving DecidableEq, Repr

namespace ComplexSymbol

/-- The complex slot at an address. -/
def slot (address : Nat) : ComplexSymbol :=
  ⟨.real address, .imag address⟩

end ComplexSymbol

end MixedRadix
