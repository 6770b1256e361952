import MixedRadix.Expr.Text
import MixedRadix.Proofs.Names
import MixedRadix.Proofs.Reading
import Mathlib.Data.Int.Notation

/-!
# Literals as words

Literals are written as single words, with a minus sign in front of negative ones
(`LawfulScalarText`), and cannot be taken for names (`PlainScalarText`). Doubles are, in every
style: digits around a point, a sign only behind the `e` of an exponent, or one of the words `inf`
and `NaN`.
-/

namespace MixedRadix

namespace Source

/-! ### Words -/

lemma isWord_of_forall {w : List Char} (hw : w ≠ []) (h : ∀ c ∈ w, isDelimiter c = false) :
    IsWord w := by
  refine ⟨hw, ?_⟩
  rintro front c back rfl
  exact .inl (h c (by simp))

lemma IsWord.concat {w : List Char} {c : Char} (hw : IsWord w)
    (hc : isDelimiter c = false ∨ isExponentSign w c = true) : IsWord (w ++ [c]) := by
  refine ⟨by simp, ?_⟩
  intro front d back hsplit
  -- the character is the last one, or it stands in `w`
  rcases List.eq_nil_or_concat back with rfl | ⟨back, e, rfl⟩
  · obtain ⟨rfl, rfl⟩ : w = front ∧ c = d := by simpa using hsplit
    exact hc
  · have hsplit : w ++ [c] = front ++ d :: back ++ [e] := by simpa using hsplit
    exact hw.2 front d back (List.append_inj' hsplit rfl).1

lemma IsWord.append {w v : List Char} (hw : IsWord w) (hv : ∀ c ∈ v, isDelimiter c = false) :
    IsWord (w ++ v) := by
  induction v generalizing w with
  | nil => simpa using hw
  | cons c v ih =>
    have hconcat := hw.concat (.inl (hv c (by simp)))
    simpa using ih hconcat fun d hd => hv d (by simp [hd])

lemma isDelimiter_of_isDigit {c : Char} (h : c.isDigit = true) : isDelimiter c = false := by
  unfold isDelimiter symbolToken?
  split <;> simp_all
  all_goals rintro rfl; simp at h

lemma isDelimiter_of_mem_toDigits {n : ℕ} {c : Char} (h : c ∈ Nat.toDigits 10 n) :
    isDelimiter c = false :=
  isDelimiter_of_isDigit (Nat.isDigit_of_mem_toDigits (by decide) (by decide) h)

lemma bracket_notMem_toDigits (n : ℕ) : '[' ∉ Nat.toDigits 10 n := by
  intro h
  exact absurd (Nat.isDigit_of_mem_toDigits (by decide) (by decide) h) (by decide)

/-- Characters of a number. They name no location. -/
def IsNumeral (w : List Char) : Prop :=
  IsWord w ∧ '[' ∉ w ∧ w.head? ≠ some 't'

end Source

open Source

/-- Literals are written as numbers; a minus sign stands only in front of a negative one. -/
class LawfulScalarText (L : Type) [ScalarText L] : Prop where
  isNumeral_digits (x : L) : IsNumeral (ScalarText.digits x).toList ∨
    ScalarText.isNegative x = true ∧ ∃ w, (ScalarText.digits x).toList = '-' :: w ∧ IsNumeral w

/-! ### Doubles -/

namespace Decimal

/-- Digits and points, a digit first. -/
structure IsMantissa (w : List Char) : Prop where
  head : w.head?.any Char.isDigit = true
  mem : ∀ c ∈ w, c.isDigit = true ∨ c = '.'

namespace IsMantissa

variable {w v : List Char}

lemma ne_nil (h : IsMantissa w) : w ≠ [] := by
  rintro rfl
  cases h.head

lemma isDelimiter (h : IsMantissa w) : ∀ c ∈ w, isDelimiter c = false := by
  intro c hc
  rcases h.mem c hc with hdigit | rfl
  · exact isDelimiter_of_isDigit hdigit
  · rfl

lemma isWord (h : IsMantissa w) : IsWord w :=
  isWord_of_forall h.ne_nil h.isDelimiter

lemma head_append (h : IsMantissa w) (v : List Char) :
    (w ++ v).head?.any Char.isDigit = true := by
  rw [List.head?_append_of_ne_nil _ h.ne_nil]
  exact h.head

lemma append (h : IsMantissa w) (hv : ∀ c ∈ v, c.isDigit = true ∨ c = '.') :
    IsMantissa (w ++ v) :=
  ⟨h.head_append v, fun c hc => (List.mem_append.1 hc).elim (h.mem c) (hv c)⟩

/-- A word that goes on behind a mantissa without a bracket is a number. -/
lemma isNumeral (h : IsMantissa w) (hword : IsWord (w ++ v)) (hv : '[' ∉ v) :
    IsNumeral (w ++ v) := by
  refine ⟨hword, ?_, ?_⟩
  · intro hbracket
    rcases List.mem_append.1 hbracket with hbracket | hbracket
    · simpa using h.mem _ hbracket
    · exact hv hbracket
  · intro ht
    simpa [ht] using h.head_append v

end IsMantissa

lemma isMantissa_of_isDigit {w : List Char} (hw : w ≠ []) (h : ∀ c ∈ w, c.isDigit = true) :
    IsMantissa w := by
  refine ⟨?_, fun c hc => .inl (h c hc)⟩
  obtain ⟨c, w, rfl⟩ := List.exists_cons_of_ne_nil hw
  exact h c (by simp)

lemma isDigit_of_mem_zeros {n : ℕ} {c : Char} (h : c ∈ (zeros n).toList) : c.isDigit = true := by
  have hc : c = '0' := by
    simp only [zeros, String.toList_ofList] at h
    exact List.eq_of_mem_replicate h
  rw [hc]
  rfl

/-- An exponent has at most one sign, in front of its digits. -/
lemma exists_exponent (lead : ℤ) (plus : Bool) : ∃ sign n, sign ∈ [[], ['+'], ['-']] ∧
    ((if plus && decide (0 < lead) then "+" else "") ++ toString lead).toList =
      sign ++ Nat.toDigits 10 n := by
  cases lead with
  | ofNat n =>
    refine ⟨if plus && decide (0 < (n : ℤ)) then ['+'] else [], n, by grind, ?_⟩
    simp [Int.toString_eq_repr, Int.repr]
    split <;> simp
  | negSucc n =>
    refine ⟨['-'], n + 1, by simp, ?_⟩
    simp [Int.toString_eq_repr, Int.repr]

section Digits

variable {digits : List Char} (hne : digits ≠ []) (h : ∀ c ∈ digits, c.isDigit = true)
include hne h

lemma isMantissa_positionalText (lead : ℤ) : IsMantissa (positionalText digits lead).toList := by
  unfold positionalText
  split
  · have hzero : IsMantissa ['0'] := isMantissa_of_isDigit (by simp) (by simp)
    have hrest : ∀ c ∈ '.' :: ((zeros ((-lead).toNat - 1)).toList ++ digits),
        c.isDigit = true ∨ c = '.' := by
      grind [isDigit_of_mem_zeros]
    simpa using hzero.append hrest
  · have hwhole : IsMantissa (digits.take (lead.toNat + 1)) :=
      isMantissa_of_isDigit (by simp [hne]) fun c hc => h c (List.mem_of_mem_take hc)
    have hfraction : ∀ c ∈ (if (digits.drop (lead.toNat + 1)).isEmpty then "0"
        else String.ofList (digits.drop (lead.toNat + 1))).toList, c.isDigit = true := by
      split
      · simp
      · simpa using fun c hc => h c (List.mem_of_mem_drop hc)
    have hrest : ∀ c ∈ (zeros (lead.toNat + 1 - digits.length)).toList ++
        '.' :: (if (digits.drop (lead.toNat + 1)).isEmpty then "0"
          else String.ofList (digits.drop (lead.toNat + 1))).toList,
        c.isDigit = true ∨ c = '.' := by
      grind [isDigit_of_mem_zeros]
    simpa using hwhole.append hrest

/-- The digits in front of the exponent. -/
lemma isMantissa_scientific : IsMantissa
    (digits.take 1 ++ if digits.length ≤ 1 then [] else '.' :: digits.drop 1) := by
  have hfirst : IsMantissa (digits.take 1) :=
    isMantissa_of_isDigit (by simp [hne]) fun c hc => h c (List.mem_of_mem_take hc)
  refine hfirst.append fun c hc => ?_
  split at hc
  · simp at hc
  · rcases List.mem_cons.1 hc with rfl | hc
    · exact .inr rfl
    · exact .inl (h c (List.mem_of_mem_drop hc))

lemma exists_scientificText (lead : ℤ) (plus : Bool) : ∃ m sign n, IsMantissa m ∧
    sign ∈ [[], ['+'], ['-']] ∧
      (scientificText digits lead plus).toList = m ++ 'e' :: (sign ++ Nat.toDigits 10 n) := by
  obtain ⟨sign, n, hsign, hexponent⟩ := exists_exponent lead plus
  refine ⟨_, sign, n, isMantissa_scientific hne h, hsign, ?_⟩
  rw [← hexponent]
  unfold scientificText
  split <;> simp

lemma isNumeral_scientificText (lead : ℤ) (plus : Bool) :
    IsNumeral (scientificText digits lead plus).toList := by
  obtain ⟨m, sign, n, hmantissa, hsign, htext⟩ := exists_scientificText hne h lead plus
  have hsigned : IsWord (m ++ ['e'] ++ sign) := by
    have hword : IsWord (m ++ ['e']) := hmantissa.isWord.concat (.inl rfl)
    -- behind the `e` of a number, a sign goes on with the word
    have hcontinues (c : Char) (hc : c = '+' ∨ c = '-') : isExponentSign (m ++ ['e']) c = true := by
      have hhead := hmantissa.head_append ['e']
      rcases hc with rfl | rfl <;> simpa [isExponentSign] using hhead
    have hcases : sign = [] ∨ sign = ['+'] ∨ sign = ['-'] := by simpa using hsign
    rcases hcases with rfl | rfl | rfl
    · simpa using hword
    · exact hword.concat (.inr (hcontinues '+' (.inl rfl)))
    · exact hword.concat (.inr (hcontinues '-' (.inr rfl)))
  rw [htext]
  refine hmantissa.isNumeral ?_ ?_
  · simpa using hsigned.append fun c hc => isDelimiter_of_mem_toDigits hc
  · grind [bracket_notMem_toDigits n]

end Digits

lemma IsMantissa.isNumeral_self {w : List Char} (h : IsMantissa w) : IsNumeral w := by
  simpa using h.isNumeral (v := []) (by simpa using h.isWord) (by simp)

lemma Style.isNumeral_magnitude (s : Style) (bits : ℕ) : IsNumeral (s.magnitude bits).toList := by
  have hzero : IsMantissa ['0'] := isMantissa_of_isDigit (by simp) (by simp)
  have hdigits (n : ℕ) : ∀ c ∈ Nat.toDigits 10 n, c.isDigit = true := fun c hc =>
    Nat.isDigit_of_mem_toDigits (by decide) (by decide) hc
  unfold magnitude
  dsimp only
  split
  · split
    · exact (hzero.append (v := ['.', '0']) (by simp)).isNumeral_self
    · have hword : IsWord ['0', 'e', '0'] :=
        isWord_of_forall (by simp) (by simp [isDelimiter, symbolToken?])
      exact hzero.isNumeral (v := ['e', '0']) hword (by simp)
  · split
    · split
      · exact (isMantissa_positionalText Nat.toDigits_ne_nil (hdigits _) _).isNumeral_self
      · exact isNumeral_scientificText Nat.toDigits_ne_nil (hdigits _) _ _
    · exact isNumeral_scientificText Nat.toDigits_ne_nil (hdigits _) _ _

/-- A double is written as a number with its sign, or as a word without one. -/
lemma Style.isNumeral_text (s : Style) (x : Float) : IsNumeral (s.text x).toList ∨
    Binary.signField x.toBits.toNat = true ∧ ∃ w, (s.text x).toList = '-' :: w ∧ IsNumeral w := by
  have hletters {w : List Char} (h : w = ['i', 'n', 'f'] ∨ w = ['N', 'a', 'N']) : IsNumeral w := by
    rcases h with rfl | rfl <;>
      exact ⟨isWord_of_forall (by simp) (by simp [isDelimiter, symbolToken?]), by simp, by simp⟩
  have hsigned {magnitude : String} (h : IsNumeral magnitude.toList) (sign : Bool) :
      IsNumeral ((if sign then "-" else "") ++ magnitude).toList ∨
        sign = true ∧ ∃ w, ((if sign then "-" else "") ++ magnitude).toList = '-' :: w ∧
          IsNumeral w := by
    cases sign with
    | true => exact .inr ⟨rfl, magnitude.toList, by simp, h⟩
    | false => exact .inl (by simpa using h)
  unfold text
  dsimp only
  split
  · split
    · exact hsigned (hletters (.inl (by simp))) _
    · exact .inl (hletters (.inr (by simp)))
  · exact hsigned (s.isNumeral_magnitude _) _

end Decimal

instance : LawfulScalarText Float where
  isNumeral_digits := literalStyle.isNumeral_text

/-! ### Characters of literals -/

/-- Letters, digits, points and signs. -/
def isLiteralChar (c : Char) : Bool :=
  c.isAlphanum || ['.', '+', '-'].contains c

/-- Literals are numbers that are written with letters, digits, points and signs only, and no part
of them is a name. -/
class PlainScalarText (L : Type) [ScalarText L] : Prop extends LawfulScalarText L where
  all_digits (x : L) : (ScalarText.digits x).toList.all isLiteralChar = true
  namesIn_digits (x : L) : namesIn (ScalarText.digits x) = []

namespace Decimal

lemma isLiteralChar_of_isDigit {c : Char} (h : c.isDigit = true) : isLiteralChar c = true := by
  simp [isLiteralChar, Char.isAlphanum, h]

lemma all_toDigits (n : ℕ) : (Nat.toDigits 10 n).all isLiteralChar = true := by
  refine List.all_eq_true.2 fun c hc => isLiteralChar_of_isDigit ?_
  exact Nat.isDigit_of_mem_toDigits (by decide) (by decide) hc

lemma IsMantissa.all_isLiteralChar {w : List Char} (h : IsMantissa w) :
    w.all isLiteralChar = true := by
  refine List.all_eq_true.2 fun c hc => ?_
  rcases h.mem c hc with hdigit | rfl
  · exact isLiteralChar_of_isDigit hdigit
  · rfl

lemma all_scientificText {digits : List Char} (hne : digits ≠ [])
    (h : ∀ c ∈ digits, c.isDigit = true) (lead : ℤ) (plus : Bool) :
    (scientificText digits lead plus).toList.all isLiteralChar = true := by
  obtain ⟨m, sign, n, hmantissa, hsign, htext⟩ := exists_scientificText hne h lead plus
  have hall : sign.all isLiteralChar = true := by
    have hcases : sign = [] ∨ sign = ['+'] ∨ sign = ['-'] := by simpa using hsign
    rcases hcases with rfl | rfl | rfl <;> rfl
  have he : isLiteralChar 'e' = true := rfl
  rw [htext, List.all_append, List.all_cons, List.all_append, hmantissa.all_isLiteralChar, hall,
    all_toDigits, he]
  rfl

lemma Style.all_magnitude (s : Style) (bits : ℕ) :
    (s.magnitude bits).toList.all isLiteralChar = true := by
  have hdigits (n : ℕ) : ∀ c ∈ Nat.toDigits 10 n, c.isDigit = true := fun c hc =>
    Nat.isDigit_of_mem_toDigits (by decide) (by decide) hc
  unfold magnitude
  dsimp only
  split
  · split <;> rfl
  · split
    · split
      · exact (isMantissa_positionalText Nat.toDigits_ne_nil (hdigits _) _).all_isLiteralChar
      · exact all_scientificText Nat.toDigits_ne_nil (hdigits _) _ _
    · exact all_scientificText Nat.toDigits_ne_nil (hdigits _) _ _

lemma Style.all_text (s : Style) (x : Float) : (s.text x).toList.all isLiteralChar = true := by
  have hsigned {magnitude : String} (h : magnitude.toList.all isLiteralChar = true) (sign : Bool) :
      ((if sign then "-" else "") ++ magnitude).toList.all isLiteralChar = true := by
    rw [String.toList_append, List.all_append, h]
    cases sign <;> rfl
  unfold text
  dsimp only
  split
  · split
    · exact hsigned rfl _
    · rfl
  · exact hsigned (s.all_magnitude _) _

/-! ### Names in literals -/

lemma IsMantissa.isPunctuation {w : List Char} (h : IsMantissa w) :
    ∀ c ∈ w, isPunctuation c = false := by
  intro c hc
  rcases h.mem c hc with hdigit | rfl
  · exact isPunctuation_of_isNameChar (isNameChar_of_isDigit hdigit)
  · rfl

/-- What goes on behind a mantissa without punctuation is a number. -/
lemma IsMantissa.namesIn_eq {text : String} {w v : List Char} (h : IsMantissa w)
    (htext : text.toList = w ++ v) (hv : ∀ c ∈ v, MixedRadix.isPunctuation c = false) :
    namesIn text = [] := by
  refine namesIn_of_isDigit ?_ ?_
  · rw [htext]
    exact h.head_append v
  · rw [htext]
    exact fun c hc => (List.mem_append.1 hc).elim (h.isPunctuation c) (hv c)

lemma namesIn_scientificText {digits : List Char} (hne : digits ≠ [])
    (h : ∀ c ∈ digits, c.isDigit = true) (lead : ℤ) (plus : Bool) :
    namesIn (scientificText digits lead plus) = [] := by
  obtain ⟨m, sign, n, hmantissa, hsign, htext⟩ := exists_scientificText hne h lead plus
  have hexponent : ∀ c ∈ 'e' :: Nat.toDigits 10 n, isPunctuation c = false := by
    intro c hc
    rcases List.mem_cons.1 hc with rfl | hc
    · rfl
    · exact isPunctuation_of_isNameChar (isNameChar_of_mem_toDigits hc)
  -- a sign cuts the text in two numbers
  have hcut {c : Char} (hc : isPunctuation c = true) (hrun : namesIn (String.singleton c) = [])
      (hsplit : scientificText digits lead plus =
        String.ofList (m ++ ['e']) ++ (String.singleton c ++ toString n)) :
      namesIn (scientificText digits lead plus) = [] := by
    have hfront : namesIn (String.ofList (m ++ ['e'])) = [] :=
      hmantissa.namesIn_eq (v := ['e']) (by simp) (by simp [isPunctuation, isNameChar])
    rw [hsplit, namesIn_append (isApart_append (by simpa using hc) _ _), hfront,
      namesIn_append (.inl (by simpa using hc)), hrun, namesIn_toString]
    rfl
  have hcases : sign = [] ∨ sign = ['+'] ∨ sign = ['-'] := by simpa using hsign
  rcases hcases with rfl | rfl | rfl
  · exact hmantissa.namesIn_eq (by simpa using htext) hexponent
  · refine hcut (c := '+') (by decide) (by decide) ?_
    rw [← String.toList_inj, htext]
    simp
  · refine hcut (c := '-') (by decide) (by decide) ?_
    rw [← String.toList_inj, htext]
    simp

lemma Style.namesIn_magnitude (s : Style) (bits : ℕ) : namesIn (s.magnitude bits) = [] := by
  have hdigits (n : ℕ) : ∀ c ∈ Nat.toDigits 10 n, c.isDigit = true := fun c hc =>
    Nat.isDigit_of_mem_toDigits (by decide) (by decide) hc
  unfold magnitude
  dsimp only
  split
  · split <;> decide
  · split
    · split
      · exact (isMantissa_positionalText Nat.toDigits_ne_nil (hdigits _) _).namesIn_eq (v := [])
          (List.append_nil _).symm (by simp)
      · exact namesIn_scientificText Nat.toDigits_ne_nil (hdigits _) _ _
    · exact namesIn_scientificText Nat.toDigits_ne_nil (hdigits _) _ _

lemma Style.namesIn_text (s : Style) (x : Float) : namesIn (s.text x) = [] := by
  have hsigned {magnitude : String} (h : namesIn magnitude = []) (sign : Bool) :
      namesIn ((if sign then "-" else "") ++ magnitude) = [] := by
    have hsign : namesIn (if sign then "-" else "") = [] := by cases sign <;> decide
    rw [namesIn_append (.inl (by cases sign <;> decide)), h, hsign]
    rfl
  unfold text
  dsimp only
  split
  · split
    · exact hsigned (by decide) _
    · decide
  · exact hsigned (s.namesIn_magnitude _) _

end Decimal

instance : PlainScalarText Float where
  all_digits := literalStyle.all_text
  namesIn_digits := literalStyle.namesIn_text

end MixedRadix
