import MixedRadix.Proofs.Lines
import Mathlib.Data.List.TakeWhile

/-!
# Names

Which names stand in a piece of code (`namesIn`): code is cut at its punctuation, what follows a
point is a member of what stands before it, and what starts with a digit is a number. An identifier
is read as itself (`IsIdentifier.namesIn_eq`), and numbers are no names (`namesIn_of_isDigit`).
-/

namespace MixedRadix

/-! ### Reading -/

/-- Letters and underscores, with which names start. -/
def isLetter (c : Char) : Bool :=
  c.isAlpha || c == '_'

/-- Letters, digits and underscores, of which names are made. -/
def isNameChar (c : Char) : Bool :=
  c.isAlphanum || c == '_'

/-- All other characters, but for the points that stand in numbers and in front of members. -/
def isPunctuation (c : Char) : Bool :=
  !(isNameChar c || c == '.')

/-- The name in front of the first point. -/
def name? (path : String) : Option String :=
  let first := path.toList.takeWhile (· != '.')
  if first.head?.any isLetter then some (String.ofList first) else none

/-- The words of the language, and the numbers that are written in letters. -/
def reserved : List String :=
  ["let", "mut", "f64", "inf", "NaN"]

/-- The names in a text, in order. -/
def namesIn (text : String) : List String :=
  ((runs isPunctuation text).filterMap name?).filter (· ∉ reserved)

lemma namesIn_append {s t : String} (h : IsApart isPunctuation s t) :
    namesIn (s ++ t) = namesIn s ++ namesIn t := by
  rw [namesIn, runs_append h, List.filterMap_append, List.filter_append]
  rfl

/-- The names in the items of a list. -/
lemma namesIn_intercalate (items : List String) :
    namesIn (", ".intercalate items) = items.flatMap namesIn := by
  rw [namesIn, runs_intercalate rfl rfl, List.filterMap_flatMap, List.filter_flatMap]
  rfl

/-! ### Numbers -/

/-- A piece that starts with no letter is no name. -/
lemma namesIn_of_head {text : String} (hhead : text.toList.head?.any isLetter = false)
    (h : ∀ c ∈ text.toList, isPunctuation c = false) : namesIn text = [] := by
  cases htext : text.toList with
  | nil => simp [namesIn, runs, htext, List.splitOnP_nil]
  | cons c cs =>
    have hletter : isLetter c = false := by simpa [htext] using hhead
    have hnone : name? text = none := by
      by_cases hpoint : c = '.' <;> simp [name?, htext, hpoint, hletter]
    rw [namesIn, IsRun.runs_eq ⟨by simp [htext], h⟩, List.filterMap_cons_none hnone]
    rfl

/-- What starts with a digit is no name. -/
lemma namesIn_of_isDigit {text : String} (hfirst : text.toList.head?.any Char.isDigit = true)
    (h : ∀ c ∈ text.toList, isPunctuation c = false) : namesIn text = [] := by
  obtain ⟨c, hhead, hc⟩ := (Option.any_eq_true _ _).1 hfirst
  have hunderscore : c ≠ '_' := by
    rintro rfl
    cases hc
  -- digits come before letters
  have hle : c.val ≤ '9'.val := of_decide_eq_true ((Bool.and_eq_true_iff.1 hc).2)
  have hbefore {letter : Char} (h : '9'.val < letter.val) : ¬ letter.val ≤ c.val :=
    fun hge => absurd (UInt32.le_trans hge hle) (UInt32.not_le.2 h)
  have halpha : c.isAlpha = false := Bool.or_eq_false_iff.2
    ⟨decide_eq_false fun h => hbefore (by decide) h.1,
      Bool.and_eq_false_iff.2 (.inl (decide_eq_false (hbefore (by decide))))⟩
  refine namesIn_of_head ?_ h
  simp [hhead, isLetter, halpha, hunderscore]

lemma isNameChar_of_isDigit {c : Char} (h : c.isDigit = true) : isNameChar c = true := by
  simp [isNameChar, Char.isAlphanum, h]

lemma isNameChar_of_mem_toDigits {n : ℕ} {c : Char} (h : c ∈ Nat.toDigits 10 n) :
    isNameChar c = true :=
  isNameChar_of_isDigit (Nat.isDigit_of_mem_toDigits (by decide) (by decide) h)

lemma isNameChar_of_mem_toString {n : ℕ} : ∀ c ∈ (toString n).toList, isNameChar c = true := by
  simpa using fun c => isNameChar_of_mem_toDigits

lemma isPunctuation_of_isNameChar {c : Char} (h : isNameChar c = true) :
    isPunctuation c = false := by
  simp [isPunctuation, h]

lemma namesIn_toString (n : ℕ) : namesIn (toString n) = [] := by
  obtain ⟨c, cs, hcs⟩ := List.exists_cons_of_ne_nil (Nat.toDigits_ne_nil (n := n) (b := 10))
  have hdigit : c.isDigit = true :=
    Nat.isDigit_of_mem_toDigits (by decide) (by decide) (hcs ▸ List.mem_cons_self)
  refine namesIn_of_isDigit (by simp [hcs, hdigit]) fun c hc => ?_
  exact isPunctuation_of_isNameChar (isNameChar_of_mem_toString c hc)

/-! ### Identifiers -/

/-- A letter with letters and digits behind it. -/
structure IsIdentifier (text : String) : Prop where
  head : text.toList.head?.any isLetter = true
  mem : ∀ c ∈ text.toList, isNameChar c = true
  notMem_reserved : text ∉ reserved

/-- Whether whatever starts with the text is no reserved word, and an identifier if only letters and
digits follow. -/
def startsIdentifier (front : String) : Bool :=
  front.toList.head?.any isLetter && front.toList.all isNameChar &&
    reserved.all fun word => !front.toList.isPrefixOf word.toList

lemma isIdentifier_append {front back : String} (h : startsIdentifier front = true)
    (hback : ∀ c ∈ back.toList, isNameChar c = true) : IsIdentifier (front ++ back) := by
  obtain ⟨⟨hhead, hmem⟩, hfree⟩ : (front.toList.head?.any isLetter = true ∧
      ∀ c ∈ front.toList, isNameChar c = true) ∧
      ∀ word ∈ reserved, front.toList.isPrefixOf word.toList = false := by
    simpa [startsIdentifier] using h
  have hne : front.toList ≠ [] := by
    intro hnil
    simp [hnil] at hhead
  refine ⟨?_, fun c hc => ?_, fun hmem => ?_⟩
  · rw [String.toList_append, List.head?_append_of_ne_nil _ hne]
    exact hhead
  · rw [String.toList_append, List.mem_append] at hc
    exact hc.elim (hmem c) (hback c)
  · have hprefix : front.toList.isPrefixOf (front ++ back).toList = true := by simp
    rw [hfree _ hmem] at hprefix
    cases hprefix

lemma isIdentifier_of_startsIdentifier {text : String} (h : startsIdentifier text = true) :
    IsIdentifier text := by
  have happend : IsIdentifier (text ++ "") := isIdentifier_append h (by simp)
  simpa using happend

namespace IsIdentifier

variable {text : String}

lemma isRun (h : IsIdentifier text) : IsRun isPunctuation text where
  ne_nil hnil := by simpa [hnil] using h.head
  eq_false c hc := isPunctuation_of_isNameChar (h.mem c hc)

lemma isName (h : IsIdentifier text) : IsName text where
  ne_nil := h.isRun.ne_nil
  eq_false c hc := isSeparator_eq_false (p := isNameChar) (by decide) (h.mem c hc)

lemma namesIn_eq (h : IsIdentifier text) : namesIn text = [text] := by
  have hpoint : ∀ c ∈ text.toList, (c != '.') = true := by
    intro c hc
    have hchar := h.mem c hc
    simp only [bne_iff_ne, ne_eq]
    rintro rfl
    exact absurd hchar (by decide)
  have hname : name? text = some text := by
    rw [name?, List.takeWhile_eq_self_iff.2 hpoint]
    simp [h.head]
  rw [namesIn, h.isRun.runs_eq, List.filterMap_cons_some hname]
  simp [h.notMem_reserved]

end IsIdentifier

end MixedRadix
