import Mathlib.Data.List.Basic

/-!
# Lines and words

How source text is taken apart. A text is made of lines (`linesOf`), and a line of pieces that stand
between the characters of a class (`runs`), such as words between blanks and brackets (`words`).
Lines that are written one after the other are read back (`linesOf_join`), and so are the items of a
list (`runs_intercalate`).
-/

namespace MixedRadix

/-! ### Lines -/

@[simp]
lemma toString_text (text : String) : toString text = text :=
  rfl

/-- A text without line breaks. -/
def IsLine (text : String) : Prop :=
  '\n' ∉ text.toList

@[simp]
lemma newline_notMem_toDigits (n : ℕ) : '\n' ∉ Nat.toDigits 10 n := fun h =>
  absurd (Nat.isDigit_of_mem_toDigits (by decide) (by decide) h) (by decide)

lemma IsLine.append {s t : String} (hs : IsLine s) (ht : IsLine t) : IsLine (s ++ t) := by
  simpa [IsLine] using ⟨hs, ht⟩

lemma isLine_intercalate {s : String} (hs : IsLine s) {items : List String}
    (h : ∀ item ∈ items, IsLine item) : IsLine (s.intercalate items) := by
  induction items with
  | nil => simp [IsLine]
  | cons item items ih =>
    have hitem := h item (by simp)
    cases items with
    | nil => simpa using hitem
    | cons item' items =>
      have hrest := ih fun i hi => h i (List.mem_cons_of_mem _ hi)
      rw [String.intercalate_cons_cons]
      exact (hitem.append hs).append hrest

/-- The lines of a text, each of which ends with a line break. -/
def linesOf (text : String) : List String :=
  ((text.toList.splitOn '\n').map String.ofList).dropLast

lemma linesOf_join {lines : List String} (h : ∀ line ∈ lines, IsLine line) :
    linesOf (String.join (lines.map (· ++ "\n"))) = lines := by
  induction lines with
  | nil => simp [linesOf]
  | cons line lines ih =>
    have hline : ∀ c ∈ line.toList, (c == '\n') = false := by
      intro c hc
      simpa using ne_of_mem_of_not_mem hc (h line (by simp))
    have hsplit : (String.join ((line :: lines).map (· ++ "\n"))).toList =
        line.toList ++ '\n' :: (String.join (lines.map (· ++ "\n"))).toList := by
      simp
    have hrest := ih fun l hl => h l (by simp [hl])
    unfold linesOf at hrest ⊢
    rw [hsplit, List.splitOn, List.splitOnP_append_cons _ _ (by simp),
      List.splitOnP_eq_singleton hline, List.map_append, List.dropLast_append_of_ne_nil]
    · simpa [List.splitOn] using hrest
    · simp [List.splitOnP_ne_nil]

/-! ### Runs -/

section Runs

variable {p : Char → Bool}

/-- The pieces of a text between the characters of a class. -/
def runs (p : Char → Bool) (text : String) : List String :=
  ((text.toList.splitOnP p).filter (!·.isEmpty)).map String.ofList

/-- No piece goes on from one text to the next. -/
def IsApart (p : Char → Bool) (s t : String) : Prop :=
  s.toList.getLast?.all p = true ∨ t.toList.head?.all p = true

lemma isApart_append {t : String} (h : t.toList.head?.any p = true) (s u : String) :
    IsApart p s (t ++ u) := by
  obtain ⟨c, hhead, hc⟩ := (Option.any_eq_true _ _).1 h
  obtain ⟨cs, ht⟩ := List.head?_eq_some_iff.1 hhead
  exact .inr (by simp [ht, hc])

lemma runs_append {s t : String} (h : IsApart p s t) : runs p (s ++ t) = runs p s ++ runs p t := by
  unfold runs
  rw [String.toList_append]
  rcases h with h | h
  · rcases List.eq_nil_or_concat s.toList with hs | ⟨front, c, hs⟩
    · simp [hs]
    · have hc : p c = true := by simpa [hs] using h
      simp [hs, List.splitOnP_append_cons _ _ hc]
  · cases ht : t.toList with
    | nil => simp
    | cons c back =>
      have hc : p c = true := by simpa [ht] using h
      have hback := List.splitOnP_append_cons [] back hc
      rw [List.nil_append] at hback
      simp [List.splitOnP_append_cons _ _ hc, hback]

/-- A text that is a single piece. -/
structure IsRun (p : Char → Bool) (text : String) : Prop where
  ne_nil : text.toList ≠ []
  eq_false : ∀ c ∈ text.toList, p c = false

lemma IsRun.runs_eq {text : String} (h : IsRun p text) : runs p text = [text] := by
  simp [runs, List.splitOnP_eq_singleton h.eq_false, h.ne_nil]

lemma IsRun.append {s t : String} (hs : IsRun p s) (ht : IsRun p t) : IsRun p (s ++ t) where
  ne_nil := by simp [hs.ne_nil]
  eq_false c hc := by
    rw [String.toList_append, List.mem_append] at hc
    exact hc.elim (hs.eq_false c) (ht.eq_false c)

/-- The pieces of the items of a list. -/
lemma runs_intercalate (hcomma : p ',' = true) (hblank : p ' ' = true) (items : List String) :
    runs p (", ".intercalate items) = items.flatMap (runs p) := by
  have hseparator : runs p ", " = [] := by
    simp [runs, List.splitOnP_cons_eq_if_modifyHead, hcomma, hblank]
  induction items with
  | nil => rfl
  | cons item items ih =>
    cases items with
    | nil => simp
    | cons item' items =>
      rw [String.intercalate_cons_cons, runs_append (.inl (by simp [hblank])),
        runs_append (.inr (by simp [hcomma])), hseparator, ih, List.append_nil]
      rfl

end Runs

/-! ### Words -/

/-- The characters that stand between words. -/
def separators : List Char :=
  ['\n', ' ', ',', ';', ':', '(', ')', '[', ']', '\x7b', '\x7d']

/-- Whether a character separates words from each other. -/
def isSeparator (c : Char) : Bool :=
  separators.contains c

/-- A class of characters without separators. -/
lemma isSeparator_eq_false {p : Char → Bool} (hp : (separators.all fun c => !p c) = true) {c : Char}
    (hc : p c = true) : isSeparator c = false := by
  by_contra hseparator
  have hmem : c ∈ separators := by simpa [isSeparator] using hseparator
  simpa [hc] using List.all_eq_true.1 hp c hmem

/-- The words of a text. -/
def words (text : String) : List String :=
  runs isSeparator text

lemma words_append {s t : String} (h : IsApart isSeparator s t) :
    words (s ++ t) = words s ++ words t :=
  runs_append h

/-- A text that is a single word. -/
abbrev IsName (text : String) : Prop :=
  IsRun isSeparator text

lemma IsName.words_eq {text : String} (h : IsName text) : words text = [text] :=
  h.runs_eq

lemma IsName.isLine {text : String} (h : IsName text) : IsLine text := fun hmem =>
  absurd (h.eq_false _ hmem) (by decide)

lemma isName_toString (n : ℕ) : IsName (toString n) where
  ne_nil := by simp [Nat.toDigits_ne_nil]
  eq_false c hc := by
    have hmem : c ∈ Nat.toDigits 10 n := by simpa using hc
    have hdigit := Nat.isDigit_of_mem_toDigits (by decide) (by decide) hmem
    exact isSeparator_eq_false (p := Char.isDigit) (by decide) hdigit

/-- A text that starts with no separator starts with a word. -/
lemma exists_head?_words {text : String} {c : Char} {cs : List Char} (htext : text.toList = c :: cs)
    (hc : isSeparator c = false) : ∃ w, (words text).head? = some (String.ofList (c :: w)) := by
  obtain ⟨w, ws, hsplit⟩ := List.exists_cons_of_ne_nil (List.splitOnP_ne_nil isSeparator cs)
  exact ⟨w, by simp [words, runs, htext, List.splitOnP_cons_eq_if_modifyHead, hc, hsplit]⟩

/-- Names in a list. -/
lemma words_intercalate {items : List String} (h : ∀ item ∈ items, IsName item) :
    words (", ".intercalate items) = items := by
  have hitems : items.flatMap (runs isSeparator) = items.flatMap fun item => [item] :=
    List.flatMap_congr fun item hitem => (h item hitem).runs_eq
  rw [words, runs_intercalate rfl rfl, hitems, List.flatMap_singleton']

end MixedRadix
