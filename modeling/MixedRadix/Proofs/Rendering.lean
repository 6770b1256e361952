import MixedRadix.Proofs.Literals

/-!
# Rendered expressions

How the text of an expression is read (`Expr.read?_text`). A product never stands in parentheses, so
one on the right of another is read as further factors of a chain, and a sign in front of a product
as the sign of its first factor. The second changes nothing in an arithmetic with
`-(a * b) = -a * b`; the first groups the factors anew. A text therefore computes its expression in
every such arithmetic exactly if no product stands on the right of another
(`Expr.text_computes_iff`).
-/

namespace MixedRadix

variable {R L : Type}

namespace Expr

/-- The expression with other literals. -/
def map {L' : Type} (f : L → L') : Expr L → Expr L'
  | sym s => sym s
  | lit x => lit (f x)
  | neg a => neg (a.map f)
  | add a b => add (a.map f) (b.map f)
  | sub a b => sub (a.map f) (b.map f)
  | mul a b => mul (a.map f) (b.map f)

/-- Whether the expression is a product. -/
def isProduct : Expr L → Bool
  | mul _ _ => true
  | _ => false

/-- Whether some product has a product on its right. -/
def hasRightProduct : Expr L → Bool
  | sym _ | lit _ => false
  | neg a => a.hasRightProduct
  | add a b | sub a b => a.hasRightProduct || b.hasRightProduct
  | mul a b => a.hasRightProduct || b.hasRightProduct || b.isProduct

/-- Whether the expression is a literal. -/
def isLiteral : Expr L → Bool
  | lit _ => true
  | _ => false

/-- Whether no sign stands in front of a literal or a product, and no product on the right of
another one. -/
def isPlain : Expr L → Bool
  | sym _ | lit _ => true
  | neg a => a.isPlain && !a.isLiteral && !a.isProduct
  | add a b | sub a b => a.isPlain && b.isPlain
  | mul a b => a.isPlain && b.isPlain && !b.isProduct

end Expr

namespace Source

/-! ### Values -/

/-- The value of a tree for a reading of its words. -/
def eval [Scalar R] (value : String → R) : Source → R
  | word text => value text
  | paren a => a.eval value
  | neg a => -a.eval value
  | add a b => a.eval value + b.eval value
  | sub a b => a.eval value - b.eval value
  | mul a b => a.eval value * b.eval value

/-- The tree has the value of the expression in every arithmetic in which a sign can be moved from a
product to its first factor, if symbols and literals are read as they are written. -/
def Computes [ScalarText L] (t : Source) (names : SlotNames) (e : Expr L) : Prop :=
  ∀ (R : Type) [Scalar R], (∀ a b : R, -(a * b) = -a * b) →
    ∀ (value : String → R) (literal : L → R) (read : Symbol → R),
      (∀ s : Symbol, value (s.text names) = read s) →
      (∀ x, ∃ u, read? (tokenize (literalText x)) = some u ∧ u.eval value = literal x) →
      t.eval value = (e.map literal).eval read

/-! ### Trees of texts -/

/-- A tree in parentheses where they are needed. -/
def parenIf (needed : Bool) (t : Source) : Source :=
  if needed then paren t else t

/-- What a sign in front of a tree makes of it. -/
def negated : Source → Source
  | mul a b => mul a.negated b
  | t => neg t

/-- What a product of two trees is read as. -/
def times (a : Source) : Source → Source
  | mul b c => mul (a.times b) c
  | b => mul a b

/-- A number with its sign. -/
def ofDigits (digits : String) : Source :=
  match digits.toList with
  | '-' :: w => neg (word (String.ofList w))
  | _ => word digits

@[simp]
lemma tokens_negated (t : Source) : t.negated.tokens = .minus :: t.tokens := by
  induction t with
  | mul a b iha => simp [negated, tokens, iha]
  | word | paren | neg | add | sub => rfl

@[simp]
lemma tokens_times (t u : Source) : (t.times u).tokens = t.tokens ++ .times :: u.tokens := by
  induction u with
  | mul a b iha => simp [times, tokens, iha]
  | word | paren | neg | add | sub => rfl

lemma rank_negated {t : Source} (h : 1 ≤ t.rank) : t.negated.rank = t.rank := by
  cases t <;> simp_all [negated, rank]

lemma rank_times (t u : Source) : (t.times u).rank = 1 := by
  cases u <;> rfl

lemma times_of_rank (t : Source) {u : Source} (h : 2 ≤ u.rank) : t.times u = mul t u := by
  cases u <;> simp_all [times, rank]

lemma negated_of_rank {t : Source} (h : 2 ≤ t.rank) : t.negated = neg t := by
  cases t <;> simp_all [negated, rank]

lemma IsGrammatical.negated {t : Source} (h : t.IsGrammatical) (hrank : 1 ≤ t.rank) :
    t.negated.IsGrammatical := by
  induction t with
  | mul a b iha =>
    obtain ⟨ha, hrank', hb⟩ := h
    exact ⟨iha ha hrank', (rank_negated hrank').symm ▸ hrank', hb⟩
  | word | paren | neg => exact ⟨h, Nat.le_refl 2⟩
  | add | sub => simp [rank] at hrank

lemma IsGrammatical.times {t u : Source} (ht : t.IsGrammatical) (hrank : 1 ≤ t.rank)
    (hu : u.IsGrammatical) (hrank' : 1 ≤ u.rank) : (t.times u).IsGrammatical := by
  induction u with
  | mul a b iha =>
    obtain ⟨ha, hranka, hb⟩ := hu
    exact ⟨iha ha hranka, Nat.le_of_eq (rank_times t a).symm, hb⟩
  | word | paren | neg => exact ⟨ht, hrank, hu, Nat.le_refl 2⟩
  | add | sub => simp [rank] at hrank'

lemma rank_ofDigits (digits : String) : (ofDigits digits).rank = 2 := by
  unfold ofDigits
  split <;> rfl

lemma isGrammatical_ofDigits (digits : String) : (ofDigits digits).IsGrammatical := by
  unfold ofDigits
  split
  · exact ⟨trivial, Nat.le_refl 2⟩
  · trivial

lemma isGrammatical_parenIf {t : Source} (h : t.IsGrammatical) (needed : Bool) :
    (parenIf needed t).IsGrammatical := by
  cases needed <;> exact h

/-! ### Characters of texts -/

/-- The text is read as the tokens of the tree, whatever follows it. -/
def Writes (text : String) (t : Source) : Prop :=
  ∀ rest, Stops rest → scan [] (text.toList ++ rest) = t.tokens ++ scan [] rest

lemma scan_symbol {c : Char} {token : Token} (h : symbolToken? c = some token) (cs : List Char) :
    scan [] (c :: cs) = token :: scan [] cs := by
  simp [scan, isDelimiter, isExponentSign, h]

@[simp]
lemma scan_blank (cs : List Char) : scan [] (' ' :: cs) = scan [] cs := by
  simp [scan, isDelimiter, isExponentSign, symbolToken?]

lemma writes_word {text : String} (h : IsWord text.toList) : Writes text (word text) := by
  intro rest hrest
  rw [scan_word_append h hrest, String.ofList_toList]
  rfl

lemma Writes.parenthesizedIf {text : String} {t : Source} (h : Writes text t) (needed : Bool) :
    Writes (parenthesizedIf needed text) (parenIf needed t) := by
  cases needed with
  | false => exact h
  | true =>
    intro rest hrest
    have hinner := h (')' :: rest) (by simp [Stops])
    simp [MixedRadix.parenthesizedIf, parenthesized, parenIf, tokens, hinner,
      scan_symbol (c := '(') rfl, scan_symbol (c := ')') rfl]

lemma Writes.neg {text : String} {t : Source} (h : Writes text t) :
    Writes ("-" ++ text) t.negated := by
  intro rest hrest
  simp [scan_symbol (c := '-') rfl, h rest hrest]

lemma Writes.add {text text' : String} {t u : Source} (h : Writes text t) (h' : Writes text' u) :
    Writes (text ++ " + " ++ text') (add t u) := by
  intro rest hrest
  have hleft := h (' ' :: '+' :: ' ' :: (text'.toList ++ rest)) (by simp [Stops])
  simp [hleft, scan_symbol (c := '+') rfl, h' rest hrest, tokens]

lemma Writes.sub {text text' : String} {t u : Source} (h : Writes text t) (h' : Writes text' u) :
    Writes (text ++ " - " ++ text') (sub t u) := by
  intro rest hrest
  have hleft := h (' ' :: '-' :: ' ' :: (text'.toList ++ rest)) (by simp [Stops])
  simp [hleft, scan_symbol (c := '-') rfl, h' rest hrest, tokens]

lemma Writes.times {text text' : String} {t u : Source} (h : Writes text t) (h' : Writes text' u) :
    Writes (text ++ " * " ++ text') (t.times u) := by
  intro rest hrest
  have hleft := h (' ' :: '*' :: ' ' :: (text'.toList ++ rest)) (by simp [Stops])
  simp [hleft, scan_symbol (c := '*') rfl, h' rest hrest]

lemma Writes.read?_tokenize {text : String} {t : Source} (h : Writes text t)
    (ht : t.IsGrammatical) : read? (tokenize text) = some t := by
  have hscan := h [] (by simp [Stops])
  rw [List.append_nil] at hscan
  rw [tokenize, hscan]
  simpa using ht.read?_tokens

lemma ofDigits_of_isWord {digits : String} (h : IsWord digits.toList) :
    ofDigits digits = word digits := by
  unfold ofDigits
  split
  case h_1 w hw =>
    -- a minus sign cannot start a word
    have hsign := h.2 [] '-' w hw
    simp [isDelimiter, symbolToken?, isExponentSign] at hsign
  case h_2 => rfl

lemma ofDigits_of_minus {digits : String} {w : List Char} (h : digits.toList = '-' :: w) :
    ofDigits digits = neg (word (String.ofList w)) := by
  simp [ofDigits, h]

end Source

/-! ### Names -/

/-- No array has a name with blanks, operators or parentheses. -/
def SlotNames.AreWords (names : SlotNames) : Prop :=
  ∀ name ∈ [names.input, names.output, names.real, names.imag],
    ∀ c ∈ name.toList, Source.isDelimiter c = false

open Source

namespace Symbol

lemma toList_temp (id : ℕ) : s!"t{id}".toList = 't' :: Nat.toDigits 10 id := by
  change ("t" ++ toString id).toList = _
  simp

lemma toList_element (name : String) (i : ℕ) :
    s!"{name}[{i}]".toList = name.toList ++ '[' :: (Nat.toDigits 10 i ++ [']']) := by
  change ("" ++ name ++ "[" ++ toString i ++ "]").toList = _
  simp

lemma isWord_text {names : SlotNames} (hnames : names.AreWords) (s : Symbol) :
    IsWord (s.text names).toList := by
  have helement {name : String}
      (hname : name ∈ [names.input, names.output, names.real, names.imag]) (n : ℕ) :
      IsWord s!"{name}[{n}]".toList := by
    rw [toList_element]
    refine isWord_of_forall (by simp) fun c hc => ?_
    have hc : c ∈ name.toList ∨ c = '[' ∨ c ∈ Nat.toDigits 10 n ∨ c = ']' := by simpa using hc
    rcases hc with hc | rfl | hc | rfl
    · exact hnames name hname c hc
    · rfl
    · exact isDelimiter_of_mem_toDigits hc
    · rfl
  cases s with
  | temp id =>
    rw [text, toList_temp]
    refine isWord_of_forall (by simp) fun c hc => ?_
    rcases List.mem_cons.1 hc with rfl | hc
    · rfl
    · exact isDelimiter_of_mem_toDigits hc
  | input i | output i | real i | imag i => exact helement (by simp) i

end Symbol

/-! ### Expressions -/

namespace Expr

variable [ScalarText L] {names : SlotNames}

/-- What the text of the expression is read as. -/
def source (names : SlotNames) : Expr L → Source
  | sym s => .word (s.text names)
  | lit x => parenIf (ScalarText.isNegative x) (ofDigits (ScalarText.digits x))
  | neg a => (parenIf a.wrapsOnRight (a.source names)).negated
  | add a b => .add (a.source names) (parenIf b.wrapsOnRight (b.source names))
  | sub a b => .sub (a.source names) (parenIf b.wrapsOnRight (b.source names))
  | mul a b => (parenIf a.isSum (a.source names)).times (parenIf b.wrapsOnRight (b.source names))

/-- Only sums bind less tightly than products. -/
lemma rank_source {e : Expr L} (h : e.isSum = false) : 1 ≤ (e.source names).rank := by
  induction e with
  | sym s => simp [source, rank]
  | lit x =>
    cases hx : ScalarText.isNegative x with
    | true => simp [source, parenIf, hx, rank]
    | false => simp [source, parenIf, hx, rank_ofDigits]
  | neg a iha =>
    cases hwraps : a.wrapsOnRight with
    | true => simp [source, parenIf, hwraps, negated, rank]
    | false =>
      have ha := iha (by simp_all [wrapsOnRight])
      simpa [source, parenIf, hwraps, rank_negated ha] using ha
  | add a b | sub a b => simp [isSum] at h
  | mul a b => simp [source, rank_times]

lemma rank_operand {e : Expr L} {needed : Bool} (h : e.isSum = true → needed = true) :
    1 ≤ (parenIf needed (e.source names)).rank := by
  cases hneeded : needed with
  | true => simp [parenIf, rank]
  | false => exact rank_source (by grind)

lemma isGrammatical_source (names : SlotNames) (e : Expr L) : (e.source names).IsGrammatical := by
  have hright (b : Expr L) : 1 ≤ (parenIf b.wrapsOnRight (b.source names)).rank :=
    rank_operand (by simp +contextual [wrapsOnRight])
  induction e with
  | sym s => trivial
  | lit x => exact isGrammatical_parenIf (isGrammatical_ofDigits _) _
  | neg a iha => exact (isGrammatical_parenIf iha _).negated (hright a)
  | add a b iha ihb | sub a b iha ihb => exact ⟨iha, isGrammatical_parenIf ihb _, hright b⟩
  | mul a b iha ihb =>
    exact (isGrammatical_parenIf iha _).times (rank_operand id) (isGrammatical_parenIf ihb _)
      (hright b)

variable [LawfulScalarText L]

lemma writes_literalText (x : L) :
    Writes (literalText x)
      (parenIf (ScalarText.isNegative x) (ofDigits (ScalarText.digits x))) := by
  refine Writes.parenthesizedIf ?_ _
  rcases LawfulScalarText.isNumeral_digits x with h | ⟨-, w, hw, h⟩
  · rw [ofDigits_of_isWord h.1]
    exact writes_word h.1
  · have hdigits : ScalarText.digits x = "-" ++ String.ofList w := by
      rw [← String.toList_inj, hw]
      simp
    have hword : IsWord (String.ofList w).toList := by simpa using h.1
    rw [ofDigits_of_minus hw, hdigits]
    exact (writes_word hword).neg

lemma writes_text (hnames : names.AreWords) (e : Expr L) :
    Writes (e.text names) (e.source names) := by
  induction e with
  | sym s => exact writes_word (s.isWord_text hnames)
  | lit x => exact writes_literalText x
  | neg a iha => exact (iha.parenthesizedIf _).neg
  | add a b iha ihb => exact iha.add (ihb.parenthesizedIf _)
  | sub a b iha ihb => exact iha.sub (ihb.parenthesizedIf _)
  | mul a b iha ihb => exact (iha.parenthesizedIf _).times (ihb.parenthesizedIf _)

lemma read?_text (hnames : names.AreWords) (e : Expr L) :
    read? (tokenize (e.text names)) = some (e.source names) :=
  (writes_text hnames e).read?_tokenize (isGrammatical_source names e)

lemma read?_literalText (names : SlotNames) (x : L) :
    read? (tokenize (literalText x)) = some ((lit x : Expr L).source names) :=
  (writes_literalText x).read?_tokenize (isGrammatical_source names (lit x))

end Expr

/-! ### What a text computes -/

section Values

variable [Scalar R] {value : String → R}

@[simp]
lemma Source.eval_parenIf (needed : Bool) (t : Source) :
    (parenIf needed t).eval value = t.eval value := by
  cases needed <;> rfl

lemma Source.eval_negated (hneg : ∀ a b : R, -(a * b) = -a * b) (t : Source) :
    t.negated.eval value = -t.eval value := by
  induction t with
  | mul a b iha => simp only [negated, eval, iha, hneg]
  | word | paren | neg | add | sub => rfl

namespace Expr

variable [ScalarText L] {names : SlotNames}

/-- An operand on the right that is no product is a single factor. -/
lemma rank_factor {e : Expr L} (h : e.isProduct = false) :
    2 ≤ (parenIf e.wrapsOnRight (e.source names)).rank := by
  cases e with
  | sym | neg | add | sub => simp [wrapsOnRight, isSum, isNeg, parenIf, source, rank]
  | lit x =>
    cases hx : ScalarText.isNegative x with
    | true => simp [wrapsOnRight, isSum, isNeg, parenIf, source, hx, rank]
    | false => simp [wrapsOnRight, isSum, isNeg, parenIf, source, hx, rank_ofDigits]
  | mul => simp [isProduct] at h

lemma eval_source (hneg : ∀ a b : R, -(a * b) = -a * b) {literal : L → R} {read : Symbol → R}
    (hread : ∀ s : Symbol, value (s.text names) = read s)
    (hliteral : ∀ x, ((lit x : Expr L).source names).eval value = literal x) {e : Expr L}
    (h : e.hasRightProduct = false) :
    (e.source names).eval value = (e.map literal).eval read := by
  induction e with
  | sym s => exact hread s
  | lit x => exact hliteral x
  | neg a iha => simp only [source, eval_negated hneg, eval_parenIf, iha h, map, eval]
  | add a b iha ihb | sub a b iha ihb =>
    simp only [hasRightProduct, Bool.or_eq_false_iff] at h
    simp only [source, Source.eval, eval_parenIf, iha h.1, ihb h.2, map, eval]
  | mul a b iha ihb =>
    simp only [hasRightProduct, Bool.or_eq_false_iff] at h
    rw [source, times_of_rank _ (rank_factor h.2)]
    simp only [Source.eval, eval_parenIf, iha h.1.1, ihb h.1.2, map, eval]

end Expr

end Values

/-- An arithmetic of weights, in which a product weighs more if it is grouped to the right. Signs
weigh nothing. -/
structure Weight where
  units : ℕ

instance : Scalar Weight where
  add a b := ⟨a.units + b.units⟩
  sub a b := ⟨a.units + b.units⟩
  mul a b := ⟨a.units + 2 * b.units + 1⟩
  div a _ := a
  neg a := a
  ofScientific _ _ _ := ⟨0⟩
  ofNat _ := ⟨0⟩
  pi := ⟨0⟩
  invSqrtTwo := ⟨0⟩
  sinThird := ⟨0⟩
  cosFifthGap := ⟨0⟩
  sinFifth := ⟨0⟩
  sinTwoFifths := ⟨0⟩
  sin a := a
  cos a := a
  sqrt a := a
  abs a := a
  lt a b := a.units < b.units
  isNaN _ := false
  nan := ⟨0⟩

namespace Source

/-- The weight of a tree whose words weigh nothing. -/
def weight (t : Source) : ℕ :=
  (t.eval fun _ => (⟨0⟩ : Weight)).units

@[simp] lemma weight_word (text : String) : (word text).weight = 0 := rfl
@[simp] lemma weight_neg (a : Source) : (neg a).weight = a.weight := rfl
@[simp] lemma weight_add (a b : Source) : (add a b).weight = a.weight + b.weight := rfl
@[simp] lemma weight_sub (a b : Source) : (sub a b).weight = a.weight + b.weight := rfl
@[simp] lemma weight_mul (a b : Source) : (mul a b).weight = a.weight + 2 * b.weight + 1 := rfl

@[simp]
lemma weight_parenIf (needed : Bool) (t : Source) : (parenIf needed t).weight = t.weight := by
  cases needed <;> rfl

@[simp]
lemma weight_negated (t : Source) : t.negated.weight = t.weight := by
  rw [weight, eval_negated fun _ _ => rfl]
  rfl

@[simp]
lemma weight_ofDigits (digits : String) : (ofDigits digits).weight = 0 := by
  unfold ofDigits
  split <;> rfl

lemma weight_times_le (t u : Source) : (t.times u).weight ≤ (mul t u).weight := by
  induction u with
  | mul a b iha =>
    simp only [times, weight_mul] at iha ⊢
    omega
  | word | paren | neg | add | sub => exact Nat.le_refl _

/-- A chain weighs less than a product with a product on its right. -/
lemma weight_times_lt {t u : Source} (h : u.rank = 1) : (t.times u).weight < (mul t u).weight := by
  cases u with
  | mul a b =>
    have hle := weight_times_le t a
    simp only [times, weight_mul] at hle ⊢
    omega
  | word | paren | neg | add | sub => simp [rank] at h

end Source

namespace Expr

/-- The weight of an expression whose symbols and literals weigh nothing. -/
def weight (e : Expr L) : ℕ :=
  ((e.map fun _ => (⟨0⟩ : Weight)).eval fun _ => ⟨0⟩).units

@[simp] lemma weight_sym (s : Symbol) : (sym s : Expr L).weight = 0 := rfl
@[simp] lemma weight_lit (x : L) : (lit x).weight = 0 := rfl
@[simp] lemma weight_neg (a : Expr L) : (neg a).weight = a.weight := rfl
@[simp] lemma weight_add (a b : Expr L) : (add a b).weight = a.weight + b.weight := rfl
@[simp] lemma weight_sub (a b : Expr L) : (sub a b).weight = a.weight + b.weight := rfl
@[simp] lemma weight_mul (a b : Expr L) : (mul a b).weight = a.weight + 2 * b.weight + 1 := rfl

variable [ScalarText L] {names : SlotNames}

lemma weight_source_lit (x : L) : ((lit x : Expr L).source names).weight = 0 := by
  simp [source]

lemma weight_source_le (names : SlotNames) (e : Expr L) : (e.source names).weight ≤ e.weight := by
  induction e with
  | sym s | lit x => simp [source]
  | neg a iha => simpa [source] using iha
  | add a b iha ihb | sub a b iha ihb =>
    simp only [source, Source.weight_add, Source.weight_sub, weight_parenIf, weight_add, weight_sub]
    omega
  | mul a b iha ihb =>
    refine Nat.le_trans (weight_times_le _ _) ?_
    simp only [Source.weight_mul, weight_parenIf, weight_mul]
    omega

lemma weight_source_lt {e : Expr L} (h : e.hasRightProduct = true) :
    (e.source names).weight < e.weight := by
  induction e with
  | sym s | lit x => simp [hasRightProduct] at h
  | neg a iha => simpa [source] using iha h
  | add a b iha ihb | sub a b iha ihb =>
    have ha := weight_source_le names a
    have hb := weight_source_le names b
    simp only [source, Source.weight_add, Source.weight_sub, weight_parenIf, weight_add, weight_sub]
    simp only [hasRightProduct, Bool.or_eq_true] at h
    rcases h with h | h
    · have := iha h
      omega
    · have := ihb h
      omega
  | mul a b iha ihb =>
    have ha := weight_source_le names a
    have hb := weight_source_le names b
    have htimes := weight_times_le (parenIf a.isSum (a.source names))
      (parenIf b.wrapsOnRight (b.source names))
    simp only [Source.weight_mul, weight_parenIf] at htimes
    simp only [source, weight_mul]
    simp only [hasRightProduct, Bool.or_eq_true] at h
    rcases h with (h | h) | h
    · have := iha h
      omega
    · have := ihb h
      omega
    · have hrank : (parenIf b.wrapsOnRight (b.source names)).rank = 1 := by
        cases b <;> simp_all [isProduct, parenIf, wrapsOnRight, isSum, isNeg, source, rank_times]
      have hlt := weight_times_lt (t := parenIf a.isSum (a.source names)) hrank
      simp only [Source.weight_mul, weight_parenIf] at hlt
      omega

variable [LawfulScalarText L]

lemma weight_eq_of_computes {t : Source} {e : Expr L} (h : t.Computes names e) :
    t.weight = e.weight := by
  have hliteral (x : L) : ((lit x : Expr L).source names).eval (fun _ => (⟨0⟩ : Weight)) = ⟨0⟩ :=
    congrArg Weight.mk (weight_source_lit x)
  exact congrArg Weight.units (h Weight (fun _ _ => rfl) (fun _ => ⟨0⟩) (fun _ => ⟨0⟩)
    (fun _ => ⟨0⟩) (fun _ => rfl) fun x => ⟨_, read?_literalText names x, hliteral x⟩)

/-- The text of an expression is read as a tree, which computes the expression exactly if no product
stands on the right of another. -/
theorem text_computes_iff (hnames : names.AreWords) (e : Expr L) :
    ∃ t, read? (tokenize (e.text names)) = some t ∧
      (t.Computes names e ↔ e.hasRightProduct = false) := by
  refine ⟨e.source names, read?_text hnames e, ?_, ?_⟩
  · intro h
    by_contra hproduct
    exact Nat.ne_of_lt (weight_source_lt (by simpa using hproduct)) (weight_eq_of_computes h)
  · intro h R _ hneg value literal read hread hliteral
    refine eval_source hneg hread (fun x => ?_) h
    obtain ⟨u, hu, hvalue⟩ := hliteral x
    rw [read?_literalText names] at hu
    cases hu
    exact hvalue

theorem text_computes_scaled : SlotNames.fourier.AreWords ∧
    ∃ t, read? (tokenize ((neg (mul (sym (.temp 0)) (lit 0.5)) : Expr Float).text .fourier)) =
      some t ∧ t.Computes .fourier (neg (mul (sym (.temp 0)) (lit (0.5 : Float)))) := by
  have hnames : SlotNames.fourier.AreWords := by
    simp [SlotNames.AreWords, SlotNames.fourier, isDelimiter, symbolToken?]
  obtain ⟨t, hread, hiff⟩ :=
    text_computes_iff hnames (neg (mul (sym (.temp 0)) (lit (0.5 : Float))))
  exact ⟨hnames, t, hread, hiff.2 rfl⟩

/-- The first of three factors is multiplied by the product of the others. -/
def scaledProduct : Expr Float :=
  mul (sym (.temp 0)) (mul (sym (.temp 1)) (sym (.temp 2)))

/-- Its text multiplies the first two factors first. -/
theorem text_scaledProduct : scaledProduct.text .fourier = "t0 * t1 * t2" ∧
    read? (tokenize "t0 * t1 * t2") = some (.mul (.mul (.word "t0") (.word "t1")) (.word "t2")) ∧
    ¬(Source.mul (.mul (.word "t0") (.word "t1")) (.word "t2")).Computes .fourier
      scaledProduct := by
  refine ⟨by decide, by decide, ?_⟩
  intro h
  exact absurd (weight_eq_of_computes h) (by decide)

end Expr

end MixedRadix
