import Mathlib.Data.List.Basic

/-!
# Reading source text

How arithmetic in source text is read: characters are grouped into tokens (`Source.tokenize`), and
tokens into a tree by the usual rules. A sign in front binds tightest, `*` binds tighter than `+`
and `-`, and all three associate to the left. `Source.IsGrammatical` says which trees these rules
can give. The reader takes one token after the other and keeps what is still open on a stack; it
reads every grammatical tree as it is written (`Source.IsGrammatical.read?_tokens`).
-/

namespace MixedRadix

/-- A token of source text. -/
inductive Token where
  /-- A name, an element of an array, or a number. -/
  | word (text : String)
  | plus
  | minus
  | times
  | opening
  | closing
  | equals
  | semicolon
  deriving DecidableEq, Repr

/-- An arithmetic expression as it is written, with its parentheses. -/
inductive Source where
  | word (text : String)
  | paren (a : Source)
  | neg (a : Source)
  | add (a b : Source)
  | sub (a b : Source)
  | mul (a b : Source)
  deriving DecidableEq, Repr

namespace Source

/-! ### Characters -/

/-- The token that a character is by itself. -/
def symbolToken? : Char → Option Token
  | '+' => some .plus
  | '-' => some .minus
  | '*' => some .times
  | '(' => some .opening
  | ')' => some .closing
  | '=' => some .equals
  | ';' => some .semicolon
  | _ => none

/-- Whether a character ends a word. -/
def isDelimiter (c : Char) : Bool :=
  c == ' ' || (symbolToken? c).isSome

/-- Whether a character is the sign of the exponent of a number that is read as far as `front`. -/
def isExponentSign (front : List Char) (c : Char) : Bool :=
  (c == '+' || c == '-') && front.getLast? == some 'e' && front.head?.any Char.isDigit

/-- The token of a word that has ended. -/
def flush (front : List Char) : List Token :=
  if front.isEmpty then [] else [.word (String.ofList front)]

@[simp]
lemma flush_nil : flush [] = [] :=
  rfl

/-- The tokens of a word that is read as far as `front`, and of the characters that follow. -/
def scan : List Char → List Char → List Token
  | front, [] => flush front
  | front, c :: cs =>
    if isDelimiter c && !isExponentSign front c then
      flush front ++ (symbolToken? c).toList ++ scan [] cs
    else scan (front ++ [c]) cs

@[simp]
lemma scan_nil : scan [] [] = [] :=
  rfl

/-- The tokens of a text. -/
def tokenize (text : String) : List Token :=
  scan [] text.toList

/-- Characters that are read as one word. -/
def IsWord (w : List Char) : Prop :=
  w ≠ [] ∧ ∀ front c back, w = front ++ c :: back →
    isDelimiter c = false ∨ isExponentSign front c = true

/-- Text behind which no word goes on. -/
def Stops (rest : List Char) : Prop :=
  ∀ c ∈ rest.head?, c ∈ [' ', ')', ';']

lemma scan_word {w : List Char} (hw : IsWord w) (rest : List Char) :
    scan [] (w ++ rest) = scan w rest := by
  -- the word is read character by character; `front` is what has been read
  suffices h : ∀ front back, w = front ++ back → scan front (back ++ rest) = scan w rest from
    h [] w rfl
  intro front back hsplit
  induction back generalizing front with
  | nil => simp [hsplit]
  | cons c back ih =>
    have hgoes : (isDelimiter c && !isExponentSign front c) = false := by
      rcases hw.2 front c back hsplit with hc | hc <;> simp [hc]
    rw [List.cons_append, scan, hgoes]
    exact ih (front ++ [c]) (by simp [hsplit])

/-- A word ends where it stops. -/
lemma scan_word_append {w rest : List Char} (hw : IsWord w) (hrest : Stops rest) :
    scan [] (w ++ rest) = .word (String.ofList w) :: scan [] rest := by
  rw [scan_word hw]
  have hflush : flush w = [.word (String.ofList w)] := by simp [flush, hw.1]
  cases rest with
  | nil => simp [scan, hflush]
  | cons c cs =>
    have hc : c = ' ' ∨ c = ')' ∨ c = ';' := by simpa [Stops] using hrest
    rcases hc with rfl | rfl | rfl <;>
      simp [scan, hflush, isDelimiter, symbolToken?, isExponentSign]

/-! ### Grammar -/

/-- How tightly the outermost operator binds. -/
def rank : Source → ℕ
  | add _ _ | sub _ _ => 0
  | mul _ _ => 1
  | word _ | paren _ | neg _ => 2

/-- The tree can be written without further parentheses. -/
def IsGrammatical : Source → Prop
  | word _ => True
  | paren a => a.IsGrammatical
  | neg a => a.IsGrammatical ∧ 2 ≤ a.rank
  | add a b | sub a b => a.IsGrammatical ∧ b.IsGrammatical ∧ 1 ≤ b.rank
  | mul a b => a.IsGrammatical ∧ 1 ≤ a.rank ∧ b.IsGrammatical ∧ 2 ≤ b.rank

/-- The tree, written. -/
def tokens : Source → List Token
  | word text => [.word text]
  | paren a => .opening :: (a.tokens ++ [.closing])
  | neg a => .minus :: a.tokens
  | add a b => a.tokens ++ .plus :: b.tokens
  | sub a b => a.tokens ++ .minus :: b.tokens
  | mul a b => a.tokens ++ .times :: b.tokens

/-! ### The reader -/

/-- What waits for an operand on its right. -/
inductive Pending where
  | neg
  | mulBy (a : Source)
  | addTo (a : Source)
  | subFrom (a : Source)
  | paren
  deriving DecidableEq, Repr

/-- Gives an operand to the signs and products that wait for it. -/
def closeProducts : Source → List Pending → Source × List Pending
  | t, .neg :: stack => closeProducts (neg t) stack
  | t, .mulBy a :: stack => closeProducts (mul a t) stack
  | t, stack => (t, stack)

/-- Gives a product to the sums that wait for it. -/
def closeSums : Source → List Pending → Source × List Pending
  | t, .addTo a :: stack => closeSums (add a t) stack
  | t, .subFrom a :: stack => closeSums (sub a t) stack
  | t, stack => (t, stack)

/-- What the reader expects next. -/
inductive Reader where
  /-- An operand. -/
  | operand (stack : List Pending)
  /-- An operator or the end behind a product that was read. -/
  | operator (t : Source) (stack : List Pending)
  deriving DecidableEq, Repr

namespace Reader

/-- Behind a word, parentheses or a negation. -/
def behind (t : Source) (stack : List Pending) : Reader :=
  operator (closeProducts t stack).1 (closeProducts t stack).2

/-- Reads a token. -/
def step : Reader → Token → Option Reader
  | operand stack, .word text => some (behind (word text) stack)
  | operand stack, .minus => some (operand (.neg :: stack))
  | operand stack, .opening => some (operand (.paren :: stack))
  | operator t stack, .times => some (operand (.mulBy t :: stack))
  | operator t stack, .plus =>
    some (operand (.addTo (closeSums t stack).1 :: (closeSums t stack).2))
  | operator t stack, .minus =>
    some (operand (.subFrom (closeSums t stack).1 :: (closeSums t stack).2))
  | operator t stack, .closing =>
    match closeSums t stack with
    | (a, .paren :: stack) => some (behind (paren a) stack)
    | _ => none
  | _, _ => none

/-- The tree, if nothing is left open. -/
def finish? : Reader → Option Source
  | operator t stack =>
    match closeSums t stack with
    | (a, []) => some a
    | _ => none
  | operand _ => none

end Reader

/-- The tree of some tokens. -/
def read? (ts : List Token) : Option Source :=
  (ts.foldlM Reader.step (.operand [])).bind Reader.finish?

/-! ### Grammatical trees are read -/

/-- No sign and no product waits. -/
def IsLoose : List Pending → Prop
  | .neg :: _ | .mulBy _ :: _ => False
  | _ => True

/-- Nothing waits inside of the innermost parentheses. -/
def IsClosed : List Pending → Prop
  | [] | .paren :: _ => True
  | _ => False

lemma closeProducts_of_isLoose {stack : List Pending} (h : IsLoose stack) (t : Source) :
    closeProducts t stack = (t, stack) := by
  unfold closeProducts
  split <;> simp_all [IsLoose]

lemma closeSums_of_isClosed {stack : List Pending} (h : IsClosed stack) (t : Source) :
    closeSums t stack = (t, stack) := by
  unfold closeSums
  split <;> simp_all [IsClosed]

lemma IsClosed.isLoose {stack : List Pending} (h : IsClosed stack) : IsLoose stack := by
  unfold IsClosed at h
  split at h <;> simp_all [IsLoose]

open Reader

/-- The tree is read as an operand, which is given to what waits for it. -/
def ReadsOperand (t : Source) : Prop :=
  ∀ stack, t.tokens.foldlM step (operand stack) = some (behind t stack)

/-- The tree is read as a product, which is kept. -/
def ReadsProduct (t : Source) : Prop :=
  ∀ stack, IsLoose stack → t.tokens.foldlM step (operand stack) = some (operator t stack)

/-- The tree is read as a sum, which is there when the sums are closed. -/
def ReadsSum (t : Source) : Prop :=
  ∀ stack, IsClosed stack → ∃ u stack',
    t.tokens.foldlM step (operand stack) = some (operator u stack') ∧
      closeSums u stack' = (t, stack)

lemma ReadsOperand.readsProduct {t : Source} (h : t.ReadsOperand) : t.ReadsProduct := by
  intro stack hstack
  rw [h stack, behind, closeProducts_of_isLoose hstack]

lemma ReadsProduct.readsSum {t : Source} (h : t.ReadsProduct) : t.ReadsSum := by
  intro stack hstack
  exact ⟨t, stack, h stack hstack.isLoose, closeSums_of_isClosed hstack t⟩

lemma readsOperand_word (text : String) : (word text).ReadsOperand :=
  fun _ => rfl

lemma ReadsSum.paren {a : Source} (h : a.ReadsSum) : (paren a).ReadsOperand := by
  intro stack
  obtain ⟨u, stack', hrun, hclose⟩ := h (.paren :: stack) trivial
  rw [tokens, List.foldlM_cons]
  change (a.tokens ++ [Token.closing]).foldlM step (operand (.paren :: stack)) = _
  rw [List.foldlM_append, hrun]
  change (step (operator u stack') Token.closing).bind _ = _
  rw [step, hclose]
  rfl

lemma ReadsOperand.neg {a : Source} (h : a.ReadsOperand) : (neg a).ReadsOperand := by
  intro stack
  exact h (.neg :: stack)

lemma ReadsProduct.mul {a b : Source} (ha : a.ReadsProduct) (hb : b.ReadsOperand) :
    (mul a b).ReadsProduct := by
  intro stack hstack
  rw [tokens, List.foldlM_append, ha stack hstack]
  change b.tokens.foldlM step (operand (.mulBy a :: stack)) = _
  rw [hb, behind, closeProducts, closeProducts_of_isLoose hstack]

/-- A sum or a difference: what stands on the left waits for the product on the right. -/
lemma ReadsSum.of_operator {a b t : Source} {token : Token} (ha : a.ReadsSum) (waiting : Pending)
    (hb : b.ReadsProduct) (htokens : t.tokens = a.tokens ++ token :: b.tokens)
    (hstep : ∀ u stack stack', closeSums u stack' = (a, stack) →
      step (operator u stack') token = some (operand (waiting :: stack)))
    (hloose : ∀ stack, IsLoose (waiting :: stack))
    (hclose : ∀ stack, closeSums b (waiting :: stack) = closeSums t stack) : t.ReadsSum := by
  intro stack hstack
  obtain ⟨u, stack', hrun, hleft⟩ := ha stack hstack
  refine ⟨b, waiting :: stack, ?_, (hclose stack).trans (closeSums_of_isClosed hstack t)⟩
  rw [htokens, List.foldlM_append, hrun]
  show (step (operator u stack') token).bind _ = _
  rw [hstep u stack stack' hleft]
  exact hb _ (hloose stack)

lemma ReadsSum.add {a b : Source} (ha : a.ReadsSum) (hb : b.ReadsProduct) : (add a b).ReadsSum := by
  refine ha.of_operator (.addTo a) hb rfl (fun u stack stack' h => ?_) (fun _ => trivial)
    fun _ => rfl
  rw [step, h]

lemma ReadsSum.sub {a b : Source} (ha : a.ReadsSum) (hb : b.ReadsProduct) : (sub a b).ReadsSum := by
  refine ha.of_operator (.subFrom a) hb rfl (fun u stack stack' h => ?_) (fun _ => trivial)
    fun _ => rfl
  rw [step, h]

/-- A tree is read as what its rank makes it. -/
lemma IsGrammatical.reads {t : Source} (h : t.IsGrammatical) :
    t.ReadsSum ∧ (1 ≤ t.rank → t.ReadsProduct) ∧ (2 ≤ t.rank → t.ReadsOperand) := by
  induction t with
  | word text =>
    have hread := readsOperand_word text
    exact ⟨hread.readsProduct.readsSum, fun _ => hread.readsProduct, fun _ => hread⟩
  | paren a iha =>
    have hread := (iha h).1.paren
    exact ⟨hread.readsProduct.readsSum, fun _ => hread.readsProduct, fun _ => hread⟩
  | neg a iha =>
    have hread := ((iha h.1).2.2 h.2).neg
    exact ⟨hread.readsProduct.readsSum, fun _ => hread.readsProduct, fun _ => hread⟩
  | mul a b iha ihb =>
    obtain ⟨ha, hrank, hb, hrank'⟩ := h
    have hread := ((iha ha).2.1 hrank).mul ((ihb hb).2.2 hrank')
    exact ⟨hread.readsSum, fun _ => hread, fun h => absurd h (by simp [rank])⟩
  | add a b iha ihb =>
    obtain ⟨ha, hb, hrank⟩ := h
    exact ⟨(iha ha).1.add ((ihb hb).2.1 hrank), fun h => absurd h (by simp [rank]),
      fun h => absurd h (by simp [rank])⟩
  | sub a b iha ihb =>
    obtain ⟨ha, hb, hrank⟩ := h
    exact ⟨(iha ha).1.sub ((ihb hb).2.1 hrank), fun h => absurd h (by simp [rank]),
      fun h => absurd h (by simp [rank])⟩

lemma IsGrammatical.read?_tokens {t : Source} (h : t.IsGrammatical) : read? t.tokens = some t := by
  obtain ⟨u, stack, hrun, hclose⟩ := h.reads.1 [] trivial
  rw [read?, hrun, Option.bind_some, finish?, hclose]

end Source

end MixedRadix
