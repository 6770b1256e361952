import MixedRadix.Config.Reader
import MixedRadix.Config.Writer
import Mathlib.Algebra.Order.BigOperators.Group.List

/-!
# Decoders of configurations

A decoder reads the document of a configuration part by part. What is asked of it are the laws of
`Decoder.IsLawful`: it reads the literals that a writer writes, goes through an object member by
member, knows the fields by their names, refuses a field that was read before, and gives the fields
that were not read their defaults. Nothing else about a decoder is used here. By these laws it reads
the fields of a valid configuration in any order (`Decoder.IsLawful.ofTextBy_explicitText`), and it
refuses a field that is given again (`Decoder.IsLawful.ofTextBy_explicitText_append`).
-/

namespace MixedRadix.Config

open Reader (Draft)

/-- The value of a field in a document, null for an output that is not set. -/
def valueText (w : Literals) (c : Config) (f : Field) : String :=
  (c.fieldText? w f).getD "null"

/-- An object with some fields of a configuration in this order, with null for an output that is not
set. -/
def explicitText (w : Literals) (c : Config) (fields : List Field) : String :=
  "\x7b" ++ ",".intercalate (fields.map fun f => w.string f.name ++ ":" ++ c.valueText w f) ++
    "\x7d"

/-- Whether two configurations have the same value of a field. -/
def SameAt (c d : Config) : Field → Prop
  | .size => c.size = d.size
  | .orthogonal => c.orthogonal = d.orthogonal
  | .output => c.output = d.output
  | .transform => c.transform = d.transform
  | .strategy => c.strategy = d.strategy
  | .maxFunctionLines => c.maxFunctionLines = d.maxFunctionLines
  | .annotate => c.annotate = d.annotate
  | .verify => c.verify = d.verify

/-- Both numbers of a configuration are 64-bit words. -/
structure HasWords (c : Config) : Prop where
  size : c.size < 2 ^ 64
  maxFunctionLines : c.maxFunctionLines < 2 ^ 64

/-- Whether a field was read. -/
def Reader.Draft.has (d : Draft) : Field → Bool
  | .size => d.size.isSome
  | .orthogonal => d.orthogonal.isSome
  | .output => d.output.isSome
  | .transform => d.transform.isSome
  | .strategy => d.strategy.isSome
  | .maxFunctionLines => d.maxFunctionLines.isSome
  | .annotate => d.annotate.isSome
  | .verify => d.verify.isSome

/-! ### The laws of a decoder -/

/-- What follows a value in an object. -/
def EndsValue (rest : List Char) : Prop :=
  ∃ c s, rest = c :: s ∧ (c = ',' ∨ c = '\x7d')

/-- How a document is read, part by part. -/
structure Decoder extends Reader.Values where
  /-- The next key of an object, if there is one; `true` if it is the first. -/
  key? : Bool → Reader (Option String)
  /-- What stands between a key and its value. -/
  colon : Reader Unit
  /-- The member with a key, behind the key. -/
  member : Draft → String → Reader Draft
  /-- The members that are left, up to the closing brace. -/
  members : Bool → Draft → Reader Draft
  /-- The configuration with the fields that were read. -/
  finish : Draft → Except Problem Config
  /-- A whole document. -/
  decode : String → Except Problem Config

/-- The laws of a decoder that reads what is written with some literals. -/
structure Decoder.IsLawful (D : Decoder) (w : Literals) : Prop where
  -- String literals: keys, paths and the names of options.
  key_string : ∀ first name rest,
    (D.key? first).run ((if first then [] else [',']) ++ ((w.string name).toList ++ ':' :: rest)) =
      .ok (some name, ':' :: rest)
  path_string : ∀ t rest, EndsValue rest →
    D.path.run ((w.string t).toList ++ rest) = .ok (some t, rest)
  path_null : ∀ rest, EndsValue rest → D.path.run ("null".toList ++ rest) = .ok (none, rest)
  transform_string : ∀ (t : Transform) rest, EndsValue rest →
    D.transform.run ((w.string t.name).toList ++ rest) = .ok (t, rest)
  strategy_string : ∀ (s : Strategy) rest, EndsValue rest →
    D.strategy.run ((w.string s.name).toList ++ rest) = .ok (s, rest)
  -- Numbers, as long as they are words, and truth values.
  natural_natural : ∀ n rest, n < 2 ^ 64 → EndsValue rest →
    D.natural.run ((w.natural n).toList ++ rest) = .ok (n, rest)
  boolean_boolean : ∀ b rest, EndsValue rest →
    D.boolean.run ((w.boolean b).toList ++ rest) = .ok (b, rest)
  -- Members, one after the other, in braces.
  key_end : ∀ first rest, (D.key? first).run ('\x7d' :: rest) = .ok (none, '\x7d' :: rest)
  run_colon : ∀ rest, D.colon.run (':' :: rest) = .ok ((), rest)
  members_eq : ∀ first d, D.members first d =
    D.key? first >>= fun key? => key?.elim (pure d) fun key => D.member d key >>= D.members false
  decode_object : ∀ s d, (D.members true {}).run s = .ok (d, ['\x7d']) →
    D.decode ("\x7b" ++ String.ofList s) = D.finish d
  decode_error : ∀ s e, (D.members true {}).run s = .error e →
    D.decode ("\x7b" ++ String.ofList s) = .error e
  -- Derived keys: a field is known by its name, and its value is read by its type.
  member_eq : ∀ d f, d.has f = false →
    D.member d f.name = D.colon >>= fun _ => D.toValues.field d f
  -- Duplicates: a field that was read before is refused, whatever its value.
  member_repeated : ∀ d f, d.has f = true → D.member d f.name = throw (.repeatedField f)
  -- Defaults: they stand for all the fields that were not read but the size.
  finish_eq : ∀ d n, d.size = some n → D.finish d = .ok (d.config n)

/-! ### Fields -/

namespace Reader

variable {α β : Type} {x : Reader α} {f : α → Reader β} {a : α} {s s' : List Char}

lemma run_bind_of_ok (h : x.run s = .ok (a, s')) : (x >>= f).run s = (f a).run s' := by
  rw [StateT.run_bind, h]
  rfl

/-- A value that is there if its field was read. -/
def ifRead {α : Type} (read : List Field) (f : Field) (a : α) : Option α :=
  if f ∈ read then some a else none

/-- The fields of a configuration that were read. -/
def Draft.ofFields (c : Config) (read : List Field) : Draft where
  size := ifRead read .size c.size
  orthogonal := ifRead read .orthogonal c.orthogonal
  output := ifRead read .output c.output
  transform := ifRead read .transform c.transform
  strategy := ifRead read .strategy c.strategy
  maxFunctionLines := ifRead read .maxFunctionLines c.maxFunctionLines
  annotate := ifRead read .annotate c.annotate
  verify := ifRead read .verify c.verify

lemma isSome_ifRead (read : List Field) (f : Field) (a : α) :
    (ifRead read f a).isSome = decide (f ∈ read) := by
  unfold ifRead
  split <;> simp [*]

lemma Draft.has_ofFields (c : Config) (read : List Field) (f : Field) :
    (Draft.ofFields c read).has f = decide (f ∈ read) := by
  cases f <;> exact isSome_ifRead _ _ _

lemma getD_ifRead {read : List Field} {f : Field} {d : α} (h : f ∉ read → a = d) :
    (ifRead read f a).getD d = a := by
  unfold ifRead
  split
  · rfl
  · exact (h (by assumption)).symm

/-- What was not read has its default. -/
lemma Draft.config_ofFields {c : Config} {fields : List Field}
    (hdefault : ∀ f ∉ fields, c.SameAt { size := c.size } f) :
    (Draft.ofFields c fields).config c.size = c := by
  simp only [Draft.ofFields, Draft.config, getD_ifRead (hdefault .orthogonal),
    getD_ifRead (hdefault .output), getD_ifRead (hdefault .transform),
    getD_ifRead (hdefault .strategy), getD_ifRead (hdefault .maxFunctionLines),
    getD_ifRead (hdefault .annotate), getD_ifRead (hdefault .verify)]

lemma run_put {put : α → Draft} {d : Draft} (hx : x.run s = .ok (a, s')) (hput : put a = d) :
    (do return put (← x) : Reader Draft).run s = .ok (d, s') := by
  rw [run_bind_of_ok hx, hput]
  rfl

end Reader

/-! ### Members -/

/-- The members of an object, each with a comma in front of it but the first. -/
def membersText (w : Literals) (c : Config) : Bool → List Field → List Char
  | _, [] => []
  | first, f :: fields => (if first then [] else [',']) ++ ((w.string f.name).toList ++
      ':' :: ((c.valueText w f).toList ++ membersText w c false fields))

variable {D : Decoder} {w : Literals} {c : Config} {fields : List Field} {rest : List Char}

lemma membersText_append (first : Bool) (fields more : List Field) :
    membersText w c first (fields ++ more) =
      membersText w c first fields ++ membersText w c (first && fields.isEmpty) more := by
  induction fields generalizing first with
  | nil => simp [membersText]
  | cons f fields ih => simp [membersText, ih]

lemma endsValue_membersText (fields : List Field) (hrest : EndsValue rest) :
    EndsValue (membersText w c false fields ++ rest) := by
  cases fields with
  | nil => exact hrest
  | cons f fields => exact ⟨_, _, rfl, .inl rfl⟩

lemma endsValue_brace : EndsValue ['\x7d'] :=
  ⟨_, _, rfl, .inr rfl⟩

/-- A comma stands between any two members. -/
lemma intercalate_members (w : Literals) (c : Config) (fields : List Field) :
    [','].intercalate (fields.map fun f => (w.string f.name).toList ++
      ':' :: (c.valueText w f).toList) = membersText w c true fields := by
  induction fields with
  | nil => rfl
  | cons f fields ih =>
    cases fields with
    | nil => simp [membersText]
    | cons g fields =>
      rw [List.map_cons] at ih ⊢
      rw [List.map_cons, List.intercalate_cons_cons, ih]
      simp [membersText]

lemma explicitText_eq (w : Literals) (c : Config) (fields : List Field) :
    c.explicitText w fields =
      "\x7b" ++ String.ofList (membersText w c true fields ++ ['\x7d']) := by
  apply String.toList_injective
  rw [← intercalate_members]
  simp [explicitText, Function.comp_def]

namespace Decoder.IsLawful

lemma run_path (hD : D.IsLawful w) (c : Config) (hrest : EndsValue rest) :
    D.path.run ((c.valueText w .output).toList ++ rest) = .ok (c.output, rest) := by
  unfold valueText fieldText?
  cases c.output with
  | none => exact hD.path_null rest hrest
  | some t => exact hD.path_string t rest hrest

/-- A field is read as it was written. -/
lemma run_field (hD : D.IsLawful w) (hwords : c.HasWords) (read : List Field) (f : Field)
    (hrest : EndsValue rest) :
    (D.toValues.field (.ofFields c read) f).run ((c.valueText w f).toList ++ rest) =
      .ok (.ofFields c (read ++ [f]), rest) := by
  cases f with
  | size =>
    exact Reader.run_put (hD.natural_natural _ _ hwords.size hrest)
      (by simp [Draft.ofFields, Reader.ifRead])
  | output => exact Reader.run_put (hD.run_path c hrest) (by simp [Draft.ofFields, Reader.ifRead])
  | transform =>
    exact Reader.run_put (hD.transform_string _ _ hrest) (by simp [Draft.ofFields, Reader.ifRead])
  | strategy =>
    exact Reader.run_put (hD.strategy_string _ _ hrest) (by simp [Draft.ofFields, Reader.ifRead])
  | maxFunctionLines =>
    exact Reader.run_put (hD.natural_natural _ _ hwords.maxFunctionLines hrest)
      (by simp [Draft.ofFields, Reader.ifRead])
  | orthogonal | annotate | verify =>
    exact Reader.run_put (hD.boolean_boolean _ _ hrest) (by simp [Draft.ofFields, Reader.ifRead])

/-- With a key in front, its member is read, and then the others. -/
lemma run_members_key (hD : D.IsLawful w) (first : Bool) (d : Draft) (f : Field) :
    (D.members first d).run
      ((if first then [] else [',']) ++ ((w.string f.name).toList ++ ':' :: rest)) =
      (D.member d f.name >>= D.members false).run (':' :: rest) := by
  rw [hD.members_eq, Reader.run_bind_of_ok (hD.key_string first f.name rest)]
  rfl

/-- The members of an object are read in any order, as long as none was read before. -/
lemma run_members (hD : D.IsLawful w) (hwords : c.HasWords) (read : List Field)
    (hnodup : (read ++ fields).Nodup) (first : Bool) (hrest : EndsValue rest) :
    (D.members first (.ofFields c read)).run (membersText w c first fields ++ rest) =
      (D.members (first && fields.isEmpty) (.ofFields c (read ++ fields))).run rest := by
  induction fields generalizing first read with
  | nil => simp [membersText]
  | cons f fields ih =>
    have hnew : (Draft.ofFields c read).has f = false := by
      rw [Draft.has_ofFields, decide_eq_false_iff_not]
      exact fun hf => (List.nodup_append.1 hnodup).2.2 f hf f (by simp) rfl
    have hfield := hD.run_field hwords read f
      (endsValue_membersText (w := w) (c := c) fields hrest)
    have ih := ih (read ++ [f]) (by simpa using hnodup) false
    simp only [membersText, List.append_assoc, List.cons_append]
    rw [hD.run_members_key, hD.member_eq _ _ hnew, bind_assoc,
      Reader.run_bind_of_ok (hD.run_colon _), Reader.run_bind_of_ok hfield, ih]
    simp

/-! ### Documents -/

/-- A field that was read before is refused. -/
lemma run_members_repeated (hD : D.IsLawful w) {read : List Field} {f : Field} (hf : f ∈ read)
    (first : Bool) :
    (D.members first (.ofFields c read)).run (membersText w c first [f] ++ rest) =
      .error (.repeatedField f) := by
  have hold : (Draft.ofFields c read).has f = true := by
    rw [Draft.has_ofFields, decide_eq_true hf]
  simp only [membersText, List.append_assoc, List.cons_append]
  rw [hD.run_members_key, hD.member_repeated _ _ hold]
  rfl

lemma ofTextBy_explicitText (hD : D.IsLawful w) (hvalid : c.validate = .ok ())
    (hwords : c.HasWords) (hnodup : fields.Nodup) (hmem : .size ∈ fields)
    (hdefault : ∀ f ∉ fields, c.SameAt { size := c.size } f) :
    ofTextBy D.decode (c.explicitText w fields) = .ok c := by
  have hmembers : (D.members true {}).run (membersText w c true fields ++ ['\x7d']) =
      .ok (.ofFields c fields, ['\x7d']) := by
    refine (hD.run_members hwords [] hnodup true endsValue_brace).trans ?_
    rw [hD.members_eq, Reader.run_bind_of_ok (hD.key_end _ _)]
    rfl
  have hsize : (Draft.ofFields c fields).size = some c.size := if_pos hmem
  have hdecode : D.decode (c.explicitText w fields) = .ok c := by
    rw [explicitText_eq, hD.decode_object _ _ hmembers, hD.finish_eq _ _ hsize,
      Draft.config_ofFields hdefault]
  simp [ofTextBy, hdecode, hvalid, bind, Except.bind, pure, Except.pure]

lemma ofTextBy_explicitText_append (hD : D.IsLawful w) (hwords : c.HasWords)
    (hnodup : fields.Nodup) {f : Field} (hf : f ∈ fields) :
    ofTextBy D.decode (c.explicitText w (fields ++ [f])) = .error (.repeatedField f) := by
  have hmembers : (D.members true {}).run (membersText w c true (fields ++ [f]) ++ ['\x7d']) =
      .error (.repeatedField f) := by
    rw [membersText_append, List.append_assoc]
    refine (hD.run_members hwords [] hnodup true ?_).trans
      (hD.run_members_repeated hf _)
    rw [List.isEmpty_eq_false_iff.2 (List.ne_nil_of_mem hf), Bool.and_false]
    exact endsValue_membersText [f] endsValue_brace
  have hdecode : D.decode (c.explicitText w (fields ++ [f])) = .error (.repeatedField f) := by
    rw [explicitText_eq, hD.decode_error _ _ hmembers]
  simp [ofTextBy, hdecode, bind, Except.bind]

end Decoder.IsLawful

end MixedRadix.Config
