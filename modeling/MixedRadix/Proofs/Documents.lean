import MixedRadix.Proofs.Decoding
import Mathlib.Data.List.Nodup

/-!
# Documents of configurations

What is written of a valid configuration is read as that configuration: its texts with all their
controls and quotes, its numbers as long as they are words, its fields in any order, and without
those that have their default (`Config.ofText_textOf`). This holds for every lawful decoder, and the
reader of this library is one (`Reader.isLawful_decoder`): it reads every part of a document as it
was written, whatever follows it; behind a number, this has to be the end of the value.
-/

namespace MixedRadix.Config

namespace Reader

variable {α : Type} {a : α} {c : Char} {s s' rest : List Char}

/-! ### Steps -/

lemma run_peek? (hc : isBlank c = false) : peek?.run (c :: s) = .ok (some c, c :: s) := by
  have hdrop : (c :: s).dropWhile isBlank = c :: s := by simp [hc]
  have hrun : peek?.run (c :: s) =
      .ok (((c :: s).dropWhile isBlank).head?, (c :: s).dropWhile isBlank) := rfl
  rw [hrun, hdrop]
  rfl

lemma run_peekIn (hc : isBlank c = false) (k : Construct) :
    (peekIn k).run (c :: s) = .ok (c, c :: s) := by
  rw [peekIn, run_bind_of_ok (run_peek? hc)]
  rfl

lemma run_advance : advance.run (c :: s) = .ok ((), s) :=
  rfl

/-! ### Strings -/

lemma hexCode_of_digits {a b c d : Char} {x y z w : ℕ} (ha : hexDigit? a = some x)
    (hb : hexDigit? b = some y) (hc : hexDigit? c = some z) (hd : hexDigit? d = some w) :
    hexCode (a :: b :: c :: d :: s) = .ok (((x * 16 + y) * 16 + z) * 16 + w, s) := by
  have hbytes : 4 ≤ a.utf8Size + (b.utf8Size + (c.utf8Size + d.utf8Size)) := by
    have := a.utf8Size_pos
    have := b.utf8Size_pos
    have := c.utf8Size_pos
    have := d.utf8Size_pos
    omega
  simp [hexCode, hbytes, ha, hb, hc, hd]

lemma hexCode_hex {n : ℕ} (hn : n < 0x20) :
    hexCode ((Text.hex 4 n).toList ++ s) = .ok (n, s) := by
  have hdigits : ∀ n < 0x20, (Text.hex 4 n).toList =
      [Nat.digitChar 0, Nat.digitChar 0, Nat.digitChar (n / 16), Nat.digitChar (n % 16)] := by
    decide
  have hvalue : ∀ n < 16, hexDigit? (Nat.digitChar n) = some n := by decide
  have hcode := hexCode_of_digits (s := s) (hvalue 0 (by decide)) (hvalue 0 (by decide))
    (hvalue (n / 16) (by omega)) (hvalue (n % 16) (by omega))
  rw [hdigits n hn]
  refine hcode.trans ?_
  congr 2
  omega

lemma unicodeEscape_of_hexCode {n : ℕ} (h : hexCode s = .ok (n, s')) (hn : n < 0xD800) :
    unicodeEscape s = .ok (Char.ofNat n, s') := by
  have hlow : isLowSurrogate n = false := by
    have hlt : ¬ 0xDC00 ≤ n := by omega
    simp [isLowSurrogate, hlt]
  have hhigh : isHighSurrogate n = false := by
    have hlt : ¬ 0xD800 ≤ n := by omega
    simp [isHighSurrogate, hlt]
  simp [unicodeEscape, h, hlow, hhigh, bind, Except.bind, pure, Except.pure]

lemma escape_letter {letter e : Char} (hletter : letter ≠ 'u') (h : simpleEscape? letter = some e) :
    escape (letter :: s) = .ok (e, s) := by
  simp [escape, hletter, h]

lemma stringBody_plain {before : List Char} {fuel : ℕ} (hquote : c ≠ '"') (hbackslash : c ≠ '\\')
    (hc : ¬ c.toNat < 0x20) :
    stringBody before (fuel + 1) (c :: s) = stringBody (c :: before) fuel s := by
  simp [stringBody, hquote, hbackslash, hc]

lemma stringBody_escape {before : List Char} {fuel : ℕ} {e : Char} (h : escape s = .ok (e, s')) :
    stringBody before (fuel + 1) ('\\' :: s) = stringBody (e :: before) fuel s' := by
  simp [stringBody, h, bind, Except.bind]

/-- A character is read as it was written. -/
lemma stringBody_documentChar (before : List Char) (fuel : ℕ) (c : Char) (s : List Char) :
    stringBody before (fuel + 1) ((Text.documentChar c).toList ++ s) =
      stringBody (c :: before) fuel s := by
  unfold Text.documentChar
  split_ifs with h1 h2 h3 h4 h5 h6 h7 hcontrol
  · exact h1 ▸ stringBody_escape (escape_letter (by decide) rfl)
  · exact h2 ▸ stringBody_escape (escape_letter (by decide) rfl)
  · exact h3 ▸ stringBody_escape (escape_letter (by decide) rfl)
  · exact h4 ▸ stringBody_escape (escape_letter (by decide) rfl)
  · exact h5 ▸ stringBody_escape (escape_letter (by decide) rfl)
  · exact h6 ▸ stringBody_escape (escape_letter (by decide) rfl)
  · exact h7 ▸ stringBody_escape (escape_letter (by decide) rfl)
  · have hescape : escape ('u' :: ((Text.hex 4 c.toNat).toList ++ s)) = .ok (c, s) := by
      rw [escape, if_pos rfl, unicodeEscape_of_hexCode (hexCode_hex hcontrol) (by omega)]
      simp
    simpa using stringBody_escape hescape
  · simpa using stringBody_plain h1 h2 hcontrol

/-- A text is read as it was written. -/
lemma stringBody_document (before t rest : List Char) {fuel : ℕ} (hfuel : t.length < fuel) :
    stringBody before fuel (t.flatMap (fun c => (Text.documentChar c).toList) ++ '"' :: rest) =
      .ok (before.reverse ++ t, rest) := by
  induction t generalizing before fuel with
  | nil =>
    obtain ⟨fuel, rfl⟩ := Nat.exists_eq_add_one_of_ne_zero (Nat.ne_of_gt hfuel)
    simp [stringBody, pure, Except.pure]
  | cons c t ih =>
    obtain ⟨fuel, rfl⟩ := Nat.exists_eq_add_one_of_ne_zero (Nat.ne_of_gt (Nat.zero_lt_of_lt hfuel))
    rw [List.flatMap_cons, List.append_assoc, stringBody_documentChar,
      ih _ (by simpa using hfuel)]
    simp

lemma toList_inDocument (t : String) : (Text.inDocument t).toList =
    '"' :: (t.toList.flatMap (fun c => (Text.documentChar c).toList) ++ ['"']) := by
  simp [Text.inDocument, String.toList_join, List.flatMap_map]

/-- Every character takes at least one character to write. -/
lemma length_le_document (t : List Char) :
    t.length ≤ (t.flatMap fun c => (Text.documentChar c).toList).length := by
  have hone (c : Char) : 1 ≤ (Text.documentChar c).toList.length := by
    unfold Text.documentChar
    split_ifs <;> simp
  rw [List.length_flatMap]
  refine le_trans (by simp) (List.length_le_sum_of_one_le _ ?_)
  simpa using fun c _ => hone c

lemma run_get (s : List Char) : (get : Reader (List Char)).run s = .ok (s, s) :=
  rfl

lemma run_lift {r : Except Problem α} (h : r = .ok a) :
    (liftM r : Reader α).run s = .ok (a, s) := by
  rw [h]
  rfl

lemma run_string (t : String) (rest : List Char) :
    string.run ((Text.inDocument t).toList ++ rest) = .ok (t, rest) := by
  have hfuel : t.toList.length <
      (t.toList.flatMap (fun c => (Text.documentChar c).toList) ++ '"' :: rest).length := by
    have hle := length_le_document t.toList
    rw [List.length_append, List.length_cons]
    omega
  have hbody := stringBody_document [] t.toList rest hfuel
  rw [toList_inDocument, List.cons_append, List.append_assoc, List.singleton_append, string,
    run_bind_of_ok run_advance, run_bind_of_ok (run_get _), run_bind_of_ok (run_lift hbody)]
  change Except.ok (String.ofList ([].reverse ++ t.toList), rest) = _
  rw [List.reverse_nil, List.nil_append, String.ofList_toList]

/-! ### Numbers -/

lemma leadingDigits_toDigits (n : ℕ) (hrest : EndsValue rest) :
    leadingDigits (Nat.toDigits 10 n ++ rest) =
      (Nat.toDigits 10 n).map (fun c => c.toNat - '0'.toNat) ∧
    (Nat.toDigits 10 n ++ rest).dropWhile Char.isDigit = rest := by
  have hdigits : ∀ c ∈ Nat.toDigits 10 n, c.isDigit = true := fun c =>
    Nat.isDigit_of_mem_toDigits (by decide) (by decide)
  obtain ⟨c, s, rfl, hc⟩ := hrest
  have hstop : c.isDigit = false := by rcases hc with rfl | rfl <;> rfl
  refine ⟨?_, ?_⟩
  · rw [leadingDigits, List.takeWhile_append_of_pos hdigits]
    simp [hstop]
  · rw [List.dropWhile_append_of_pos hdigits]
    simp [hstop]

/-- Digits are appended as long as the number is a word. -/
lemma appendDigits_of_le {cs : List Char} {n : ℕ} (hn : Nat.ofDigitChars 10 cs n ≤ maxWord) :
    appendDigits n (cs.map fun c => c.toNat - '0'.toNat) = (Nat.ofDigitChars 10 cs n, 0) := by
  induction cs generalizing n with
  | nil => rfl
  | cons c cs ih =>
    rw [Nat.ofDigitChars_cons, mul_comm 10 n] at hn ⊢
    have hle : n * 10 + (c.toNat - '0'.toNat) ≤ maxWord := by
      rw [Nat.ofDigitChars_eq_ofDigitChars_zero] at hn
      have hpow : 0 < 10 ^ cs.length := Nat.pow_pos (by decide)
      exact le_trans (Nat.le_mul_of_pos_left _ hpow) (le_trans (Nat.le_add_right _ _) hn)
    rw [List.map_cons, appendDigits, if_neg (not_lt.2 hle), ih hn]

/-- No number but zero starts with a zero. -/
lemma exists_toDigits_eq (n : ℕ) : ∃ d ds, (Nat.toDigits 10 n).map (fun c => c.toNat - '0'.toNat) =
    d :: ds ∧ (d = 0 → n = 0) := by
  induction n using Nat.strong_induction_on with
  | h n ih =>
    by_cases hn : n < 10
    · have hdigit : n.digitChar.toNat - '0'.toNat = n := Nat.toNat_digitChar_sub_48_of_lt_ten hn
      rw [Nat.toDigits_of_lt_base hn, List.map_singleton, hdigit]
      exact ⟨n, [], rfl, id⟩
    · obtain ⟨d, ds, hds, hd⟩ := ih (n / 10) (by omega)
      rw [Nat.toDigits_of_base_le (by decide) (not_lt.1 hn), List.map_append, hds]
      refine ⟨d, ds ++ _, rfl, fun h => ?_⟩
      have hzero := hd h
      omega

lemma run_number {n : ℕ} (hn : n ≤ maxWord) (hrest : EndsValue rest) :
    (number true).run (Nat.toDigits 10 n ++ rest) = .ok (.natural n, rest) := by
  obtain ⟨hleading, hdrop⟩ := leadingDigits_toDigits n hrest
  have happend :
      appendDigits 0 ((Nat.toDigits 10 n).map fun c => c.toNat - '0'.toNat) = (n, 0) := by
    rw [appendDigits_of_le] <;> rw [Nat.ofDigitChars_ten_toDigits]
    exact hn
  have hmodify : (modify (·.dropWhile Char.isDigit) : Reader Unit).run (Nat.toDigits 10 n ++ rest) =
      .ok ((), rest) := congrArg (fun s => (.ok ((), s) : Except Problem (Unit × List Char))) hdrop
  obtain ⟨d, ds, hds, hd⟩ := exists_toDigits_eq n
  rw [number, run_bind_of_ok (run_get _), hleading]
  dsimp only
  split
  · rename_i hnil
    exact absurd (hds.symm.trans hnil) (List.cons_ne_nil d ds)
  · rename_i hzero
    rw [hd (List.cons.inj (hds.symm.trans hzero)).1, Nat.toDigits_zero] at hzero
    simp at hzero
  · rw [run_bind_of_ok hmodify, happend]
    obtain ⟨c, s, rfl, rfl | rfl⟩ := hrest <;> rfl

/-! ### Values -/

lemma run_natural {n : ℕ} (hn : n < 2 ^ 64) (hrest : EndsValue rest) :
    natural.run ((toString n).toList ++ rest) = .ok (n, rest) := by
  have hnumber := run_number (Nat.le_of_lt_succ hn) hrest
  have hdigits : (toString n).toList = Nat.toDigits 10 n := by simp
  have hdigit : ∀ c ∈ Nat.toDigits 10 n, c.isDigit = true := fun c =>
    Nat.isDigit_of_mem_toDigits (by decide) (by decide)
  rw [hdigits]
  obtain ⟨c, cs, hcs⟩ := List.exists_cons_of_ne_nil (Nat.toDigits_ne_nil (n := n) (b := 10))
  rw [hcs, List.cons_append] at hnumber ⊢
  have hc : c.isDigit = true := hdigit c (by simp [hcs])
  have hne {b : Char} (hb : b.isDigit = false) : c ≠ b := by
    rintro rfl
    exact absurd hc (by simp [hb])
  have hblank : isBlank c = false := by
    simp [isBlank, hne (b := ' ') rfl, hne (b := '\t') rfl, hne (b := '\n') rfl,
      hne (b := '\r') rfl]
  rw [natural, run_bind_of_ok (run_peekIn hblank _), if_neg (hne rfl), if_pos hc,
    run_bind_of_ok hnumber]
  rfl

lemma run_boolean (b : Bool) : boolean.run ((toString b).toList ++ rest) = .ok (b, rest) := by
  cases b
  · rfl
  · rfl

lemma run_path_none : path.run ("null".toList ++ rest) = .ok (none, rest) :=
  rfl

lemma run_path_some (t : String) :
    path.run ((Text.inDocument t).toList ++ rest) = .ok (some t, rest) := by
  have hstring := run_string t rest
  rw [toList_inDocument, List.cons_append] at hstring ⊢
  rw [path, run_bind_of_ok (run_peek? rfl)]
  exact run_bind_of_ok hstring

lemma run_variant {ofName? : String → Option α} {unknown : String → Problem} {name : String}
    (h : ofName? name = some a) :
    (variant ofName? unknown).run ((Text.inDocument name).toList ++ rest) = .ok (a, rest) := by
  have hstring := run_string name rest
  rw [toList_inDocument, List.cons_append] at hstring ⊢
  rw [variant, run_bind_of_ok (run_peekIn rfl _), if_pos rfl, variant.named,
    run_bind_of_ok hstring, h]
  rfl

lemma ofName?_transform (t : Transform) : Transform.ofName? t.name = some t := by
  cases t <;> rfl

lemma ofName?_strategy (s : Strategy) : Strategy.ofName? s.name = some s := by
  cases s <;> rfl

lemma ofName?_field (f : Field) : Field.ofName? f.name = some f := by
  cases f <;> rfl

/-! ### Members -/

/-- The next key of an object, if there is one. -/
def key? (first : Bool) : Reader (Option String) := do
  if ← hasKey first then return some (← string) else return none

lemma run_hasKey (first : Bool) :
    (hasKey first).run ((if first then [] else [',']) ++ '"' :: s) = .ok (true, '"' :: s) := by
  cases first <;> rfl

lemma run_hasKey_end (first : Bool) :
    (hasKey first).run ('\x7d' :: s) = .ok (false, '\x7d' :: s) := by
  cases first <;> rfl

lemma run_key?_string (first : Bool) (name : String) (rest : List Char) :
    (key? first).run ((if first then [] else [',']) ++ ((Text.inDocument name).toList ++ rest)) =
      .ok (some name, rest) := by
  have hstring := run_string name rest
  rw [toList_inDocument, List.cons_append] at hstring ⊢
  rw [key?, run_bind_of_ok (run_hasKey first), if_pos rfl]
  exact run_bind_of_ok hstring

lemma run_key?_end (first : Bool) :
    (key? first).run ('\x7d' :: s) = .ok (none, '\x7d' :: s) := by
  rw [key?, run_bind_of_ok (run_hasKey_end first)]
  rfl

/-- The member with a key, behind the key. -/
def member (d : Draft) (key : String) : Reader Draft :=
  (Field.ofName? key).elim (throw (.unknownField key)) fun f =>
    if d.has f then throw (.repeatedField f) else do
      colon
      values.field d f

/-- The fields that were not read. -/
def Draft.unseen (d : Draft) : List Field :=
  Field.all.filter fun f => !d.has f

lemma Draft.mem_unseen {d : Draft} {f : Field} : f ∈ d.unseen ↔ d.has f = false := by
  have hall : f ∈ Field.all := by cases f <;> decide
  simp [unseen, hall]

lemma Draft.unseen_eq_erase {d d' : Draft} {f : Field}
    (h : ∀ g, d'.has g = (d.has g || decide (g = f))) : d'.unseen = d.unseen.erase f := by
  have hnodup : d.unseen.Nodup := List.Nodup.filter _ (by decide)
  rw [hnodup.erase_eq_filter, unseen, unseen, List.filter_filter]
  refine List.filter_congr fun g _ => ?_
  rw [h, Bool.not_or, Bool.and_comm, bne, beq_eq_decide]

/-- Behind a field, the fields that were not read are those of before without it. -/
lemma field_bind_unseen {α : Type} (d : Draft) (f : Field) (k : List Field → Draft → Reader α) :
    (values.field d f >>= fun d' => k (d.unseen.erase f) d') =
      values.field d f >>= fun d' => k d'.unseen d' := by
  cases f <;>
  · simp only [Values.field, bind_assoc, pure_bind]
    refine bind_congr fun a => congrArg (fun unseen => k unseen _) ?_
    refine (Draft.unseen_eq_erase fun g => ?_).symm
    cases g <;> simp [Draft.has]

lemma members_unseen (first : Bool) (d : Draft) : members first d.unseen d =
    key? first >>= fun key? => key?.elim (pure d) fun key =>
      member d key >>= fun d => members false d.unseen d := by
  rw [members, key?, bind_assoc]
  refine bind_congr fun hasKey => ?_
  cases hasKey with
  | false => simp
  | true =>
    simp only [Bool.not_true, Bool.false_eq_true, if_false, if_true, bind_assoc, pure_bind,
      Option.elim_some]
    refine bind_congr fun key => ?_
    unfold member
    cases Field.ofName? key with
    | none => rfl
    | some f =>
      dsimp only [Option.elim_some]
      cases hd : d.has f with
      | true =>
        have hf : f ∉ d.unseen := by simp [Draft.mem_unseen, hd]
        rw [dif_neg hf]
        rfl
      | false =>
        have hf : f ∈ d.unseen := Draft.mem_unseen.2 hd
        simp [hf, field_bind_unseen]

/-! ### The decoder -/

/-- The reader of this library, part by part. -/
def decoder : Decoder where
  toValues := values
  key? := key?
  colon := colon
  member := member
  members first d := members first d.unseen d
  finish d := d.size.elim (.error .missingSize) fun size => .ok (d.config size)
  decode := decode

lemma run_document (s : List Char) : document.run ('\x7b' :: s) =
    (decoder.members true {} >>= fun d =>
      d.size.elim (throw .missingSize) fun size => do advance; return d.config size).run s := by
  rw [document, run_bind_of_ok (run_peekIn rfl _), if_pos rfl, run_bind_of_ok run_advance]
  refine congrArg (StateT.run · s) (bind_congr fun d => ?_)
  cases d.size <;> rfl

lemma decode_object {d : Draft} (h : (decoder.members true {}).run s = .ok (d, ['\x7d'])) :
    decode ("\x7b" ++ String.ofList s) = decoder.finish d := by
  have hrun := run_document s
  rw [run_bind_of_ok h] at hrun
  have htext : ("\x7b" ++ String.ofList s).toList = '\x7b' :: s := by simp
  rw [decode, htext, hrun]
  cases hd : d.size with
  | none => simp only [decoder, hd]; rfl
  | some size => simp only [decoder, hd]; rfl

lemma decode_error {e : Problem} (h : (decoder.members true {}).run s = .error e) :
    decode ("\x7b" ++ String.ofList s) = .error e := by
  have htext : ("\x7b" ++ String.ofList s).toList = '\x7b' :: s := by simp
  rw [decode, htext, run_document, StateT.run_bind, h]
  rfl

/-- The reader of this library reads what its writer writes. -/
lemma isLawful_decoder : decoder.IsLawful .plain where
  key_string first name rest := run_key?_string first name (':' :: rest)
  path_string t _ _ := run_path_some t
  path_null _ _ := run_path_none
  transform_string t _ _ := run_variant (ofName?_transform t)
  strategy_string s _ _ := run_variant (ofName?_strategy s)
  natural_natural _ _ hn hrest := run_natural hn hrest
  boolean_boolean b _ _ := run_boolean b
  key_end first _ := run_key?_end first
  run_colon _ := rfl
  members_eq first d := members_unseen first d
  decode_object _ _ h := decode_object h
  decode_error _ _ h := decode_error h
  member_eq d f hd := by simp [decoder, member, ofName?_field, hd]
  member_repeated d f hd := by simp [decoder, member, ofName?_field, hd]
  finish_eq d n hd := by simp [decoder, hd]

end Reader

/-! ### Whole documents -/

variable {D : Decoder} {w : Literals} {c : Config} {fields : List Field}

/-- The fields that are written are those that are set. -/
lemma textOf_eq (w : Literals) (c : Config) (fields : List Field) :
    c.textOf w fields = c.explicitText w (fields.filter fun f => (c.fieldText? w f).isSome) := by
  have hmembers : (fields.filterMap fun f =>
      (c.fieldText? w f).map fun value => w.string f.name ++ ":" ++ value) =
      (fields.filter fun f => (c.fieldText? w f).isSome).map fun f =>
        w.string f.name ++ ":" ++ c.valueText w f := by
    induction fields with
    | nil => rfl
    | cons f fields ih =>
      cases hf : c.fieldText? w f with
      | none => simp [hf, ih]
      | some value => simp [hf, ih, valueText]
  rw [textOf, explicitText, hmembers]

/-- A field that is not set has its default. -/
lemma sameAt_of_fieldText?_eq_none {f : Field} (h : c.fieldText? w f = none) :
    c.SameAt { size := c.size } f := by
  cases f with
  | output => simpa [fieldText?, SameAt] using h
  | _ => simp [fieldText?] at h

/-- What is written of a configuration is read as that configuration by every lawful decoder,
whatever the order of the fields and whichever of those with their default are left out. An output
that is not set is left out by the writer, and may be given as null. A field that is given again is
refused. -/
theorem ofText_textOf (hD : D.IsLawful w) (hvalid : c.validate = .ok ()) (hsize : c.size < 2 ^ 64)
    (hlines : c.maxFunctionLines < 2 ^ 64) (hnodup : fields.Nodup) (hmem : .size ∈ fields)
    (hdefault : ∀ f ∉ fields, c.SameAt { size := c.size } f) :
    ofTextBy D.decode (c.textOf w fields) = .ok c ∧
    ofTextBy D.decode (c.explicitText w fields) = .ok c ∧
    ∀ f ∈ fields,
      ofTextBy D.decode (c.explicitText w (fields ++ [f])) = .error (.repeatedField f) := by
  have hwords : c.HasWords := ⟨hsize, hlines⟩
  refine ⟨?_, hD.ofTextBy_explicitText hvalid hwords hnodup hmem hdefault,
    fun f hf => hD.ofTextBy_explicitText_append hwords hnodup hf⟩
  rw [textOf_eq]
  refine hD.ofTextBy_explicitText hvalid hwords (hnodup.filter _) (List.mem_filter.2 ⟨hmem, rfl⟩)
    fun f hf => ?_
  by_cases hfields : f ∈ fields
  · have hnone : c.fieldText? w f = none := by simpa [hfields] using hf
    exact sameAt_of_fieldText?_eq_none hnone
  · exact hdefault f hfields

/-- A configuration whose output has a quote, a backslash, controls and characters of several
bytes. -/
def quotedConfig : Config :=
  { size := 12, output := some "\"\\\x01\n é😀", transform := .fourier, strategy := .calls,
    maxFunctionLines := 0xFFFFFFFFFFFFFFFF }

/-- Five fields out of their order, without those that have their default, by the reader of this
library. -/
theorem ofText_textOf_quoted :
    quotedConfig.textOf .plain [.output, .maxFunctionLines, .size, .strategy, .transform] =
      "\x7b\"output\":\"\\\"\\\\\\u0001\\n é😀\"," ++
        "\"max_function_lines\":18446744073709551615,\"N\":12," ++
        "\"strategy\":\"subroutine\",\"transform\":\"fft\"\x7d" ∧
    ofText (quotedConfig.textOf .plain [.output, .maxFunctionLines, .size, .strategy, .transform]) =
      .ok quotedConfig := by
  refine ⟨by decide +kernel, (ofText_textOf Reader.isLawful_decoder rfl (by decide) (by decide)
    (by decide) (by decide) fun f hf => ?_).1⟩
  cases f with
  | orthogonal | annotate | verify => rfl
  | _ => exact absurd (by decide) hf

end MixedRadix.Config
