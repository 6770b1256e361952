import MixedRadix.Proofs.BodyLines

/-!
# Source files of kernels

The source file of a kernel is well-formed, so that its text is read as it was laid out
(`Kernel.read_source`). Its functions have identifiers for names, also the functions of the parts
into which the live stream of a kernel made of calls is cut.
-/

namespace MixedRadix

variable {R : Type}

open Outline

/-! ### Parts -/

lemma chunks_of_ne_nil {α : Type} (k : ℕ) {xs : List α} (h : xs ≠ []) :
    chunks k xs = xs.take (k + 1) :: chunks k (xs.drop (k + 1)) := by
  rw [chunks, if_neg (by simpa using h)]

lemma flatten_chunks {α : Type} (k : ℕ) (xs : List α) : (chunks k xs).flatten = xs := by
  fun_induction chunks k xs with
  | case1 xs h => simpa using h.symm
  | case2 xs h ih => rw [List.flatten_cons, ih, List.take_append_drop]

/-- No piece is too long, and none is empty. -/
lemma length_of_mem_chunks {α : Type} {k : ℕ} {xs piece : List α} (h : piece ∈ chunks k xs) :
    piece.length ≤ k + 1 ∧ piece ≠ [] := by
  fun_induction chunks k xs with
  | case1 xs hempty => simp at h
  | case2 xs hempty ih =>
    rcases List.mem_cons.1 h with rfl | h
    · refine ⟨List.length_take_le _ _, ?_⟩
      simpa using hempty
    · exact ih h

section Parts

variable {maxLines : ℕ} {stream : List (Instruction R)}

lemma liveParts_of_nil (h : stream.filter (·.isLive) = []) : liveParts maxLines stream = [[]] := by
  rw [liveParts, h]
  rfl

lemma liveParts_of_ne_nil (h : stream.filter (·.isLive) ≠ []) :
    liveParts maxLines stream = chunks (maxLines - 1) (stream.filter (·.isLive)) := by
  rw [liveParts, if_neg (by simpa using h)]

lemma flatten_liveParts : (liveParts maxLines stream).flatten = stream.filter (·.isLive) := by
  by_cases h : stream.filter (·.isLive) = []
  · rw [liveParts_of_nil h, h]
    rfl
  · rw [liveParts_of_ne_nil h, flatten_chunks]

lemma liveParts_ne_nil : liveParts maxLines stream ≠ [] := by
  by_cases h : stream.filter (·.isLive) = []
  · simp [liveParts_of_nil h]
  · simp [liveParts_of_ne_nil h, chunks_of_ne_nil _ h]

lemma length_of_mem_liveParts (hmax : maxLines ≠ 0) {part : List (Instruction R)}
    (h : part ∈ liveParts maxLines stream) :
    part.length ≤ maxLines ∧ (stream.filter (·.isLive) ≠ [] → part ≠ []) := by
  by_cases hlive : stream.filter (·.isLive) = []
  · rw [liveParts_of_nil hlive, List.mem_singleton] at h
    exact ⟨by simp [h], fun hne => absurd hlive hne⟩
  · rw [liveParts_of_ne_nil hlive] at h
    obtain ⟨hle, hne⟩ := length_of_mem_chunks h
    exact ⟨by omega, fun _ => hne⟩

end Parts

/-! ### Well-formed files -/

namespace Kernel

variable (k : Kernel R)

/-- Letters and digits behind the name of the kernel's function make other names. -/
lemma isIdentifier_functionName_append {back : String}
    (hback : ∀ c ∈ back.toList, isNameChar c = true) : IsIdentifier (k.functionName ++ back) := by
  have hname {letters : String} (h : startsIdentifier letters = true) :
      IsIdentifier (letters ++ toString k.size ++ back) := by
    rw [String.append_assoc]
    refine isIdentifier_append h fun c hc => ?_
    rw [String.toList_append, List.mem_append] at hc
    exact hc.elim (isNameChar_of_mem_toString c) (hback c)
  unfold functionName
  cases k.transform with
  | cosineForward | cosineInverse | fourier => exact hname (by decide)

lemma isIdentifier_functionName : IsIdentifier k.functionName := by
  have hname : IsIdentifier (k.functionName ++ "") :=
    k.isIdentifier_functionName_append (by simp)
  rwa [String.append_empty] at hname

lemma isIdentifier_partName (j : ℕ) : IsIdentifier (k.partName j) := by
  have hback : ∀ c ∈ ("_part" ++ toString j).toList, isNameChar c = true := by
    intro c hc
    rw [String.toList_append, List.mem_append] at hc
    have hletters : "_part".toList.all isNameChar = true := by decide
    exact hc.elim (List.all_eq_true.1 hletters c) (isNameChar_of_mem_toString c)
  have hname := k.isIdentifier_functionName_append hback
  rwa [← String.append_assoc] at hname

lemma isLine_of_mem_docLines {text : String} (h : text ∈ k.docLines) : IsLine text := by
  have htitle : IsLine k.title := by
    unfold title
    split <;> simp [IsLine]
  have hformula : IsLine k.formula := by
    unfold formula
    split <;> simp [IsLine]
  have hremark : IsLine k.remark := by
    unfold remark
    split
    · simp [IsLine]
    split <;> simp [IsLine]
  simp only [docLines, List.mem_cons, List.not_mem_nil, or_false] at h
  rcases h with rfl | rfl | rfl | rfl
  · simpa [IsLine] using htitle
  · simp [IsLine]
  · simpa [IsLine] using hformula
  · exact hremark

lemma isQuiet_of_mem_header {line : String} (h : line ∈ k.header) : IsLine line ∧ IsQuiet line := by
  have hname : IsLine k.transform.name := by
    cases k.transform <;> simp [Transform.name, IsLine]
  simp only [header, List.mem_cons, List.not_mem_nil, or_false] at h
  rcases h with rfl | rfl | rfl
  · exact ⟨by simp [IsLine], isQuiet_of_first (c := '/') (by simp) (by decide) (by decide)⟩
  · exact ⟨by simp [IsLine], isQuiet_of_first (c := '/') (by simp) (by decide) (by decide)⟩
  · refine ⟨?_, isQuiet_of_first (c := '/') (by simp) (by decide) (by decide)⟩
    simpa [IsLine] using hname

lemma areIdentifiers : k.slotNames.AreIdentifiers :=
  k.transform.areIdentifiers

lemma name_mem_of_mem_laneParameters {p : Parameter} (h : p ∈ k.laneParameters) :
    p.name ∈ [k.slotNames.input, k.slotNames.output, k.slotNames.real, k.slotNames.imag] := by
  simp only [laneParameters, List.mem_cons, List.not_mem_nil, or_false] at h
  rcases h with rfl | rfl <;> simp

lemma name_mem_of_mem_parameters {p : Parameter} (h : p ∈ k.parameters) :
    p.name ∈ [k.slotNames.input, k.slotNames.output, k.slotNames.real, k.slotNames.imag] := by
  unfold parameters at h
  split at h
  · simp only [List.mem_cons, List.not_mem_nil, or_false] at h
    rcases h with rfl | rfl <;> simp
  · exact k.name_mem_of_mem_laneParameters h

lemma isName_of_mem_laneParameters {p : Parameter} (h : p ∈ k.laneParameters) : IsName p.name :=
  (k.areIdentifiers.isIdentifier _ (k.name_mem_of_mem_laneParameters h)).isName

lemma isName_of_mem_parameters {p : Parameter} (h : p ∈ k.parameters) : IsName p.name :=
  (k.areIdentifiers.isIdentifier _ (k.name_mem_of_mem_parameters h)).isName

lemma flatten_parts : k.parts.flatten = k.liveEntries := by
  unfold parts
  split
  · exact flatten_liveParts
  · simp

section Texts

variable [ScalarText R] {k}

lemma isLine_text [PlainScalarText R]
    (hcomment : ∀ text, .comment text ∈ k.liveEntries → IsLine text) {inst : Instruction R}
    (h : inst ∈ k.liveEntries) : IsLine (inst.text k.slotNames) := by
  cases inst with
  | comment text => exact IsLine.append (by simp [IsLine]) (hcomment text h)
  | op o => exact o.stmt.isLine_text k.areIdentifiers

variable (hentries : ∀ inst ∈ k.liveEntries, IsLine (inst.text k.slotNames))

include hentries

/-- Lines that print entries of the kernel. -/
lemma isLine_of_mem_entries {entries : List (Instruction R)}
    (hmem : ∀ inst ∈ entries, inst ∈ k.liveEntries) {line : BodyLine R}
    (hline : line ∈ entries.map .entry) : IsLine (line.text k.slotNames) := by
  obtain ⟨inst, hinst, rfl⟩ := List.mem_map.1 hline
  exact hentries inst (hmem inst hinst)

lemma isWellFormed_of_mem_unrolledFunctions {f : FunctionText R} (hf : f ∈ k.unrolledFunctions) :
    f.IsWellFormed k.slotNames := by
  rcases List.mem_cons.1 hf with rfl | hf
  · refine ⟨k.isIdentifier_functionName.isName, fun _ => k.isName_of_mem_parameters,
      fun _ => k.isLine_of_mem_docLines, fun line => isLine_of_mem_entries hentries ?_⟩
    simp [flatten_parts]
  · obtain ⟨-, rfl⟩ : k.transform.isCosine = true ∧ f = k.inPlaceFunction := by simpa using hf
    have hname := k.isIdentifier_functionName.isName
    have hletters : IsName "_in_place" := ⟨by simp, by simp [isSeparator, separators]⟩
    have hbuffer : IsName "buf" := ⟨by simp, by simp [isSeparator, separators]⟩
    refine ⟨hname.append hletters, ?_, ?_, fun line hline => ?_⟩
    · simpa [inPlaceFunction] using hbuffer
    · simpa [inPlaceFunction, IsLine] using hname.isLine
    · simp only [inPlaceFunction, List.mem_cons, List.not_mem_nil, or_false] at hline
      rcases hline with rfl | rfl | rfl
      · simp [BodyLine.text, IsLine]
      · simp [BodyLine.text, IsLine]
      · simpa [BodyLine.text, IsLine] using hname.isLine

lemma isWellFormed_of_mem_calledFunctions {f : FunctionText R} (hf : f ∈ k.calledFunctions) :
    f.IsWellFormed k.slotNames := by
  have hparts : ∀ part ∈ k.parts, ∀ inst ∈ part, inst ∈ k.liveEntries := by
    intro part hpart inst hinst
    rw [← k.flatten_parts]
    exact List.mem_flatten.2 ⟨part, hpart, hinst⟩
  unfold calledFunctions at hf
  split at hf
  case h_1 part hpart =>
    rw [List.mem_singleton.1 hf]
    exact ⟨k.isIdentifier_functionName.isName, fun _ => k.isName_of_mem_laneParameters,
      fun _ => k.isLine_of_mem_docLines,
      fun _ => isLine_of_mem_entries hentries (hparts part (by simp [hpart]))⟩
  case h_2 =>
    rcases List.mem_append.1 hf with hf | hf
    · obtain ⟨⟨part, j⟩, hpart, rfl⟩ := List.mem_map.1 hf
      have hmem : part ∈ k.parts := List.fst_mem_of_mem_zipIdx hpart
      exact ⟨(k.isIdentifier_partName j).isName, fun _ => k.isName_of_mem_laneParameters,
        by simp [partFunction], fun _ => isLine_of_mem_entries hentries (hparts part hmem)⟩
    · rw [List.mem_singleton.1 hf]
      refine ⟨k.isIdentifier_functionName.isName, fun _ => k.isName_of_mem_laneParameters,
        fun _ => k.isLine_of_mem_docLines, fun line hline => ?_⟩
      obtain ⟨j, -, rfl⟩ := List.mem_map.1 hline
      have hnames := k.areIdentifiers
      have hname : IsLine (k.partName j) := (k.isIdentifier_partName j).isName.isLine
      have hreal : IsLine k.slotNames.real := (hnames.isIdentifier _ (by simp)).isName.isLine
      have himag : IsLine k.slotNames.imag := (hnames.isIdentifier _ (by simp)).isName.isLine
      simpa [BodyLine.text, partCall, IsLine] using And.intro hname ⟨hreal, himag⟩

lemma isWellFormed_sourceFile : k.sourceFile.IsWellFormed k.slotNames := by
  unfold sourceFile
  split
  · exact ⟨fun _ => k.isQuiet_of_mem_header,
      fun _ => isWellFormed_of_mem_unrolledFunctions hentries⟩
  · exact ⟨fun _ => k.isQuiet_of_mem_header,
      fun _ => isWellFormed_of_mem_calledFunctions hentries⟩

/-- The source of the kernel is read as it was laid out. -/
theorem read_source : Outline.read k.source = k.sourceFile.outline k.slotNames :=
  SourceFile.read_text (isWellFormed_sourceFile hentries)

end Texts

end Kernel

end MixedRadix
