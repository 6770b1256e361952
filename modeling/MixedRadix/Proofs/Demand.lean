import MixedRadix.Proofs.Footprint
import MixedRadix.Proofs.Liveness

/-!
# What code needs

Which operations of a piece of code are needed depends on the code behind it only through the
symbols whose values that code needs. `Marks D₁ ops marked D₂` says what elimination of dead code
makes of some operations: if the code behind them needs what the outlook `D₂` says, then `marked`
are those that are pruned, and `D₁` tells what is needed before them. Such statements are chained
from the end of the code to its start. Of straight-line code that is of use to what follows, nothing
is pruned (`marks_of_useful`).
-/

namespace MixedRadix

variable {R : Type}

/-- What is known of the code behind a point: it needs the values of some symbols, and does not need
those of others. -/
structure Outlook where
  needed : Set Symbol
  unneeded : Set Symbol

/-- The outlook is true of some code. -/
def Outlook.Of (D : Outlook) (rest : List (Op R)) : Prop :=
  (∀ s ∈ D.needed, demands rest s = true) ∧ ∀ s ∈ D.unneeded, demands rest s = false

variable {D D₁ D₂ D₃ : Outlook} {ops ops' marked marked' rest : List (Op R)} {o : Op R} {s : Symbol}

/-- In front of code of which the second outlook is true, elimination of dead code prunes `marked`
among some operations, and the first outlook is true of both together. -/
structure Marks (D₁ : Outlook) (ops marked : List (Op R)) (D₂ : Outlook) : Prop where
  unpruned : ∀ o ∈ ops, o.pruned = false
  outlook : ∀ rest : List (Op R), D₂.Of rest → D₁.Of (ops ++ rest)
  marked_eq : ∀ rest : List (Op R), D₂.Of rest →
    (markPruned (ops ++ rest)).filter (·.pruned) = marked ++ (markPruned rest).filter (·.pruned)

namespace Marks

lemma nil (hneeded : D₁.needed ⊆ D₂.needed) (hunneeded : D₁.unneeded ⊆ D₂.unneeded) :
    Marks D₁ ([] : List (Op R)) [] D₂ :=
  ⟨by simp, fun _ h => ⟨fun s hs => h.1 s (hneeded hs), fun s hs => h.2 s (hunneeded hs)⟩,
    fun _ _ => rfl⟩

lemma append (h : Marks D₁ ops marked D₂) (h' : Marks D₂ ops' marked' D₃) :
    Marks D₁ (ops ++ ops') (marked ++ marked') D₃ := by
  refine ⟨fun o ho => ?_, fun rest hrest => ?_, fun rest hrest => ?_⟩
  · exact (List.mem_append.1 ho).elim (h.unpruned o) (h'.unpruned o)
  · rw [List.append_assoc]
    exact h.outlook _ (h'.outlook _ hrest)
  · rw [List.append_assoc, h.marked_eq _ (h'.outlook _ hrest), h'.marked_eq _ hrest,
      List.append_assoc]

lemma seq (h : Marks D₁ ops [] D₂) (h' : Marks D₂ ops' marked D₃) :
    Marks D₁ (ops ++ ops') marked D₃ :=
  h.append h'

/-- Less is known before. -/
lemma mono (h : Marks D₁ ops marked D₂) (hneeded : D.needed ⊆ D₁.needed)
    (hunneeded : D.unneeded ⊆ D₁.unneeded) : Marks D ops marked D₂ :=
  (nil hneeded hunneeded).append h

/-- More is known behind. -/
lemma weaken (h : Marks D₁ ops marked D₂) (hneeded : D₂.needed ⊆ D₃.needed)
    (hunneeded : D₂.unneeded ⊆ D₃.unneeded) : Marks D₁ ops marked D₃ := by
  simpa using h.append (nil hneeded hunneeded)

/-- An operation whose results nobody needs is pruned. -/
lemma waste (hpruned : o.pruned = false) (hmandatory : o.mandatory = false)
    (houtputs : ∀ s ∈ o.outputs, s ∈ D₂.unneeded) (hneeded : D₁.needed ⊆ D₂.needed)
    (hunneeded : D₁.unneeded ⊆ D₂.unneeded) : Marks D₁ [o] [{ o with pruned := true }] D₂ := by
  have hnot (rest : List (Op R)) (hrest : D₂.Of rest) : o.outputs.any (demands rest) = false := by
    simpa using fun s hs => hrest.2 s (houtputs s hs)
  refine ⟨by simp [hpruned], fun rest hrest => ⟨fun s hs => ?_, fun s hs => ?_⟩,
    fun rest hrest => by simp [markPruned, isNeeded, hmandatory, hnot rest hrest]⟩
  · have hs' := hrest.1 s (hneeded hs)
    have houtput : s ∉ o.outputs := fun hmem => by simp [hrest.2 s (houtputs s hmem)] at hs'
    simp [demands, hpruned, houtput, hs']
  · simp [demands, hpruned, hmandatory, hnot rest hrest, hrest.2 s (hunneeded hs)]

end Marks

/-! ### Code of which everything is needed -/

/-- The value that a symbol has before some operations is read by one of them, or it is still there
behind them and belongs to `needed`. -/
def IsWanted (needed : Set Symbol) : List (Op R) → Symbol → Prop
  | [], s => s ∈ needed
  | o :: ops, s => s ∈ o.inputs ∨ s ∉ o.outputs ∧ IsWanted needed ops s

/-- Every operation is mandatory or has a result that is wanted behind it. -/
def AllWanted (needed : Set Symbol) : List (Op R) → Prop
  | [] => True
  | o :: ops => (o.mandatory = true ∨ ∃ s ∈ o.outputs, IsWanted needed ops s) ∧ AllWanted needed ops

section Wanted

variable {needed : Set Symbol} (hpruned : ∀ o ∈ ops, o.pruned = false)
  (hall : AllWanted needed ops) (hrest : ∀ s ∈ needed, demands rest s = true)

include hpruned hall hrest

lemma demands_of_isWanted (hs : IsWanted needed ops s) : demands (ops ++ rest) s = true := by
  induction ops generalizing s with
  | nil => exact hrest s hs
  | cons o ops ih =>
    have ih {s : Symbol} (hs : IsWanted needed ops s) :=
      ih (fun o' ho' => hpruned o' (List.mem_cons_of_mem o ho')) hall.2 hs
    rw [List.cons_append, demands, hpruned o (by simp), if_neg Bool.false_ne_true]
    rcases hs with hs | ⟨hs, hwanted⟩
    · rcases hall.1 with hmandatory | ⟨t, ht, hwanted⟩
      · simp [hs, hmandatory]
      · have hany : o.outputs.any (demands (ops ++ rest)) = true :=
          List.any_eq_true.2 ⟨t, ht, ih hwanted⟩
        simp [hs, hany]
    · simp [hs, ih hwanted]

lemma filter_markPruned_of_allWanted : (markPruned (ops ++ rest)).filter (·.pruned) =
    (markPruned rest).filter (·.pruned) := by
  induction ops with
  | nil => rfl
  | cons o ops ih =>
    have hpruned' : ∀ o' ∈ ops, o'.pruned = false := fun o' ho' =>
      hpruned o' (List.mem_cons_of_mem o ho')
    have hneeded : isNeeded o (ops ++ rest) = true := by
      rcases hall.1 with hmandatory | ⟨t, ht, hwanted⟩
      · simp [isNeeded, hmandatory]
      · rw [isNeeded, Bool.or_eq_true]
        exact Or.inr (List.any_eq_true.2 ⟨t, ht, demands_of_isWanted hpruned' hall.2 hrest hwanted⟩)
    rw [List.cons_append, markPruned, hneeded, hpruned o (by simp),
      List.filter_cons_of_neg (by simp)]
    exact ih hpruned' hall.2

end Wanted

/-- What no operation reads is needed by none of them. -/
lemma demands_append_eq_false (hreads : ∀ o ∈ ops, s ∉ o.inputs)
    (hrest : demands rest s = false) : demands (ops ++ rest) s = false := by
  induction ops with
  | nil => exact hrest
  | cons o ops ih =>
    have ih := ih fun o' ho' => hreads o' (List.mem_cons_of_mem o ho')
    simp [demands, hreads o (by simp), ih]

/-- Of code of which everything is wanted, nothing is pruned. -/
lemma marks_of_allWanted (hpruned : ∀ o ∈ ops, o.pruned = false) (hall : AllWanted D₂.needed ops)
    (hneeded : ∀ s ∈ D₁.needed, IsWanted D₂.needed ops s)
    (hunneeded : ∀ s ∈ D₁.unneeded, s ∈ D₂.unneeded ∧ ∀ o ∈ ops, s ∉ o.inputs) :
    Marks D₁ ops [] D₂ where
  unpruned := hpruned
  outlook _ hrest :=
    ⟨fun s hs => demands_of_isWanted hpruned hall hrest.1 (hneeded s hs), fun s hs =>
      demands_append_eq_false (hunneeded s hs).2 (hrest.2 s (hunneeded s hs).1)⟩
  marked_eq _ hrest := filter_markPruned_of_allWanted hpruned hall hrest.1

/-! ### Straight-line code -/

lemma isWanted_of_notMem {needed : Set Symbol} (hs : s ∉ ops.flatMap Op.outputs)
    (h : s ∈ needed ∨ ∃ o ∈ ops, s ∈ o.inputs) : IsWanted needed ops s := by
  induction ops with
  | nil => exact h.resolve_right (by simp)
  | cons o ops ih =>
    rw [List.flatMap_cons, List.mem_append, not_or] at hs
    rcases h with h | ⟨o', ho', h⟩
    · exact Or.inr ⟨hs.1, ih hs.2 (Or.inl h)⟩
    · rcases List.mem_cons.1 ho' with rfl | ho'
      · exact Or.inl h
      · exact Or.inr ⟨hs.1, ih hs.2 (Or.inr ⟨o', ho', h⟩)⟩

/-- Every operation is mandatory or has a result that belongs to `needed` or is read behind it. -/
def AllUseful (needed : Set Symbol) : List (Op R) → Prop
  | [] => True
  | o :: ops => (o.mandatory = true ∨ ∃ s ∈ o.outputs, s ∈ needed ∨ ∃ o' ∈ ops, s ∈ o'.inputs) ∧
      AllUseful needed ops

lemma AllUseful.allWanted {needed : Set Symbol} (h : AllUseful needed ops)
    (hnodup : (ops.flatMap Op.outputs).Nodup) : AllWanted needed ops := by
  induction ops with
  | nil => trivial
  | cons o ops ih =>
    rw [List.flatMap_cons, List.nodup_append] at hnodup
    obtain ⟨-, hnodup, hdisjoint⟩ := hnodup
    refine ⟨h.1.imp_right ?_, ih h.2 hnodup⟩
    rintro ⟨s, hs, h⟩
    exact ⟨s, hs, isWanted_of_notMem (fun hmem => hdisjoint s hs s hmem rfl) h⟩

lemma AllUseful.mono {needed needed' : Set Symbol} (h : AllUseful needed ops)
    (hsub : needed ⊆ needed') : AllUseful needed' ops := by
  induction ops with
  | nil => trivial
  | cons o ops ih =>
    refine ⟨h.1.imp_right ?_, ih h.2⟩
    rintro ⟨s, hs, h⟩
    exact ⟨s, hs, h.imp_left fun hs => hsub hs⟩

/-- Of straight-line code nothing is pruned, if it writes no symbol twice and none that is needed
before it, and if everything that it writes is read or needed behind it. -/
lemma marks_of_useful (hpruned : ∀ o ∈ ops, o.pruned = false)
    (hnodup : (ops.flatMap Op.outputs).Nodup) (huseful : AllUseful D₂.needed ops)
    (hneeded : ∀ s ∈ D₁.needed,
      s ∉ ops.flatMap Op.outputs ∧ (s ∈ D₂.needed ∨ ∃ o ∈ ops, s ∈ o.inputs))
    (hunneeded : ∀ s ∈ D₁.unneeded, s ∈ D₂.unneeded ∧ ∀ o ∈ ops, s ∉ o.inputs) :
    Marks D₁ ops [] D₂ :=
  marks_of_allWanted hpruned (huseful.allWanted hnodup)
    (fun s hs => isWanted_of_notMem (hneeded s hs).1 (hneeded s hs).2) hunneeded

/-- Of results that are stored nothing is pruned, and all that they are made of is needed. -/
lemma marks_stores {N U : Set Symbol} (hstores : ∀ o ∈ ops, o.pruned = false ∧ o.mandatory = true)
    (houtputs : ∀ o ∈ ops, ∀ s ∈ o.outputs, s ∉ N) (hread : ∀ s ∈ N, ∃ o ∈ ops, s ∈ o.inputs)
    (hunneeded : ∀ s ∈ U, ∀ o ∈ ops, s ∉ o.inputs) : Marks ⟨N, U⟩ ops [] ⟨∅, U⟩ := by
  have hall : AllWanted ∅ ops := by
    clear houtputs hread hunneeded
    induction ops with
    | nil => trivial
    | cons o ops ih =>
      exact ⟨.inl (hstores o (by simp)).2, ih fun o' ho' => hstores o' (List.mem_cons_of_mem o ho')⟩
  refine marks_of_allWanted (fun o ho => (hstores o ho).1) hall (fun s hs => ?_)
    fun s hs => ⟨hs, hunneeded s hs⟩
  refine isWanted_of_notMem (fun hmem => ?_) (.inr (hread s hs))
  obtain ⟨o, ho, hout⟩ := List.mem_flatMap.1 hmem
  exact houtputs o ho s hout hs

/-! ### Code that works in place -/

/-- All that is known is about symbols that are in use. -/
structure Outlook.Within (D : Outlook) (taken : Set Symbol) : Prop where
  needed : D.needed ⊆ taken
  unneeded : D.unneeded ⊆ taken
  disjoint : ∀ s ∈ D.needed, s ∉ D.unneeded

/-- Different symbols that are not in use. -/
structure Fresh (taken : Set Symbol) (ts : List Symbol) : Prop where
  nodup : ts.Nodup
  notMem : ∀ t ∈ ts, t ∉ taken

variable {N U taken : Set Symbol} {ts ts' old new live : List Symbol}

namespace Fresh

lemma right (h : Fresh taken (ts ++ ts')) : Fresh (taken ∪ {s | s ∈ ts}) ts' := by
  refine ⟨(List.nodup_append.1 h.nodup).2.1, ?_⟩
  rintro t ht (hmem | hmem)
  · exact h.notMem t (List.mem_append_right ts ht) hmem
  · exact List.disjoint_of_nodup_append h.nodup hmem ht

lemma left (h : Fresh taken (ts ++ ts')) : Fresh (taken ∪ {s | s ∈ ts'}) ts :=
  right ⟨List.nodup_append_comm.1 h.nodup, fun t ht => h.notMem t (by simpa [or_comm] using ht)⟩

lemma mono (h : Fresh taken ts) (hsub : N ⊆ taken) : Fresh N ts :=
  ⟨h.nodup, fun t ht hmem => h.notMem t ht (hsub hmem)⟩

end Fresh

lemma Outlook.Within.notMem_of_fresh (hD : D.Within taken) (hts : Fresh taken ts) (hs : s ∈ ts) :
    s ∉ D.needed ∧ s ∉ D.unneeded :=
  ⟨fun hmem => hts.notMem s hs (hD.needed hmem), fun hmem => hts.notMem s hs (hD.unneeded hmem)⟩

/-- Straight-line code that makes the values of `new` of those of `old`; behind it, those of `live`
are needed. -/
lemma marks_replace (old new live : List Symbol) (hpruned : ∀ o ∈ ops, o.pruned = false)
    (houtputs : ops.flatMap Op.outputs = new) (hnodup : new.Nodup)
    (huseful : AllUseful {s | s ∈ live} ops) (hnew : ∀ s ∈ new, s ∉ N ∧ s ∉ old)
    (hread : ∀ s ∈ old, ∃ o ∈ ops, s ∈ o.inputs)
    (hunneeded : ∀ s ∈ U, ∀ o ∈ ops, s ∉ o.inputs) :
    Marks ⟨N ∪ {s | s ∈ old}, U⟩ ops [] ⟨N ∪ {s | s ∈ live}, U⟩ := by
  subst houtputs
  refine marks_of_useful hpruned hnodup (huseful.mono fun s hs => .inr hs) ?_
    fun s hs => ⟨hs, hunneeded s hs⟩
  rintro s (hs | hs)
  · exact ⟨fun hmem => (hnew s hmem).1 hs, .inl (.inl hs)⟩
  · exact ⟨fun hmem => (hnew s hmem).2 hs, .inr (hread s hs)⟩

/-- Straight-line code that makes the values of `new` of what is not needed otherwise. -/
lemma marks_load (new : List Symbol) (hpruned : ∀ o ∈ ops, o.pruned = false)
    (houtputs : ops.flatMap Op.outputs = new) (hnodup : new.Nodup)
    (huseful : AllUseful {s | s ∈ new} ops) (hnew : ∀ s ∈ new, s ∉ N)
    (hunneeded : ∀ s ∈ U, ∀ o ∈ ops, s ∉ o.inputs) :
    Marks ⟨N, U⟩ ops [] ⟨N ∪ {s | s ∈ new}, U⟩ := by
  have hnone : ∀ s ∈ ([] : List Symbol), ∃ o ∈ ops, s ∈ o.inputs := by simp
  exact (marks_replace [] new new hpruned houtputs hnodup huseful
    (fun s hs => ⟨hnew s hs, by simp⟩) hnone hunneeded).mono Set.subset_union_left subset_rfl

/-- Code that reads nothing but scratch symbols and what is needed. -/
lemma Outlook.Within.notMem_inputs (hD : D.Within taken) (hold : ∀ s ∈ old, s ∈ D.needed)
    (hts : Fresh taken ts) (h : ∀ o ∈ ops, ∀ s ∈ o.inputs, s ∈ old ++ ts) :
    ∀ s ∈ D.unneeded, ∀ o ∈ ops, s ∉ o.inputs := by
  intro s hs o ho hinput
  rcases List.mem_append.1 (h o ho s hinput) with hmem | hmem
  · exact hD.disjoint s (hold s hmem) hs
  · exact (hD.notMem_of_fresh hts hmem).2 hs

/-- Code that works on the symbols of `old` in place: it assigns to scratch symbols, of which those
of `live` are needed when it goes on to assign to `old`; in between there may be other code. -/
lemma marks_around {front middle back : List (Op R)} (live : List Symbol) (hD : D.Within taken)
    (hts : Fresh taken ts) (hold : ∀ s ∈ old, s ∈ D.needed) (hnodup : old.Nodup)
    (hunneeded : ∀ s ∈ D.unneeded, ∀ o ∈ front ++ back, s ∉ o.inputs)
    (hpruned : ∀ o ∈ front ++ back, o.pruned = false)
    (hscratch : front.flatMap Op.outputs = ts) (hresults : back.flatMap Op.outputs = old)
    (huseful : AllUseful {s | s ∈ live} front) (huseful' : AllUseful {s | s ∈ old} back)
    (hread : ∀ s ∈ old, ∃ o ∈ front, s ∈ o.inputs)
    (hlive : ∀ s ∈ live, s ∈ ts ∧ ∃ o ∈ back, s ∈ o.inputs)
    (hmiddle : Marks ⟨D.needed \ {s | s ∈ old} ∪ {s | s ∈ live}, D.unneeded⟩ middle []
      ⟨D.needed \ {s | s ∈ old} ∪ {s | s ∈ live}, D.unneeded⟩) :
    Marks D (front ++ (middle ++ back)) [] D := by
  have hneeded : D.needed = D.needed \ {s | s ∈ old} ∪ {s | s ∈ old} :=
    (Set.sdiff_union_of_subset hold).symm
  have hfresh {s : Symbol} (hs : s ∈ ts) : s ∉ D.needed \ {s | s ∈ old} ∧ s ∉ old :=
    have hnot := (hD.notMem_of_fresh hts hs).1
    ⟨fun hmem => hnot hmem.1, fun hmem => hnot (hold s hmem)⟩
  have hfront := marks_replace old ts live (fun o ho => hpruned o (List.mem_append_left _ ho))
    hscratch hts.nodup huseful (fun s hs => hfresh hs) hread
    fun s hs o ho => hunneeded s hs o (List.mem_append_left _ ho)
  have hback := marks_replace (N := D.needed \ {s | s ∈ old}) live old old
    (fun o ho => hpruned o (List.mem_append_right _ ho)) hresults hnodup huseful'
    (fun s hs => ⟨fun hmem => hmem.2 hs, fun hmem => (hfresh (hlive s hmem).1).2 hs⟩)
    (fun s hs => (hlive s hs).2) fun s hs o ho => hunneeded s hs o (List.mem_append_right _ ho)
  have hall := hfront.seq (hmiddle.seq hback)
  rwa [← hneeded] at hall

/-- Code of which the first `n` operations assign to scratch symbols, and all others to `old`. -/
lemma marks_inPlace (n : ℕ) (live : List Symbol) (hD : D.Within taken) (hts : Fresh taken ts)
    (hold : ∀ s ∈ old, s ∈ D.needed) (hnodup : old.Nodup)
    (hunneeded : ∀ s ∈ D.unneeded, ∀ o ∈ ops, s ∉ o.inputs)
    (hpruned : ∀ o ∈ ops, o.pruned = false)
    (hscratch : (ops.take n).flatMap Op.outputs = ts)
    (hresults : (ops.drop n).flatMap Op.outputs = old)
    (huseful : AllUseful {s | s ∈ live} (ops.take n))
    (huseful' : AllUseful {s | s ∈ old} (ops.drop n))
    (hread : ∀ s ∈ old, ∃ o ∈ ops.take n, s ∈ o.inputs)
    (hlive : ∀ s ∈ live, s ∈ ts ∧ ∃ o ∈ ops.drop n, s ∈ o.inputs) : Marks D ops [] D := by
  rw [← List.take_append_drop n ops] at hunneeded hpruned ⊢
  exact marks_around live hD hts hold hnodup hunneeded hpruned hscratch hresults huseful huseful'
    hread hlive (.nil subset_rfl subset_rfl)

end MixedRadix
