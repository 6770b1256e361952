import MixedRadix.Cosine.Scaling
import MixedRadix.Proofs.Bundle
import MixedRadix.Proofs.Factorization
import MixedRadix.Proofs.Finished

/-!
# Results of cosine kernels

Code that stores one result after the other leaves them in the outputs of every machine that runs it
(`Cosine.exists_transforms`).
-/

namespace MixedRadix

namespace Cosine

variable {R : Type} {n : ℕ}

/-! ### Outputs -/

/-- The first results, as they are stored. -/
def outputsOf (y : ℕ → R) (count : ℕ) : List (Symbol × R) :=
  (List.range count).map fun k => (.output k, y k)

lemma outputsOf_succ (y : ℕ → R) (count : ℕ) :
    outputsOf y (count + 1) = outputsOf y count ++ [(.output count, y count)] := by
  simp [outputsOf, List.range_succ]

lemma nodup_outputsOf (y : ℕ → R) (count : ℕ) : ((outputsOf y count).map Prod.fst).Nodup := by
  have hsymbols : (outputsOf y count).map Prod.fst = (List.range count).map Symbol.output := by
    simp [outputsOf]
  rw [hsymbols]
  exact List.nodup_range.map fun i j h => Symbol.output.inj h

lemma isTemp_of_mem_outputsOf {y : ℕ → R} {count : ℕ} :
    ∀ p ∈ outputsOf y count, p.1.isTemp = false := by
  simp only [outputsOf, List.mem_map]
  rintro p ⟨k, -, rfl⟩
  rfl

variable [Scalar R]

/-- The books of the builder are closed, and on every machine that has room for
the temporaries of its finished code, this leaves `results` of the samples in the outputs. -/
structure Transforms (n : ℕ) (results : (ℕ → R) → ℕ → R) (b : Builder R) : Prop where
  closed : b.Closed
  execute : ∀ (m : Machine R) (x : ℕ → R) (out : Array R), (∀ i < n, m.input[i]? = some (x i)) →
    m.output = some out → out.size = n → m.HasTemps b.eliminateDeadCode.2.stream.toList →
    ∃ m' out', m.execute b.shiftTables b.eliminateDeadCode.2.stream.toList = .ok m' ∧
      m'.output = some out' ∧ out'.size = n ∧ ∀ k < n, out'[k]? = some (results x k)

/-- Code that stores results makes a kernel that leaves them in its outputs. -/
lemma exists_transforms {e : Build R Unit} {results : (ℕ → R) → ℕ → R}
    (he : ∀ (S : Scene R) (x : ℕ → R), (∀ i < n, S.value (.input i) = some (x i)) →
      (∀ k < n, S.Writable (.output k)) →
      Emits S e fun _ S' => S' = S.storeAll (outputsOf (results x) n)) (annotate : Bool) :
    ∃ b, e.run.run { annotate } = (.ok (), b) ∧ Transforms n results b := by
  obtain ⟨_, b, _, hrun, hem, hend⟩ := he (.start fun _ => some Scalar.nan) (fun _ => Scalar.nan)
    (fun i _ => rfl) (fun k _ => rfl) { annotate } (Builder.holds_start _ _)
  refine ⟨b, hrun, hem.closed (by rw [hend, Scene.storeAll_held]; rfl),
    fun m x out hinput hout hsize htemps => ?_⟩
  have houtput (k : ℕ) (hk : k < n) : (m.contents? (.output k)).isSome := by
    simp [Machine.contents?, hout, hsize, hk]
  obtain ⟨_, b', S, hrun', hem', hS⟩ := he (.start m.contents?) x hinput houtput { annotate }
    (Builder.holds_start _ _)
  obtain rfl : b = b' := congrArg Prod.snd (hrun.symm.trans hrun')
  obtain ⟨m', hm', hshape, hresults⟩ := hem'.finish b.shiftTables
    (Machine.separate_iff.2 (Or.inl (by simp [hout]))) (fun _ h => h) htemps
  simp only [Machine.shape, Prod.mk.injEq] at hshape
  obtain ⟨-, -, hshape, -, -⟩ := hshape
  rw [hout, Option.map_some, Option.map_eq_some_iff] at hshape
  obtain ⟨out', hout', hsize'⟩ := hshape
  refine ⟨m', out', hm', hout', hsize'.trans hsize, fun k hk => ?_⟩
  obtain ⟨hvalue, hsettled⟩ := Scene.storeAll_mem (S := .start m.contents?)
    (nodup_outputsOf (results x) n) isTemp_of_mem_outputsOf
    (List.mem_map_of_mem (List.mem_range.2 hk))
  rw [hS] at hresults
  simpa [Machine.contents?, hout'] using hresults _ hsettled _ hvalue

/-! ### Sizes -/

lemma checkSize_eq_ok (hn : n % 2 = 0) (hsmooth : n / 2 ∈ Nat.smoothNumbers 6) :
    checkSize n = .ok () := by
  have hpos := Nat.ne_zero_of_mem_smoothNumbers hsmooth
  obtain ⟨f, hf, -⟩ := Factorization.exists_ofSize hsmooth
  rw [checkSize, if_neg (by omega), hf]
  rfl

lemma of_checkSize (h : checkSize n = .ok ()) : 0 < n ∧ n % 2 = 0 := by
  unfold checkSize at h
  split at h
  · simp at h
  · omega

end Cosine

end MixedRadix
