import MixedRadix.Proofs.Called
import MixedRadix.Proofs.Finished
import MixedRadix.Proofs.Unrolled

/-!
# Results of Fourier kernels

Both kinds of code, straight-line and made of calls, leave the results of a plan in the complex
slots of every machine that runs it, whatever the arithmetic (`Fourier.exists_emitUnrolled`,
`Fourier.exists_emitCalled`).
-/

namespace MixedRadix.Fourier

variable {R : Type} [Scalar R] {n : ℕ}

/-- The books of the builder are closed, and on every machine that has room for the temporaries of
its finished code, this leaves `results` of the complex slots in them. -/
structure Performs (n : ℕ) (results : (ℕ → ComplexPair R) → ℕ → ComplexPair R) (b : Builder R) :
    Prop where
  closed : b.Closed
  execute : ∀ (m : Machine R) (z : ℕ → ComplexPair R), m.Separate →
    m.HasTemps b.eliminateDeadCode.2.stream.toList → m.lanes.Shows (n, n) z →
    ∃ m', m.execute b.shiftTables b.eliminateDeadCode.2.stream.toList = .ok m' ∧
      m'.lanes.Shows (n, n) (results z)

namespace Performs

variable {results results' : (ℕ → ComplexPair R) → ℕ → ComplexPair R} {b : Builder R}

lemma checkLifetimes (h : Performs n results b) : b.checkLifetimes = .ok () :=
  h.closed.checkLifetimes

lemma congr (h : Performs n results b) (heq : ∀ z, ∀ k < n, results z k = results' z k) :
    Performs n results' b := by
  refine ⟨h.closed, fun m z hm htemps hz => ?_⟩
  obtain ⟨m', hrun, hresults⟩ := h.execute m z hm htemps hz
  refine ⟨m', hrun, hresults.size_re, hresults.size_im, fun k hk => ?_, fun k hk => ?_⟩
  · rw [← heq z k hk]
    exact hresults.re k hk
  · rw [← heq z k hk]
    exact hresults.im k hk

end Performs

lemma exists_emitUnrolled (hplan : HasPlan n) (annotate : Bool) :
    ∃ u b, (emitUnrolled n : Build R _).run.run { annotate } = (.ok u, b) ∧
      Performs n (transformed unrolledTurn n) b := by
  obtain ⟨u, b, _, hrun, hem, hend⟩ := emits_emitUnrolled (R := R)
    (S := .start fun _ => some Scalar.nan) (x := fun _ => ⟨Scalar.nan, Scalar.nan⟩) hplan
    (fun _ _ => ⟨rfl, rfl⟩) { annotate } (Builder.holds_start _ _)
  refine ⟨u, b, hrun, hem.closed (by rw [hend, Scene.storeAll_held]; rfl),
    fun m z hm htemps hz => ?_⟩
  set y := transformed unrolledTurn n z
  obtain ⟨_, b', S, hrun', hem', hS⟩ := emits_emitUnrolled (S := .start m.contents?) (x := z) hplan
    (fun i hi => ⟨hz.re i hi, hz.im i hi⟩) { annotate } (Builder.holds_start _ _)
  obtain rfl : b = b' := congrArg Prod.snd (hrun.symm.trans hrun')
  obtain ⟨m', hm', hshape, hresults⟩ := hem'.finish b.shiftTables hm (fun _ h => h) htemps
  simp only [Machine.shape, Prod.mk.injEq] at hshape
  obtain ⟨-, -, -, hre, him⟩ := hshape
  have hresult {p : Symbol × R} (hp : p ∈ resultsOf y n) : m'.contents? p.1 = some p.2 := by
    obtain ⟨hstored, hsettled⟩ := Scene.storeAll_mem (S := .start m.contents?)
      (nodup_resultsOf y n) isTemp_of_mem_resultsOf hp
    rw [hS] at hresults
    exact hresults _ hsettled _ hstored
  exact ⟨m', hm', hre.trans hz.size_re, him.trans hz.size_im,
    fun k hk => hresult (mem_resultsOf hk).1, fun k hk => hresult (mem_resultsOf hk).2⟩

lemma exists_emitCalled (hplan : HasPlan n) (annotate : Bool) :
    ∃ order b, (emitCalled n : Build R _).run.run { annotate } = (.ok order, b) ∧
      Performs n (transformed calledTurn n) b := by
  obtain ⟨order, b, _, hrun, hcalls, -⟩ := invokes_emitCalled (R := R) hplan
    (fun _ => ⟨Scalar.nan, Scalar.nan⟩) { annotate }
  refine ⟨order, b, hrun, ⟨hcalls.checkLifetimes, fun id hid => ?_⟩, fun m z _ _ hz => ?_⟩
  · rw [hcalls.temps_eq] at hid
    simp at hid
  · obtain ⟨_, b', _, hrun', hcalls', rfl⟩ := invokes_emitCalled hplan z { annotate }
    obtain rfl : b = b' := congrArg Prod.snd (hrun.symm.trans hrun')
    obtain ⟨lanes, hm', hlanes⟩ := hcalls'.finish le_rfl le_rfl hz
    exact ⟨_, hm', hlanes⟩

end MixedRadix.Fourier
