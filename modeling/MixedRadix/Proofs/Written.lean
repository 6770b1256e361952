import MixedRadix.Proofs.Bookkeeping
import MixedRadix.Proofs.Bundle
import MixedRadix.Proofs.Demand

/-!
# What is written, and what of it is needed

`Build.Writes taken x Q` says of which operations a computation appends if it succeeds: of their
list, `Q` holds. All temporaries among the symbols of `taken` are in use, so that a new temporary is
none of them. `Build.Spared` is the case of code that elimination of dead code leaves as it is; the
rotations and the butterflies are of this kind, as long as the values on which they work are needed
behind them.
-/

namespace MixedRadix

variable {R : Type}

/-! ### Computations and what they write -/

namespace Builder

/-- The temporaries among some symbols are in use. -/
def Keeps (b : Builder R) (taken : Set Symbol) : Prop :=
  ∃ S : Scene R, b.Holds S ∧ ∀ s ∈ taken, S.Owns s

lemma Keeps.mono {b : Builder R} {taken taken' : Set Symbol} (h : b.Keeps taken)
    (hsub : taken' ⊆ taken) : b.Keeps taken' := by
  obtain ⟨S, hS, howns⟩ := h
  exact ⟨S, hS, fun s hs => howns s (hsub hs)⟩

end Builder

namespace Build

/-- From every builder that keeps some symbols, if the computation succeeds, then it appends
operations of which `Q` holds, together with its result and the symbols that are kept behind it. -/
def Writes {α : Type} (taken : Set Symbol) (x : Build R α)
    (Q : α → Set Symbol → List (Op R) → Prop) : Prop :=
  ∀ ⦃b b' a⦄, b.Keeps taken → x.run.run b = (.ok a, b') →
    ∃ taken' ops, b'.Keeps taken' ∧ b'.ops = b.ops ++ ops ∧ Q a taken' ops

namespace Writes

variable {α β : Type} {taken taken' : Set Symbol} {x : Build R α} {f : α → Build R β}
  {Q Q' : α → Set Symbol → List (Op R) → Prop} {Q₂ : β → Set Symbol → List (Op R) → Prop}

lemma pure {a : α} (h : Q a taken []) : Writes taken (Pure.pure a : Build R α) Q := by
  intro b b' a' hb hrun
  obtain ⟨ha, rfl⟩ := Prod.mk.inj hrun
  obtain rfl := Except.ok.inj ha
  exact ⟨taken, [], hb, by simp, h⟩

lemma mono (h : Writes taken x Q) (hQ : ∀ a taken' ops, Q a taken' ops → Q' a taken' ops) :
    Writes taken x Q' := by
  intro b b' a hb hrun
  obtain ⟨taken', ops, hb', hops, hq⟩ := h hb hrun
  exact ⟨taken', ops, hb', hops, hQ a taken' ops hq⟩

/-- More symbols may be kept. -/
lemma weaken (h : Writes taken x Q) (hsub : taken ⊆ taken') : Writes taken' x Q :=
  fun _ _ _ hb hrun => h (hb.mono hsub) hrun

/-- Nothing is to be shown of a computation that fails. -/
lemma of_succeeds (h : Succeeds x → Writes taken x Q) : Writes taken x Q :=
  fun _ _ _ hb hrun => h ⟨_, _, _, hrun⟩ hb hrun

lemma bind (h : Writes taken x Q) (hf : ∀ a taken₁ ops, Q a taken₁ ops →
    Writes taken₁ (f a) fun c taken₂ ops' => Q₂ c taken₂ (ops ++ ops')) :
    Writes taken (x >>= f) Q₂ := by
  intro b b₂ c hb hrun
  obtain ⟨a, b₁, hx, hrun⟩ := run_bind_eq_ok.1 hrun
  obtain ⟨taken₁, ops, hb₁, hops, hq⟩ := h hb hx
  obtain ⟨taken₂, ops', hb₂, hops', hq₂⟩ := hf a taken₁ ops hq hb₁ hrun
  exact ⟨taken₂, ops ++ ops', hb₂, by rw [hops', hops, List.append_assoc], hq₂⟩

/-- Sequencing with a computation that writes nothing. -/
lemma read {P : α → Prop} (h : Writes taken x fun a taken' ops => P a ∧ taken' = taken ∧ ops = [])
    (hf : ∀ a, P a → Writes taken (f a) Q₂) : Writes taken (x >>= f) Q₂ := by
  refine h.bind ?_
  rintro a _ _ ⟨ha, rfl, rfl⟩
  exact hf a ha

/-! #### Operations of a builder -/

/-- Neither the stream nor the pool is changed. -/
lemma quiet {g : Builder R → Builder R} (hops : ∀ b, (g b).ops = b.ops)
    (htemps : ∀ b, (g b).temps = b.temps) :
    Writes taken (modify g : Build R Unit) fun _ taken' ops => taken' = taken ∧ ops = [] := by
  rintro b b' a ⟨S, hS, howns⟩ hrun
  obtain ⟨-, rfl⟩ := Prod.mk.inj hrun
  refine ⟨taken, [], ⟨S, ?_, howns⟩, by rw [List.append_nil]; exact hops b, rfl, rfl⟩
  have h := htemps b
  exact ⟨h ▸ hS.mem_inUse, h ▸ hS.lt_next, h ▸ hS.free_lt, h ▸ hS.free_notMem, h ▸ hS.free_nodup⟩

lemma comment {g : Unit → Build R β} {text : String} (h : Writes taken (g ()) Q₂) :
    Writes taken (Build.comment text >>= g) Q₂ := by
  have hquiet : Writes taken (Build.comment text : Build R Unit)
      fun _ taken' ops => taken' = taken ∧ ops = [] := by
    refine quiet (fun b => ?_) fun b => ?_ <;> unfold Builder.comment <;> split
    · simp [Builder.ops, Instruction.op?]
    · rfl
    · rfl
    · rfl
  refine hquiet.bind ?_
  rintro _ _ _ ⟨rfl, rfl⟩
  exact h

lemma recordButterfly : Writes taken (Build.recordButterfly : Build R Unit)
    fun _ taken' ops => taken' = taken ∧ ops = [] :=
  quiet (fun _ => rfl) fun _ => rfl

lemma recordRotation (turn : Turn) : Writes taken (Build.recordRotation turn : Build R Unit)
    fun _ taken' ops => taken' = taken ∧ ops = [] :=
  quiet (fun _ => rfl) fun _ => rfl

lemma push (o : Op R) : Writes taken (modify (·.push o) : Build R Unit)
    fun _ taken' ops => taken' = taken ∧ ops = [o] := by
  rintro b b' a ⟨S, hS, howns⟩ hrun
  obtain ⟨-, rfl⟩ := Prod.mk.inj hrun
  refine ⟨taken, [o], ⟨S, ?_, howns⟩, b.ops_push o, rfl, rfl⟩
  exact ⟨hS.mem_inUse, hS.lt_next, hS.free_lt, hS.free_notMem, hS.free_nodup⟩

lemma assign {g : Unit → Build R β} {dst : Symbol} {e : Expr R} (h : Writes taken (g ())
    fun c taken' ops => Q₂ c taken' ({ stmt := .assign dst e } :: ops)) :
    Writes taken (Build.assign dst e >>= g) Q₂ := by
  refine (push { stmt := .assign dst e }).bind ?_
  rintro _ _ _ ⟨rfl, rfl⟩
  exact h

lemma assign_last {P : Unit → Set Symbol → List (Op R) → Prop} {dst : Symbol} {e : Expr R}
    (h : P () taken [{ stmt := .assign dst e }]) : Writes taken (Build.assign dst e) P := by
  have hbind := assign (pure h)
  rwa [bind_pure] at hbind

lemma store {g : Unit → Build R β} {dst : Symbol} {e : Expr R} (h : Writes taken (g ())
    fun c taken' ops => Q₂ c taken' ({ stmt := .assign dst e, mandatory := true } :: ops)) :
    Writes taken (Build.store dst e >>= g) Q₂ := by
  refine (push { stmt := .assign dst e, mandatory := true }).bind ?_
  rintro _ _ _ ⟨rfl, rfl⟩
  exact h

lemma store_last {P : Unit → Set Symbol → List (Op R) → Prop} {dst : Symbol} {e : Expr R}
    (h : P () taken [{ stmt := .assign dst e, mandatory := true }]) :
    Writes taken (Build.store dst e) P := by
  have hbind := store (pure h)
  rwa [bind_pure] at hbind

/-- A new temporary is none of the symbols that are kept. -/
lemma allocTemp {g : Symbol → Build R β} (h : ∀ t ∉ taken, Writes (insert t taken) (g t) Q₂) :
    Writes taken (Build.allocTemp >>= g) Q₂ := by
  rintro b b₂ c ⟨S, hS, howns⟩ hrun
  obtain ⟨t, b₁, hx, hrun⟩ := run_bind_eq_ok.1 hrun
  obtain ⟨ht, rfl⟩ := Prod.mk.inj hx
  obtain rfl : Symbol.temp b.temps.allocate.1 = t := Except.ok.inj ht
  obtain ⟨hnew, hholds, -⟩ := hS.allocTemp
  have hkeeps : b.allocTemp.2.Keeps (insert (.temp b.temps.allocate.1) taken) := by
    refine ⟨_, hholds, ?_⟩
    rintro s (rfl | hs) id hid
    · exact Or.inl (Symbol.temp.inj hid).symm
    · exact Or.inr (howns s hs id hid)
  have hops : b.allocTemp.2.ops = b.ops := rfl
  rw [← hops]
  exact h _ (fun hmem => hnew (howns _ hmem _ rfl)) hkeeps hrun

/-- What is kept is not released. -/
lemma release {g : Unit → Build R β} {t : Symbol} (hsub : taken ⊆ taken') (ht : t ∉ taken)
    (h : Writes taken (g ()) Q₂) : Writes taken' (Build.release t >>= g) Q₂ := by
  rintro b b₂ c ⟨S, hS, howns⟩ hrun
  obtain ⟨_, b₁, hx, hrun⟩ := run_bind_eq_ok.1 hrun
  rw [run_release] at hx
  cases t with
  | temp id =>
    have hid : id ∈ S.held := by
      by_contra hid
      simp only [TempPool.release, Symbol.tempId?, hS.mem_inUse, hid, if_false] at hx
      cases hx
    obtain ⟨temps, hrelease, -, hholds⟩ := hS.release hid
    rw [hrelease] at hx
    obtain ⟨-, rfl⟩ := Prod.mk.inj hx
    have hkeeps : (b.afterRelease (.temp id) temps).Keeps taken := by
      refine ⟨_, hholds, fun s hs id' hid' => ⟨howns s (hsub hs) id' hid', ?_⟩⟩
      rintro rfl
      exact ht (hid' ▸ hs)
    have hops : (b.afterRelease (.temp id) temps).ops = b.ops := by
      rw [Builder.ops, (b.afterRelease_temp id temps).2.1, Builder.ops]
    rw [← hops]
    exact h hkeeps hrun
  | input i | output i | real i | imag i => cases hx

lemma release_last {P : Unit → Set Symbol → List (Op R) → Prop} {t : Symbol}
    (hsub : taken ⊆ taken') (ht : t ∉ taken) (h : P () taken []) :
    Writes taken' (Build.release t : Build R Unit) P := by
  have hbind := release hsub ht (pure h)
  rwa [bind_pure] at hbind

lemma releaseComplex {g : Unit → Build R β} {v : ComplexSymbol} (hsub : taken ⊆ taken')
    (hre : v.re ∉ taken) (him : v.im ∉ taken) (h : Writes taken (g ()) Q₂) :
    Writes taken' (Build.releaseComplex v >>= g) Q₂ := by
  simp only [Build.releaseComplex, bind_assoc]
  exact release hsub hre (release subset_rfl him h)

/-! #### Loops and results from elsewhere -/

lemma ofFaulty {r : Except Fault α} (h : ∀ a, r = .ok a → Writes taken (f a) Q₂) :
    Writes taken (Build.ofFaulty r >>= f) Q₂ := by
  intro b b₂ c hb hrun
  obtain ⟨a, b₁, hx, hrun⟩ := run_bind_eq_ok.1 hrun
  obtain ⟨hr, rfl⟩ := run_ofFaulty_eq_ok.1 hx
  exact h a hr hb hrun

lemma ofSized {r : Except BadSize α} (h : ∀ a, r = .ok a → Writes taken (f a) Q₂) :
    Writes taken (Build.ofSized r >>= f) Q₂ := by
  intro b b₂ c hb hrun
  obtain ⟨a, b₁, hx, hrun⟩ := run_bind_eq_ok.1 hrun
  obtain ⟨hr, rfl⟩ := run_ofSized_eq_ok.1 hx
  exact h a hr hb hrun

lemma entry {xs : Array α} {i : ℕ} (h : ∀ a, xs[i]? = some a → Writes taken (f a) Q₂) :
    Writes taken (Build.entry xs i >>= f) Q₂ :=
  ofFaulty fun a ha => h a (getOrFault_eq_ok.1 ha)

lemma ofFaulty_last {r : Except Fault α} (h : ∀ a, r = .ok a → Q a taken []) :
    Writes taken (Build.ofFaulty r) Q := by
  have hbind := ofFaulty fun a ha => pure (h a ha)
  rwa [bind_pure] at hbind

lemma entry_last {xs : Array α} {i : ℕ} (h : ∀ a, xs[i]? = some a → Q a taken []) :
    Writes taken (Build.entry xs i) Q :=
  ofFaulty_last fun a ha => h a (getOrFault_eq_ok.1 ha)

/-- A list of results, each of which is only read. -/
lemma mapM {xs : List α} {P : α → β → Prop} (h : ∀ y ∈ xs, Writes taken (f y)
    fun a taken' ops => P y a ∧ taken' = taken ∧ ops = []) :
    Writes taken (xs.mapM f) fun as taken' ops =>
      List.Forall₂ P xs as ∧ taken' = taken ∧ ops = [] := by
  induction xs with
  | nil => exact pure ⟨.nil, rfl, rfl⟩
  | cons y ys ih =>
    rw [List.mapM_cons]
    refine (h y (by simp)).read fun a ha => ?_
    refine (ih fun z hz => h z (by simp [hz])).read fun as has => ?_
    exact pure ⟨.cons ha has, rfl, rfl⟩

/-- Each operation of a loop is one of a round, and each round appends its operations. -/
lemma forM {xs : List α} {f : α → Build R Unit} {P : α → List (Op R) → Prop}
    (h : ∀ y ∈ xs, Writes taken (f y) fun _ taken' ops => taken' = taken ∧ P y ops) :
    Writes taken (xs.forM f) fun _ taken' ops => taken' = taken ∧
      (∀ o ∈ ops, ∃ y ∈ xs, ∃ round, P y round ∧ o ∈ round) ∧
      ∀ y ∈ xs, ∃ round, P y round ∧ round ⊆ ops := by
  induction xs with
  | nil => exact pure ⟨rfl, by simp, by simp⟩
  | cons y ys ih =>
    refine (h y (by simp)).bind ?_
    rintro _ _ round ⟨rfl, hround⟩
    refine (ih fun z hz => h z (by simp [hz])).mono ?_
    rintro _ _ ops ⟨htaken, hops, hrounds⟩
    refine ⟨htaken, fun o ho => ?_, fun z hz => ?_⟩
    · rcases List.mem_append.1 ho with ho | ho
      · exact ⟨y, by simp, round, hround, ho⟩
      · obtain ⟨z, hz, h⟩ := hops o ho
        exact ⟨z, by simp [hz], h⟩
    · rcases List.mem_cons.1 hz with rfl | hz
      · exact ⟨round, hround, List.subset_append_left _ _⟩
      · obtain ⟨round', hround', hsub⟩ := hrounds z hz
        exact ⟨round', hround', List.subset_append_of_subset_right _ hsub⟩

lemma forM_concat (xs : List α) (y : α) (f : α → Build R Unit) :
    (xs ++ [y]).forM f = xs.forM f >>= fun _ => f y := by
  change (ForM.forM (xs ++ [y]) f : Build R Unit) = _
  rw [List.forM_append]
  simp

/-- All temporaries of a list are released, none of which is kept. -/
lemma releaseAll {P : Unit → Set Symbol → List (Op R) → Prop} {ts : List Symbol}
    (hsub : taken ⊆ taken') (hts : ∀ t ∈ ts, t ∉ taken) (h : P () taken []) :
    Writes taken' (ts.forM Build.release : Build R Unit) P := by
  induction ts generalizing taken' with
  | nil => exact (pure h).weaken hsub
  | cons t ts ih =>
    exact release hsub (hts t (by simp)) (ih subset_rfl fun t' ht' => hts t' (by simp [ht']))

lemma releaseComplexAll {P : Unit → Set Symbol → List (Op R) → Prop} {vs : List ComplexSymbol}
    (hsub : taken ⊆ taken') (hvs : ∀ t ∈ symbolsOf vs, t ∉ taken) (h : P () taken []) :
    Writes taken' (vs.forM Build.releaseComplex : Build R Unit) P := by
  induction vs generalizing taken' with
  | nil => exact (pure h).weaken hsub
  | cons v vs ih =>
    have hre := hvs _ (re_mem_symbolsOf (v := v) (by simp))
    have him := hvs _ (im_mem_symbolsOf (v := v) (by simp))
    exact releaseComplex hsub hre him
      (ih subset_rfl fun t ht => hvs t (List.mem_append_right [v.re, v.im] ht))

end Writes

/-! ### Scratch temporaries -/

/-- No scratch temporary is taken yet. -/
lemma Writes.fresh {α : Type} {taken : Set Symbol} {x : Build R α}
    {Q : α → Set Symbol → List (Op R) → Prop}
    (h : Fresh taken [] → Writes (taken ∪ {s | s ∈ []}) x Q) : Writes taken x Q :=
  (h ⟨List.nodup_nil, by simp⟩).weaken (by simp)

end Build

namespace Fresh

open Build

variable {β : Type} {taken : Set Symbol} {ts : List Symbol}
  {Q : β → Set Symbol → List (Op R) → Prop}

lemma allocTemp (h : Fresh taken ts) {g : Symbol → Build R β}
    (hg : ∀ t, Fresh taken (ts ++ [t]) → Writes (taken ∪ {s | s ∈ ts ++ [t]}) (g t) Q) :
    Writes (taken ∪ {s | s ∈ ts}) (Build.allocTemp >>= g) Q := by
  refine Writes.allocTemp fun t ht => (hg t ⟨?_, ?_⟩).weaken ?_
  · refine h.nodup.append (List.nodup_singleton t) (List.disjoint_singleton.2 fun hmem => ?_)
    exact ht (.inr hmem)
  · intro t' ht'
    rcases List.mem_append.1 ht' with ht' | ht'
    · exact h.notMem t' ht'
    · exact List.mem_singleton.1 ht' ▸ fun hmem => ht (.inl hmem)
  · rintro s (hs | hs)
    · exact .inr (.inl hs)
    · rcases List.mem_append.1 hs with hs | hs
      · exact .inr (.inr hs)
      · exact .inl (List.mem_singleton.1 hs)

lemma allocComplex (h : Fresh taken ts) {g : ComplexSymbol → Build R β}
    (hg : ∀ t, Fresh taken (ts ++ [t.re, t.im]) →
      Writes (taken ∪ {s | s ∈ ts ++ [t.re, t.im]}) (g t) Q) :
    Writes (taken ∪ {s | s ∈ ts}) (Build.allocComplex >>= g) Q := by
  simp only [Build.allocComplex, bind_assoc, pure_bind]
  refine h.allocTemp fun t h₁ => h₁.allocTemp fun t' h₂ => ?_
  rw [List.append_assoc] at h₂ ⊢
  exact hg ⟨t, t'⟩ h₂

lemma allocComplexes {taken : Set Symbol} {ts : List Symbol} (h : Fresh taken ts) (n : ℕ) :
    Writes (taken ∪ {s | s ∈ ts}) (Build.allocComplexes n : Build R (List ComplexSymbol))
      fun vs taken' ops => (vs.length = n ∧ Fresh taken (ts ++ symbolsOf vs)) ∧
        taken' = taken ∪ {s | s ∈ ts ++ symbolsOf vs} ∧ ops = [] := by
  induction n generalizing ts with
  | zero =>
    have hnil : ts ++ symbolsOf [] = ts := List.append_nil ts
    exact Writes.pure ⟨⟨rfl, hnil.symm ▸ h⟩, by rw [hnil], rfl⟩
  | succ n ih =>
    refine h.allocComplex fun v h₁ => (ih h₁).bind ?_
    rintro vs _ _ ⟨⟨hlength, h₂⟩, rfl, rfl⟩
    have happend : ts ++ [v.re, v.im] ++ symbolsOf vs = ts ++ symbolsOf (v :: vs) := by
      simp [symbolsOf]
    rw [happend] at h₂ ⊢
    exact Writes.pure ⟨⟨by simp [hlength], h₂⟩, rfl, rfl⟩

end Fresh

/-! ### Code that is left as it is -/

namespace Build

/-- Elimination of dead code leaves all operations that the computation appends as they are if the
code behind them needs what the second outlook says, and the first outlook tells what is needed
before them. -/
def Spared {α : Type} (taken : Set Symbol) (D₁ : Outlook) (x : Build R α) (D₂ : Outlook) : Prop :=
  Writes taken x fun _ taken' ops => taken' = taken ∧ Marks D₁ ops [] D₂

namespace Spared

variable {α β : Type} {taken : Set Symbol} {D D₁ D₂ D₃ : Outlook} {x : Build R α}

lemma pure (a : α) : Spared taken D (Pure.pure a : Build R α) D :=
  Writes.pure ⟨rfl, .nil subset_rfl subset_rfl⟩

lemma of_nothing (h : Writes taken x fun _ taken' ops => taken' = taken ∧ ops = []) :
    Spared taken D x D := by
  refine h.mono ?_
  rintro _ _ _ ⟨htaken, rfl⟩
  exact ⟨htaken, .nil subset_rfl subset_rfl⟩

lemma seq {f : α → Build R β} (h : Spared taken D₁ x D₂) (hf : ∀ a, Spared taken D₂ (f a) D₃) :
    Spared taken D₁ (x >>= f) D₃ := by
  refine h.bind ?_
  rintro a _ ops ⟨rfl, hops⟩
  exact (hf a).mono fun _ _ _ hops' => ⟨hops'.1, hops.append hops'.2⟩

lemma weaken (h : Spared taken D₁ x D₂) (hneeded : D₂.needed ⊆ D₃.needed)
    (hunneeded : D₂.unneeded ⊆ D₃.unneeded) : Spared taken D₁ x D₃ :=
  h.mono fun _ _ _ hops => ⟨hops.1, hops.2.weaken hneeded hunneeded⟩

/-- A loop, with an outlook before each of its rounds. -/
lemma forM {xs : List α} {f : α → Build R Unit} (D : ℕ → Outlook) (hfirst : D 0 = D₁)
    (hlast : D xs.length = D₂)
    (h : ∀ i y, xs[i]? = some y → Spared taken (D i) (f y) (D (i + 1))) :
    Spared taken D₁ (xs.forM f) D₂ := by
  subst hfirst hlast
  induction xs generalizing D with
  | nil => exact pure ()
  | cons y ys ih =>
    refine (h 0 y rfl).seq fun _ => ?_
    exact ih (fun i => D (i + 1)) fun i y hi => h (i + 1) y hi

end Spared

end Build

end MixedRadix
