import MixedRadix.Builder
import Mathlib.Data.List.Basic

/-!
# Computations that succeed

Planning and emitting are computations that keep a state and may fail. If one succeeds, so do its
parts, which is how a result tells what was true of the steps that led to it.
-/

namespace MixedRadix

variable {ε σ α β : Type} {x : ExceptT ε (StateM σ) α}

/-- Two computations in a row succeed exactly if the second one does from where the first one
ends. -/
lemma run_bind_eq_ok {f : α → ExceptT ε (StateM σ) β} {s s₂ : σ} {c : β} :
    (x >>= f).run.run s = (.ok c, s₂) ↔
      ∃ a s₁, x.run.run s = (.ok a, s₁) ∧ (f a).run.run s₁ = (.ok c, s₂) := by
  simp only [ExceptT.run_bind, StateT.run_bind]
  constructor
  · intro hrun
    cases hx : x.run.run s with
    | mk r s₁ =>
      rw [hx] at hrun
      cases r with
      | ok a => exact ⟨a, s₁, rfl, hrun⟩
      | error e => cases hrun
  · rintro ⟨a, s₁, hx, hrun⟩
    rw [hx]
    exact hrun

lemma run_bind_of_ok {f : α → ExceptT ε (StateM σ) β} {s s₁ : σ} {a : α}
    (h : x.run.run s = (.ok a, s₁)) : (x >>= f).run.run s = (f a).run.run s₁ := by
  simp only [ExceptT.run_bind, StateT.run_bind, h]
  rfl

/-- A computation that fails does so whatever would come behind it. -/
lemma run_bind_of_error {f : α → ExceptT ε (StateM σ) β} {s s₁ : σ} {e : ε}
    (h : x.run.run s = (.error e, s₁)) : (x >>= f).run.run s = (.error e, s₁) := by
  simp only [ExceptT.run_bind, StateT.run_bind, h]
  rfl

/-- The computation gives a result from some state. -/
def Succeeds (x : ExceptT ε (StateM σ) α) : Prop :=
  ∃ s a s', x.run.run s = (.ok a, s')

namespace Succeeds

lemma of_bind {f : α → ExceptT ε (StateM σ) β} (h : Succeeds (x >>= f)) :
    Succeeds x ∧ ∃ a, Succeeds (f a) := by
  obtain ⟨s, c, s₂, hrun⟩ := h
  obtain ⟨a, s₁, hx, hrun⟩ := run_bind_eq_ok.1 hrun
  exact ⟨⟨s, a, s₁, hx⟩, a, s₁, c, s₂, hrun⟩

/-- All rounds of a loop succeed. -/
lemma of_mem {xs : List α} {f : α → ExceptT ε (StateM σ) Unit} (h : Succeeds (xs.forM f)) {y : α}
    (hy : y ∈ xs) : Succeeds (f y) := by
  induction xs with
  | nil => simp at hy
  | cons x xs ih =>
    rcases List.mem_cons.1 hy with rfl | hy
    · exact h.of_bind.1
    · obtain ⟨-, _, hrest⟩ := h.of_bind
      exact ih hrest hy

end Succeeds

/-- A list of results has one for each argument. -/
lemma length_eq_of_mapM {f : α → ExceptT ε (StateM σ) β} {xs : List α} {ys : List β} {s s' : σ}
    (h : (xs.mapM f).run.run s = (.ok ys, s')) : ys.length = xs.length := by
  induction xs generalizing ys s s' with
  | nil =>
    obtain rfl : [] = ys := Except.ok.inj (congrArg Prod.fst h)
    rfl
  | cons x xs ih =>
    rw [List.mapM_cons] at h
    obtain ⟨y, s₁, -, h⟩ := run_bind_eq_ok.1 h
    obtain ⟨ys', s₂, hys, h⟩ := run_bind_eq_ok.1 h
    obtain rfl : y :: ys' = ys := Except.ok.inj (congrArg Prod.fst h)
    simp [ih hys]

/-- Taking a temporary back touches nothing but the pool and the lifetimes. -/
lemma Builder.afterRelease_frame {R : Type} (b : Builder R) (s : Symbol) (temps : TempPool) :
    ∃ lifetimes openLifetimes,
      b.afterRelease s temps = { b with temps, lifetimes, openLifetimes } := by
  unfold afterRelease closeLifetime
  split
  · exact ⟨b.lifetimes, b.openLifetimes, rfl⟩
  · split
    · exact ⟨b.lifetimes, b.openLifetimes, rfl⟩
    · exact ⟨_, _, rfl⟩

namespace Build

variable {R : Type} {b b' : Builder R} {a : α}

lemma run_ofFaulty_eq_ok {r : Except Fault α} :
    (ofFaulty r : Build R α).run.run b = (.ok a, b') ↔ r = .ok a ∧ b = b' := by
  cases r with
  | ok a' =>
    change (Except.ok a', b) = (.ok a, b') ↔ _
    simp
  | error e =>
    change (Except.error _, b) = (.ok a, b') ↔ _
    simp

lemma run_ofSized_eq_ok {r : Except BadSize α} :
    (ofSized r : Build R α).run.run b = (.ok a, b') ↔ r = .ok a ∧ b = b' := by
  cases r with
  | ok a' =>
    change (Except.ok a', b) = (.ok a, b') ↔ _
    simp
  | error e =>
    change (Except.error _, b) = (.ok a, b') ↔ _
    simp

/-- A release goes by the pool: if the pool refuses, nothing changes. -/
lemma run_release (b : Builder R) (s : Symbol) : (release s).run.run b =
    match b.temps.release s with
    | .ok temps => (.ok (), b.afterRelease s temps)
    | .error e => (.error (.release e), b) := by
  have hget : (get : Build R (Builder R)).run.run b = pure (.ok b, b) := rfl
  simp only [release, ExceptT.run_bind, StateT.run_bind, hget, pure_bind]
  cases b.temps.release s <;> rfl

end Build

end MixedRadix
