import MixedRadix.Proofs.Emitted
import MixedRadix.Proofs.InPlace

/-!
# What calls refer to

A builder records the routines that are called and the slots of shifts. Whatever is built, the
records are those of the calls in its stream (`Build.Appends.recorded`), and a kernel takes both
over (`Config.exists_emitted_of_compile`).
-/

namespace MixedRadix

variable {R : Type}

open Build

namespace Builder

/-- What calls refer to is recorded, and nothing else: the routines that are called, and the slots
of every shift. Comments are single lines. -/
structure Recorded (b : Builder R) : Prop where
  isLine_comment : ∀ text, .comment text ∈ b.stream.toList → IsLine text
  mem_routines : ∀ r, r ∈ b.routines ↔
    ∃ o c, .op o ∈ b.stream.toList ∧ o.stmt = .call c ∧ c.routine = r
  getElem?_shiftTables : ∀ o table slots, .op o ∈ b.stream.toList →
    o.stmt = .call (.cyclicShift table slots) → b.shiftTables[table]? = some slots

namespace Recorded

variable {b b' : Builder R}

lemma start (annotate : Bool) : ({ annotate } : Builder R).Recorded :=
  ⟨by simp, by simp, by simp⟩

/-- What else happens to a builder does not matter. -/
lemma frame (h : b.Recorded) (hstream : b'.stream = b.stream) (hroutines : b'.routines = b.routines)
    (htables : b'.shiftTables = b.shiftTables) : b'.Recorded := by
  obtain ⟨hcomment, hmem, htable⟩ := h
  exact ⟨hstream ▸ hcomment, hstream ▸ hroutines ▸ hmem, hstream ▸ htables ▸ htable⟩

/-- An operation is appended, and what it calls is recorded. -/
lemma push (h : b.Recorded) {o : Op R} {routines : List Routine}
    (hroutines : ∀ r, r ∈ routines ↔ r ∈ b.routines ∨ ∃ c, o.stmt = .call c ∧ c.routine = r)
    (htable : ∀ table slots, o.stmt = .call (.cyclicShift table slots) →
      b.shiftTables[table]? = some slots) : ({ b with routines }.push o).Recorded := by
  have hmem (o' : Op R) : .op o' ∈ ({ b with routines }.push o).stream.toList ↔
      .op o' ∈ b.stream.toList ∨ o' = o := by
    simp [Builder.push]
  refine ⟨fun text htext => ?_, fun r => ?_, fun o' table slots ho' hstmt => ?_⟩
  · exact h.isLine_comment text (by simpa [Builder.push] using htext)
  · refine (hroutines r).trans ?_
    rw [h.mem_routines]
    constructor
    · rintro (⟨o', c, ho', hc⟩ | ⟨c, hc⟩)
      · exact ⟨o', c, (hmem o').2 (.inl ho'), hc⟩
      · exact ⟨o, c, (hmem o).2 (.inr rfl), hc⟩
    · rintro ⟨o', c, ho', hc⟩
      rcases (hmem o').1 ho' with ho' | rfl
      · exact .inl ⟨o', c, ho', hc⟩
      · exact .inr ⟨c, hc⟩
  · rcases (hmem o').1 ho' with ho' | rfl
    · exact h.getElem?_shiftTables o' table slots ho' hstmt
    · exact htable table slots hstmt

lemma push_assign (h : b.Recorded) (dst : Symbol) (e : Expr R) (mandatory : Bool) :
    (b.push { stmt := .assign dst e, mandatory }).Recorded :=
  h.push (by simp) (by simp)

lemma call (h : b.Recorded) {c : Call R}
    (htable : ∀ table slots, c = .cyclicShift table slots → b.shiftTables[table]? = some slots) :
    (b.call c).Recorded := by
  refine h.push (fun r => ?_) fun table slots hstmt => htable table slots (Stmt.call.inj hstmt)
  split <;> grind

lemma addShiftTable (h : b.Recorded) (slots : List ℕ) : (b.addShiftTable slots).2.Recorded := by
  refine ⟨h.isLine_comment, h.mem_routines, fun o table slots' ho hstmt => ?_⟩
  have htable := h.getElem?_shiftTables o table slots' ho hstmt
  have hlt := (Array.getElem?_eq_some_iff.1 htable).1
  simp [Builder.addShiftTable, Array.getElem?_push, hlt.ne, htable]

lemma comment (h : b.Recorded) {text : String} (htext : IsLine text) :
    (b.comment text).Recorded := by
  unfold Builder.comment
  split
  · refine ⟨fun text' htext' => ?_, ?_, ?_⟩
    · have hcases : .comment text' ∈ b.stream.toList ∨ text' = text := by simpa using htext'
      rcases hcases with hmem | rfl
      · exact h.isLine_comment text' hmem
      · exact htext
    · simpa using h.mem_routines
    · simpa using h.getElem?_shiftTables
  · exact h

end Recorded

end Builder

/-- Whatever is built, its calls are recorded. -/
lemma Build.Appends.recorded {α : Type} {P : Op R → Prop} {results : List Symbol} {x : Build R α}
    (h : Appends P results x) {b b' : Builder R} {a : α} (hb : b.Recorded)
    (hrun : x.run.run b = (.ok a, b')) : b'.Recorded := by
  induction h generalizing b b' with
  | pure _ =>
    obtain rfl : b = b' := congrArg Prod.snd hrun
    exact hb
  | throw e => cases congrArg Prod.fst hrun
  | seq _ hQ _ ihx ihf =>
    obtain ⟨a, b₁, hx, hrun⟩ := run_bind_eq_ok.1 hrun
    exact ihf a (hQ _ _ _ hx) (ihx hb hx) hrun
  | assign _ | store _ =>
    cases congrArg Prod.snd hrun
    exact hb.push_assign _ _ _
  | call hc _ =>
    cases congrArg Prod.snd hrun
    refine hb.call ?_
    rintro table slots rfl
    exact absurd rfl hc
  | @shift slots _ =>
    cases congrArg Prod.snd hrun
    refine (hb.addShiftTable slots).call ?_
    intro table slots' heq
    cases heq
    simp [Builder.addShiftTable]
  | comment htext =>
    cases congrArg Prod.snd hrun
    exact hb.comment htext
  | allocTemp | recordButterfly | recordRotation _ =>
    cases congrArg Prod.snd hrun
    exact hb.frame rfl rfl rfl
  | release s =>
    rw [run_release] at hrun
    cases hrelease : b.temps.release s with
    | error e =>
      rw [hrelease] at hrun
      cases hrun
    | ok temps =>
      rw [hrelease] at hrun
      obtain ⟨lifetimes, openLifetimes, hframe⟩ := b.afterRelease_frame s temps
      obtain rfl : b.afterRelease s temps = b' := congrArg Prod.snd hrun
      exact hframe ▸ hb.frame rfl rfl rfl

namespace Config

variable [Scalar R] {c : Config} {k : Kernel R}

/-- The entries that a kernel runs were emitted, and what they refer to was recorded. -/
lemma exists_emitted_of_compile (h : c.compile = .ok k) {P : Op R → Prop} {results : List Symbol}
    (happends : Build.Appends P results (c.emit : Build R (Option Permutation))) :
    ∃ b : Builder R, b.Recorded ∧ (∀ o, .op o ∈ b.stream.toList → P o) ∧
      k.stream = (eliminateDeadCode b.stream.toList).1 ∧ k.routines = b.routines ∧
      k.shiftTables = b.shiftTables := by
  obtain ⟨-, order, b, hrun, -, rfl⟩ := exists_of_compile h
  obtain ⟨code, hcode, hops, -⟩ := happends.exists_code hrun
  obtain rfl : b.stream.toList = code := by simpa using hcode
  exact ⟨b, happends.recorded (.start _) hrun, hops, rfl, rfl, rfl⟩

end Config

end MixedRadix
