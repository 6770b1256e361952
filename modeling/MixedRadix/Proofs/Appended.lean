import MixedRadix.Proofs.Bookkeeping
import MixedRadix.Proofs.Emission

/-!
# Code appended to a session

The laws of emitted code start from a scene. Here it is the scene of a given builder and a given
machine: the temporaries that are in use, and all that the machine holds in them and elsewhere. What
the code does to that machine is then read off the scene behind it.
-/

namespace MixedRadix

variable {R : Type}

lemma TempPool.Partitioned.holds {b : Builder R} (h : b.temps.Partitioned) {S : Scene R}
    (hheld : S.held = {id | id ∈ b.temps.inUse}) : b.Holds S where
  mem_inUse id := by
    rw [hheld]
    rfl
  lt_next id hid := h.lt_next id (hheld.subset hid)
  free_lt id hid := ((h.mem_free_iff id).1 hid).1
  free_notMem id hid hmem := ((h.mem_free_iff id).1 hid).2 (hheld.subset hmem)
  free_nodup := h.free_nodup

lemma Symbol.isTemp_of_mem_empty {s : Symbol} (h : s ∈ (∅ : Set Symbol)) : s.isTemp = false :=
  h.elim

namespace Machine

open Classical in
/-- All that a machine holds, apart from temporaries that are not in use. -/
noncomputable def scene (m : Machine R) (held : Set ℕ) : Scene R where
  held
  value s := if ∀ id, s = .temp id → id ∈ held then m.contents? s else none
  settled := ∅
  held_of_value := by
    intro id x h
    split at h
    · rename_i howned
      exact howned id rfl
    · cases h
  isTemp_of_settled := Symbol.isTemp_of_mem_empty

variable {m m' : Machine R} {held : Set ℕ} {s : Symbol}

lemma scene_value (howned : ∀ id, s = .temp id → id ∈ held) :
    (m.scene held).value s = m.contents? s :=
  if_pos howned

lemma shows_scene (h : m.Separate) (held : Set ℕ) : m.Shows (m.scene held) where
  separate := h
  contents {s x} hx := by
    simp only [scene] at hx
    split at hx
    · exact hx
    · cases hx

lemma writable_scene (hhas : m.Has s) (hinput : s.isInput = false)
    (howned : ∀ id, s = .temp id → id ∈ held) : (m.scene held).Writable s := by
  cases s with
  | temp id => exact howned id rfl
  | input i => cases hinput
  | output i | real i | imag i =>
    simp only [Scene.Writable, scene_value howned]
    exact hhas

/-- A symbol of which the scene is the same is read as before. -/
lemma Shows.read_eq {S' : Scene R} (h : m'.Shows S') (hshape : m'.shape = m.shape)
    (howned : ∀ id, s = .temp id → id ∈ held) (hvalue : S'.value s = (m.scene held).value s) :
    m'.read s = m.read s := by
  refine read_congr (missing_of_shape hshape s) ?_
  rw [scene_value howned] at hvalue
  cases hs : m.contents? s with
  | some x => exact h.contents (hvalue.trans hs)
  | none =>
    have hnot : ¬ m.Has s := by simp [Has, hs]
    rw [← has_iff_of_shape hshape] at hnot
    simpa [Has] using hnot

end Machine

variable [Scalar R]

/-- A run and its code are determined, whatever is known of them. -/
lemma Emits.leads {α : Type} {S : Scene R} {x : Build R α} {Q : α → Scene R → Prop}
    (h : Emits S x Q) {b b' : Builder R} {a : α} {code : List (Instruction R)} (hb : b.Holds S)
    (hrun : x.run.run b = (.ok a, b')) (hcode : b'.stream.toList = b.stream.toList ++ code) :
    ∃ S', Leads code b'.temps.next S S' ∧ Q a S' := by
  obtain ⟨a', b₁, S', hrun', hem, hq⟩ := h b hb
  obtain ⟨ha, rfl⟩ := Prod.ext_iff.1 (hrun'.symm.trans hrun)
  obtain rfl : a' = a := Except.ok.inj ha
  obtain ⟨code', hcode', hleads, -⟩ := hem.code
  obtain rfl : code' = code := List.append_cancel_left (hcode'.symm.trans hcode)
  exact ⟨S', hleads, hq⟩

end MixedRadix
