import MixedRadix.Machine
import MixedRadix.Scalar.Binary64
import Mathlib.Tactic.Common

/-!
# What a statement touches

A statement reads its inputs, writes its outputs and touches nothing else: two machines that agree
on the inputs fail alike or agree on the outputs afterwards, and every other symbol keeps its
contents (`Machine.runStmt_footprint`). This needs distinct symbols to be distinct locations, which
is so unless the outputs share the array of the inputs. The sets that an operation declares are
those of its statement, and an assignment lists just the symbols that it mentions, each once
(`Machine.step_exact`).
-/

namespace MixedRadix

variable {R : Type}

lemma nodup_eraseDups {α : Type} [BEq α] [LawfulBEq α] (as : List α) : as.eraseDups.Nodup := by
  induction hn : as.length using Nat.strongRecOn generalizing as with
  | _ n ih =>
    cases as with
    | nil => simp
    | cons a as =>
      have hlt : (as.filter fun b => !b == a).length < n := by
        rw [← hn, List.length_cons]
        exact Nat.lt_succ_of_le (List.length_filter_le _ _)
      rw [List.eraseDups_cons, List.nodup_cons]
      exact ⟨by simp [List.mem_eraseDups], ih _ hlt _ rfl⟩

/-- Two computations in a row give a result exactly if both do. -/
lemma bind_eq_ok {ε α β : Type} {x : Except ε α} {f : α → Except ε β} {c : β} :
    x >>= f = .ok c ↔ ∃ a, x = .ok a ∧ f a = .ok c := by
  cases x with
  | error e => exact ⟨by rintro ⟨⟩, by rintro ⟨a, ⟨⟩, -⟩⟩
  | ok a => exact ⟨fun h => ⟨a, rfl, h⟩, by rintro ⟨a', ⟨⟩, h⟩; exact h⟩

lemma getOrFault_eq_ok {α : Type} {xs : Array α} {i : ℕ} {x : α} :
    getOrFault xs i = .ok x ↔ xs[i]? = some x := by
  unfold getOrFault
  split <;> simp_all

lemma getOrFault_eq {α : Type} (xs : Array α) (i : ℕ) :
    getOrFault xs i = xs[i]?.elim (.error (@Fault.indexOutOfRange i xs.size)) .ok := by
  unfold getOrFault
  cases xs[i]? <;> rfl

lemma getOrFault_congr {α : Type} {xs ys : Array α} {i : ℕ} (hsize : xs.size = ys.size)
    (h : xs[i]? = ys[i]?) : getOrFault xs i = getOrFault ys i := by
  rw [getOrFault_eq, getOrFault_eq, hsize, h]

lemma checkIndex_congr {α : Type} {xs ys : Array α} (h : xs.size = ys.size) (i : ℕ) :
    checkIndex xs i = checkIndex ys i := by
  rw [checkIndex, checkIndex, h]

lemma checkIndex_bind_eq_ok {α β : Type} {xs : Array α} {i : ℕ} {y z : β} :
    (do checkIndex xs i; return y) = (.ok z : Except Fault β) ↔ i < xs.size ∧ z = y := by
  unfold checkIndex
  by_cases h : i < xs.size <;> simp [h, bind, Except.bind, pure, Except.pure, eq_comm]

lemma checkIndex_bind_eq_error {α β : Type} {xs : Array α} {i : ℕ} {y : β} (h : ¬ i < xs.size) :
    (do checkIndex xs i; return y) =
      (.error (@Fault.indexOutOfRange i xs.size) : Except Fault β) := by
  unfold checkIndex
  simp [h, bind, Except.bind]

namespace Lanes

/-- The lanes have the same sizes. -/
def SameSize (l l' : Lanes R) : Prop :=
  l.re.size = l'.re.size ∧ l.im.size = l'.im.size

lemma SameSize.symm {l l' : Lanes R} (h : SameSize l l') : SameSize l' l :=
  ⟨h.1.symm, h.2.symm⟩

lemma SameSize.trans {l₁ l₂ l₃ : Lanes R} (h : SameSize l₁ l₂) (h' : SameSize l₂ l₃) :
    SameSize l₁ l₃ :=
  ⟨h.1.trans h'.1, h.2.trans h'.2⟩

/-- The lanes have the same sizes and agree at some slots. -/
structure Agree (slots : List ℕ) (l l' : Lanes R) : Prop where
  sameSize : SameSize l l'
  re_eq : ∀ i ∈ slots, l.re[i]? = l'.re[i]?
  im_eq : ∀ i ∈ slots, l.im[i]? = l'.im[i]?

/-- The lanes differ at most at some slots, and have the same sizes. -/
structure Within (slots : List ℕ) (l l' : Lanes R) : Prop where
  re_size : l'.re.size = l.re.size
  im_size : l'.im.size = l.im.size
  re_eq : ∀ i ∉ slots, l'.re[i]? = l.re[i]?
  im_eq : ∀ i ∉ slots, l'.im[i]? = l.im[i]?

lemma Within.refl (slots : List ℕ) (l : Lanes R) : Within slots l l :=
  ⟨rfl, rfl, fun _ _ => rfl, fun _ _ => rfl⟩

lemma Within.trans {slots : List ℕ} {l₁ l₂ l₃ : Lanes R} (h : Within slots l₁ l₂)
    (h' : Within slots l₂ l₃) : Within slots l₁ l₃ :=
  ⟨h'.re_size.trans h.re_size, h'.im_size.trans h.im_size,
    fun i hi => (h'.re_eq i hi).trans (h.re_eq i hi),
    fun i hi => (h'.im_eq i hi).trans (h.im_eq i hi)⟩

/-- Two computations on lanes that fail alike, or succeed with lanes that differ from the old ones
at most at some slots and agree there. -/
def Twin (slots : List ℕ) (l l' : Lanes R) (r r' : Except Fault (Lanes R)) : Prop :=
  (∃ f, r = .error f ∧ r' = .error f) ∨
    ∃ a a', r = .ok a ∧ r' = .ok a' ∧ Within slots l a ∧ Within slots l' a' ∧ Agree slots a a'

lemma Twin.bind {slots : List ℕ} {l l' : Lanes R} {r r' : Except Fault (Lanes R)}
    {k k' : Lanes R → Except Fault (Lanes R)} (h : Twin slots l l' r r')
    (hk : ∀ a a', Agree slots a a' → Twin slots a a' (k a) (k' a')) :
    Twin slots l l' (r >>= k) (r' >>= k') := by
  rcases h with ⟨f, rfl, rfl⟩ | ⟨a, a', rfl, rfl, ha, ha', hag⟩
  · exact Or.inl ⟨f, rfl, rfl⟩
  · rcases hk a a' hag with ⟨f, h, h'⟩ | ⟨c, c', h, h', hc, hc', hag'⟩
    · exact Or.inl ⟨f, h, h'⟩
    · exact Or.inr ⟨c, c', h, h', ha.trans hc, ha'.trans hc', hag'⟩

lemma Twin.within {slots : List ℕ} {l l' a : Lanes R} {r r' : Except Fault (Lanes R)}
    (h : Twin slots l l' r r') (hr : r = .ok a) : Within slots l a := by
  rcases h with ⟨f, rfl, -⟩ | ⟨a₁, _, rfl, -, hwithin, -, -⟩
  · cases hr
  · cases hr
    exact hwithin

/-- The same reading first, in both computations. -/
lemma Twin.get_bind {slots : List ℕ} {l l' a a' : Lanes R} {i : ℕ}
    {k k' : ComplexPair R → Except Fault (Lanes R)} (h : Agree slots a a') (hi : i ∈ slots)
    (hk : ∀ x, Twin slots l l' (k x) (k' x)) :
    Twin slots l l' (a.get i >>= k) (a'.get i >>= k') := by
  have hget : a.get i = a'.get i := by
    unfold get
    rw [getOrFault_congr h.sameSize.1 (h.re_eq i hi), getOrFault_congr h.sameSize.2 (h.im_eq i hi)]
  rw [hget]
  cases a'.get i with
  | error f => exact Or.inl ⟨f, rfl, rfl⟩
  | ok x => exact hk x

lemma put_eq_ok {l l' : Lanes R} {i : ℕ} {x : ComplexPair R} :
    l.put i x = .ok l' ↔ i < l.re.size ∧ i < l.im.size ∧
      l' = ⟨l.re.setIfInBounds i x.re, l.im.setIfInBounds i x.im⟩ := by
  unfold put checkIndex
  by_cases hre : i < l.re.size <;> by_cases him : i < l.im.size <;>
    simp [hre, him, bind, Except.bind, pure, Except.pure, eq_comm]

lemma Within.put {slots : List ℕ} {l l' : Lanes R} {i : ℕ} {x : ComplexPair R} (hi : i ∈ slots)
    (h : l.put i x = .ok l') : Within slots l l' := by
  obtain ⟨-, -, rfl⟩ := put_eq_ok.1 h
  have hne (j : ℕ) (hj : j ∉ slots) : i ≠ j := fun e => hj (e ▸ hi)
  exact ⟨by simp, by simp, fun j hj => by simp [hne j hj], fun j hj => by simp [hne j hj]⟩

/-- Whether a value can be put depends on the sizes alone, and so does the fault if it cannot. -/
lemma put_cases {l l' : Lanes R} (hsize : SameSize l l') (i : ℕ) (x : ComplexPair R) :
    (∃ f, l.put i x = .error f ∧ l'.put i x = .error f) ∨
      ∃ a a', l.put i x = .ok a ∧ l'.put i x = .ok a' := by
  obtain ⟨re, im⟩ := l
  obtain ⟨re', im'⟩ := l'
  have hre : checkIndex re i = checkIndex re' i := checkIndex_congr hsize.1 i
  have him : checkIndex im i = checkIndex im' i := checkIndex_congr hsize.2 i
  simp only [put, hre, him]
  cases checkIndex re' i with
  | error f => exact Or.inl ⟨f, rfl, rfl⟩
  | ok _ =>
    cases checkIndex im' i with
    | error f => exact Or.inl ⟨f, rfl, rfl⟩
    | ok _ => exact Or.inr ⟨_, _, rfl, rfl⟩

lemma Twin.put {slots : List ℕ} {l l' : Lanes R} (h : Agree slots l l') {i : ℕ} (hi : i ∈ slots)
    (x : ComplexPair R) : Twin slots l l' (l.put i x) (l'.put i x) := by
  rcases put_cases h.sameSize i x with hfault | ⟨a, a', hput, hput'⟩
  · exact Or.inl hfault
  · refine Or.inr ⟨a, a', hput, hput', Within.put hi hput, Within.put hi hput', ?_⟩
    obtain ⟨-, -, rfl⟩ := put_eq_ok.1 hput
    obtain ⟨-, -, rfl⟩ := put_eq_ok.1 hput'
    refine ⟨by simpa [SameSize] using h.sameSize, fun j hj => ?_, fun j hj => ?_⟩
    · simp only [Array.getElem?_setIfInBounds, h.re_eq j hj, h.sameSize.1]
    · simp only [Array.getElem?_setIfInBounds, h.im_eq j hj, h.sameSize.2]

/-- The same writing first, in both computations. -/
lemma Twin.put_bind {slots : List ℕ} {l l' : Lanes R} {i : ℕ} {x : ComplexPair R}
    {k k' : Lanes R → Except Fault (Lanes R)} (h : Agree slots l l') (hi : i ∈ slots)
    (hk : ∀ a a', Agree slots a a' → Twin slots a a' (k a) (k' a')) :
    Twin slots l l' (l.put i x >>= k) (l'.put i x >>= k') :=
  (Twin.put h hi x).bind hk

/-! ### The routines -/

lemma Twin.swap {l l' : Lanes R} {a b : ℕ} (h : Agree [a, b] l l') :
    Twin [a, b] l l' (l.swap a b) (l'.swap a b) := by
  refine Twin.get_bind h (by simp) fun xa => Twin.get_bind h (by simp) fun xb => ?_
  exact Twin.put_bind h (by simp) fun c c' hc => Twin.put hc (by simp) xa

lemma Twin.shiftFrom {slots : List ℕ} (first : ComplexPair R) {slot : ℕ} {rest : List ℕ}
    {l l' : Lanes R} (h : Agree slots l l') (hslot : slot ∈ slots) (hrest : ∀ i ∈ rest, i ∈ slots) :
    Twin slots l l' (shiftFrom first slot rest l) (shiftFrom first slot rest l') := by
  induction rest generalizing slot l l' with
  | nil => exact Twin.put h hslot first
  | cons next rest ih =>
    have hnext : next ∈ slots := hrest next (by simp)
    refine Twin.get_bind h hnext fun x => Twin.put_bind h hslot fun c c' hc => ?_
    exact ih hc hnext fun i hi => hrest i (by simp [hi])

lemma Twin.cyclicShift {slots : List ℕ} {l l' : Lanes R} (h : Agree slots l l') :
    Twin slots l l' (l.cyclicShift slots) (l'.cyclicShift slots) := by
  cases slots with
  | nil => exact Or.inr ⟨l, l', rfl, rfl, Within.refl _ l, Within.refl _ l', h⟩
  | cons slot rest =>
    refine Twin.get_bind h (by simp) fun x => ?_
    exact Twin.shiftFrom x h (by simp) fun i hi => by simp [hi]

variable [Scalar R]

lemma Twin.rotate {l l' : Lanes R} {slot : ℕ} (cos sin : R) (h : Agree [slot] l l') :
    Twin [slot] l l' (l.rotate slot cos sin) (l'.rotate slot cos sin) :=
  Twin.get_bind h (by simp) fun x => Twin.put h (by simp) _

/-- Each butterfly reads all its slots and then writes all of them. -/
lemma Twin.butterfly {slots : List ℕ} {l l' : Lanes R} (h : Agree slots l l') :
    Twin slots l l' (l.butterfly slots) (l'.butterfly slots) := by
  match slots, h with
  | [], _ | [_], _ | _ :: _ :: _ :: _ :: _ :: _ :: _, _ =>
    exact Or.inl ⟨_, rfl, rfl⟩
  | [i0, i1], h =>
    refine Twin.get_bind h (by simp) fun x0 => Twin.get_bind h (by simp) fun x1 => ?_
    refine Twin.put_bind h (by simp) fun a a' ha => ?_
    exact Twin.put ha (by simp) _
  | [i0, i1, i2], h =>
    refine Twin.get_bind h (by simp) fun x0 => Twin.get_bind h (by simp) fun x1 =>
      Twin.get_bind h (by simp) fun x2 => ?_
    refine Twin.put_bind h (by simp) fun a a' ha => Twin.put_bind ha (by simp) fun c c' hc => ?_
    exact Twin.put hc (by simp) _
  | [i0, i1, i2, i3], h =>
    refine Twin.get_bind h (by simp) fun x0 => Twin.get_bind h (by simp) fun x1 =>
      Twin.get_bind h (by simp) fun x2 => Twin.get_bind h (by simp) fun x3 => ?_
    refine Twin.put_bind h (by simp) fun a a' ha => Twin.put_bind ha (by simp) fun c c' hc =>
      Twin.put_bind hc (by simp) fun d d' hd => ?_
    exact Twin.put hd (by simp) _
  | [i0, i1, i2, i3, i4], h =>
    refine Twin.get_bind h (by simp) fun x0 => Twin.get_bind h (by simp) fun x1 =>
      Twin.get_bind h (by simp) fun x2 => Twin.get_bind h (by simp) fun x3 =>
      Twin.get_bind h (by simp) fun x4 => ?_
    refine Twin.put_bind h (by simp) fun a a' ha => Twin.put_bind ha (by simp) fun c c' hc =>
      Twin.put_bind hc (by simp) fun d d' hd => Twin.put_bind hd (by simp) fun e e' he => ?_
    exact Twin.put he (by simp) _

end Lanes

/-! ### Locations -/

/-- Whether a symbol names an input sample. -/
def Symbol.isInput : Symbol → Bool
  | .input _ => true
  | _ => false

namespace Machine

/-- The contents of a location, if it is there. -/
def contents? (m : Machine R) : Symbol → Option R
  | .temp id => m.temps[id]?
  | .input i => m.input[i]?
  | .output i => (m.output.getD m.input)[i]?
  | .real i => m.lanes.re[i]?
  | .imag i => m.lanes.im[i]?

lemma read_eq_ok {m : Machine R} {s : Symbol} {x : R} :
    m.read s = .ok x ↔ m.contents? s = some x := by
  cases s <;> exact getOrFault_eq_ok

lemma contents?_eq_of_read {m m' : Machine R} {s : Symbol} (h : m.read s = m'.read s) :
    m.contents? s = m'.contents? s := by
  refine Option.ext fun x => ?_
  rw [← read_eq_ok, h, read_eq_ok]

/-- The fault of a location that is not there. -/
def missing (m : Machine R) : Symbol → Fault
  | .temp id => @Fault.indexOutOfRange id m.temps.size
  | .input i => @Fault.indexOutOfRange i m.input.size
  | .output i => @Fault.indexOutOfRange i (m.output.getD m.input).size
  | .real i => @Fault.indexOutOfRange i m.lanes.re.size
  | .imag i => @Fault.indexOutOfRange i m.lanes.im.size

lemma read_eq (m : Machine R) (s : Symbol) :
    m.read s = (m.contents? s).elim (.error (m.missing s)) .ok := by
  cases s <;> exact getOrFault_eq _ _

lemma read_congr {m m' : Machine R} {s : Symbol} (hmissing : m.missing s = m'.missing s)
    (h : m.contents? s = m'.contents? s) : m.read s = m'.read s := by
  rw [read_eq, read_eq, hmissing, h]

/-- How many places each array has. -/
def shape (m : Machine R) : ℕ × ℕ × Option ℕ × ℕ × ℕ :=
  (m.temps.size, m.input.size, m.output.map Array.size, m.lanes.re.size, m.lanes.im.size)

/-- There is such a location. -/
def Has (m : Machine R) (s : Symbol) : Prop :=
  (m.contents? s).isSome

/-- Which locations there are depends on the shape alone. -/
lemma has_iff_of_shape {m m' : Machine R} (h : m'.shape = m.shape) (s : Symbol) :
    m'.Has s ↔ m.Has s := by
  obtain ⟨temps, input, output, lanes⟩ := m
  obtain ⟨temps', input', output', lanes'⟩ := m'
  simp only [shape, Prod.mk.injEq] at h
  obtain ⟨h1, h2, h3, h4, h5⟩ := h
  cases s with
  | temp id => simp [Has, contents?, h1]
  | input i => simp [Has, contents?, h2]
  | output i => cases output <;> cases output' <;> simp_all [Has, contents?]
  | real i => simp [Has, contents?, h4]
  | imag i => simp [Has, contents?, h5]

/-- The fault of a location that is not there depends on the shape alone. -/
lemma missing_of_shape {m m' : Machine R} (h : m'.shape = m.shape) (s : Symbol) :
    m'.missing s = m.missing s := by
  obtain ⟨temps, input, output, lanes⟩ := m
  obtain ⟨temps', input', output', lanes'⟩ := m'
  simp only [shape, Prod.mk.injEq] at h
  obtain ⟨h1, h2, h3, h4, h5⟩ := h
  cases s with
  | output i => cases output <;> cases output' <;> simp_all [missing]
  | _ => simp [missing, *]

lemma sameSize_of_shape {m m' : Machine R} (h : m'.shape = m.shape) :
    m'.lanes.SameSize m.lanes := by
  simp only [shape, Prod.mk.injEq] at h
  exact h.2.2.2

/-- Lanes that differ at some slots are seen at their symbols alone. -/
lemma frame_of_within {m : Machine R} {slots : List ℕ} {a : Lanes R}
    (h : Lanes.Within slots m.lanes a) :
    ({ m with lanes := a } : Machine R).shape = m.shape ∧
      ∀ t, (∀ i ∈ slots, t ≠ .real i ∧ t ≠ .imag i) →
        ({ m with lanes := a } : Machine R).read t = m.read t := by
  refine ⟨by simp [shape, h.re_size, h.im_size], fun t ht => ?_⟩
  cases t with
  | real i => exact getOrFault_congr h.re_size (h.re_eq i fun hi => (ht i hi).1 rfl)
  | imag i => exact getOrFault_congr h.im_size (h.im_eq i fun hi => (ht i hi).2 rfl)
  | temp i | input i | output i => rfl

/-! ### Writing -/

lemma exists_write {m : Machine R} {s : Symbol} (h : m.Has s) (hs : s.isInput = false) (x : R) :
    ∃ m', m.write s x = .ok m' := by
  obtain ⟨temps, input, output, re, im⟩ := m
  cases s with
  | temp id =>
    have hid : id < temps.size := by simpa [Has, contents?] using h
    exact ⟨_, checkIndex_bind_eq_ok.2 ⟨hid, rfl⟩⟩
  | input i => simp [Symbol.isInput] at hs
  | output i =>
    cases output with
    | none =>
      have hi : i < input.size := by simpa [Has, contents?] using h
      exact ⟨_, checkIndex_bind_eq_ok.2 ⟨hi, rfl⟩⟩
    | some output =>
      have hi : i < output.size := by simpa [Has, contents?] using h
      exact ⟨_, checkIndex_bind_eq_ok.2 ⟨hi, rfl⟩⟩
  | real i =>
    have hi : i < re.size := by simpa [Has, contents?] using h
    exact ⟨_, checkIndex_bind_eq_ok.2 ⟨hi, rfl⟩⟩
  | imag i =>
    have hi : i < im.size := by simpa [Has, contents?] using h
    exact ⟨_, checkIndex_bind_eq_ok.2 ⟨hi, rfl⟩⟩

lemma write_eq_error {m : Machine R} {s : Symbol} (h : ¬ m.Has s) (hs : s.isInput = false) (x : R) :
    m.write s x = .error (m.missing s) := by
  obtain ⟨temps, input, output, re, im⟩ := m
  cases s with
  | temp id => exact checkIndex_bind_eq_error (by simpa [Has, contents?] using h)
  | input i => simp [Symbol.isInput] at hs
  | output i =>
    cases output with
    | none => exact checkIndex_bind_eq_error (by simpa [Has, contents?] using h)
    | some output => exact checkIndex_bind_eq_error (by simpa [Has, contents?] using h)
  | real i => exact checkIndex_bind_eq_error (by simpa [Has, contents?] using h)
  | imag i => exact checkIndex_bind_eq_error (by simpa [Has, contents?] using h)

/-- What a write can have done: the location was there and is no input, and it holds the value now.
Only an output that shares the array of the inputs is also seen at another symbol. -/
lemma write_eq_ok {m m' : Machine R} {s : Symbol} {x : R} (h : m.write s x = .ok m') :
    s.isInput = false ∧ m.Has s ∧ m'.shape = m.shape ∧ m'.contents? s = some x ∧
      ∀ t, t ≠ s → (∀ i, s = .output i → t = .input i → m.output.isSome) →
        m'.contents? t = m.contents? t := by
  obtain ⟨temps, input, output, re, im⟩ := m
  cases s with
  | temp id =>
    obtain ⟨hid, rfl⟩ := checkIndex_bind_eq_ok.1 h
    refine ⟨rfl, by simp [Has, contents?, hid], by simp [shape], by simp [contents?, hid], ?_⟩
    rintro (t | t | t | t | t) ht - <;> simp_all [contents?, eq_comm]
  | input i => simp [write] at h
  | output i =>
    cases output with
    | none =>
      obtain ⟨hi, rfl⟩ := checkIndex_bind_eq_ok.1 h
      refine ⟨rfl, by simp [Has, contents?, hi], by simp [shape], by simp [contents?, hi], ?_⟩
      rintro (t | t | t | t | t) ht hshare <;> simp_all [contents?, eq_comm]
    | some output =>
      obtain ⟨hi, rfl⟩ := checkIndex_bind_eq_ok.1 h
      refine ⟨rfl, by simp [Has, contents?, hi], by simp [shape], by simp [contents?, hi], ?_⟩
      rintro (t | t | t | t | t) ht - <;> simp_all [contents?, eq_comm]
  | real i =>
    obtain ⟨hi, rfl⟩ := checkIndex_bind_eq_ok.1 h
    refine ⟨rfl, by simp [Has, contents?, hi], by simp [shape], by simp [contents?, hi], ?_⟩
    rintro (t | t | t | t | t) ht - <;> simp_all [contents?, eq_comm]
  | imag i =>
    obtain ⟨hi, rfl⟩ := checkIndex_bind_eq_ok.1 h
    refine ⟨rfl, by simp [Has, contents?, hi], by simp [shape], by simp [contents?, hi], ?_⟩
    rintro (t | t | t | t | t) ht - <;> simp_all [contents?, eq_comm]

/-- Distinct symbols are distinct locations: what is written to one is not seen at another. -/
def Separate (m : Machine R) : Prop :=
  ∀ s t x m', s ≠ t → m.write s x = .ok m' → m'.read t = m.read t

/-- Symbols can only share a location if the outputs have no array of their own, and can only be
seen to share it if there are two values. -/
lemma separate_iff {m : Machine R} :
    m.Separate ↔ m.output.isSome ∨ m.input = #[] ∨ Subsingleton R := by
  constructor
  · intro h
    by_contra hnot
    obtain ⟨hout, hin, hR⟩ : ¬ m.output.isSome ∧ m.input ≠ #[] ∧ ¬ Subsingleton R := by
      simpa only [not_or] using hnot
    have hnone : m.output = none := by simpa using hout
    have h0 : 0 < m.input.size := Array.size_pos_iff.2 hin
    have hhas : m.Has (.output 0) := by simp [Has, contents?, hnone, h0]
    have hone (x : R) : m.read (.input 0) = .ok x := by
      obtain ⟨m', hm'⟩ := exists_write hhas rfl x
      rw [← h (.output 0) (.input 0) x m' (by simp) hm', read_eq_ok]
      have hx := (write_eq_ok hm').2.2.2.1
      have hshape := (write_eq_ok hm').2.2.1
      have hnone' : m'.output = none := by
        simpa [shape, hnone] using congrArg (fun p => p.2.2.1) hshape
      simpa [contents?, hnone'] using hx
    exact hR ⟨fun x y => Except.ok.inj ((hone x).symm.trans (hone y))⟩
  · rintro h s t x m' hst hw
    obtain ⟨-, -, hshape, -, hframe⟩ := write_eq_ok hw
    refine read_congr (missing_of_shape hshape t) ?_
    by_cases hshare : ∃ i, s = .output i ∧ t = .input i ∧ m.output = none
    · obtain ⟨i, rfl, rfl, hnone⟩ := hshare
      rcases h with h | h | h
      · simp [hnone] at h
      · have hhas := (write_eq_ok hw).2.1
        simp [Has, contents?, hnone, h] at hhas
      · have hhas := has_iff_of_shape hshape (.input i)
        cases h1 : m.contents? (.input i) <;> cases h2 : m'.contents? (.input i) <;>
          simp [Has, h1, h2] at hhas ⊢
        exact Subsingleton.elim _ _
    · exact hframe t hst.symm fun i hs ht => by
        by_contra hnone
        exact hshare ⟨i, hs, ht, by simpa using hnone⟩

lemma Separate.of_shape {m m' : Machine R} (hm : m.Separate) (h : m'.shape = m.shape) :
    m'.Separate := by
  simp only [shape, Prod.mk.injEq] at h
  obtain ⟨-, hin, hout, -, -⟩ := h
  rw [separate_iff] at hm ⊢
  rcases hm with hm | hm | hm
  · refine Or.inl ?_
    rw [← Option.isSome_map (f := Array.size), hout, Option.isSome_map]
    exact hm
  · rw [hm] at hin
    exact Or.inr (Or.inl (Array.size_eq_zero_iff.1 hin))
  · exact Or.inr (Or.inr hm)

end Machine

/-! ### Statements -/

namespace Expr

@[simp] lemma occurrences_sym (s : Symbol) : (sym s : Expr R).occurrences = [s] := rfl

@[simp] lemma occurrences_lit (x : R) : (lit x).occurrences = [] := rfl

@[simp] lemma occurrences_neg (a : Expr R) : (neg a).occurrences = a.occurrences := rfl

@[simp] lemma occurrences_add (a b : Expr R) :
    (add a b).occurrences = a.occurrences ++ b.occurrences :=
  occurrencesBefore_eq a b.occurrences

@[simp] lemma occurrences_sub (a b : Expr R) :
    (sub a b).occurrences = a.occurrences ++ b.occurrences :=
  occurrencesBefore_eq a b.occurrences

@[simp] lemma occurrences_mul (a b : Expr R) :
    (mul a b).occurrences = a.occurrences ++ b.occurrences :=
  occurrencesBefore_eq a b.occurrences

@[simp] lemma mem_symbols {e : Expr R} {s : Symbol} : s ∈ e.symbols ↔ s ∈ e.occurrences := by
  rw [symbols_eq, List.mem_eraseDups]

lemma nodup_symbols (e : Expr R) : e.symbols.Nodup := by
  rw [symbols_eq]
  exact nodup_eraseDups _

/-- The expression mentions a symbol. -/
def Mentions (s : Symbol) : Expr R → Prop
  | sym t => t = s
  | lit _ => False
  | neg a => a.Mentions s
  | add a b | sub a b | mul a b => a.Mentions s ∨ b.Mentions s

lemma mentions_iff {e : Expr R} {s : Symbol} : e.Mentions s ↔ s ∈ e.occurrences := by
  induction e with
  | sym t => simp [Mentions, eq_comm]
  | lit x => simp [Mentions]
  | neg a iha => simpa [Mentions] using iha
  | add a b iha ihb | sub a b iha ihb | mul a b iha ihb => simp [Mentions, iha, ihb]

/-- The value depends on the symbols that occur alone. -/
lemma evalIn_congr [Scalar R] {ε : Type} {read read' : Symbol → Except ε R} {e : Expr R}
    (h : ∀ s ∈ e.occurrences, read s = read' s) : e.evalIn read = e.evalIn read' := by
  induction e with
  | sym s => exact h s (by simp)
  | lit x => rfl
  | neg a iha =>
    simp only [evalIn]
    rw [iha h]
  | add a b iha ihb | sub a b iha ihb | mul a b iha ihb =>
    simp only [evalIn]
    rw [iha fun s hs => h s (by simp [hs]), ihb fun s hs => h s (by simp [hs])]

end Expr

/-- A cyclic shift lists the slots of its table. -/
def Stmt.Follows (tables : Array (List ℕ)) : Stmt R → Prop
  | .call (.cyclicShift table slots) => tables[table]? = some slots
  | _ => True

lemma Call.mem_symbols {c : Call R} {s : Symbol} :
    s ∈ c.symbols ↔ ∃ i ∈ c.slots, s = .real i ∨ s = .imag i := by
  simp [Call.symbols]

namespace Machine

variable [Scalar R] {tables : Array (List ℕ)}

lemma callLanes_twin {c : Call R} (hc : (Stmt.call c).Follows tables) {l l' : Lanes R}
    (h : Lanes.Agree c.slots l l') :
    Lanes.Twin c.slots l l' (callLanes tables l c) (callLanes tables l' c) := by
  cases c with
  | butterfly radix slots => exact Lanes.Twin.butterfly h
  | rotate slot cos sin => exact Lanes.Twin.rotate cos sin h
  | swap a b => exact Lanes.Twin.swap h
  | cyclicShift table slots =>
    have htable : getOrFault tables table = .ok slots := getOrFault_eq_ok.2 hc
    simp only [callLanes, htable]
    exact Lanes.Twin.cyclicShift h

/-- A routine changes no sizes, whatever its table says. -/
lemma callLanes_within {c : Call R} {l a : Lanes R} (h : callLanes tables l c = .ok a) :
    ∃ slots, Lanes.Within slots l a := by
  have hagree (slots : List ℕ) : Lanes.Agree slots l l :=
    ⟨⟨rfl, rfl⟩, fun _ _ => rfl, fun _ _ => rfl⟩
  cases c with
  | butterfly radix slots => exact ⟨_, (Lanes.Twin.butterfly (hagree slots)).within h⟩
  | rotate slot cos sin => exact ⟨_, (Lanes.Twin.rotate cos sin (hagree [slot])).within h⟩
  | swap i j => exact ⟨_, (Lanes.Twin.swap (hagree [i, j])).within h⟩
  | cyclicShift table slots =>
    obtain ⟨listed, -, hshift⟩ := bind_eq_ok.1 h
    exact ⟨_, (Lanes.Twin.cyclicShift (hagree listed)).within hshift⟩

lemma shape_of_runStmt {m m' : Machine R} {s : Stmt R} (h : m.runStmt tables s = .ok m') :
    m'.shape = m.shape := by
  cases s with
  | assign dst value =>
    obtain ⟨x, -, hwrite⟩ := bind_eq_ok.1 h
    exact (write_eq_ok hwrite).2.2.1
  | call c =>
    obtain ⟨temps, input, output, lanes⟩ := m
    obtain ⟨a, hcall, hm'⟩ := bind_eq_ok.1 h
    obtain ⟨slots, hwithin⟩ := callLanes_within hcall
    cases hm'
    exact (frame_of_within (m := ⟨temps, input, output, lanes⟩) hwithin).1

/-- A stream leaves every array as long as it was. -/
lemma shape_of_execute {m m' : Machine R} {stream : List (Instruction R)}
    (h : m.execute tables stream = .ok m') : m'.shape = m.shape := by
  induction stream generalizing m with
  | nil =>
    cases h
    rfl
  | cons inst stream ih =>
    rw [execute, List.foldlM_cons] at h
    obtain ⟨m₁, hstep, hrest⟩ := bind_eq_ok.1 h
    refine (ih hrest).trans ?_
    unfold step at hstep
    split at hstep
    · cases hstep
      rfl
    · exact shape_of_runStmt hstep

/-- An expression has a value only where all its locations are there. -/
lemma has_of_evalIn {m : Machine R} {e : Expr R} {x : R} (h : e.evalIn m.read = .ok x) {s : Symbol}
    (hs : s ∈ e.occurrences) : m.Has s := by
  induction e generalizing x with
  | sym t =>
    obtain rfl : s = t := by simpa using hs
    simp [Has, read_eq_ok.1 h]
  | lit y => simp at hs
  | neg a iha =>
    obtain ⟨y, ha, -⟩ := bind_eq_ok.1 h
    exact iha ha (by simpa using hs)
  | add a b iha ihb | sub a b iha ihb | mul a b iha ihb =>
    obtain ⟨y, ha, hrest⟩ := bind_eq_ok.1 h
    obtain ⟨z, hb, -⟩ := bind_eq_ok.1 hrest
    have hcases : s ∈ a.occurrences ∨ s ∈ b.occurrences := by simpa using hs
    exact hcases.elim (iha ha) (ihb hb)

lemma has_of_assign {m m' : Machine R} {dst : Symbol} {e : Expr R}
    (h : m.runStmt tables (.assign dst e) = .ok m') :
    dst.isInput = false ∧ ∀ s ∈ dst :: e.occurrences, m.Has s := by
  obtain ⟨x, hvalue, hwrite⟩ := bind_eq_ok.1 h
  obtain ⟨hinput, hdst, -⟩ := write_eq_ok hwrite
  refine ⟨hinput, fun s hs => ?_⟩
  rcases List.mem_cons.1 hs with rfl | hs
  · exact hdst
  · exact has_of_evalIn hvalue hs

/-- Whatever a stream runs is run by a machine of the shape that it starts with. -/
lemma exists_runStmt_of_execute {m m' : Machine R} {stream : List (Instruction R)}
    (h : m.execute tables stream = .ok m') {inst : Instruction R} (hinst : inst ∈ stream) {o : Op R}
    (hlive : inst.liveOp? = some o) :
    ∃ a a' : Machine R, a.shape = m.shape ∧ a.runStmt tables o.stmt = .ok a' := by
  obtain ⟨before, after, rfl⟩ := List.append_of_mem hinst
  simp only [execute, List.foldlM_append, List.foldlM_cons] at h
  obtain ⟨a, hbefore, hrest⟩ := bind_eq_ok.1 h
  obtain ⟨a', hstep, -⟩ := bind_eq_ok.1 hrest
  refine ⟨a, a', shape_of_execute hbefore, ?_⟩
  simpa only [step, hlive] using hstep

/-- What a statement does is determined by its inputs, and shows at its outputs alone: on machines
that agree on the inputs it fails, alike if they have the same shape, or leaves them agreeing on the
outputs and changes nothing else. -/
theorem runStmt_footprint {m₁ m₂ : Machine R} {s : Stmt R} (h₁ : m₁.Separate) (h₂ : m₂.Separate)
    (hs : s.Follows tables) (hlanes : m₁.lanes.SameSize m₂.lanes)
    (hin : ∀ t ∈ s.inputs, m₁.read t = m₂.read t)
    (hout : ∀ t ∈ s.outputs, m₁.Has t ↔ m₂.Has t) :
    (∃ f₁ f₂, m₁.runStmt tables s = .error f₁ ∧ m₂.runStmt tables s = .error f₂ ∧
      (m₁.shape = m₂.shape → f₁ = f₂)) ∨
    ∃ m₁' m₂', m₁.runStmt tables s = .ok m₁' ∧ m₂.runStmt tables s = .ok m₂' ∧
      m₁'.shape = m₁.shape ∧ m₂'.shape = m₂.shape ∧
      (∀ t ∈ s.outputs, m₁'.read t = m₂'.read t) ∧
      ∀ t ∉ s.outputs, m₁'.read t = m₁.read t ∧ m₂'.read t = m₂.read t := by
  cases s with
  | assign dst value =>
    have heval : value.evalIn m₁.read = value.evalIn m₂.read :=
      Expr.evalIn_congr fun s hs => hin s (Expr.mem_symbols.2 hs)
    simp only [runStmt, heval]
    cases value.evalIn m₂.read with
    | error f => exact Or.inl ⟨f, f, rfl, rfl, fun _ => rfl⟩
    | ok x =>
      have hdst := hout dst (by simp [Stmt.outputs])
      by_cases hi : dst.isInput = true
      · cases dst <;> simp [Symbol.isInput] at hi
        exact Or.inl ⟨_, _, rfl, rfl, fun _ => rfl⟩
      rw [Bool.not_eq_true] at hi
      by_cases hhas : m₁.Has dst
      · obtain ⟨m₁', hw₁⟩ := exists_write hhas hi x
        obtain ⟨m₂', hw₂⟩ := exists_write (hdst.1 hhas) hi x
        refine Or.inr ⟨m₁', m₂', hw₁, hw₂, (write_eq_ok hw₁).2.2.1, (write_eq_ok hw₂).2.2.1, ?_, ?_⟩
        · intro t ht
          obtain rfl : t = dst := by simpa [Stmt.outputs] using ht
          rw [read_eq_ok.2 (write_eq_ok hw₁).2.2.2.1, read_eq_ok.2 (write_eq_ok hw₂).2.2.2.1]
        · intro t ht
          have hne : dst ≠ t := fun e => ht (by simp [Stmt.outputs, e])
          exact ⟨h₁ dst t x m₁' hne hw₁, h₂ dst t x m₂' hne hw₂⟩
      · exact Or.inl ⟨_, _, write_eq_error hhas hi x, write_eq_error (mt hdst.2 hhas) hi x,
          fun hshape => missing_of_shape hshape dst⟩
  | call c =>
    obtain ⟨temps₁, input₁, output₁, l₁⟩ := m₁
    obtain ⟨temps₂, input₂, output₂, l₂⟩ := m₂
    have hagree : Lanes.Agree c.slots l₁ l₂ := ⟨hlanes,
      fun i hi => contents?_eq_of_read (hin (.real i) (Call.mem_symbols.2 ⟨i, hi, Or.inl rfl⟩)),
      fun i hi => contents?_eq_of_read (hin (.imag i) (Call.mem_symbols.2 ⟨i, hi, Or.inr rfl⟩))⟩
    rcases callLanes_twin hs hagree with ⟨f, hf₁, hf₂⟩ | ⟨a₁, a₂, ha₁, ha₂, hw₁, hw₂, hagree'⟩
    · exact Or.inl ⟨f, f, by simp [runStmt, hf₁], by simp [runStmt, hf₂], fun _ => rfl⟩
    · obtain ⟨hshape₁, hframe₁⟩ := frame_of_within (m := ⟨temps₁, input₁, output₁, l₁⟩) hw₁
      obtain ⟨hshape₂, hframe₂⟩ := frame_of_within (m := ⟨temps₂, input₂, output₂, l₂⟩) hw₂
      refine Or.inr ⟨⟨temps₁, input₁, output₁, a₁⟩, ⟨temps₂, input₂, output₂, a₂⟩,
        by simp [runStmt, ha₁], by simp [runStmt, ha₂], hshape₁, hshape₂, fun t ht => ?_,
        fun t ht => ?_⟩
      · obtain ⟨i, hi, rfl | rfl⟩ := Call.mem_symbols.1 ht
        · exact getOrFault_congr hagree'.sameSize.1 (hagree'.re_eq i hi)
        · exact getOrFault_congr hagree'.sameSize.2 (hagree'.im_eq i hi)
      · have hoff (i : ℕ) (hi : i ∈ c.slots) : t ≠ .real i ∧ t ≠ .imag i :=
          ⟨fun e => ht (Call.mem_symbols.2 ⟨i, hi, Or.inl e⟩),
            fun e => ht (Call.mem_symbols.2 ⟨i, hi, Or.inr e⟩)⟩
        exact ⟨hframe₁ t hoff, hframe₂ t hoff⟩

/-- The sets that an operation declares are exact. On machines of one shape that agree on what it
declares to read, the operation fails alike, or leaves them agreeing on what it declares to write
and changes nothing else; and an assignment declares to read just the symbols that its expression
mentions, each once. -/
theorem step_exact {s : Stmt R} {mandatory : Bool} {o : Op R} (ho : o = { stmt := s, mandatory })
    (hs : s.Follows tables) {m₁ m₂ : Machine R} (hshape : m₁.shape = m₂.shape)
    (h₁ : m₁.Separate) (h₂ : m₂.Separate) (hin : ∀ t ∈ o.inputs, m₁.read t = m₂.read t) :
    ((∃ f, m₁.step tables (.op o) = .error f ∧ m₂.step tables (.op o) = .error f) ∨
      ∃ m₁' m₂', m₁.step tables (.op o) = .ok m₁' ∧ m₂.step tables (.op o) = .ok m₂' ∧
        (∀ t ∈ o.outputs, m₁'.read t = m₂'.read t) ∧
        ∀ t ∉ o.outputs, m₁'.read t = m₁.read t ∧ m₂'.read t = m₂.read t) ∧
    ∀ dst value, s = .assign dst value →
      o.inputs.Nodup ∧ ∀ t, t ∈ o.inputs ↔ value.Mentions t := by
  subst ho
  refine ⟨?_, ?_⟩
  · have hhas (t : Symbol) (_ : t ∈ s.outputs) : m₁.Has t ↔ m₂.Has t := has_iff_of_shape hshape t
    obtain ⟨f₁, f₂, hf₁, hf₂, hsame⟩ | ⟨m₁', m₂', hrun₁, hrun₂, -, -, hout, hoff⟩ :=
      runStmt_footprint h₁ h₂ hs (sameSize_of_shape hshape) hin hhas
    · exact Or.inl ⟨f₁, hf₁, hsame hshape ▸ hf₂⟩
    · exact Or.inr ⟨m₁', m₂', hrun₁, hrun₂, hout, hoff⟩
  · rintro dst value rfl
    refine ⟨value.nodup_symbols, fun t => ?_⟩
    rw [Expr.mentions_iff]
    exact Expr.mem_symbols

/-- A cyclic shift that comes back to its first slot, on machines that differ in a temporary. -/
theorem step_exact_returning : ∃ m₁ m₂ : Machine Float,
    (Machine.mk #[5.0] #[] none ⟨#[1.0, 2.0], #[3.0, 4.0]⟩).step #[[0, 1, 0]]
      (.op { stmt := .call (.cyclicShift 0 [0, 1, 0]) }) = .ok m₁ ∧
    (Machine.mk #[6.0] #[] none ⟨#[1.0, 2.0], #[3.0, 4.0]⟩).step #[[0, 1, 0]]
      (.op { stmt := .call (.cyclicShift 0 [0, 1, 0]) }) = .ok m₂ ∧
    m₁.read (.real 1) = m₂.read (.real 1) ∧
    m₁.read (.temp 0) = .ok 5.0 ∧ m₂.read (.temp 0) = .ok 6.0 := by
  have hseparate (temps : Array Float) (l : Lanes Float) : (Machine.mk temps #[] none l).Separate :=
    separate_iff.2 (Or.inr (Or.inl rfl))
  have hin : ∀ t ∈ (Stmt.call (.cyclicShift 0 [0, 1, 0]) : Stmt Float).inputs,
      (Machine.mk #[5.0] #[] none ⟨#[1.0, 2.0], #[3.0, 4.0]⟩).read t =
        (Machine.mk #[6.0] #[] none ⟨#[1.0, 2.0], #[3.0, 4.0]⟩).read t := by
    intro t ht
    obtain ⟨i, -, rfl | rfl⟩ := Call.mem_symbols.1 ht <;> rfl
  have hshape : (Machine.mk #[5.0] #[] none ⟨#[1.0, 2.0], #[3.0, 4.0]⟩ : Machine Float).shape =
      (Machine.mk #[6.0] #[] none ⟨#[1.0, 2.0], #[3.0, 4.0]⟩).shape := by
    simp [shape]
  obtain ⟨⟨f, hfault, -⟩ | ⟨m₁, m₂, hrun₁, hrun₂, hout, hoff⟩, -⟩ :=
    @step_exact Float _ #[[0, 1, 0]] (.call (.cyclicShift 0 [0, 1, 0])) false _ rfl rfl
      (Machine.mk #[5.0] #[] none ⟨#[1.0, 2.0], #[3.0, 4.0]⟩)
      (Machine.mk #[6.0] #[] none ⟨#[1.0, 2.0], #[3.0, 4.0]⟩) hshape (hseparate _ _)
      (hseparate _ _) hin
  · cases hfault
  · have htemp := hoff (.temp 0) (by decide)
    exact ⟨m₁, m₂, hrun₁, hrun₂, hout (.real 1) (by decide), htemp.1.trans rfl, htemp.2.trans rfl⟩

end Machine

end MixedRadix
