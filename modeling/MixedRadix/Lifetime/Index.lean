import MixedRadix.Lifetime
import Std.Data.TreeMap

/-!
# Finding lifetimes

The owner of a temporary at a position is the first lifetime of that temporary which contains the
position. Lifetimes are kept by temporary, and those of one temporary in a history.

As a rule the lifetimes of a temporary follow one another, so a history guesses by bisection which
one is wanted. Each lifetime carries a position at which all those before it are over; behind that
position no earlier lifetime can be the owner, and the guess is right. Only if this does not settle
the matter, the lifetimes are tried one by one.
-/

namespace MixedRadix

/-- The later of two ends, of which any may be missing. -/
def laterEnd : Option Nat → Option Nat → Option Nat
  | some a, some b => some (max a b)
  | _, _ => none

/-- The lifetimes of a temporary. -/
structure LifetimeHistory where
  /-- Every lifetime, with a position at which all those before it are over, if there is one. -/
  entries : Array (Lifetime × Option Nat) := #[]
  /-- A position at which all lifetimes are over, if there is one. -/
  finish : Option Nat := some 0

namespace LifetimeHistory

/-- The lifetimes in their order. -/
def toList (h : LifetimeHistory) : List Lifetime :=
  h.entries.toList.map (·.1)

/-- Adds a lifetime at the end. -/
def push (h : LifetimeHistory) (l : Lifetime) : LifetimeHistory where
  entries := h.entries.push (l, h.finish)
  finish := laterEnd h.finish l.closedAt

/-- The history of some lifetimes. -/
def ofList (ls : List Lifetime) : LifetimeHistory :=
  ls.foldl push {}

/-- Halves the range `low … high` that many times towards the last lifetime that was opened at or
before a position. -/
def guess (h : LifetimeHistory) (position : Nat) : Nat → Nat → Nat → Nat
  | 0, low, _ => low
  | steps + 1, low, high =>
    let middle := (low + high) / 2
    if h.entries[middle]?.any (·.1.openedAt ≤ position) then h.guess position steps middle high
    else h.guess position steps low middle

/-- The first lifetime that contains a position, found one by one. -/
def first? (h : LifetimeHistory) (position : Nat) : Option Lifetime :=
  (h.entries.toList.find? (·.1.contains position)).map (·.1)

/-- The first lifetime that contains a position. -/
def owner? (h : LifetimeHistory) (position : Nat) : Option Lifetime :=
  match h.entries[h.guess position (h.entries.size.log2 + 1) 0 h.entries.size]? with
  | some (l, earlierEnd) =>
    if l.contains position && earlierEnd.any (· ≤ position) then some l else h.first? position
  | none => h.first? position

/-! ### The guess is right -/

theorem first?_eq (h : LifetimeHistory) (position : Nat) :
    h.first? position = h.toList.find? (·.contains position) := by
  rw [toList, List.find?_map]
  rfl

/-- At the position that stands with a lifetime, all those before it are over; and at the last
position all of them are. -/
structure IsOrdered (h : LifetimeHistory) : Prop where
  isOver_of_entry : ∀ before l earlierEnd after,
    h.entries.toList = before ++ (l, earlierEnd) :: after →
    ∀ position, earlierEnd.any (· ≤ position) = true → ∀ e ∈ before, e.1.isOverAt position = true
  isOver_of_finish : ∀ position, h.finish.any (· ≤ position) = true →
    ∀ e ∈ h.entries.toList, e.1.isOverAt position = true

theorem any_laterEnd (a b : Option Nat) (position : Nat) :
    (laterEnd a b).any (· ≤ position) = (a.any (· ≤ position) && b.any (· ≤ position)) := by
  rcases a with - | a <;> rcases b with - | b
  · rfl
  · rfl
  · exact (Bool.and_false _).symm
  · refine Bool.eq_iff_iff.2 ?_
    simp only [laterEnd, Option.any_some, decide_eq_true_eq, Bool.and_eq_true]
    exact Nat.max_le

theorem isOrdered_empty : IsOrdered {} where
  isOver_of_entry := by simp
  isOver_of_finish := by simp

theorem IsOrdered.push {h : LifetimeHistory} (ho : h.IsOrdered) (l : Lifetime) :
    (h.push l).IsOrdered where
  isOver_of_entry := by
    intro before l' earlierEnd after heq
    rw [LifetimeHistory.push, Array.toList_push] at heq
    rcases List.eq_nil_or_concat after with rfl | ⟨after', last, rfl⟩
    · obtain ⟨rfl, hlast⟩ := List.append_inj' heq rfl
      simp only [List.cons.injEq, Prod.mk.injEq, and_true] at hlast
      obtain ⟨rfl, rfl⟩ := hlast
      exact ho.isOver_of_finish
    · have hlast : before ++ (l', earlierEnd) :: after'.concat last =
          (before ++ (l', earlierEnd) :: after') ++ [last] := by simp
      rw [hlast] at heq
      exact ho.isOver_of_entry before l' earlierEnd after' (List.append_inj' heq rfl).1
  isOver_of_finish := by
    intro position hfinish e he
    rw [LifetimeHistory.push, any_laterEnd, Bool.and_eq_true] at hfinish
    rw [LifetimeHistory.push, Array.toList_push, List.mem_append, List.mem_singleton] at he
    rcases he with he | rfl
    · exact ho.isOver_of_finish position hfinish.1 e he
    · exact hfinish.2

theorem IsOrdered.foldl {h : LifetimeHistory} (ho : h.IsOrdered) (ls : List Lifetime) :
    (ls.foldl LifetimeHistory.push h).IsOrdered := by
  induction ls generalizing h with
  | nil => exact ho
  | cons l ls ih => exact ih (ho.push l)

theorem toList_push (h : LifetimeHistory) (l : Lifetime) :
    (h.push l).toList = h.toList ++ [l] := by
  simp [toList, push]

theorem toList_foldl (h : LifetimeHistory) (ls : List Lifetime) :
    (ls.foldl push h).toList = h.toList ++ ls := by
  induction ls generalizing h with
  | nil => simp
  | cons l ls ih => simp [ih, toList_push]

theorem owner?_eq {h : LifetimeHistory} (ho : h.IsOrdered) (position : Nat) :
    h.owner? position = h.toList.find? (·.contains position) := by
  unfold owner?
  split
  · rename_i l earlierEnd hentry
    split
    · rename_i hsettled
      rw [Bool.and_eq_true] at hsettled
      rw [← Array.getElem?_toList, List.getElem?_eq_some_iff] at hentry
      obtain ⟨hlt, hentry⟩ := hentry
      generalize h.guess position _ 0 h.entries.size = i at hlt hentry
      have heq := (List.take_append_drop i h.entries.toList).symm
      rw [List.drop_eq_getElem_cons hlt, hentry] at heq
      generalize h.entries.toList.take i = before at heq
      generalize h.entries.toList.drop (i + 1) = after at heq
      have hover := ho.isOver_of_entry before l earlierEnd after heq position hsettled.2
      rw [toList, heq, List.map_append, List.find?_append, List.find?_eq_none.2, Option.none_or]
      · simp [hsettled.1]
      · intro x hx
        obtain ⟨e, he, rfl⟩ := List.mem_map.1 hx
        simp [Lifetime.contains_eq_false_of_isOverAt (hover e he)]
    · exact h.first?_eq position
  · exact h.first?_eq position

theorem owner?_ofList (ls : List Lifetime) (position : Nat) :
    (ofList ls).owner? position = ls.find? (·.contains position) := by
  rw [ofList, owner?_eq (isOrdered_empty.foldl ls), toList_foldl]
  rfl

end LifetimeHistory

/-- Lifetimes, found by their temporary. -/
structure LifetimeIndex where
  histories : Std.TreeMap Nat LifetimeHistory := {}

namespace LifetimeIndex

/-- Puts a lifetime in front of the others of its temporary. -/
def addFirst (l : Lifetime) (lists : Std.TreeMap Nat (List Lifetime)) :
    Std.TreeMap Nat (List Lifetime) :=
  lists.insert l.temp (l :: lists.getD l.temp [])

/-- The index of some lifetimes. -/
def ofList (lifetimes : List Lifetime) : LifetimeIndex :=
  ⟨(lifetimes.foldr addFirst {}).map fun _ => LifetimeHistory.ofList⟩

/-- The lifetime of a temporary at a position; of several, the first. -/
def owner? (index : LifetimeIndex) (temp position : Nat) : Option Lifetime :=
  index.histories[temp]?.bind (·.owner? position)

theorem getD_foldr_addFirst (lifetimes : List Lifetime) (temp : Nat) :
    (lifetimes.foldr addFirst {}).getD temp [] = lifetimes.filter (·.temp == temp) := by
  induction lifetimes with
  | nil => simp
  | cons l ls ih =>
    simp only [List.foldr_cons, addFirst, Std.TreeMap.getD_insert]
    by_cases h : l.temp = temp
    · subst h
      simp [ih]
    · simp [h, ih]

theorem owner?_ofList (lifetimes : List Lifetime) (temp position : Nat) :
    (ofList lifetimes).owner? temp position =
      lifetimes.find? fun l => l.temp == temp && l.contains position := by
  have hfilter : (lifetimes.find? fun l => l.temp == temp && l.contains position) =
      (lifetimes.filter (·.temp == temp)).find? (·.contains position) := by
    rw [List.find?_filter]
    exact congrArg (lifetimes.find? ·) (funext fun l => Bool.eq_iff_iff.2 (by simp))
  rw [hfilter, ← getD_foldr_addFirst, Std.TreeMap.getD_eq_getD_getElem?]
  simp only [owner?, ofList, Std.TreeMap.getElem?_map]
  cases (lifetimes.foldr addFirst {})[temp]? with
  | none => rfl
  | some ls => exact LifetimeHistory.owner?_ofList ls position

end LifetimeIndex

end MixedRadix
