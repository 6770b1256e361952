/-!
# Queues

First in, first out. New elements are collected in a list of their own, latest first, which takes
the place of the other list when that one runs empty, so that every element is moved once.
-/

namespace MixedRadix

/-- A queue of elements of type `α`. -/
structure Fifo (α : Type) where
  /-- The elements that leave next, in this order. -/
  front : List α := []
  /-- The elements behind them, latest first. -/
  back : List α := []
  deriving DecidableEq, Repr

namespace Fifo

variable {α : Type}

/-- The elements in the order in which they leave. -/
def toList (q : Fifo α) : List α :=
  q.front ++ q.back.reverse

/-- A queue of some elements, of which the first leaves first. -/
def ofList (xs : List α) : Fifo α :=
  { front := xs }

/-- Adds an element at the end. -/
def push (q : Fifo α) (x : α) : Fifo α :=
  { q with back := x :: q.back }

/-- The element that leaves next, and the queue without it. -/
def pop? : Fifo α → Option (α × Fifo α)
  | ⟨x :: front, back⟩ => some (x, ⟨front, back⟩)
  | ⟨[], back⟩ =>
    match back.reverse with
    | [] => none
    | x :: front => some (x, ⟨front, []⟩)

@[simp] theorem toList_empty : ({} : Fifo α).toList = [] := rfl

@[simp] theorem toList_ofList (xs : List α) : (ofList xs).toList = xs := by
  simp [ofList, toList]

@[simp] theorem toList_push (q : Fifo α) (x : α) : (q.push x).toList = q.toList ++ [x] := by
  simp [push, toList]

theorem toList_of_pop?_eq_none {q : Fifo α} (h : q.pop? = none) : q.toList = [] := by
  unfold pop? at h
  split at h
  · simp at h
  · split at h
    · simp_all [toList]
    · simp at h

theorem toList_of_pop?_eq_some {q r : Fifo α} {x : α} (h : q.pop? = some (x, r)) :
    q.toList = x :: r.toList := by
  unfold pop? at h
  split at h
  · simp only [Option.some.injEq, Prod.mk.injEq] at h
    obtain ⟨rfl, rfl⟩ := h
    rfl
  · split at h
    · simp at h
    · simp only [Option.some.injEq, Prod.mk.injEq] at h
      obtain ⟨rfl, rfl⟩ := h
      simp_all [toList]

end Fifo

end MixedRadix
