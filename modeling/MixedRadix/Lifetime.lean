/-!
# Lifetimes

A temporary is recycled, so its name has one owner after another. A lifetime is the interval of
stream positions during which one owner held the name.
-/

namespace MixedRadix

/-- An interval of stream positions during which a temporary was held. -/
structure Lifetime where
  temp : Nat
  /-- The first position inside. -/
  openedAt : Nat
  /-- The first position behind, unless the temporary is still held. -/
  closedAt : Option Nat := none
  deriving DecidableEq, Repr

namespace Lifetime

/-- Whether a position lies inside. -/
def contains (l : Lifetime) (position : Nat) : Bool :=
  l.openedAt ≤ position && l.closedAt.all (position < ·)

/-- Whether the lifetime is over at a position. -/
def isOverAt (l : Lifetime) (position : Nat) : Bool :=
  l.closedAt.any (· ≤ position)

theorem contains_eq_false_of_isOverAt {l : Lifetime} {position : Nat}
    (h : l.isOverAt position = true) : l.contains position = false := by
  cases hc : l.closedAt with
  | none => simp [isOverAt, hc] at h
  | some close =>
    simp only [isOverAt, hc, Option.any_some, decide_eq_true_eq] at h
    simp only [contains, hc, Option.all_some, Bool.and_eq_false_iff, decide_eq_false_iff_not]
    exact .inr (by omega)

end Lifetime

end MixedRadix
