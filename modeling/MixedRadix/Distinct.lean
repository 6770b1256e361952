import Std.Data.TreeSet

/-!
# Distinct elements

The elements of a list, each once, in order of first occurrence. Elements are told apart by a number
of their own, so that those met before are found in an ordered set.
-/

namespace MixedRadix

variable {α : Type}

/-- The elements of a list whose numbers are not in `seen`, each once, behind those in `kept`, which
are kept latest first. -/
def distinctFrom (code : α → Nat) (seen : Std.TreeSet Nat) (kept : List α) : List α → List α
  | [] => kept.reverse
  | a :: as =>
    if code a ∈ seen then distinctFrom code seen kept as
    else distinctFrom code (seen.insert (code a)) (a :: kept) as

/-- The elements of a list, each once, in order of first occurrence. -/
def distinct (code : α → Nat) (as : List α) : List α :=
  distinctFrom code {} [] as

theorem distinctFrom_eq [BEq α] [LawfulBEq α] {code : α → Nat}
    (hcode : ∀ {a b}, code a = code b → a = b) (as : List α) (seen : Std.TreeSet Nat)
    (kept : List α) (hseen : ∀ a, code a ∈ seen ↔ a ∈ kept) :
    distinctFrom code seen kept as = List.eraseDupsBy.loop (· == ·) as kept := by
  induction as generalizing seen kept with
  | nil => rfl
  | cons a as ih =>
    unfold distinctFrom List.eraseDupsBy.loop
    by_cases h : a ∈ kept
    · rw [if_pos ((hseen a).2 h), List.any_beq, List.contains_iff_mem.2 h]
      exact ih seen kept hseen
    · rw [if_neg (fun hm => h ((hseen a).1 hm)), List.any_beq,
        Bool.eq_false_iff.2 (fun hc => h (List.contains_iff_mem.1 hc))]
      refine ih _ _ fun b => ?_
      rw [Std.TreeSet.mem_insert, hseen, List.mem_cons, Std.LawfulEqCmp.compare_eq_iff_eq]
      exact or_congr_left ⟨fun hc => (hcode hc).symm, fun hb => congrArg code hb.symm⟩

theorem distinct_eq_eraseDups [BEq α] [LawfulBEq α] {code : α → Nat}
    (hcode : ∀ {a b}, code a = code b → a = b) (as : List α) :
    distinct code as = as.eraseDups :=
  distinctFrom_eq hcode as {} [] (by simp)

end MixedRadix
