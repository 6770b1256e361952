import MixedRadix.Fault

/-!
# Permutations

A permutation of `0 … n - 1` maps logical positions to addresses. It falls into cycles, each listed
from its least element, and the cycles give the permutation back.

Both the check that a map is a bijection and the walk through the cycles mark what they have met, so
each looks at every position once.
-/

namespace MixedRadix

/-- A map of `0 … n - 1`, given by its values. -/
structure Permutation where
  map : Array Nat
  deriving DecidableEq, Repr

namespace Permutation

/-- Every value is below `n`, and none occurs twice. -/
def IsBijective (map : Array Nat) : Prop :=
  (∀ i ∈ map.toList, i < map.size) ∧ map.toList.Nodup

/-- Marks an index that is not marked yet. -/
def markNew? (marks : Array Bool) (i : Nat) : Option (Array Bool) :=
  if marks[i]? = some false then some (marks.setIfInBounds i true) else none

/-- Marking succeeds as long as every index is there, unmarked, and met for the first time. -/
theorem isSome_foldlM_markNew? (is : List Nat) (marks : Array Bool) :
    (is.foldlM markNew? marks).isSome ↔ (∀ i ∈ is, marks[i]? = some false) ∧ is.Nodup := by
  induction is generalizing marks with
  | nil => simp
  | cons a is ih =>
    simp only [List.foldlM_cons, markNew?]
    split
    · rename_i h
      have hset (i : Nat) : (marks.setIfInBounds a true)[i]? = some false ↔
          a ≠ i ∧ marks[i]? = some false := by
        rw [Array.getElem?_setIfInBounds]
        split
        · split <;> simp_all
        · simp_all
      simp only [Option.bind_eq_bind, Option.bind_some, ih, hset, List.mem_cons, forall_eq_or_imp,
        List.nodup_cons, h, true_and]
      constructor
      · exact fun ⟨hall, hnodup⟩ => ⟨fun i hi => (hall i hi).2, fun ha => (hall a ha).1 rfl, hnodup⟩
      · exact fun ⟨hall, ha, hnodup⟩ => ⟨fun i hi => ⟨fun e => ha (e ▸ hi), hall i hi⟩, hnodup⟩
    · rename_i h
      simp [h]

theorem isBijective_iff (map : Array Nat) :
    (map.toList.foldlM markNew? (Array.replicate map.size false)).isSome ↔ IsBijective map := by
  rw [isSome_foldlM_markNew?, IsBijective]
  simp [Array.getElem?_replicate]

instance (map : Array Nat) : Decidable (IsBijective map) :=
  decidable_of_iff _ (isBijective_iff map)

/-- The identity of `0 … n - 1`. -/
def identity (n : Nat) : Permutation :=
  ⟨Array.range n⟩

/-- The permutation with the given values, which have to be a bijection. -/
def ofMap (map : Array Nat) : Except Fault Permutation :=
  if IsBijective map then .ok ⟨map⟩ else .error .notBijective

/-- Number of positions. -/
def size (p : Permutation) : Nat :=
  p.map.size

/-- The image of a position; positions outside are fixed. -/
def image (p : Permutation) (i : Nat) : Nat :=
  p.map[i]?.getD i

/-- Whether every position is fixed. -/
def isIdentity (p : Permutation) : Bool :=
  p.map.toList == List.range p.size

/-- The images from `cur` on until `start` returns, at most `fuel` of them, behind those in `acc`,
which are kept latest first. -/
def orbitFrom (p : Permutation) (start : Nat) : Nat → Nat → List Nat → List Nat
  | 0, _, acc => acc.reverse
  | fuel + 1, cur, acc =>
    if cur = start then acc.reverse else p.orbitFrom start fuel (p.image cur) (cur :: acc)

/-- The cycle through `start`, beginning there. It has at most as many elements as there are
positions. -/
def orbit (p : Permutation) (start : Nat) : List Nat :=
  p.orbitFrom start p.size (p.image start) [start]

/-- Cycles met so far. -/
structure Tour where
  /-- Which positions are on one of them. -/
  met : Array Bool
  /-- The cycles, latest first. -/
  cycles : List (List Nat) := []
  deriving DecidableEq, Repr

namespace Tour

/-- Adds a cycle. -/
def add (cycle : List Nat) : Tour → Tour
  | ⟨met, cycles⟩ => ⟨cycle.foldl (fun met i => met.setIfInBounds i true) met, cycle :: cycles⟩

/-- Adds the cycle through a position unless it was met before. -/
def visit (p : Permutation) (t : Tour) (i : Nat) : Tour :=
  if t.met[i]? = some false then t.add (p.orbit i) else t

end Tour

/-- The cycles, single fixed points included, each from its least element and in order of it. -/
def cycles (p : Permutation) : List (List Nat) :=
  let start : Tour := { met := Array.replicate p.size false }
  ((List.range p.size).foldl (Tour.visit p) start).cycles.reverse

/-- Lets every element of a cycle be mapped to its successor, the last to `first`. -/
def linkCycle (first : Nat) : List Nat → Array Nat → Except Fault (Array Nat)
  | [], map => .ok map
  | [last], map => setOrFault map last first
  | a :: b :: rest, map => do linkCycle first (b :: rest) (← setOrFault map a b)

/-- The map of `0 … n - 1` in which every element of a cycle is mapped to its successor. -/
def ofCycles (n : Nat) (cycles : List (List Nat)) : Except Fault Permutation := do
  let map ← cycles.foldlM (fun map cycle => linkCycle (cycle.headD 0) cycle map) (Array.range n)
  return ⟨map⟩

end Permutation

end MixedRadix
