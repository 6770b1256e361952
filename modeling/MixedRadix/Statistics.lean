import MixedRadix.Angle
import MixedRadix.Expr

/-!
# Statistics

What a compilation reports about itself.
-/

namespace MixedRadix

/-- Number of rotations of every shape. -/
structure RotationTally where
  diagonal : Nat := 0
  general : Nat := 0
  half : Nat := 0
  identity : Nat := 0
  quarter : Nat := 0
  deriving DecidableEq, Repr

namespace RotationTally

/-- One more rotation of a shape. -/
def count (t : RotationTally) : Turn → RotationTally
  | .identity => { t with identity := t.identity + 1 }
  | .half => { t with half := t.half + 1 }
  | .quarter _ => { t with quarter := t.quarter + 1 }
  | .diagonal _ => { t with diagonal := t.diagonal + 1 }
  | .general => { t with general := t.general + 1 }

/-- The shapes that occur, by name, with their numbers. -/
def entries (t : RotationTally) : List (String × Nat) :=
  [(Turn.name (.diagonal 1), t.diagonal), (Turn.name .general, t.general),
    (Turn.name .half, t.half), (Turn.name .identity, t.identity),
    (Turn.name (.quarter true), t.quarter)].filter fun e => e.2 ≠ 0

end RotationTally

/-- The statistics of a compilation. -/
structure Statistics where
  /-- Operations emitted, pruned ones included. -/
  emitted : Nat := 0
  /-- Operations pruned. -/
  pruned : Nat := 0
  /-- Names of temporaries issued. -/
  issued : Nat := 0
  /-- Largest number of temporaries in use at once. -/
  peak : Nat := 0
  /-- Cost of the operations that are left. -/
  cost : Cost := {}
  /-- Butterflies requested. -/
  butterflies : Nat := 0
  /-- Rotations requested. -/
  rotations : RotationTally := {}
  deriving DecidableEq, Repr

namespace Statistics

/-- The lines of the report. -/
def lines (s : Statistics) : List String :=
  ["Compilation Session Statistics:",
    s!"  Instructions emitted: {s.emitted}",
    s!"  Instructions pruned: {s.pruned}",
    s!"  Temporaries issued: {s.issued} (peak {s.peak})",
    s!"  Additions: {s.cost.add}",
    s!"  Multiplications: {s.cost.mul}",
    s!"  Negations: {s.cost.neg}",
    s!"  Butterflies: {s.butterflies}"] ++
  if s.rotations.entries.isEmpty then []
  else "  Rotation breakdown:" ::
    s.rotations.entries.map fun (name, count) => s!"    {name}: {count}"

/-- The report. -/
def text (s : Statistics) : String :=
  String.join (s.lines.map (· ++ "\n"))

end Statistics

end MixedRadix
