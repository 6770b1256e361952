import MixedRadix.Fault
import MixedRadix.Scalar

/-!
# Rotation angles

Angles are rational multiples of `π` in lowest terms, reduced to one full turn. Because the normal
form is unique, the shape of a rotation can be read off the numerator and the denominator.
-/

namespace MixedRadix

/-- The angle `π * num / den` with `0 ≤ num / den < 2` in lowest terms. -/
structure Angle where
  num : Nat
  den : Nat
  den_pos : 0 < den
  num_lt : num < 2 * den
  coprime : num.Coprime den
  deriving DecidableEq, Repr

/-- The shape of a rotation. -/
inductive Turn where
  /-- No rotation. -/
  | identity
  /-- By `π`. -/
  | half
  /-- By `π/2` if positive, by `3π/2` otherwise. -/
  | quarter (positive : Bool)
  /-- By an odd multiple of `π/4`. -/
  | diagonal (octant : Nat)
  /-- By any other angle. -/
  | general
  deriving DecidableEq, Repr

namespace Turn

/-- The name under which rotations of this shape are counted. -/
def name : Turn → String
  | identity => "identity"
  | half => "half-turn"
  | quarter _ => "quarter-turn"
  | diagonal _ => "diagonal"
  | general => "general"

end Turn

namespace Angle

/-- A numerator with sign, reduced modulo a full turn. -/
def wrap (p : Int) (den : Nat) : Nat :=
  (p % (2 * den : Int)).toNat

theorem cast_wrap (p : Int) {den : Nat} (h : 0 < den) : (wrap p den : Int) = p % (2 * den : Int) :=
  Int.toNat_of_nonneg (Int.emod_nonneg p (by omega))

theorem wrap_lt (p : Int) {den : Nat} (h : 0 < den) : wrap p den < 2 * den := by
  have hlt : p % (2 * den : Int) < 2 * den := Int.emod_lt_of_pos p (by omega)
  have := cast_wrap p h
  omega

/-- Reduction modulo a full turn keeps a fraction in lowest terms. -/
theorem wrap_coprime {p : Int} {den : Nat} (h : 0 < den) (hp : p.natAbs.Coprime den) :
    (wrap p den).Coprime den := by
  have hd : ((wrap p den).gcd den : Int) ∣ p := by
    have hw : ((wrap p den).gcd den : Int) ∣ p % (2 * den : Int) := by
      rw [← cast_wrap p h]
      exact Int.ofNat_dvd.2 (Nat.gcd_dvd_left _ _)
    have hden : ((wrap p den).gcd den : Int) ∣ (2 * den : Int) * (p / (2 * den : Int)) :=
      Int.dvd_mul_of_dvd_left (Int.dvd_mul_of_dvd_right (Int.ofNat_dvd.2 (Nat.gcd_dvd_right _ _)))
    have := Int.dvd_add hden hw
    rwa [Int.mul_ediv_add_emod] at this
  have hone : (wrap p den).gcd den ∣ p.natAbs.gcd den :=
    Nat.dvd_gcd (Int.ofNat_dvd_left.1 hd) (Nat.gcd_dvd_right _ _)
  rw [hp] at hone
  exact Nat.dvd_one.1 hone

/-- The angle of a fraction in lowest terms. -/
def ofCoprime (p : Int) (den : Nat) (hden : 0 < den) (hp : p.natAbs.Coprime den) : Angle where
  num := wrap p den
  den := den
  den_pos := hden
  num_lt := wrap_lt p hden
  coprime := wrap_coprime hden hp

theorem div_gcd_coprime (p : Int) {q : Int} (hq : q ≠ 0) :
    (p.sign * q.sign * (p.natAbs / p.natAbs.gcd q.natAbs : Nat)).natAbs.Coprime
      (q.natAbs / p.natAbs.gcd q.natAbs) := by
  have hg : 0 < p.natAbs.gcd q.natAbs := Nat.gcd_pos_of_pos_right _ (Int.natAbs_pos.2 hq)
  have hc := Nat.coprime_div_gcd_div_gcd hg
  by_cases hp : p = 0
  · subst hp
    have hz : 0 < q.natAbs := Int.natAbs_pos.2 hq
    simp [Nat.div_self hz]
  · rw [Int.natAbs_mul, Int.natAbs_mul, Int.natAbs_sign_of_ne_zero hp,
      Int.natAbs_sign_of_ne_zero hq, Int.natAbs_natCast, Nat.one_mul]
    exact hc

/-- `-2 ^ 63`, the least 64-bit signed integer. -/
def minWord : Int := -0x8000000000000000

/-- `2 ^ 62`, the least natural number whose double is no 64-bit signed integer. -/
def doubleBound : Nat := 0x4000000000000000

/-- The angle `π * p / q`. It fails if the denominator is zero, and wherever its computation on
64-bit signed words would leave their range: for the least word, which has no absolute value, and
for a reduced denominator that cannot be doubled. -/
def ofRatio (p q : Int) : Except Fault Angle :=
  if hq : q = 0 then .error .zeroDenominator
  else if p = minWord ∨ q = minWord then .error .overflow
  else
    let den := q.natAbs / p.natAbs.gcd q.natAbs
    if doubleBound ≤ den then .error .overflow
    else
      .ok (ofCoprime (p.sign * q.sign * (p.natAbs / p.natAbs.gcd q.natAbs : Nat)) den
        (Nat.div_pos (Nat.gcd_le_right _ (Int.natAbs_pos.2 hq))
          (Nat.gcd_pos_of_pos_right _ (Int.natAbs_pos.2 hq)))
        (div_gcd_coprime p hq))

/-- The angle in radians. -/
def radians {R : Type} [Scalar R] (a : Angle) : R :=
  Scalar.pi * Scalar.ofNat a.num / Scalar.ofNat a.den

/-- The shape of the rotation by the angle. -/
def turn (a : Angle) : Turn :=
  match a.num, a.den with
  | 0, _ => .identity
  | 1, 1 => .half
  | p, 2 => .quarter (p == 1)
  | p, 4 => .diagonal p
  | _, _ => .general

end Angle

end MixedRadix
