import MixedRadix.Proofs.Angle
import Mathlib.Tactic.Linarith

/-!
# Normal forms of angles

The angle of a ratio is computed on 64-bit signed words, each step of which may leave their range.
`Angle.ofWords` is this computation step by step; it fails exactly where `Angle.ofRatio` does. The
angles that come out are normal forms (`Angle.ofRatio_normalForm`): two ratios have the same angle
if and only if they differ by full turns. The shape of a rotation is therefore a matter of the ratio
modulo full turns (`Angle.turn_ofRatio_eighth`, `Angle.turn_ofRatio_general`).
-/

namespace MixedRadix.Angle

/-! ### Computation on words -/

/-- The integer if it is a 64-bit signed word. -/
def fit (x : ℤ) : Except Fault ℤ :=
  if minWord ≤ x ∧ x < -minWord then .ok x else .error .overflow

lemma fit_of_lt {x : ℤ} (h : |x| < -minWord) : fit x = .ok x :=
  if_pos ⟨(neg_neg minWord ▸ neg_lt_of_abs_lt h).le, lt_of_abs_lt h⟩

lemma fit_of_le {x : ℤ} (h : -minWord ≤ x) : fit x = .error .overflow :=
  if_neg fun hx => absurd hx.2 (not_lt.2 h)

/-- Euclid's algorithm with the remainder of a division that rounds towards zero. -/
def euclid (a b : ℤ) : ℤ :=
  if b = 0 then a else euclid b (a.tmod b)
termination_by b.natAbs
decreasing_by
  rw [Int.natAbs_tmod]
  exact Nat.mod_lt _ (by omega)

lemma euclid_natCast (a b : ℕ) : euclid a b = a.gcd b := by
  induction b using Nat.strong_induction_on generalizing a with
  | _ b ih =>
    rw [euclid]
    split_ifs with hb
    · obtain rfl : b = 0 := by exact_mod_cast hb
      simp
    · have hpos : 0 < b := by omega
      rw [← Int.ofNat_tmod, ih (a % b) (Nat.mod_lt a hpos), Nat.gcd_comm b, ← Nat.gcd_rec,
        Nat.gcd_comm]

/-- The same fraction with a positive denominator. -/
def orient (num den : ℤ) : Except Fault (ℤ × ℤ) := do
  if den < 0 then return (← fit (-num), ← fit (-den))
  return (num, den)

/-- The fraction `p / q` in lowest terms and with a positive denominator. -/
def reduce (p q : ℤ) : Except Fault (ℤ × ℤ) := do
  let divisor := euclid (← fit |p|) (← fit |q|)
  orient (p.tdiv divisor) (q.tdiv divisor)

/-- The fraction modulo a full turn. -/
def unwind (num den : ℤ) : Except Fault (ℤ × ℤ) := do
  return (num % (← fit (2 * den)), den)

/-- The numerator and the denominator of the angle `π * p / q`, computed on 64-bit signed words:
an absolute value, a change of sign or the double of the denominator may be no word. -/
def ofWords (p q : ℤ) : Except Fault (ℤ × ℤ) := do
  if q = 0 then throw .zeroDenominator
  let (num, den) ← reduce p q
  unwind num den

lemma ofWords_eq_unwind {p q num den : ℤ} (hzero : q ≠ 0) (h : reduce p q = .ok (num, den)) :
    ofWords p q = unwind num den := by
  rw [ofWords, if_neg hzero, h]
  rfl

lemma unwind_eq_error {num : ℤ} {den : ℕ} (h : doubleBound ≤ den) :
    unwind num den = .error .overflow := by
  have hle : -minWord ≤ 2 * (den : ℤ) := by
    simp only [doubleBound, minWord] at h ⊢
    omega
  rw [unwind, fit_of_le hle]
  rfl

lemma unwind_eq_ok {num : ℤ} {den : ℕ} (h : den < doubleBound) :
    unwind num den = .ok (num % (2 * den), den) := by
  have hlt : |2 * (den : ℤ)| < -minWord := by
    rw [abs_of_nonneg (by omega)]
    simp only [doubleBound, minWord] at h ⊢
    omega
  rw [unwind, fit_of_lt hlt]
  rfl

lemma tdiv_natCast (x : ℤ) (g : ℕ) : x.tdiv g = x.sign * (x.natAbs / g : ℕ) := by
  conv_lhs => rw [← Int.sign_mul_natAbs x]
  rcases lt_trichotomy x 0 with h | rfl | h
  · rw [Int.sign_eq_neg_one_of_neg h, neg_one_mul, neg_one_mul, Int.neg_tdiv, ← Int.ofNat_tdiv]
  · simp
  · rw [Int.sign_eq_one_of_pos h, one_mul, one_mul, ← Int.ofNat_tdiv]

lemma orient_tdiv {p q : ℤ} {g : ℕ} (hp : |p| < -minWord) (hq : |q| < -minWord) (hzero : q ≠ 0)
    (hdvd : g ∣ q.natAbs) :
    orient (p.tdiv g) (q.tdiv g) =
      .ok (p.sign * q.sign * (p.natAbs / g : ℕ), (q.natAbs / g : ℕ)) := by
  have hpos : 0 < q.natAbs := Int.natAbs_pos.2 hzero
  have hden : 0 < q.natAbs / g :=
    Nat.div_pos (Nat.le_of_dvd hpos hdvd) (Nat.pos_of_dvd_of_pos hdvd hpos)
  have hfit (x : ℤ) (hx : |x| < -minWord) : fit (-x.tdiv g) = .ok (-x.tdiv g) := by
    refine fit_of_lt ?_
    have hle : (x.tdiv g).natAbs ≤ x.natAbs := Int.natAbs_tdiv_le_natAbs x g
    rw [Int.abs_eq_natAbs] at hx
    rw [abs_neg, Int.abs_eq_natAbs]
    omega
  rcases lt_or_gt_of_ne hzero with hneg | hpos
  · have hsign : q.tdiv g < 0 := by
      rw [tdiv_natCast, Int.sign_eq_neg_one_of_neg hneg]
      omega
    rw [orient, if_pos hsign, hfit p hp, hfit q hq, tdiv_natCast, tdiv_natCast,
      Int.sign_eq_neg_one_of_neg hneg]
    simp [pure, Except.pure, bind, Except.bind]
  · have hsign : ¬ q.tdiv g < 0 := by
      rw [tdiv_natCast, Int.sign_eq_one_of_pos hpos]
      omega
    rw [orient, if_neg hsign, tdiv_natCast, tdiv_natCast, Int.sign_eq_one_of_pos hpos]
    simp [pure, Except.pure]

lemma reduce_eq_ok {p q : ℤ} (hp : |p| < -minWord) (hq : |q| < -minWord) (hzero : q ≠ 0) :
    reduce p q = .ok (p.sign * q.sign * (p.natAbs / p.natAbs.gcd q.natAbs : ℕ),
      (q.natAbs / p.natAbs.gcd q.natAbs : ℕ)) := by
  have hfit {x : ℤ} (hx : |x| < -minWord) : fit |x| = .ok (x.natAbs : ℤ) := by
    rw [fit_of_lt (by rwa [abs_abs]), Int.abs_eq_natAbs]
  rw [reduce, hfit hp, hfit hq]
  have := orient_tdiv hp hq hzero (Nat.gcd_dvd_right p.natAbs q.natAbs)
  rw [← euclid_natCast] at this
  exact this

/-- The angle of a ratio is in lowest terms, and there is none if its denominator cannot be
doubled. -/
lemma ofRatio_cases {p q : ℤ} (hzero : q ≠ 0) (hp : p ≠ minWord) (hq : q ≠ minWord) :
    (doubleBound ≤ q.natAbs / p.natAbs.gcd q.natAbs ∧ ofRatio p q = .error .overflow) ∨
      (q.natAbs / p.natAbs.gcd q.natAbs < doubleBound ∧ ∃ a, ofRatio p q = .ok a ∧
        (a.num : ℤ) = p.sign * q.sign * (p.natAbs / p.natAbs.gcd q.natAbs : ℕ) % (2 * a.den) ∧
        a.den = q.natAbs / p.natAbs.gcd q.natAbs) := by
  rw [ofRatio, dif_neg hzero, if_neg (not_or.2 ⟨hp, hq⟩)]
  rcases le_or_gt doubleBound (q.natAbs / p.natAbs.gcd q.natAbs) with hden | hden
  · exact Or.inl ⟨hden, if_pos hden⟩
  · have hpos : 0 < q.natAbs := Int.natAbs_pos.2 hzero
    exact Or.inr ⟨hden, _, if_neg (not_le.2 hden), cast_wrap _
      (Nat.div_pos (Nat.gcd_le_right _ hpos) (Nat.gcd_pos_of_pos_right _ hpos)), rfl⟩

/-- The computation on words fails where `ofRatio` does, and has the same results. -/
lemma ofWords_eq_map {p q : ℤ} (hp : minWord ≤ p ∧ p < -minWord) (hq : minWord ≤ q ∧ q < -minWord) :
    ofWords p q = (ofRatio p q).map fun a => ((a.num : ℤ), (a.den : ℤ)) := by
  have habs {x : ℤ} (hx : minWord ≤ x ∧ x < -minWord) (h : x ≠ minWord) : |x| < -minWord := by
    rw [abs_lt]
    omega
  have hmin : fit |minWord| = .error .overflow := fit_of_le (neg_le_abs minWord)
  by_cases hzero : q = 0
  · rw [ofWords, ofRatio, if_pos hzero, dif_pos hzero]
    rfl
  by_cases hpmin : p = minWord
  · rw [ofWords, ofRatio, if_neg hzero, dif_neg hzero, if_pos (Or.inl hpmin), hpmin, reduce, hmin]
    rfl
  have hp' := habs hp hpmin
  by_cases hqmin : q = minWord
  · rw [ofWords, ofRatio, if_neg hzero, dif_neg hzero, if_pos (Or.inr hqmin), hqmin, reduce, hmin,
      fit_of_lt (by rwa [abs_abs])]
    rfl
  rw [ofWords_eq_unwind hzero (reduce_eq_ok hp' (habs hq hqmin) hzero)]
  rcases ofRatio_cases hzero hpmin hqmin with ⟨hden, hratio⟩ | ⟨hden, a, hratio, hnum, hden_eq⟩
  · rw [unwind_eq_error hden, hratio]
    rfl
  · rw [unwind_eq_ok hden, hratio, Except.map, hnum, hden_eq]

lemma exists_error_iff {p q : ℤ} : (∃ e, ofRatio p q = .error e) ↔
    q = 0 ∨ p = minWord ∨ q = minWord ∨ doubleBound ≤ q.natAbs / p.natAbs.gcd q.natAbs := by
  by_cases hzero : q = 0
  · simp [ofRatio, hzero]
  by_cases hmin : p = minWord ∨ q = minWord
  · rw [ofRatio, dif_neg hzero, if_pos hmin]
    tauto
  obtain ⟨hp, hq⟩ := not_or.1 hmin
  rcases ofRatio_cases hzero hp hq with ⟨hden, hratio⟩ | ⟨hden, a, hratio, -⟩
  · simp [hratio, hden]
  · simp [hratio, hzero, hp, hq, not_le.2 hden]

/-! ### Uniqueness -/

lemma halfTurns_injective : Function.Injective halfTurns := by
  intro a b h
  obtain ⟨hnum, hden⟩ := num_den_of_halfTurns b.den_pos b.coprime h
  cases a
  cases b
  simp_all

/-- Less than a full turn is determined by its class modulo full turns. -/
lemma eq_of_eq_add_two_mul {x y : ℚ} (hx : 0 ≤ x ∧ x < 2) (hy : 0 ≤ y ∧ y < 2) {k : ℤ}
    (h : x = y + 2 * k) : x = y := by
  have hlt : (k : ℚ) < 1 := by linarith
  have hgt : (-1 : ℚ) < k := by linarith
  have hk : k = 0 := by
    have hlt' : k < 1 := by exact_mod_cast hlt
    have hgt' : -1 < k := by exact_mod_cast hgt
    omega
  rw [h, hk, Int.cast_zero, mul_zero, add_zero]

lemma halfTurns_eq_iff {p q : ℤ} {a : Angle} (h : ofRatio p q = .ok a) {c : ℚ}
    (hc : 0 ≤ c ∧ c < 2) : a.halfTurns = c ↔ ∃ k : ℤ, (p / q : ℚ) = c + 2 * k := by
  obtain ⟨j, hj⟩ := halfTurns_ofRatio h
  constructor
  · intro hac
    refine ⟨-j, ?_⟩
    rw [← hac, hj]
    push_cast
    ring
  · rintro ⟨k, hk⟩
    refine eq_of_eq_add_two_mul a.halfTurns_mem hc (k := k + j) ?_
    rw [hj, hk]
    push_cast
    ring

lemma eq_iff_of_ofRatio {p q p' q' : ℤ} {a a' : Angle} (h : ofRatio p q = .ok a)
    (h' : ofRatio p' q' = .ok a') :
    a = a' ↔ ∃ k : ℤ, (p / q - p' / q' : ℚ) = 2 * k := by
  obtain ⟨j, hj⟩ := halfTurns_ofRatio h'
  rw [← halfTurns_injective.eq_iff, halfTurns_eq_iff h a'.halfTurns_mem, hj]
  constructor
  · rintro ⟨k, hk⟩
    refine ⟨j + k, ?_⟩
    rw [hk]
    push_cast
    ring
  · rintro ⟨k, hk⟩
    refine ⟨k - j, ?_⟩
    rw [← sub_eq_iff_eq_add', ← sub_sub, hk]
    push_cast
    ring

/-- On 64-bit signed words the angle of a ratio is a normal form: it is computed without leaving the
words unless there is none, it is the ratio modulo full turns in lowest terms, and it tells ratios
apart that differ by no full turns. -/
theorem ofRatio_normalForm (p q : Int64) :
    (ofWords p.toInt q.toInt = (ofRatio p.toInt q.toInt).map fun a => ((a.num : ℤ), (a.den : ℤ))) ∧
    ((∃ e, ofRatio p.toInt q.toInt = .error e) ↔
      q.toInt = 0 ∨ p.toInt = -2 ^ 63 ∨ q.toInt = -2 ^ 63 ∨
        2 ^ 62 ≤ q.toInt.natAbs / p.toInt.natAbs.gcd q.toInt.natAbs) ∧
    (∀ a, ofRatio p.toInt q.toInt = .ok a →
      0 < a.den ∧ a.num < 2 * a.den ∧ a.num.gcd a.den = 1 ∧
        ∃ k : ℤ, (a.num / a.den - p.toInt / q.toInt : ℚ) = 2 * k) ∧
    ∀ (p' q' : Int64) (a a' : Angle), ofRatio p.toInt q.toInt = .ok a →
      ofRatio p'.toInt q'.toInt = .ok a' →
        (a = a' ↔ ∃ k : ℤ, (p.toInt / q.toInt - p'.toInt / q'.toInt : ℚ) = 2 * k) := by
  have hword (x : Int64) : minWord ≤ x.toInt ∧ x.toInt < -minWord := by
    have hle := x.le_toInt
    have hlt := x.toInt_lt
    simp only [minWord]
    omega
  refine ⟨ofWords_eq_map (hword p) (hword q), ?_, fun a h => ?_,
    fun p' q' a a' => eq_iff_of_ofRatio⟩
  · rw [exists_error_iff]
    have hmin : minWord = -2 ^ 63 := by norm_num [minWord]
    have hdouble : doubleBound = 2 ^ 62 := by norm_num [doubleBound]
    rw [hmin, hdouble]
  · obtain ⟨k, hk⟩ := halfTurns_ofRatio h
    refine ⟨a.den_pos, a.num_lt, a.coprime, k, ?_⟩
    rw [sub_eq_iff_eq_add']
    exact hk

example : ofRatio (-7) 14 = .ok ⟨3, 2, by decide, by decide, by decide⟩ := rfl

/-! ### Shapes -/

/-- The shape of the rotation by a number of eighths of a turn. -/
def eighth : ℕ → Turn
  | 0 => .identity
  | 2 => .quarter true
  | 4 => .half
  | 6 => .quarter false
  | octant => .diagonal octant

lemma turn_eq_eighth {a : Angle} {k : ℕ} (hk : k < 8) (h : a.halfTurns = k / 4) :
    a.turn = eighth k := by
  have hturn {n d : ℕ} (hd : 0 < d) (hcoprime : n.Coprime d) (hlt : n < 2 * d)
      (hratio : (k / 4 : ℚ) = n / d) : a.turn = (⟨n, d, hd, hlt, hcoprime⟩ : Angle).turn :=
    congrArg turn (halfTurns_injective (h.trans hratio))
  interval_cases k
  · exact hturn (n := 0) (d := 1) (by decide) (by decide) (by decide) (by norm_num)
  · exact hturn (n := 1) (d := 4) (by decide) (by decide) (by decide) (by norm_num)
  · exact hturn (n := 1) (d := 2) (by decide) (by decide) (by decide) (by norm_num)
  · exact hturn (n := 3) (d := 4) (by decide) (by decide) (by decide) (by norm_num)
  · exact hturn (n := 1) (d := 1) (by decide) (by decide) (by decide) (by norm_num)
  · exact hturn (n := 5) (d := 4) (by decide) (by decide) (by decide) (by norm_num)
  · exact hturn (n := 3) (d := 2) (by decide) (by decide) (by decide) (by norm_num)
  · exact hturn (n := 7) (d := 4) (by decide) (by decide) (by decide) (by norm_num)

/-- Every other shape is that of a number of eighths of a turn. -/
lemma exists_eighth {a : Angle} (h : a.turn ≠ .general) : ∃ k < 8, a.halfTurns = (k : ℕ) / 4 := by
  rcases a.turn_cases with ⟨-, ha⟩ | ⟨-, ha⟩ | ⟨-, ha⟩ | ⟨-, ha⟩ | ⟨octant, hmem, -, ha⟩ | ha
  · exact ⟨0, by decide, by rw [ha]; norm_num⟩
  · exact ⟨4, by decide, by rw [ha]; norm_num⟩
  · exact ⟨2, by decide, by rw [ha]; norm_num⟩
  · exact ⟨6, by decide, by rw [ha]; norm_num⟩
  · exact ⟨octant, by simp at hmem; omega, ha⟩
  · exact absurd ha h

lemma eighth_injOn : ∀ j < 8, ∀ k < 8, eighth j = eighth k → j = k := by decide

lemma eighth_odd : ∀ k < 8, Odd k → eighth k = .diagonal k := by decide

lemma eighth_ne_general : ∀ k < 8, eighth k ≠ .general := by decide

lemma odd_of_turn {a : Angle} {octant : ℕ} (h : a.turn = .diagonal octant) :
    octant < 8 ∧ Odd octant := by
  have hodd : ∀ k ∈ [1, 3, 5, 7], k < 8 ∧ Odd k := by decide
  rcases a.turn_cases with ⟨ha, -⟩ | ⟨ha, -⟩ | ⟨ha, -⟩ | ⟨ha, -⟩ | ⟨k, hk, ha, -⟩ | ha <;>
    rw [h] at ha <;> cases ha
  exact hodd octant hk

lemma turn_eq_eighth_iff {a : Angle} {k : ℕ} (hk : k < 8) :
    a.turn = eighth k ↔ a.halfTurns = k / 4 := by
  refine ⟨fun h => ?_, turn_eq_eighth hk⟩
  obtain ⟨j, hj, ha⟩ := exists_eighth (h ▸ eighth_ne_general k hk)
  have hsame : eighth j = eighth k := (turn_eq_eighth hj ha).symm.trans h
  rw [ha, eighth_injOn j hj k hk hsame]

section Ratio

variable {p q : ℤ} {a : Angle}

lemma turn_ofRatio_eighth (h : ofRatio p q = .ok a) {k : ℕ} (hk : k < 8) :
    a.turn = eighth k ↔ ∃ j : ℤ, (p / q : ℚ) = k / 4 + 2 * j := by
  have hk' : (k : ℚ) < 8 := by exact_mod_cast hk
  have hnonneg : (0 : ℚ) ≤ k := Nat.cast_nonneg k
  rw [turn_eq_eighth_iff hk]
  exact halfTurns_eq_iff h ⟨by linarith, by linarith⟩

lemma turn_ofRatio_diagonal (h : ofRatio p q = .ok a) (octant : ℕ) :
    a.turn = .diagonal octant ↔
      octant < 8 ∧ Odd octant ∧ ∃ j : ℤ, (p / q : ℚ) = octant / 4 + 2 * j := by
  constructor
  · intro hturn
    obtain ⟨hlt, hodd⟩ := odd_of_turn hturn
    rw [← eighth_odd octant hlt hodd] at hturn
    exact ⟨hlt, hodd, (turn_ofRatio_eighth h hlt).1 hturn⟩
  · rintro ⟨hlt, hodd, hratio⟩
    rw [← eighth_odd octant hlt hodd]
    exact (turn_ofRatio_eighth h hlt).2 hratio

/-- The shape of a rotation by any number of eighths of a turn. -/
lemma turn_ofRatio_of_eq (h : ofRatio p q = .ok a) {k : ℤ} (hk : (p / q : ℚ) = k / 4) :
    a.turn = eighth (k % 8).toNat := by
  refine (turn_ofRatio_eighth h (by omega)).2 ⟨k / 8, ?_⟩
  have hmod : ((k % 8).toNat : ℤ) + 8 * (k / 8) = k := by omega
  have hcast : ((k % 8).toNat : ℚ) + 8 * (k / 8 : ℤ) = k := by exact_mod_cast hmod
  linarith

lemma turn_ofRatio_general (h : ofRatio p q = .ok a) :
    a.turn = .general ↔ ¬ ∃ k : ℤ, (p / q : ℚ) = k / 4 := by
  constructor
  · rintro hturn ⟨k, hk⟩
    exact eighth_ne_general _ (by omega) ((turn_ofRatio_of_eq h hk).symm.trans hturn)
  · intro hnone
    by_contra hne
    obtain ⟨k, hk, ha⟩ := exists_eighth hne
    obtain ⟨j, hj⟩ := (turn_ofRatio_eighth h hk).1 (turn_eq_eighth hk ha)
    refine hnone ⟨k + 8 * j, ?_⟩
    push_cast
    linarith

end Ratio

end MixedRadix.Angle
