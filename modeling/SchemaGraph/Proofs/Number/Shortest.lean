import SchemaGraph.Proofs.Number.Exact

/-!
# The shortest decimal tells doubles apart

The shortest decimal of a double lies in the interval of the double.  Intervals of different
doubles do not meet: at a common end at most one of them is closed.  So a double is determined by
the value of its shortest decimal.
-/

namespace SchemaGraph

namespace Shortest

/-- Whether a rational lies in an interval. -/
def Interval.Holds (i : Interval) (q : ℚ) : Prop :=
  (i.low : ℚ) / i.den ≤ q ∧ q ≤ (i.high : ℚ) / i.den ∧
    (i.closed = false → (i.low : ℚ) / i.den ≠ q ∧ q ≠ (i.high : ℚ) / i.den)

/-- The value of a decimal. -/
def decimalValue (n : Nat) (power : ℤ) : ℚ := n * 10 ^ power

theorem pow_ten_split (power : ℤ) :
    (10 : ℚ) ^ power * 10 ^ (-power).toNat = 10 ^ power.toNat := by
  rw [← zpow_natCast, ← zpow_natCast, ← zpow_add₀ (by norm_num)]
  congr 1
  omega

theorem Interval.holds_of_contains {i : Interval} (hden : 0 < i.den) {n : Nat} {power : ℤ}
    (h : i.contains n power = true) : i.Holds (decimalValue n power) := by
  have hunit : (0 : ℚ) < 10 ^ (-power).toNat := by positivity
  have hdenq : (0 : ℚ) < i.den := by exact_mod_cast hden
  -- multiplied out, the decimal and the ends of the interval are the natural numbers compared
  have hscaled : decimalValue n power * (i.den * 10 ^ (-power).toNat) =
      n * 10 ^ power.toNat * i.den := by
    rw [← pow_ten_split power, decimalValue]
    ring
  have hbound : ∀ end_ : Nat, (end_ : ℚ) / i.den * (i.den * 10 ^ (-power).toNat) =
      end_ * 10 ^ (-power).toNat := by
    intro end_
    field_simp
  have hpos : (0 : ℚ) < i.den * 10 ^ (-power).toNat := by positivity
  unfold Interval.contains at h
  by_cases hclosed : i.closed = true
  · rw [hclosed, if_pos rfl] at h
    simp only [Nat.pow_eq, decide_eq_true_eq] at h
    refine ⟨?_, ?_, ?_⟩
    · refine le_of_mul_le_mul_right ?_ hpos
      rw [hscaled, hbound]
      exact_mod_cast h.1
    · refine le_of_mul_le_mul_right ?_ hpos
      rw [hscaled, hbound]
      exact_mod_cast h.2
    · intro hopen
      rw [hclosed] at hopen
      exact absurd hopen (by decide)
  · rw [if_neg hclosed] at h
    simp only [Nat.pow_eq, decide_eq_true_eq] at h
    have hlow : (i.low : ℚ) / i.den < decimalValue n power := by
      refine lt_of_mul_lt_mul_right ?_ hpos.le
      rw [hscaled, hbound]
      exact_mod_cast h.1
    have hhigh : decimalValue n power < (i.high : ℚ) / i.den := by
      refine lt_of_mul_lt_mul_right ?_ hpos.le
      rw [hscaled, hbound]
      exact_mod_cast h.2
    exact ⟨hlow.le, hhigh.le, fun _ => ⟨hlow.ne, hhigh.ne⟩⟩

theorem Interval.holds_of_onGrid {i : Interval} (hden : 0 < i.den) {power : ℤ} {n : Nat}
    (h : i.onGrid? power = some n) : i.Holds (decimalValue n power) := by
  suffices hcontains : i.contains n power = true from i.holds_of_contains hden hcontains
  unfold Interval.onGrid? at h
  dsimp only at h
  generalize roundHalfEven _ _ = nearest at h
  generalize (if nearest = _ then _ else _) = other at h
  by_cases hnearest : nearest ≠ 0 ∧ i.contains nearest power = true
  · rw [if_pos hnearest] at h
    rw [← Option.some.inj h]
    exact hnearest.2
  · rw [if_neg hnearest] at h
    by_cases hother : other ≠ 0 ∧ i.contains other power = true
    · rw [if_pos hother] at h
      rw [← Option.some.inj h]
      exact hother.2
    · rw [if_neg hother] at h
      exact absurd h (by simp)

/-- Whatever grid the search stops at, its decimal lies in the interval. -/
theorem Interval.holds_search {i : Interval} (hden : 0 < i.den)
    (hexact : i.Holds (decimalValue i.exact.1 i.exact.2)) (magnitude : ℤ) (counts : List Nat) :
    i.Holds (decimalValue (i.search magnitude counts).1 (i.search magnitude counts).2) := by
  induction counts with
  | nil => exact hexact
  | cons count finer ih =>
      rw [Interval.search]
      cases hgrid : i.onGrid? (magnitude - count) with
      | none => exact ih
      | some n => exact i.holds_of_onGrid hden hgrid

section Intervals

variable {significand : Nat} {exponent : ℤ}

theorem interval_den (significand : Nat) (exponent : ℤ) :
    (interval significand exponent).den = 2 ^ (2 - exponent).toNat :=
  Nat.one_shiftLeft _

/-- A quarter of the gap between doubles with an exponent is the unit of their intervals. -/
theorem interval_end (count : Nat) (significand : Nat) (exponent : ℤ) :
    ((count * (1 <<< (exponent - 2).toNat) : Nat) : ℚ) / (interval significand exponent).den =
      count * 2 ^ (exponent - 2) := by
  rw [interval_den, Nat.one_shiftLeft]
  push_cast
  rw [mul_div_assoc]
  congr 1
  rw [div_eq_iff (by positivity), ← zpow_natCast, ← zpow_natCast, ← zpow_add₀ (by norm_num)]
  congr 1
  omega

/-- The number of quarters from zero to the lower end of an interval. -/
def lowQuarters (significand : Nat) (exponent : ℤ) : Nat :=
  if 2 * significand = Binary64.significandLimit ∧ Binary64.minExponent < exponent then
    4 * significand - 1
  else 4 * significand - 2

theorem low_eq (significand : Nat) (exponent : ℤ) :
    ((interval significand exponent).low : ℚ) / (interval significand exponent).den =
      lowQuarters significand exponent * 2 ^ (exponent - 2) :=
  interval_end (lowQuarters significand exponent) significand exponent

theorem high_eq (significand : Nat) (exponent : ℤ) :
    ((interval significand exponent).high : ℚ) / (interval significand exponent).den =
      (4 * significand + 2 : Nat) * 2 ^ (exponent - 2) :=
  interval_end (4 * significand + 2) significand exponent

theorem value_eq (significand : Nat) (exponent : ℤ) :
    ((interval significand exponent).value : ℚ) / (interval significand exponent).den =
      (4 * significand : Nat) * 2 ^ (exponent - 2) :=
  interval_end (4 * significand) significand exponent

theorem interval_den_pos (significand : Nat) (exponent : ℤ) :
    0 < (interval significand exponent).den := by
  rw [interval_den]
  exact Nat.two_pow_pos _

theorem lowQuarters_lt (hpos : 0 < significand) :
    lowQuarters significand exponent < 4 * significand := by
  unfold lowQuarters
  split <;> omega

theorem lowQuarters_pos (hpos : 0 < significand) : 0 < lowQuarters significand exponent := by
  unfold lowQuarters
  split <;> omega

theorem holds_exact (hpos : 0 < significand) :
    (interval significand exponent).Holds
      (decimalValue (interval significand exponent).exact.1
        (interval significand exponent).exact.2) := by
  have hvalue : decimalValue (interval significand exponent).exact.1
      (interval significand exponent).exact.2 =
        ((interval significand exponent).value : ℚ) / (interval significand exponent).den := by
    rw [decimalValue, Interval.exact, interval_den, Nat.log2_two_pow, Nat.pow_eq, zpow_neg,
      zpow_natCast, ← div_eq_mul_inv, div_eq_div_iff (by positivity) (by positivity)]
    push_cast
    rw [show (10 : ℚ) = 5 * 2 by norm_num, mul_pow]
    ring
  have hunit : (0 : ℚ) < 2 ^ (exponent - 2) := by positivity
  have hlow : ((interval significand exponent).low : ℚ) / (interval significand exponent).den <
      ((interval significand exponent).value : ℚ) / (interval significand exponent).den := by
    rw [low_eq, value_eq]
    refine mul_lt_mul_of_pos_right ?_ hunit
    exact_mod_cast lowQuarters_lt hpos
  have hhigh : ((interval significand exponent).value : ℚ) / (interval significand exponent).den <
      ((interval significand exponent).high : ℚ) / (interval significand exponent).den := by
    rw [high_eq, value_eq]
    refine mul_lt_mul_of_pos_right ?_ hunit
    exact_mod_cast (by omega : 4 * significand < 4 * significand + 2)
  rw [hvalue]
  exact ⟨hlow.le, hhigh.le, fun _ => ⟨hlow.ne, hhigh.ne⟩⟩

/-- The shortest decimal lies in the interval of its double. -/
theorem holds_decimal (exponent : ℤ) (hpos : 0 < significand) :
    (interval significand exponent).Holds
      (decimalValue (decimal significand exponent).1 (decimal significand exponent).2) :=
  Interval.holds_search (interval_den_pos significand exponent) (holds_exact hpos) _ _

/-- A rational of two intervals lies at or above the lower end of one and at or below the upper end
of the other; here the lower end is counted in the quarters of the smaller exponent. -/
theorem ends_meet {q : ℚ} (other shift : Nat)
    (hlow : (interval other (exponent + shift)).Holds q)
    (hhigh : (interval significand exponent).Holds q) :
    lowQuarters other (exponent + shift) * 2 ^ shift ≤ 4 * significand + 2 ∧
      (lowQuarters other (exponent + shift) * 2 ^ shift = 4 * significand + 2 →
        (interval significand exponent).closed = true ∧
          (interval other (exponent + shift)).closed = true) := by
  have hunit : (0 : ℚ) < 2 ^ (exponent - 2) := by positivity
  obtain ⟨hbelow, -, hopenlow⟩ := hlow
  obtain ⟨-, habove, hopenhigh⟩ := hhigh
  have hscale : (lowQuarters other (exponent + shift) : ℚ) * 2 ^ (exponent + shift - 2) =
      (lowQuarters other (exponent + shift) * 2 ^ shift : Nat) * 2 ^ (exponent - 2) := by
    rw [show exponent + (shift : ℤ) - 2 = shift + (exponent - 2) by ring,
      zpow_add₀ (by norm_num), zpow_natCast]
    push_cast
    ring
  rw [low_eq, hscale] at hbelow hopenlow
  rw [high_eq] at habove hopenhigh
  constructor
  · have hle := le_of_mul_le_mul_right (hbelow.trans habove) hunit
    exact_mod_cast hle
  · intro hequal
    rw [hequal] at hbelow hopenlow
    have hq : q = (4 * significand + 2 : Nat) * 2 ^ (exponent - 2) := le_antisymm habove hbelow
    constructor
    · by_contra hopen
      exact (hopenhigh (by simpa using hopen)).2 hq
    · by_contra hopen
      exact (hopenlow (by simpa using hopen)).1 hq.symm

theorem closed_iff (significand : Nat) (exponent : ℤ) :
    (interval significand exponent).closed = true ↔ significand % 2 = 0 := by
  unfold interval
  simp

theorem not_holds_of_lt {other : Nat} {q : ℚ} (hlt : significand < other)
    (hlow : (interval other exponent).Holds q) :
    ¬ (interval significand exponent).Holds q := by
  intro hhigh
  have hends := ends_meet other 0 (by simpa using hlow) hhigh
  simp only [Nat.cast_zero, add_zero, pow_zero, mul_one, closed_iff] at hends
  obtain ⟨hle, hmeet⟩ := hends
  have hleast : 4 * other - 2 ≤ lowQuarters other exponent := by
    unfold lowQuarters
    split <;> omega
  obtain ⟨heven, heven'⟩ := hmeet (by omega)
  omega

theorem not_holds_of_exponent_lt {other : Nat} {shift : Nat} {q : ℚ} (hshift : 0 < shift)
    (hsmall : significand < Binary64.significandLimit)
    (hlarge : Binary64.significandLimit ≤ 2 * other) (hmin : Binary64.minExponent ≤ exponent)
    (hlow : (interval other (exponent + shift)).Holds q) :
    ¬ (interval significand exponent).Holds q := by
  intro hhigh
  obtain ⟨hle, hmeet⟩ := ends_meet other shift hlow hhigh
  have hlimit : Binary64.significandLimit = 2 ^ 53 := rfl
  have hleast : 2 ^ 54 - 1 ≤ lowQuarters other (exponent + shift) := by
    unfold lowQuarters
    split
    · omega
    · next hwide =>
        have hne : 2 * other ≠ Binary64.significandLimit := by
          intro heq
          exact hwide ⟨heq, by omega⟩
        omega
  have hdouble : lowQuarters other (exponent + shift) * 2 ≤
      lowQuarters other (exponent + shift) * 2 ^ shift :=
    Nat.mul_le_mul_left _ (Nat.le_self_pow (by omega) 2)
  rw [hlimit] at hsmall
  obtain ⟨heven, -⟩ := hmeet (by omega)
  rw [closed_iff] at heven
  omega

/-- The intervals of two doubles in machine form do not meet. -/
theorem eq_of_holds {other : Nat} {exponent' : ℤ} {negative negative' : Bool} {q : ℚ}
    (hx : (Binary64.finite negative significand exponent).isMachine = true)
    (hy : (Binary64.finite negative' other exponent').isMachine = true)
    (hq : (interval significand exponent).Holds q) (hq' : (interval other exponent').Holds q) :
    significand = other ∧ exponent = exponent' := by
  simp only [Binary64.isMachine, Bool.and_eq_true, Bool.or_eq_true, decide_eq_true_eq,
    beq_iff_eq] at hx hy
  obtain ⟨⟨⟨hlimit, hmin⟩, -⟩, hfull⟩ := hx
  obtain ⟨⟨⟨hlimit', hmin'⟩, -⟩, hfull'⟩ := hy
  rcases lt_trichotomy exponent exponent' with hlt | heq | hgt
  · obtain ⟨shift, hshift⟩ := Int.le.dest hlt.le
    rw [← hshift] at hq'
    exact absurd hq (not_holds_of_exponent_lt (by omega) hlimit (by omega) hmin hq')
  · rw [← heq] at hq'
    rcases lt_trichotomy significand other with hlt | hsame | hgt
    · exact absurd hq (not_holds_of_lt hlt hq')
    · exact ⟨hsame, heq⟩
    · exact absurd hq' (not_holds_of_lt hgt hq)
  · obtain ⟨shift, hshift⟩ := Int.le.dest hgt.le
    rw [← hshift] at hq
    exact absurd hq' (not_holds_of_exponent_lt (by omega) hlimit' (by omega) hmin' hq)

end Intervals

end Shortest

end SchemaGraph
