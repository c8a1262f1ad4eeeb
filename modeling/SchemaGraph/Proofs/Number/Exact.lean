import Mathlib.Tactic
import Mathlib.Algebra.Order.Field.Power
import Mathlib.Data.Rat.Cast.CharZero
import SchemaGraph.Number

/-!
# The exact values of numbers

A finite number stands for a rational.  Numbers are the same exactly when they stand for one
rational, whatever their form; and a double in the form in which a machine holds it is determined
by its sign and the rational.
-/

namespace SchemaGraph

namespace Binary64

/-- The rational that a finite double stands for. -/
def value : Binary64 → ℚ
  | .finite negative significand exponent =>
      ((if negative then -(significand : ℤ) else significand : ℤ) : ℚ) * 2 ^ exponent
  | _ => 0

/-- Whether a double is finite. -/
def isFinite : Binary64 → Bool
  | .finite _ _ _ => true
  | _ => false

/-- Whether a double is finite and in the form in which a machine holds it: the exponent is in its
range, and the significand has all its digits unless the exponent is the smallest one. -/
def isMachine : Binary64 → Bool
  | .finite _ significand exponent =>
      significand < significandLimit && minExponent ≤ exponent && exponent ≤ maxExponent &&
        (significandLimit ≤ 2 * significand || exponent == minExponent)
  | _ => false

theorem isFinite_of_isMachine {x : Binary64} (h : x.isMachine = true) : x.isFinite = true := by
  cases x with
  | finite negative significand exponent => rfl
  | infinite negative => simp [isMachine] at h
  | nan => simp [isMachine] at h

/-- Scaled integers are compared like the rationals that they stand for. -/
theorem compareScaled_eq (n e n' e' : ℤ) :
    compareScaled n e n' e' = compare ((n : ℚ) * 2 ^ e) (n' * 2 ^ e') := by
  unfold compareScaled
  dsimp only
  obtain ⟨low, hlow⟩ : ∃ low, (if e ≤ e' then e else e') = low := ⟨_, rfl⟩
  rw [hlow]
  have hle : low ≤ e := by rw [← hlow]; split <;> omega
  have hle' : low ≤ e' := by rw [← hlow]; split <;> omega
  have hpos : (0 : ℚ) < 2 ^ low := by positivity
  have hscale : ∀ m k : ℤ, low ≤ k →
      (m : ℚ) * 2 ^ k = ((m * Nat.pow 2 (k - low).toNat : ℤ) : ℚ) * 2 ^ low := by
    intro m k hk
    have hsplit : (2 : ℚ) ^ k = 2 ^ (k - low).toNat * 2 ^ low := by
      rw [← zpow_natCast, ← zpow_add₀ (by norm_num)]
      congr 1
      omega
    rw [hsplit, ← mul_assoc]
    norm_cast
  rw [hscale n e hle, hscale n' e' hle', ← cmp_eq_compare, ← cmp_eq_compare,
    cmp_mul_pos_right hpos, Int.cast_strictMono.cmp_map_eq]

theorem compareScaled_eq_iff (n e n' e' : ℤ) :
    compareScaled n e n' e' = .eq ↔ (n : ℚ) * 2 ^ e = n' * 2 ^ e' := by
  rw [compareScaled_eq, compare_eq_iff_eq]

end Binary64

namespace Number

/-- The rational that a number stands for, if it is finite. -/
def value : Number → ℚ
  | .int n => n
  | .double x => x.value

/-- Whether a number is finite. -/
def isFinite : Number → Bool
  | .int _ => true
  | .double x => x.isFinite

/-- Finite numbers are the same exactly when they stand for one rational. -/
theorem same_iff_value {x y : Number} (hx : x.isFinite = true) (hy : y.isFinite = true) :
    x.same y = true ↔ x.value = y.value := by
  cases x with
  | int a =>
      cases y with
      | int b =>
          rw [same_int]
          simp [value]
      | double y =>
          cases y with
          | finite negative significand exponent =>
              have hcompare := Binary64.compareScaled_eq_iff
                (if negative then -(significand : ℤ) else significand) exponent a 0
              simp only [zpow_zero, mul_one] at hcompare
              simp only [same, compare?, Binary64.compareInt?, value, Binary64.value,
                Option.map_some, beq_iff_eq, Option.some.injEq]
              -- the comparison is made from the other side
              rw [eq_comm (a := (a : ℚ)), ← hcompare]
              generalize Binary64.compareScaled _ _ _ _ = order
              cases order <;> simp [Ordering.swap]
          | infinite negative => simp [isFinite, Binary64.isFinite] at hy
          | nan => simp [isFinite, Binary64.isFinite] at hy
  | double x =>
      cases x with
      | finite negative significand exponent =>
          cases y with
          | int b =>
              have hcompare := Binary64.compareScaled_eq_iff
                (if negative then -(significand : ℤ) else significand) exponent b 0
              simp only [zpow_zero, mul_one] at hcompare
              simp only [same, compare?, Binary64.compareInt?, value, Binary64.value,
                beq_iff_eq, Option.some.injEq]
              exact hcompare
          | double y =>
              cases y with
              | finite negative' significand' exponent' =>
                  simp only [same, compare?, Binary64.compare?, value, Binary64.value,
                    beq_iff_eq, Option.some.injEq]
                  exact Binary64.compareScaled_eq_iff _ _ _ _
              | infinite negative' => simp [isFinite, Binary64.isFinite] at hy
              | nan => simp [isFinite, Binary64.isFinite] at hy
      | infinite negative => simp [isFinite, Binary64.isFinite] at hx
      | nan => simp [isFinite, Binary64.isFinite] at hx

end Number

end SchemaGraph
