import SchemaGraph.Proofs.Number.Bounds

/-!
# Doubles that are not negative

Rounding keeps the sign, so a sum, a product or a quotient of doubles that are not negative is none that
is negative, and neither is what is left of a double after one that is not above it.  What is left of one
after a share of it is a share again: it lies between nothing and one.
-/

namespace SchemaGraph.Binary64

/-- Whether a double is positive or a zero, whatever the sign of the zero. -/
def IsNonneg : Binary64 → Prop
  | .finite negative significand _ => negative = true → significand = 0
  | .infinite negative => negative = false
  | .nan => False

theorem isNonneg_zero (negative : Bool) : (zero negative).IsNonneg := fun _ => rfl

/-- A finite double is not negative exactly if it stands for a rational that is not. -/
theorem isNonneg_finite_iff {negative : Bool} {significand : Nat} {exponent : ℤ} :
    (finite negative significand exponent).IsNonneg ↔
      0 ≤ (finite negative significand exponent).value := by
  have hpow : (0 : ℚ) < 2 ^ exponent := by positivity
  unfold IsNonneg value
  dsimp only
  rw [mul_nonneg_iff_of_pos_right hpow]
  cases negative with
  | false => simp
  | true => simp

theorem IsNonneg.value_nonneg {x : Binary64} (h : x.IsNonneg) : 0 ≤ x.value := by
  cases x with
  | finite negative significand exponent => exact isNonneg_finite_iff.mp h
  | infinite negative => exact le_rfl
  | nan => exact le_rfl

/-- A double that is not negative is at least the integer zero. -/
theorem IsNonneg.zero_le {x : Binary64} (h : x.IsNonneg) :
    Number.le (.int 0) (.double x) = true := by
  cases x with
  | nan => exact h.elim
  | infinite negative =>
      obtain rfl : negative = false := h
      rfl
  | finite negative significand exponent =>
      have hvalue := isNonneg_finite_iff.mp h
      have hcompare : compareScaled (if negative then -(significand : ℤ) else significand)
          exponent 0 0 ≠ .lt := by
        rw [compareScaled_eq, ne_eq, compare_lt_iff_lt, not_lt, Int.cast_zero, zero_mul]
        exact hvalue
      simp only [Number.le, Number.compare?, compareInt?, Option.map_some]
      cases horder : compareScaled (if negative then -(significand : ℤ) else significand)
          exponent 0 0 with
      | lt => exact absurd horder hcompare
      | eq => rfl
      | gt => rfl

/-- Such a double is above the integer zero unless it is a zero. -/
theorem IsNonneg.zero_lt {x : Binary64} (h : x.IsNonneg) :
    Number.lt (.int 0) (.double x) = !x.isZero := by
  cases x with
  | nan => exact h.elim
  | infinite negative =>
      obtain rfl : negative = false := h
      rfl
  | finite negative significand exponent =>
      have hvalue : (if negative then -(significand : ℤ) else significand) = significand := by
        split
        · rename_i hsign
          rw [h hsign]
          rfl
        · rfl
      simp only [Number.lt, Number.compare?, compareInt?, isZero]
      rw [hvalue, compareScaled_eq]
      have hpow : (0 : ℚ) < 2 ^ exponent := by positivity
      by_cases hzero : significand = 0
      · rw [hzero]
        simp
      · have hpos : (0 : ℚ) < ((significand : ℤ) : ℚ) * 2 ^ exponent := by
          have : (0 : ℚ) < ((significand : ℤ) : ℚ) := by exact_mod_cast Nat.pos_of_ne_zero hzero
          positivity
        rw [Int.cast_zero, zero_mul, compare_gt_iff_gt.mpr hpos]
        simp [hzero]

/-! ### Rounding -/

theorem isNonneg_ofFraction {negative : Bool} {num : Nat} (den : Nat)
    (h : negative = true → num = 0) : (ofFraction negative num den).IsNonneg := by
  cases negative with
  | true =>
      unfold ofFraction
      rw [if_pos (h rfl)]
      exact isNonneg_zero true
  | false =>
      unfold ofFraction
      dsimp only
      split_ifs <;> first | rfl | exact fun hsign => nomatch hsign

theorem isNonneg_ofScaled {negative : Bool} {n : Nat} (exponent : ℤ)
    (h : negative = true → n = 0) : (ofScaled negative n exponent).IsNonneg := by
  unfold ofScaled
  split
  · refine isNonneg_ofFraction 1 fun hsign => ?_
    rw [h hsign, Nat.zero_shiftLeft]
  · exact isNonneg_ofFraction _ h

theorem ofFraction_ne_nan (negative : Bool) (num den : Nat) : ofFraction negative num den ≠ .nan := by
  unfold ofFraction
  dsimp only
  split_ifs <;> exact fun heq => nomatch heq

/-- A fraction that is not above one is within the range of doubles. -/
theorem isFinite_ofFraction {num den : Nat} (h : num ≤ den) (negative : Bool) :
    (ofFraction negative num den).isFinite = true := by
  have hlog : Nat.log2 num < Nat.log2 den + 1022 := by
    have hmono : Nat.log2 num ≤ Nat.log2 den := by
      rw [Nat.log2_eq_log_two, Nat.log2_eq_log_two]
      exact Nat.log_mono_right h
    omega
  cases hx : ofFraction negative num den with
  | finite sign significand exponent => rfl
  | infinite sign => exact absurd hx (ofFraction_ne_infinite_of_log2 hlog negative sign)
  | nan => exact absurd hx (ofFraction_ne_nan negative num den)

theorem isFinite_ofScaled {m : Nat} {exponent : ℤ} (h : (m : ℚ) * 2 ^ exponent ≤ 1)
    (negative : Bool) : (ofScaled negative m exponent).isFinite = true := by
  unfold ofScaled
  split
  · rename_i hnonneg
    refine isFinite_ofFraction ?_ negative
    rw [← Int.toNat_of_nonneg hnonneg, zpow_natCast] at h
    rw [Nat.shiftLeft_eq]
    exact_mod_cast h
  · obtain ⟨k, rfl⟩ : ∃ k : Nat, exponent = -k := ⟨exponent.natAbs, by omega⟩
    refine isFinite_ofFraction ?_ negative
    rw [zpow_neg, zpow_natCast, ← div_eq_mul_inv, div_le_one₀ (by positivity)] at h
    rw [neg_neg, Int.toNat_natCast, Nat.one_shiftLeft]
    exact_mod_cast h

/-! ### Arithmetic -/

theorem value_neg (x : Binary64) : (neg x).value = -x.value := by
  cases x with
  | finite negative significand exponent =>
      unfold neg value
      cases negative <;> simp
  | infinite negative => exact neg_zero.symm
  | nan => exact neg_zero.symm

theorem isFinite_neg (x : Binary64) : (neg x).isFinite = x.isFinite := by
  cases x <;> rfl

/-- A sum of finite doubles is their exact sum, rounded. -/
theorem add_eq_rounded {x y : Binary64} (hx : x.isFinite = true) (hy : y.isFinite = true) :
    ∃ sum low : ℤ, (sum : ℚ) * 2 ^ low = x.value + y.value ∧ ∃ sign,
      x.add y = if sum = 0 then zero sign else ofScaled (sum < 0) sum.natAbs low := by
  cases x with
  | infinite negative => cases hx
  | nan => cases hx
  | finite a m e =>
      cases y with
      | infinite negative => cases hy
      | nan => cases hy
      | finite b m' e' =>
          refine ⟨_, if e ≤ e' then e else e', ?_, a && b, rfl⟩
          generalize hlow : (if e ≤ e' then e else e') = low
          have hle : low ≤ e := by rw [← hlow]; split <;> omega
          have hle' : low ≤ e' := by rw [← hlow]; split <;> omega
          have hscale : ∀ k : ℤ, low ≤ k → ((Nat.pow 2 (k - low).toNat : ℕ) : ℚ) * 2 ^ low = 2 ^ k := by
            intro k hk
            rw [Nat.pow_eq, Nat.cast_pow, Nat.cast_ofNat, ← zpow_natCast, ← zpow_add₀ (by norm_num),
              Int.toNat_of_nonneg (by omega), sub_add_cancel]
          unfold value
          push_cast
          rw [add_mul, mul_assoc, mul_assoc]
          rw [hscale e hle, hscale e' hle']

/-- A sum that is not negative exactly is not negative. -/
theorem isNonneg_add {x y : Binary64} (hx : x.isFinite = true) (hy : y.isFinite = true)
    (h : 0 ≤ x.value + y.value) : (x.add y).IsNonneg := by
  obtain ⟨sum, low, hsum, sign, hadd⟩ := add_eq_rounded hx hy
  have hpow : (0 : ℚ) < 2 ^ low := by positivity
  have hnonneg : 0 ≤ sum := by
    rw [← hsum, mul_nonneg_iff_of_pos_right hpow] at h
    exact_mod_cast h
  rw [hadd]
  split
  · exact isNonneg_zero sign
  · exact isNonneg_ofScaled low fun hnegative => absurd (of_decide_eq_true hnegative) (by omega)

/-- What is left of a double after one that is not above it is not negative. -/
theorem isNonneg_sub {x y : Binary64} (hx : x.isFinite = true) (hy : y.isFinite = true)
    (h : y.value ≤ x.value) : (x.sub y).IsNonneg := by
  refine isNonneg_add hx (by rwa [isFinite_neg]) ?_
  rw [value_neg]
  linarith

theorem IsNonneg.add {x y : Binary64} (hx : x.IsNonneg) (hy : y.IsNonneg) : (x.add y).IsNonneg := by
  cases x with
  | nan => exact hx.elim
  | infinite a =>
      obtain rfl : a = false := hx
      cases y with
      | nan => exact hy.elim
      | infinite b =>
          obtain rfl : b = false := hy
          rfl
      | finite b m' e' => rfl
  | finite a m e =>
      cases y with
      | nan => exact hy.elim
      | infinite b =>
          obtain rfl : b = false := hy
          rfl
      | finite b m' e' =>
          exact isNonneg_add rfl rfl (add_nonneg hx.value_nonneg hy.value_nonneg)

/-- A product with a positive finite double. -/
theorem IsNonneg.mul {x : Binary64} (hx : x.IsNonneg) {significand : Nat} (hpos : significand ≠ 0)
    (exponent : ℤ) : (x.mul (finite false significand exponent)).IsNonneg := by
  cases x with
  | nan => exact hx.elim
  | infinite a =>
      obtain rfl : a = false := hx
      change (if significand = 0 then nan else infinite false).IsNonneg
      rw [if_neg hpos]
      rfl
  | finite a m e =>
      refine isNonneg_ofScaled _ fun hsign => ?_
      rw [Bool.bne_false] at hsign
      rw [hx hsign, Nat.zero_mul]

/-- A quotient by a finite double with a positive sign. -/
theorem IsNonneg.div {x : Binary64} (hx : x.IsNonneg) (significand : Nat) (exponent : ℤ) :
    (x.div (finite false significand exponent)).IsNonneg := by
  cases x with
  | nan => exact hx.elim
  | infinite a =>
      obtain rfl : a = false := hx
      rfl
  | finite a m e =>
      refine isNonneg_ofFraction _ fun hsign => ?_
      rw [Bool.bne_false] at hsign
      rw [hx hsign]
      unfold scale
      split
      · rfl
      · exact Nat.zero_shiftLeft _

/-! ### Shares -/

/-- Whether a rational lies between nothing and all. -/
def IsShare (q : ℚ) : Prop := 0 ≤ q ∧ q ≤ 1

/-- A part of a whole is rounded to a share of it. -/
theorem isShare_ofFraction {num den : Nat} (hden : 0 < den) (h : num ≤ den) :
    (ofFraction false num den).isFinite = true ∧ IsShare (ofFraction false num den).value := by
  have hone : num ≤ 1 * den := by rwa [Nat.one_mul]
  refine ⟨isFinite_ofFraction h false, ?_, ?_⟩
  · exact (isNonneg_ofFraction den fun hsign => absurd hsign Bool.false_ne_true).value_nonneg
  · exact_mod_cast ofFraction_le_nat false hden (by decide : 1 ≤ 2 ^ 52) hone

theorem value_ofInt_one : (ofInt 1).value = 1 := by
  rw [show ofInt 1 = .finite false (2 ^ 52) (-52) by decide]
  norm_num [value]

/-- What is left of one after a share is rounded to a share. -/
theorem isShare_one_sub {x : Binary64} (hx : x.isFinite = true) (hshare : IsShare x.value) :
    ((ofInt 1).sub x).isFinite = true ∧ IsShare ((ofInt 1).sub x).value := by
  have hone : (ofInt 1).isFinite = true := by decide
  have hneg : (neg x).isFinite = true := by rwa [isFinite_neg]
  have hleft : 0 ≤ (ofInt 1).value + (neg x).value ∧ (ofInt 1).value + (neg x).value ≤ 1 := by
    rw [value_ofInt_one, value_neg]
    constructor
    · linarith [hshare.2]
    · linarith [hshare.1]
  obtain ⟨sum, low, hsum, sign, hadd⟩ := add_eq_rounded hone hneg
  have hpow : (0 : ℚ) < 2 ^ low := by positivity
  have hnonneg : 0 ≤ sum := by
    have := hleft.1
    rw [← hsum, mul_nonneg_iff_of_pos_right hpow] at this
    exact_mod_cast this
  have hmagnitude : ((sum.natAbs : ℕ) : ℚ) * 2 ^ low ≤ 1 := by
    have hcast : ((sum.natAbs : ℕ) : ℚ) = sum := by
      rw [Nat.cast_natAbs, abs_of_nonneg hnonneg]
    rw [hcast, hsum]
    exact hleft.2
  refine ⟨?_, (isNonneg_add hone hneg hleft.1).value_nonneg, ?_⟩
  · change ((ofInt 1).add (neg x)).isFinite = true
    rw [hadd]
    split
    · rfl
    · exact isFinite_ofScaled hmagnitude _
  · change ((ofInt 1).add (neg x)).value ≤ 1
    rw [hadd]
    split
    · cases sign <;> simp [zero, value]
    · exact_mod_cast ofScaled_le_nat _ (by decide : 1 ≤ 2 ^ 52) (by exact_mod_cast hmagnitude)

end SchemaGraph.Binary64
