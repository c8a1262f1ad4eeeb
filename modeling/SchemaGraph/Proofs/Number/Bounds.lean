import SchemaGraph.Proofs.Number.Rounded
import SchemaGraph.Proofs.Outcome

/-!
# Bounds that are numbers

A number that is not below an integer is at least this integer, or `nan`, which is comparable with
nothing.  What is left of nothing after a double of at least one is not positive, whatever is
rounded; and what is left of any number after `nan` is `nan`.
-/

namespace SchemaGraph

namespace Number

/-- Seen from an integer, a number lies the other way round than seen from itself. -/
theorem compare_int (k : ℤ) (n : Number) :
    compare? (.int k) n = (compare? n (.int k)).map Ordering.swap := by
  cases n with
  | int m =>
      simp only [compare?, Option.map_some, Option.some.injEq]
      exact Std.OrientedCmp.eq_swap
  | double x => rfl

/-- A number that is not below an integer is at least this integer, or `nan`. -/
theorem le_or_nan {n : Number} {k : ℤ} (h : lt n (.int k) = false) :
    le (.int k) n = true ∨ n = .double .nan := by
  unfold lt at h
  unfold le
  rw [compare_int]
  cases hcompare : compare? n (.int k) with
  | none =>
      right
      cases n with
      | int m => cases hcompare
      | double x =>
          cases x with
          | nan => rfl
          | _ => cases hcompare
  | some order =>
      left
      rw [hcompare] at h
      cases order with
      | lt => cases h
      | eq => rfl
      | gt => rfl

/-- A number that an integer is not above is not below it. -/
theorem not_lt_of_le {n : Number} {k : ℤ} (h : le (.int k) n = true) : lt n (.int k) = false := by
  unfold le at h
  unfold lt
  rw [compare_int] at h
  cases hcompare : compare? n (.int k) with
  | none => rfl
  | some order =>
      rw [hcompare] at h
      cases order with
      | lt => cases h
      | eq => rfl
      | gt => rfl

/-- What is at least an integer is at least a smaller one. -/
theorem le_int_of_le {n : Number} {k m : ℤ} (hkm : k ≤ m) (h : le (.int m) n = true) :
    le (.int k) n = true := by
  cases n with
  | int a =>
      have hma : m ≤ a := by simpa using h
      simpa using hkm.trans hma
  | double x =>
      cases x with
      | nan => cases h
      | infinite negative => exact h
      | finite negative significand exponent =>
          have hvalue : ∀ b : ℤ,
              le (.int b) (.double (.finite negative significand exponent)) = true ↔
                (b : ℚ) ≤ Binary64.value (.finite negative significand exponent) := by
            intro b
            have horder : le (.int b) (.double (.finite negative significand exponent)) = true ↔
                Binary64.compareScaled (if negative then -(significand : ℤ) else significand)
                  exponent b 0 ≠ .lt := by
              simp only [le, compare?, Binary64.compareInt?, Option.map_some]
              generalize Binary64.compareScaled _ _ _ _ = order
              cases order <;> simp [Ordering.swap]
            rw [horder, Binary64.compareScaled_eq, ne_eq, compare_lt_iff_lt, not_lt, zpow_zero,
              mul_one]
            rfl
          rw [hvalue] at h ⊢
          exact le_trans (by exact_mod_cast hkm) h

theorem sub_nan {n difference : Number} (h : sub n (.double .nan) = .ok difference) :
    difference = .double .nan := by
  have hdoubles : onDoubles Binary64.sub n (.double .nan) = .ok difference := by
    cases n with
    | int k => exact h
    | double x => exact h
  unfold onDoubles at hdoubles
  rw [bind_eq_ok] at hdoubles
  obtain ⟨y, -, hdifference⟩ := hdoubles
  rw [← Except.ok.inj hdifference]
  cases y with
  | finite negative significand exponent => rfl
  | infinite negative => rfl
  | nan => rfl

end Number

namespace Binary64

theorem isNegative_ofFraction (negative : Bool) (num den : Nat) :
    (ofFraction negative num den).isNegative = negative := by
  unfold ofFraction
  dsimp only
  split_ifs <;> rfl

theorem isNegative_ofScaled (negative : Bool) (n : Nat) (exponent : ℤ) :
    (ofScaled negative n exponent).isNegative = negative := by
  unfold ofScaled
  split
  · exact isNegative_ofFraction _ _ _
  · exact isNegative_ofFraction _ _ _

theorem le_zero_of_isNegative {x : Binary64} (h : x.isNegative = true) :
    Number.le (.double x) (.int 0) = true := by
  cases x with
  | nan => cases h
  | infinite negative =>
      obtain rfl : negative = true := h
      rfl
  | finite negative significand exponent =>
      obtain rfl : negative = true := h
      have hcompare : compareScaled (-(significand : ℤ)) exponent 0 0 ≠ .gt := by
        unfold compareScaled
        dsimp only
        rw [ne_eq, compare_gt_iff_gt, zero_mul, not_lt, neg_mul, Left.neg_nonpos_iff]
        positivity
      unfold Number.le Number.compare? compareInt?
      dsimp only
      rw [if_pos rfl]
      cases horder : compareScaled (-(significand : ℤ)) exponent 0 0 with
      | lt => rfl
      | eq => rfl
      | gt => exact absurd horder hcompare

/-- A double that is not below one is positive. -/
theorem positive_of_one_le {x : Binary64} (h : Number.le (.int 1) (.double x) = true) :
    x = .infinite false ∨ ∃ significand exponent, 0 < significand ∧
      x = .finite false significand exponent := by
  have hcompare : ∃ order, x.compareInt? 1 = some order ∧ order ≠ .lt := by
    unfold Number.le Number.compare? at h
    dsimp only at h
    cases horder : x.compareInt? 1 with
    | none =>
        rw [horder] at h
        cases h
    | some order =>
        refine ⟨order, rfl, ?_⟩
        rintro rfl
        rw [horder] at h
        cases h
  obtain ⟨order, horder, hne⟩ := hcompare
  cases x with
  | nan => cases horder
  | infinite negative =>
      cases negative with
      | false => exact Or.inl rfl
      | true => exact absurd (Option.some.inj horder).symm hne
  | finite negative significand exponent =>
      right
      obtain rfl := Option.some.inj horder
      unfold compareScaled at hne
      dsimp only at hne
      rw [ne_eq, compare_lt_iff_lt, not_lt, one_mul] at hne
      have hone : (0 : ℤ) < (Nat.pow 2 (0 - if exponent ≤ 0 then exponent else 0).toNat : Nat) := by
        exact_mod_cast Nat.two_pow_pos _
      have hproduct := hone.trans_le hne
      cases negative with
      | false =>
          refine ⟨significand, exponent, Nat.pos_of_ne_zero ?_, rfl⟩
          rintro rfl
          simp at hproduct
      | true =>
          rw [if_pos rfl, neg_mul, Left.neg_pos_iff] at hproduct
          exact absurd hproduct (not_lt.mpr (by positivity))

/-- What is left of nothing after a double that is not below one is not positive. -/
theorem sub_zero_le {x : Binary64} (h : Number.le (.int 1) (.double x) = true) :
    Number.le (.double (sub (zero false) x)) (.int 0) = true := by
  apply le_zero_of_isNegative
  rcases positive_of_one_le h with rfl | ⟨significand, exponent, hpos, rfl⟩
  · rfl
  · unfold sub neg add zero
    dsimp only
    generalize (if minExponent ≤ exponent then minExponent else exponent) = low
    have hpow : (0 : ℤ) < (Nat.pow 2 (exponent - low).toNat : Nat) := by
      exact_mod_cast Nat.two_pow_pos _
    have hsum : -(significand : ℤ) * (Nat.pow 2 (exponent - low).toNat : Nat) < 0 := by
      rw [neg_mul, Left.neg_neg_iff]
      exact mul_pos (by exact_mod_cast hpos) hpow
    simp only [Bool.false_eq_true, if_false, Bool.not_false, if_true, Nat.cast_zero, zero_mul,
      zero_add]
    rw [if_neg hsum.ne, decide_eq_true hsum]
    exact isNegative_ofScaled _ _ _

end Binary64

end SchemaGraph
