import SchemaGraph.Proofs.Number.Exact

/-!
# How far rounding goes

Rounding does not take a fraction past an integer that it is not above, as long as the integers are
so small that each of them is a double.  So a share of a number of entries, told as a double, is no
more than this number.  A count in 64 bits is within the range of doubles.
-/

namespace SchemaGraph

namespace Binary64

theorem significandLimit_eq : significandLimit = 2 ^ 53 := by decide

/-- The order of two scaled integers is that of the rationals that they stand for. -/
theorem le_of_compareScaled {n e n' e' : ℤ} (h : compareScaled n e n' e' ≠ .gt) :
    (n : ℚ) * 2 ^ e ≤ n' * 2 ^ e' := by
  rwa [compareScaled_eq, ne_eq, compare_gt_iff_gt, not_lt] at h

/-- Rounding a quotient does not take it past an integer that it is not above. -/
theorem roundHalfEven_le_of_le {num den n : Nat} (hden : 0 < den) (h : num ≤ n * den) :
    roundHalfEven num den ≤ n := by
  have hsplit := Nat.div_add_mod num den
  have hquotient : num / den ≤ n := Nat.div_le_of_le_mul (by rwa [Nat.mul_comm])
  -- the quotient is rounded up only if there is a rest, and then it is below the integer
  have hrest : num % den ≠ 0 → num / den + 1 ≤ n := by
    intro hne
    by_contra hlt
    have heq : num / den = n := by omega
    rw [heq, Nat.mul_comm] at hsplit
    omega
  unfold roundHalfEven
  dsimp only
  split
  · exact hquotient
  · have hup := hrest (by omega)
    split
    · exact hup
    · split
      · exact hquotient
      · exact hup

/-- Scaling divides a fraction by a power of two. -/
theorem scale_value (num : Nat) {den : Nat} (hden : 0 < den) (exponent : ℤ) :
    0 < (scale num den exponent).2 ∧
      ((scale num den exponent).1 : ℚ) / (scale num den exponent).2 = num / den / 2 ^ exponent := by
  have hpos : (0 : ℚ) < den := by exact_mod_cast hden
  unfold scale
  split
  · rename_i hnonneg
    have hpow : (2 : ℚ) ^ exponent = 2 ^ exponent.toNat := by
      rw [← zpow_natCast, Int.toNat_of_nonneg hnonneg]
    rw [Nat.shiftLeft_eq]
    refine ⟨by positivity, ?_⟩
    push_cast
    rw [hpow, div_div]
  · rename_i hneg
    have hpow : (2 : ℚ) ^ exponent = (2 ^ (-exponent).toNat)⁻¹ := by
      rw [← zpow_natCast, Int.toNat_of_nonneg (by omega), ← zpow_neg, neg_neg]
    rw [Nat.shiftLeft_eq]
    refine ⟨hden, ?_⟩
    push_cast
    rw [hpow, div_inv_eq_mul, div_mul_eq_mul_div]

/-- A fraction is not below the power of two that its two lengths tell. -/
theorem pow_le_fraction {num den : Nat} (hnum : num ≠ 0) (hden : 0 < den) :
    (2 : ℚ) ^ ((Nat.log2 num : ℤ) - Nat.log2 den - 1) ≤ num / den := by
  have hpos : (0 : ℚ) < den := by exact_mod_cast hden
  have hlow : (2 : ℚ) ^ Nat.log2 num ≤ num := by exact_mod_cast Nat.log2_self_le hnum
  have hhigh : (den : ℚ) ≤ 2 ^ (Nat.log2 den + 1) := by
    exact_mod_cast Nat.lt_log2_self.le
  rw [le_div_iff₀ hpos, show (Nat.log2 num : ℤ) - Nat.log2 den - 1 =
    (Nat.log2 num : ℤ) - ((Nat.log2 den + 1 : ℕ) : ℤ) by push_cast; ring, zpow_sub₀ (by norm_num),
    zpow_natCast, zpow_natCast, div_mul_eq_mul_div, div_le_iff₀ (by positivity)]
  calc (2 : ℚ) ^ Nat.log2 num * den ≤ num * den := by gcongr
    _ ≤ num * 2 ^ (Nat.log2 den + 1) := by gcongr

/-- The exponent that is chosen for a fraction leaves it all the digits of a significand. -/
theorem pow_le_of_chosen {num den : Nat} (hnum : num ≠ 0) (hden : 0 < den) {exponent : ℤ}
    (h : (if significandLimit * (scale num den ((Nat.log2 num : ℤ) - Nat.log2 den - 53)).2 ≤
        (scale num den ((Nat.log2 num : ℤ) - Nat.log2 den - 53)).1
      then (Nat.log2 num : ℤ) - Nat.log2 den - 53 + 1
      else (Nat.log2 num : ℤ) - Nat.log2 den - 53) = exponent) :
    (2 : ℚ) ^ (52 + exponent) ≤ num / den := by
  split at h
  · rename_i hlimit
    obtain ⟨hscale, hvalue⟩ := scale_value num hden ((Nat.log2 num : ℤ) - Nat.log2 den - 53)
    have hpos : (0 : ℚ) < (scale num den ((Nat.log2 num : ℤ) - Nat.log2 den - 53)).2 := by
      exact_mod_cast hscale
    rw [significandLimit_eq] at hlimit
    have hbound : (2 : ℚ) ^ 53 ≤ num / den / 2 ^ ((Nat.log2 num : ℤ) - Nat.log2 den - 53) := by
      rw [← hvalue, le_div_iff₀ hpos]
      exact_mod_cast hlimit
    rw [le_div_iff₀ (by positivity), ← zpow_natCast, ← zpow_add₀ (by norm_num)] at hbound
    refine le_trans (le_of_eq ?_) hbound
    congr 1
    omega
  · refine le_trans (le_of_eq ?_) (pow_le_fraction hnum hden)
    congr 1
    omega

/-- Rounding a fraction does not take it past an integer that it is not above, unless the integer
is so large that there are no doubles between it and the next one. -/
theorem ofFraction_le_nat (negative : Bool) {num den n : Nat} (hden : 0 < den) (hn : n ≤ 2 ^ 52)
    (h : num ≤ n * den) : (ofFraction negative num den).value ≤ n := by
  have hnonneg : (0 : ℚ) ≤ n := Nat.cast_nonneg n
  unfold ofFraction
  split
  · cases negative <;> simp [zero, value]
  rename_i hnum
  dsimp only
  generalize hchosen : (if significandLimit * (scale num den _).2 ≤ (scale num den _).1 then _
    else (Nat.log2 num : ℤ) - Nat.log2 den - 53) = chosen
  have hpos : (0 : ℚ) < den := by exact_mod_cast hden
  have hratio : (num : ℚ) / den ≤ n := by
    rw [div_le_iff₀ hpos]
    exact_mod_cast h
  have hchosen_le : chosen ≤ 0 := by
    have hpow : (2 : ℚ) ^ (52 + chosen) ≤ 2 ^ (52 : ℤ) :=
      (pow_le_of_chosen hnum hden hchosen).trans (hratio.trans (by exact_mod_cast hn))
    have := (zpow_le_zpow_iff_right₀ (by norm_num : (1 : ℚ) < 2)).mp hpow
    omega
  generalize hexponent : (if chosen < minExponent then minExponent else chosen) = exponent
  have hle : exponent ≤ 0 := by
    rw [← hexponent]
    split
    · decide
    · exact hchosen_le
  -- the integer is a multiple of the unit that is rounded to
  obtain ⟨k, rfl⟩ : ∃ k : Nat, exponent = -k := ⟨exponent.natAbs, by omega⟩
  have hround : roundHalfEven (scale num den (-k)).1 (scale num den (-k)).2 ≤ n * 2 ^ k := by
    refine roundHalfEven_le_of_le (scale_value num hden (-k : ℤ)).1 ?_
    unfold scale
    split
    · obtain rfl : k = 0 := by omega
      simpa using h
    · rw [neg_neg, Int.toNat_natCast, Nat.shiftLeft_eq]
      calc num * 2 ^ k ≤ n * den * 2 ^ k := Nat.mul_le_mul_right _ h
        _ = n * 2 ^ k * den := by ring
  generalize roundHalfEven (scale num den (-k)).1 (scale num den (-k)).2 = significand at hround
  have hvalue : (significand : ℚ) * 2 ^ (-k : ℤ) ≤ n := by
    rw [zpow_neg, zpow_natCast, ← div_eq_mul_inv, div_le_iff₀ (by positivity)]
    exact_mod_cast hround
  have hsigned : ∀ m : Nat, ∀ e : ℤ, (m : ℚ) * 2 ^ e ≤ n →
      (Binary64.finite negative m e).value ≤ n := by
    intro m e hm
    cases negative with
    | false => simpa [value] using hm
    | true =>
        have hzero : (0 : ℚ) ≤ (m : ℚ) * 2 ^ e := by positivity
        simp only [value, if_true, Int.cast_neg, Int.cast_natCast, neg_mul]
        linarith
  split
  · rename_i hlimit
    split
    · exact hnonneg
    · refine hsigned _ _ (le_trans (le_of_eq ?_) hvalue)
      rw [hlimit, show significandLimit / 2 = 2 ^ 52 by decide, significandLimit_eq,
        zpow_add_one₀ (by norm_num)]
      push_cast
      ring
  · split
    · exact hnonneg
    · exact hsigned _ _ hvalue

theorem ofScaled_le_nat (negative : Bool) {m n : Nat} {exponent : ℤ} (hn : n ≤ 2 ^ 52)
    (h : (m : ℚ) * 2 ^ exponent ≤ n) : (ofScaled negative m exponent).value ≤ n := by
  unfold ofScaled
  split
  · rename_i hnonneg
    refine ofFraction_le_nat negative one_pos hn ?_
    rw [Nat.mul_one, Nat.shiftLeft_eq]
    rw [← Int.toNat_of_nonneg hnonneg, zpow_natCast] at h
    exact_mod_cast h
  · obtain ⟨k, rfl⟩ : ∃ k : Nat, exponent = -k := ⟨exponent.natAbs, by omega⟩
    rw [neg_neg, Int.toNat_natCast, Nat.one_shiftLeft]
    refine ofFraction_le_nat negative (Nat.two_pow_pos k) hn ?_
    rw [zpow_neg, zpow_natCast, ← div_eq_mul_inv, div_le_iff₀ (by positivity)] at h
    exact_mod_cast h

theorem sign_of_ofFraction {negative b : Bool} {num den significand : Nat} {exponent : ℤ}
    (h : ofFraction negative num den = .finite b significand exponent) : b = negative := by
  unfold ofFraction at h
  dsimp only at h
  split_ifs at h <;> exact (Binary64.finite.inj h).1.symm

theorem ofFraction_nonpos (num den : Nat) : (ofFraction true num den).value ≤ 0 := by
  cases hx : ofFraction true num den with
  | finite b m e =>
      obtain rfl := sign_of_ofFraction hx
      simp only [value, if_true, Int.cast_neg, Int.cast_natCast, neg_mul, Left.neg_nonpos_iff]
      positivity
  | infinite b => exact le_rfl
  | nan => exact le_rfl

theorem ofScaled_nonpos (m : Nat) (exponent : ℤ) : (ofScaled true m exponent).value ≤ 0 := by
  unfold ofScaled
  split
  · exact ofFraction_nonpos _ _
  · exact ofFraction_nonpos _ _

/-- The floor of a double is not above it. -/
theorem floor_le {x : Binary64} {k : ℤ} (h : x.floor? = some k) : (k : ℚ) ≤ x.value := by
  cases x with
  | finite negative significand exponent =>
      rw [floor?, Option.some.injEq] at h
      rw [← h, value]
      generalize (if negative = true then -(significand : ℤ) else significand) = n
      split
      · rename_i hnonneg
        have hpow : (2 : ℚ) ^ exponent = 2 ^ exponent.toNat := by
          rw [← zpow_natCast, Int.toNat_of_nonneg hnonneg]
        rw [hpow]
        push_cast
        exact le_of_eq (by simp)
      · rename_i hneg
        have hpow : (2 : ℚ) ^ exponent = (2 ^ (-exponent).toNat)⁻¹ := by
          rw [← zpow_natCast, Int.toNat_of_nonneg (by omega), ← zpow_neg, neg_neg]
        have hpos : (0 : ℤ) < (Nat.pow 2 (-exponent).toNat : ℕ) := by
          exact_mod_cast Nat.two_pow_pos _
        rw [hpow, ← div_eq_mul_inv, le_div_iff₀ (by positivity)]
        have hdiv := Int.ediv_mul_le n hpos.ne'
        exact_mod_cast hdiv
  | infinite negative => cases h
  | nan => cases h

/-- A share of a number is, told as a double, not above the number. -/
theorem floor_share_le {n : Nat} (hn : n ≤ 2 ^ 52) {share : Binary64}
    (hshare : share.compareInt? 1 ≠ some .gt) {k : ℤ}
    (h : (mul (ofInt n) share).floor? = some k) : k ≤ n := by
  -- the product is rounded, but the number itself is a double, and rounding does not pass it
  suffices hvalue : (mul (ofInt n) share).value ≤ n by exact_mod_cast (floor_le h).trans hvalue
  have hnonneg : (0 : ℚ) ≤ n := Nat.cast_nonneg n
  have hint : ofInt n = ofFraction false n 1 := by
    unfold ofInt
    rw [Int.natAbs_natCast, decide_eq_false (by omega)]
  have hwhole := ofFraction_le_nat false one_pos hn (Nat.mul_one n).ge
  rw [hint] at h ⊢
  cases hx : ofFraction false n 1 with
  | infinite a =>
      rw [hx] at h
      cases share with
      | finite b m e =>
          rw [mul] at h
          split at h <;> cases h
      | infinite b => cases h
      | nan => cases h
  | nan =>
      rw [hx] at h
      cases h
  | finite a m e =>
      rw [hx] at h hwhole
      cases share with
      | infinite b =>
          rw [mul] at h
          split at h <;> cases h
      | nan => cases h
      | finite b m' e' =>
          obtain rfl := sign_of_ofFraction hx
          rw [mul, Bool.false_bne]
          cases b with
          | true => exact (ofScaled_nonpos _ _).trans hnonneg
          | false =>
              have hone := le_of_compareScaled (fun hgt => hshare (congrArg some hgt))
              refine ofScaled_le_nat false hn ?_
              simp only [value, Bool.false_eq_true, if_false, Int.cast_natCast, Int.cast_one,
                zpow_zero, mul_one] at hwhole hone
              calc ((m * m' : Nat) : ℚ) * 2 ^ (e + e') = m * 2 ^ e * (m' * 2 ^ e') := by
                    rw [zpow_add₀ (by norm_num)]
                    push_cast
                    ring
                _ ≤ m * 2 ^ e * 1 := by gcongr
                _ ≤ n := by rwa [mul_one]

/-- A fraction that is not huge is within the range of doubles. -/
theorem ofFraction_ne_infinite_of_log2 {num den : Nat} (h : Nat.log2 num < Nat.log2 den + 1022)
    (negative sign : Bool) : ofFraction negative num den ≠ .infinite sign := by
  unfold ofFraction
  split
  · exact fun heq => nomatch heq
  · dsimp only
    generalize htop : (if significandLimit * (scale num den _).2 ≤ (scale num den _).1 then _
      else (Nat.log2 num : Int) - (Nat.log2 den : Int) - 53) = top
    have hbelow : top + 1 < maxExponent := by
      unfold maxExponent
      split at htop <;> omega
    generalize hexponent : (if top < minExponent then minExponent else top) = exponent
    have hless : exponent + 1 < maxExponent := by
      have hmin : minExponent + 1 < maxExponent := by decide
      split at hexponent <;> omega
    rw [if_neg (show ¬maxExponent < exponent + 1 by omega),
      if_neg (show ¬maxExponent < exponent by omega)]
    split <;> exact fun heq => nomatch heq

/-- A fraction with a numerator that is not huge is within the range of doubles. -/
theorem ofFraction_ne_infinite {num : Nat} (den : Nat) (h : Nat.log2 num < 1000)
    (negative sign : Bool) : ofFraction negative num den ≠ .infinite sign :=
  ofFraction_ne_infinite_of_log2 (by omega) negative sign

end Binary64

namespace Number

theorem log2_lt {n : Nat} (h : n < 2 ^ 64) : Nat.log2 n < 1000 := by
  by_cases hn : n = 0
  · rw [hn]
    decide
  · have hlog := (Nat.log2_lt hn).mpr h
    omega

theorem toDouble_ok {n : Nat} (h : n < 2 ^ 64) : ∃ x, toDouble (.int n) = .ok x := by
  unfold toDouble Binary64.ofInt
  dsimp only
  rw [Int.natAbs_natCast]
  have hfinite := Binary64.ofFraction_ne_infinite 1 (log2_lt h) (decide ((n : Int) < 0))
  split
  · rename_i heq
    exact absurd heq (hfinite _)
  · exact ⟨_, rfl⟩

end Number

end SchemaGraph
