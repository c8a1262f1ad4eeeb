/-!
# Rounding a quotient to the nearest integer

Every rounding in the library is one of two: a quotient goes to the nearest integer, and a quotient
half way between two integers goes to the even one.  The two laws below say that the result is
within half a unit, and that a half goes to the even neighbour.
-/

namespace SchemaGraph

/-- The integer nearest to `num / den`; a half goes to the even neighbour. -/
def roundHalfEven (num den : Nat) : Nat :=
  let quotient := num / den
  let rest := num % den
  if 2 * rest < den then quotient
  else if den < 2 * rest then quotient + 1
  else if quotient % 2 = 0 then quotient
  else quotient + 1

theorem roundHalfEven_mul_le (num : Nat) {den : Nat} (hden : 0 < den) :
    2 * (roundHalfEven num den * den) ≤ 2 * num + den := by
  have hsplit := Nat.div_add_mod num den
  have hrest := Nat.mod_lt num hden
  have hstep : (num / den + 1) * den = den * (num / den) + den := by
    rw [Nat.add_mul, Nat.one_mul, Nat.mul_comm]
  have hkeep : num / den * den = den * (num / den) := Nat.mul_comm _ _
  unfold roundHalfEven
  dsimp only
  split
  · omega
  · split
    · omega
    · split <;> omega

theorem le_roundHalfEven_mul (num : Nat) {den : Nat} (hden : 0 < den) :
    2 * num ≤ 2 * (roundHalfEven num den * den) + den := by
  have hsplit := Nat.div_add_mod num den
  have hrest := Nat.mod_lt num hden
  have hstep : (num / den + 1) * den = den * (num / den) + den := by
    rw [Nat.add_mul, Nat.one_mul, Nat.mul_comm]
  have hkeep : num / den * den = den * (num / den) := Nat.mul_comm _ _
  unfold roundHalfEven
  dsimp only
  split
  · omega
  · split
    · omega
    · split <;> omega

/-- A half goes to the even neighbour. -/
theorem roundHalfEven_half (n : Nat) : roundHalfEven (2 * n + 1) 2 % 2 = 0 := by
  have hquotient : (2 * n + 1) / 2 = n := by omega
  have hrest : (2 * n + 1) % 2 = 1 := by omega
  unfold roundHalfEven
  rw [hquotient, hrest]
  by_cases heven : n % 2 = 0
  · simp [heven]
  · simp [heven]
    omega

end SchemaGraph
