import SchemaGraph.Number.Rounding

/-!
# Double-precision numbers

A finite double is `± significand * 2 ^ exponent` with a significand below `2 ^ 53`.  Every
operation is carried out exactly and its result is then rounded once, to the nearest double with a
half going to the even significand.  Nothing here depends on the processor: all of it computes in
the logic.
-/

namespace SchemaGraph

/-- A double-precision number: finite, infinite, or the result of an undefined operation. -/
inductive Binary64 where
  | finite (negative : Bool) (significand : Nat) (exponent : Int)
  | infinite (negative : Bool)
  | nan
  deriving DecidableEq, Repr

namespace Binary64

/-- The exponent of the smallest positive double. -/
def minExponent : Int := -1074

/-- The exponent of the largest finite double. -/
def maxExponent : Int := 971

/-- Every significand is below `2 ^ 53`. -/
def significandLimit : Nat := 1 <<< 53

/-- Zero with the given sign. -/
def zero (negative : Bool) : Binary64 := .finite negative 0 minExponent

instance : Inhabited Binary64 := ⟨zero false⟩

/-- The fraction `num / den` divided by `2 ^ exponent`, as a pair of naturals. -/
def scale (num den : Nat) (exponent : Int) : Nat × Nat :=
  if 0 ≤ exponent then (num, den <<< exponent.toNat)
  else (num <<< (-exponent).toNat, den)

/-- The double nearest to `± num / den`. -/
def ofFraction (negative : Bool) (num den : Nat) : Binary64 :=
  if num = 0 then zero negative
  else
    let estimate : Int := (Nat.log2 num : Int) - (Nat.log2 den : Int) - 53
    let trial := scale num den estimate
    let exponent := if significandLimit * trial.2 ≤ trial.1 then estimate + 1 else estimate
    let exponent := if exponent < minExponent then minExponent else exponent
    let scaled := scale num den exponent
    let significand := roundHalfEven scaled.1 scaled.2
    if significand = significandLimit then
      if maxExponent < exponent + 1 then .infinite negative
      else .finite negative (significandLimit / 2) (exponent + 1)
    else if maxExponent < exponent then .infinite negative
    else .finite negative significand exponent

/-- The double nearest to `± n * 2 ^ exponent`. -/
def ofScaled (negative : Bool) (n : Nat) (exponent : Int) : Binary64 :=
  if 0 ≤ exponent then ofFraction negative (n <<< exponent.toNat) 1
  else ofFraction negative n (1 <<< (-exponent).toNat)

/-- The double nearest to an integer. -/
def ofInt (n : Int) : Binary64 := ofFraction (n < 0) n.natAbs 1

/-- The double nearest to `± digits * 10 ^ power`.  Powers far outside the range of doubles are
settled before any power of ten is computed. -/
def ofDecimal (negative : Bool) (digits : Nat) (power : Int) : Binary64 :=
  if digits = 0 then zero negative
  else
    let magnitude : Int := power + (Nat.log2 digits : Int) * 3 / 10
    if 400 < magnitude then .infinite negative
    else if magnitude < -400 - (Nat.log2 digits : Int) then zero negative
    else if 0 ≤ power then ofFraction negative (digits * Nat.pow 10 power.toNat) 1
    else ofFraction negative digits (Nat.pow 10 (-power).toNat)

/-- Compare `n * 2 ^ e` with `n' * 2 ^ e'`. -/
def compareScaled (n e n' e' : Int) : Ordering :=
  let low := if e ≤ e' then e else e'
  compare (n * Nat.pow 2 (e - low).toNat) (n' * Nat.pow 2 (e' - low).toNat)

/-- The order of two doubles; a `nan` is comparable with nothing. -/
def compare? : Binary64 → Binary64 → Option Ordering
  | .nan, _ | _, .nan => none
  | .infinite a, .infinite b => some (compare b a)
  | .infinite a, _ => some (if a then .lt else .gt)
  | _, .infinite b => some (if b then .gt else .lt)
  | .finite a m e, .finite b m' e' =>
    some (compareScaled (if a then -(m : Int) else m) e (if b then -(m' : Int) else m') e')

/-- The order of a double and an integer, without rounding the integer. -/
def compareInt? : Binary64 → Int → Option Ordering
  | .nan, _ => none
  | .infinite a, _ => some (if a then .lt else .gt)
  | .finite a m e, n => some (compareScaled (if a then -(m : Int) else m) e n 0)

/-- Whether the sign is negative; the sign of zero counts. -/
def isNegative : Binary64 → Bool
  | .finite negative _ _ | .infinite negative => negative
  | .nan => false

/-- Both zeroes, and nothing else. -/
def isZero : Binary64 → Bool
  | .finite _ significand _ => significand == 0
  | _ => false

/-- The opposite number. -/
def neg : Binary64 → Binary64
  | .finite negative significand exponent => .finite (!negative) significand exponent
  | .infinite negative => .infinite (!negative)
  | .nan => .nan

/-- The rounded sum. -/
def add : Binary64 → Binary64 → Binary64
  | .nan, _ | _, .nan => .nan
  | .infinite a, .infinite b => if a = b then .infinite a else .nan
  | .infinite a, _ => .infinite a
  | _, .infinite b => .infinite b
  | .finite a m e, .finite b m' e' =>
    let low := if e ≤ e' then e else e'
    let left : Int := (if a then -(m : Int) else m) * Nat.pow 2 (e - low).toNat
    let right : Int := (if b then -(m' : Int) else m') * Nat.pow 2 (e' - low).toNat
    let sum := left + right
    if sum = 0 then zero (a && b)
    else ofScaled (sum < 0) sum.natAbs low

/-- The rounded difference. -/
def sub (x y : Binary64) : Binary64 := add x (neg y)

/-- The rounded product. -/
def mul : Binary64 → Binary64 → Binary64
  | .nan, _ | _, .nan => .nan
  | .infinite a, .infinite b => .infinite (a != b)
  | .infinite a, .finite b m _ | .finite b m _, .infinite a =>
    if m = 0 then .nan else .infinite (a != b)
  | .finite a m e, .finite b m' e' => ofScaled (a != b) (m * m') (e + e')

/-- The rounded quotient by a number that is not zero. -/
def div : Binary64 → Binary64 → Binary64
  | .nan, _ | _, .nan => .nan
  | .infinite _, .infinite _ => .nan
  | .infinite a, .finite b _ _ => .infinite (a != b)
  | .finite a _ _, .infinite b => zero (a != b)
  | .finite a m e, .finite b m' e' =>
    let fraction := scale m m' (e' - e)
    ofFraction (a != b) fraction.1 fraction.2

/-- The largest integer that is not above a finite double. -/
def floor? : Binary64 → Option Int
  | .finite negative significand exponent =>
    let n : Int := if negative then -(significand : Int) else significand
    some (if 0 ≤ exponent then n * Nat.pow 2 exponent.toNat else n / Nat.pow 2 (-exponent).toNat)
  | _ => none

end Binary64

end SchemaGraph
