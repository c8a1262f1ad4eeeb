import SchemaGraph.Number.Binary64

/-!
# Decimals with a fixed number of places

The exact value of a double is rounded to a given number of decimal places; a half goes to the even
digit.  The sign is kept even when every written digit is zero.
-/

namespace SchemaGraph

/-- The digits of `n / 10 ^ places`, with exactly `places` digits after the point. -/
def fixedDigits (n places : Nat) : String :=
  let whole := toString (n / Nat.pow 10 places)
  let fraction := toString (n % Nat.pow 10 places)
  let padding := String.ofList (List.replicate (places - fraction.length) '0')
  if places = 0 then whole else whole ++ "." ++ padding ++ fraction

namespace Binary64

/-- A double with `places` digits after the point. -/
def fixed (places : Nat) : Binary64 → String
  | .nan => "nan"
  | .infinite negative => if negative then "-inf" else "inf"
  | .finite negative significand exponent =>
    let (num, den) := scale (significand * Nat.pow 10 places) 1 (-exponent)
    let body := fixedDigits (roundHalfEven num den) places
    if negative then "-" ++ body else body

end Binary64

end SchemaGraph
