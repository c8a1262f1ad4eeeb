import SchemaGraph.Number.Binary64

/-!
# The shortest decimal of a double

A double stands for the interval of reals that round to it.  Its shortest decimal is the decimal
with the fewest digits in that interval, and of those the one nearest to the double.  All tests are
made in exact arithmetic on naturals.
-/

namespace SchemaGraph

namespace Shortest

/-- The interval of a finite double, and the double itself, over a common denominator.  The ends
belong to the interval exactly when `closed`. -/
structure Interval where
  low : Nat
  value : Nat
  high : Nat
  den : Nat
  closed : Bool

/-- The reals that round to `significand * 2 ^ exponent`.  The gap below a power of two is half the
gap above it. -/
def interval (significand : Nat) (exponent : Int) : Interval :=
  let narrow := 2 * significand = Binary64.significandLimit ∧ Binary64.minExponent < exponent
  let up := 1 <<< (exponent - 2).toNat
  { low := (if narrow then 4 * significand - 1 else 4 * significand - 2) * up
    value := 4 * significand * up
    high := (4 * significand + 2) * up
    den := 1 <<< (2 - exponent).toNat
    closed := significand % 2 = 0 }

/-- Whether `n * 10 ^ power` lies in the interval. -/
def Interval.contains (i : Interval) (n : Nat) (power : Int) : Bool :=
  let scaled := n * Nat.pow 10 power.toNat * i.den
  let unit := Nat.pow 10 (-power).toNat
  if i.closed then i.low * unit ≤ scaled ∧ scaled ≤ i.high * unit
  else i.low * unit < scaled ∧ scaled < i.high * unit

/-- The number of digits before the decimal point: the `k` with `10 ^ (k - 1) ≤ value < 10 ^ k`,
found from an estimate that is at most one too small. -/
def Interval.magnitude (i : Interval) : Int :=
  let estimate : Int :=
    (((Nat.log2 i.value : Int) - (Nat.log2 i.den : Int)) * 30103).fdiv 100000
  let reaches (k : Int) : Bool :=
    Nat.pow 10 k.toNat * i.den ≤ i.value * Nat.pow 10 (-k).toNat
  if reaches (estimate + 1) then estimate + 2
  else if reaches estimate then estimate + 1
  else estimate

/-- The decimal of the interval on the grid of multiples of `10 ^ power`, if there is one: of the
two neighbours of the value, the one that lies in the interval, and the nearer if both do. -/
def Interval.onGrid? (i : Interval) (power : Int) : Option Nat :=
  let num := i.value * Nat.pow 10 (-power).toNat
  let den := i.den * Nat.pow 10 power.toNat
  let below := num / den
  let nearest := roundHalfEven num den
  let other := if nearest = below then below + 1 else below
  if nearest ≠ 0 ∧ i.contains nearest power then some nearest
  else if other ≠ 0 ∧ i.contains other power then some other
  else none

/-- The double itself as a decimal; the common denominator is a power of two. -/
def Interval.exact (i : Interval) : Nat × Int :=
  (i.value * Nat.pow 5 (Nat.log2 i.den), -(Nat.log2 i.den : Int))

/-- Search the grids from the coarsest to the finest. -/
def Interval.search (i : Interval) (magnitude : Int) : List Nat → Nat × Int
  | [] => i.exact
  | count :: finer =>
    let power := magnitude - count
    match i.onGrid? power with
    | some n => (n, power)
    | none => i.search magnitude finer

/-- Digits and power of ten of the shortest decimal of `significand * 2 ^ exponent`, which is not
zero. -/
def decimal (significand : Nat) (exponent : Int) : Nat × Int :=
  let i := interval significand exponent
  i.search i.magnitude ((List.range 17).map (· + 1))

/-- Drop the trailing zeroes of a list of digits. -/
def trimZeroes (digits : List Char) : List Char :=
  (digits.reverse.dropWhile (· == '0')).reverse

/-- Write digits whose decimal point stands after the first `point` of them.  Exponents from `-4`
to `15` are written positionally, with at least one digit after the point; all others with a signed
exponent of at least two digits. -/
def layout (digits : List Char) (point : Int) : List Char :=
  let exponent := point - 1
  if exponent < -4 ∨ 16 ≤ exponent then
    let mantissa := match digits with
      | [] => ['0']
      | [d] => [d]
      | d :: rest => d :: '.' :: rest
    let size := (toString exponent.natAbs).toList
    let padded := if size.length < 2 then '0' :: size else size
    mantissa ++ ['e', if exponent < 0 then '-' else '+'] ++ padded
  else if point ≤ 0 then
    '0' :: '.' :: (List.replicate (-point).toNat '0' ++ digits)
  else if digits.length ≤ point.toNat then
    digits ++ List.replicate (point.toNat - digits.length) '0' ++ ['.', '0']
  else
    digits.take point.toNat ++ '.' :: digits.drop point.toNat

end Shortest

namespace Binary64

/-- The shortest decimal text that reads back as the same double. -/
def text : Binary64 → String
  | .nan => "nan"
  | .infinite negative => if negative then "-inf" else "inf"
  | .finite negative significand exponent =>
    let body :=
      if significand = 0 then "0.0".toList
      else
        let (n, power) := Shortest.decimal significand exponent
        let digits := (toString n).toList
        Shortest.layout (Shortest.trimZeroes digits) (digits.length + power)
    String.ofList (if negative then '-' :: body else body)

end Binary64

end SchemaGraph
