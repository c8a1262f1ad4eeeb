import SchemaGraph.Json.Reader
import SchemaGraph.Text.Blank
import SchemaGraph.Text.Case
import SchemaGraph.Text.Digit

/-!
# Numerals

Integers to a base and decimal numbers, as they are written by hand: with blanks around them, with a
sign, and in the digits of any script.
-/

namespace SchemaGraph.Numeral

/-- A text without its sign, and whether the sign is a minus. -/
def takeSign : List Char → Bool × List Char
  | '-' :: rest => (true, rest)
  | '+' :: rest => (false, rest)
  | text => (false, text)

/-- The value of a digit to a base. -/
def digit? (base : Nat) (c : Char) : Option Nat :=
  match Digit.value? c <|> Json.hexValue? c with
  | some n => if n < base then some n else none
  | none => none

/-- The number written by digits to a base. -/
def natural? (base : Nat) (text : List Char) : Option Nat :=
  if text.isEmpty then none
  else text.foldl (fun total c => do return base * (← total) + (← digit? base c)) (some 0)

/-- A text without the mark of its base. -/
def dropBaseMark (base : Nat) (text : List Char) : List Char :=
  match text with
  | '0' :: mark :: rest =>
    let mark := Case.lowerChar mark
    if (base == 2 && mark == 'b') || (base == 8 && mark == 'o') || (base == 16 && mark == 'x') then
      rest
    else text
  | _ => text

/-- An integer to base two, eight, ten or sixteen.  To base ten the number of digits is limited. -/
def integer (base : Nat) (text : List Char) : Except Fault Int :=
  let (negative, text) := takeSign (Blank.trim text)
  let digits := dropBaseMark base text
  if base = 10 ∧ Json.digitLimit < digits.length then .error .invalidValue
  else match natural? base digits with
    | some n => .ok (if negative then -(n : Int) else n)
    | none => .error .invalidValue

/-- The exponent at the end of a number; no exponent stands for zero. -/
def exponent? (text : List Char) : Option Int :=
  match text with
  | [] => some 0
  | e :: rest =>
    if e == 'e' || e == 'E' then
      let (negative, digits) := takeSign rest
      (natural? 10 digits).map fun n => if negative then -(n : Int) else n
    else none

/-- A decimal number with or without point and exponent, an infinity or an undefined number. -/
def double (text : List Char) : Except Fault Binary64 :=
  let (negative, text) := takeSign (Blank.trim text)
  let word := Case.lower (String.ofList text)
  if word = "inf" ∨ word = "infinity" then .ok (.infinite negative)
  else if word = "nan" then .ok .nan
  else
    let whole := text.takeWhile Digit.isDecimal
    let rest := text.dropWhile Digit.isDecimal
    let (fraction, rest) := match rest with
      | '.' :: rest => (rest.takeWhile Digit.isDecimal, rest.dropWhile Digit.isDecimal)
      | _ => ([], rest)
    match natural? 10 (whole ++ fraction), exponent? rest with
    | some digits, some power =>
      .ok (Binary64.ofDecimal negative digits (power - fraction.length))
    | _, _ => .error .invalidValue

end SchemaGraph.Numeral
