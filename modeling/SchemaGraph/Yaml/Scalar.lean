import SchemaGraph.Text.Numeral
import SchemaGraph.Text.Pieces
import SchemaGraph.Value
import SchemaGraph.Yaml.Tag

/-!
# Values of scalars

The value that a text stands for under a tag.  A tag may be written in front of a text that does not
have its form; what is then wrong depends on the tag.
-/

namespace SchemaGraph.Yaml.Scalar

/-- A text without underscores. -/
def dropBars (text : String) : List Char := text.toList.filter (· != '_')

/-- A truth value. -/
def bool (text : String) : Except Fault Value :=
  let word := Case.lower text
  if Tag.trueWords.contains word then .ok (.bool true)
  else if Tag.falseWords.contains word then .ok (.bool false)
  else .error .missingKey

/-- The sum of parts to base sixty, most significant first. -/
def sixties (parts : List Number) : Except Fault Number := do
  let (total, _) ← parts.reverse.foldlM
    (fun (state : Number × Int) part => do
      return (← state.1.add (← part.mul (.int state.2)), state.2 * 60))
    (.int 0, 1)
  return total

/-- An integer to base two, eight, ten, sixteen or sixty. -/
def int (text : String) : Except Fault Value := do
  let text := dropBars text
  if text.isEmpty then throw .missingIndex
  let (negative, text) := Numeral.takeSign text
  let signed (n : Int) : Value := .int (if negative then -n else n)
  match text with
  | ['0'] => return .int 0
  | '0' :: 'b' :: rest => return signed (← Numeral.integer 2 rest)
  | '0' :: 'x' :: rest => return signed (← Numeral.integer 16 rest)
  | '0' :: _ => return signed (← Numeral.integer 8 text)
  | [] => throw .missingIndex
  | _ =>
    if text.contains ':' then
      let parts ← (Pieces.cut ':' text).mapM (Numeral.integer 10)
      match ← sixties (parts.map .int) with
      | .int n => return signed n
      | .double x => return .double x
    else return signed (← Numeral.integer 10 text)

/-- A double, perhaps to base sixty. -/
def float (text : String) : Except Fault Value := do
  let text := (Case.lower (String.ofList (dropBars text))).toList
  if text.isEmpty then throw .missingIndex
  let (negative, text) := Numeral.takeSign text
  let signed (x : Binary64) : Value := .double (if negative then x.neg else x)
  if text == ['.', 'i', 'n', 'f'] then return signed (.infinite false)
  if text == ['.', 'n', 'a', 'n'] then return .double .nan
  if text.contains ':' then
    let parts ← (Pieces.cut ':' text).mapM Numeral.double
    return signed (← (← sixties (parts.map .double)).toDouble)
  else return signed (← Numeral.double text)

/-- Whether a year has a leap day. -/
def isLeap (year : Nat) : Bool := year % 4 == 0 && (year % 100 != 0 || year % 400 == 0)

/-- The number of days of a month. -/
def daysIn (year month : Nat) : Nat :=
  if month = 2 then (if isLeap year then 29 else 28)
  else if month = 4 ∨ month = 6 ∨ month = 9 ∨ month = 11 then 30
  else 31

/-- The microseconds behind the point; further digits are dropped. -/
def microseconds (fraction : List Char) : Nat :=
  let digits := fraction.take 6
  Json.natOfDigits (digits ++ List.replicate (6 - digits.length) '0')

/-- The minutes by which a zone is ahead of universal time, less than a day in either direction. -/
def offset (zone : Char × List Char × List Char) : Except Fault Int :=
  let (sign, hours, minutes) := zone
  let size := Json.natOfDigits hours * 60 + Json.natOfDigits minutes
  if 1440 ≤ size then .error .invalidValue
  else .ok (if sign == '-' then -(size : Int) else size)

/-- The value of a day with or without a time. -/
def ofStamp (stamp : Tag.Stamp) : Except Fault Value := do
  let year := Json.natOfDigits stamp.year
  let month := Json.natOfDigits stamp.month
  let day := Json.natOfDigits stamp.day
  let date : Date := ⟨year, month, day⟩
  let zone ← match stamp.zone with
    | none => pure none
    | some none => pure (some 0)
    | some (some zone) => some <$> offset zone
  if year = 0 ∨ month = 0 ∨ 12 < month ∨ day = 0 ∨ daysIn year month < day then throw .invalidValue
  match stamp.clock with
  | none => return .date date
  | some (hour, minute, second, fraction) =>
    let hour := Json.natOfDigits hour
    let minute := Json.natOfDigits minute
    let second := Json.natOfDigits second
    if 23 < hour ∨ 59 < minute ∨ 59 < second then throw .invalidValue
    return .moment ⟨date, hour, minute, second, microseconds fraction, zone⟩

/-- A day with or without a time.  One line end behind it is overlooked. -/
def timestamp (text : String) : Except Fault Value :=
  let chars := text.toList
  let chars := if chars.getLast? == some '\n' then chars.dropLast else chars
  match Tag.stamp? chars with
  | some stamp => ofStamp stamp
  | none => .error .missingMember

/-- The value of a digit to base sixty-four. -/
def sextet? (c : Char) : Option Nat :=
  if 'A' ≤ c ∧ c ≤ 'Z' then some (c.toNat - 65)
  else if 'a' ≤ c ∧ c ≤ 'z' then some (c.toNat - 71)
  else if c.isDigit then some (c.toNat + 4)
  else if c == '+' then some 62
  else if c == '/' then some 63
  else none

/-- Octets from digits to base sixty-four.  `position` counts the digits of the open group of four,
`left` holds the bits not yet used, `pads` counts the padding in the group.  Characters that are no
digits are skipped, and a complete padding ends the text. -/
def decode64 (position left pads : Nat) : List Char → Except Fault (List UInt8)
  | [] => if position = 0 then .ok [] else .error .malformedYaml
  | c :: rest =>
    if c == '=' then
      if 2 ≤ position then
        if 4 ≤ position + pads + 1 then .ok [] else decode64 position left (pads + 1) rest
      else decode64 position left pads rest
    else match sextet? c with
      | none => decode64 position left pads rest
      | some bits =>
        let emit (octet next remaining : Nat) : Except Fault (List UInt8) := do
          return UInt8.ofNat octet :: (← decode64 next remaining 0 rest)
        match position with
        | 0 => decode64 1 bits 0 rest
        | 1 => emit (left * 4 + bits / 16) 2 (bits % 16)
        | 2 => emit (left * 16 + bits / 4) 3 (bits % 4)
        | _ => emit (left * 64 + bits) 0 0

/-- Octets written to base sixty-four. -/
def binary (text : String) : Except Fault Value :=
  let chars := text.toList
  if chars.all (·.toNat < 0x80) then Value.bytes <$> decode64 0 0 0 chars
  else .error .malformedYaml

end SchemaGraph.Yaml.Scalar
