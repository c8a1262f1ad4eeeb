import SchemaGraph.Value
import SchemaGraph.Text.Quoted

/-!
# Values in messages

A value has two texts.  Its *literal* shows what kind of value it is: texts stand in quotes, lists
and mappings show the literals of what they hold.  Its *display* is the literal, except that a text
stands for itself and a date is written in the notation of calendars.
-/

namespace SchemaGraph

/-- A number with at least two digits. -/
def twoDigits (n : Nat) : String := if n < 10 then s!"0{n}" else toString n

namespace Date

/-- Year, month and day, separated by hyphens. -/
def iso (d : Date) : String :=
  let year := toString d.year
  let padding := String.ofList (List.replicate (4 - year.length) '0')
  s!"{padding}{year}-{twoDigits d.month}-{twoDigits d.day}"

/-- The parts of the day, as an expression that builds it. -/
def parts (d : Date) : List String := [toString d.year, toString d.month, toString d.day]

end Date

namespace Moment

/-- The distance to universal time: sign, hours and minutes. -/
def offsetText (minutes : Int) : String :=
  let sign := if minutes < 0 then "-" else "+"
  let size := minutes.natAbs
  s!"{sign}{twoDigits (size / 60)}:{twoDigits (size % 60)}"

/-- Day and time with a given separator between them. -/
def iso (separator : String) (t : Moment) : String :=
  let fraction := toString t.microsecond
  let padding := String.ofList (List.replicate (6 - fraction.length) '0')
  let micro := if t.microsecond = 0 then "" else s!".{padding}{fraction}"
  let zone := match t.offset with
    | none => ""
    | some minutes => offsetText minutes
  let clock := s!"{twoDigits t.hour}:{twoDigits t.minute}:{twoDigits t.second}"
  s!"{t.date.iso}{separator}{clock}{micro}{zone}"

/-- A span of minutes, as an expression that builds it from days and seconds. -/
def spanLiteral (minutes : Int) : String :=
  let days := minutes.fdiv 1440
  let seconds := (minutes - days * 1440) * 60
  let fields :=
    (if days = 0 then [] else [s!"days={days}"]) ++
    (if seconds = 0 then [] else [s!"seconds={seconds}"])
  "datetime.timedelta(" ++ ", ".intercalate fields ++ ")"

/-- The parts of the moment, as an expression that builds it; trailing zero seconds are left
out. -/
def parts (t : Moment) : List String :=
  let clock := [toString t.hour, toString t.minute]
  let fine :=
    if t.microsecond ≠ 0 then [toString t.second, toString t.microsecond]
    else if t.second ≠ 0 then [toString t.second]
    else []
  let zone := match t.offset with
    | none => []
    | some 0 => ["tzinfo=datetime.timezone.utc"]
    | some minutes => [s!"tzinfo=datetime.timezone({spanLiteral minutes})"]
  t.date.parts ++ clock ++ fine ++ zone

end Moment

namespace Value

/-- Texts separated by commas between two brackets. -/
def bracketed (opening closing : String) (items : List String) : String :=
  opening ++ ", ".intercalate items ++ closing

mutual

/-- The text that shows a value and its kind. -/
def literal : Value → String
  | .null => "None"
  | .bool b => if b then "True" else "False"
  | .int n => toString n
  | .double x => x.text
  | .str s => Quoted.text s
  | .list items => bracketed "[" "]" (literals items)
  | .map entries => bracketed "\x7b" "\x7d" (entryLiterals entries)
  | .date d => bracketed "datetime.date(" ")" d.parts
  | .moment t => bracketed "datetime.datetime(" ")" t.parts
  | .bytes octets => Quoted.octets octets
  | .set members =>
    if members.isEmpty then "set()" else bracketed "\x7b" "\x7d" (literals members)

/-- The literals of the items of a list. -/
def literals : List Value → List String
  | [] => []
  | item :: rest => literal item :: literals rest

/-- The literals of the entries of a mapping. -/
def entryLiterals : List (Value × Value) → List String
  | [] => []
  | (key, item) :: rest => (literal key ++ ": " ++ literal item) :: entryLiterals rest

end

/-- The text of a value inside a message. -/
def display : Value → String
  | .str s => s
  | .date d => d.iso
  | .moment t => t.iso " "
  | v => v.literal

@[simp] theorem display_str (s : String) : display (.str s) = s := rfl

end Value

end SchemaGraph
