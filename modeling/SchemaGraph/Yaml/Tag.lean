import SchemaGraph.Yaml.Cursor

/-!
# Tags

A tag says what kind of value a node of a YAML document stands for.  A plain scalar without a tag
gets one from the way it is written; anything else that is untagged is a text, a sequence or a
mapping.
-/

namespace SchemaGraph.Yaml

/-- The kinds of values that YAML names. -/
inductive Tag where
  | null
  | bool
  | int
  | float
  | timestamp
  | str
  | binary
  | seq
  | map
  | set
  | omap
  | pairs
  /-- The key of a mapping whose entries are to be merged in. -/
  | merge
  /-- The key of the value that a mapping stands for as a scalar. -/
  | value
  /-- A tag that stands for nothing. -/
  | unknown
  deriving DecidableEq, Repr, Inhabited

namespace Tag

/-- How the names of all known tags start. -/
def family : String := "tag:yaml.org,2002:"

/-- The known tags under their names. -/
def named : List (String × Tag) := [
  ("null", .null), ("bool", .bool), ("int", .int), ("float", .float), ("timestamp", .timestamp),
  ("str", .str), ("binary", .binary), ("seq", .seq), ("map", .map), ("set", .set), ("omap", .omap),
  ("pairs", .pairs), ("merge", .merge), ("value", .value)]

/-- The tag with a full name. -/
def ofName (name : String) : Tag :=
  ((named.find? fun entry => family ++ entry.1 == name).map (·.2)).getD .unknown

/-! ### The form of plain scalars -/

/-- The digits to a base up to eight, and underscores. -/
def isDigitOrBar (base : Nat) (c : Char) : Bool :=
  c == '_' || (c.isDigit && c.toNat < 48 + base)

/-- A text without its sign. -/
def unsigned : List Char → List Char
  | '+' :: rest | '-' :: rest => rest
  | text => text

/-- A text that is not empty and passes a test at every character. -/
def every (test : Char → Bool) (text : List Char) : Bool := !text.isEmpty && text.all test

/-- Up to two digits that say a number below sixty. -/
def isSixty : List Char → Bool
  | [a] => a.isDigit
  | [a, b] => a.isDigit && a.toNat < 54 && b.isDigit
  | _ => false

/-- The text between colons. -/
def colonParts (text : List Char) : List (List Char) :=
  text.foldr (fun c parts =>
    if c == ':' then [] :: parts
    else match parts with
      | [] => [[c]]
      | part :: rest => (c :: part) :: rest) [[]]

/-- A digit, then digits and underscores. -/
def isDigitRun : List Char → Bool
  | c :: rest => c.isDigit && rest.all (isDigitOrBar 10)
  | [] => false

/-- An integer: to base two, eight, ten, sixteen or sixty. -/
def isInt (text : List Char) : Bool :=
  let text := unsigned text
  let decimal (text : List Char) : Bool :=
    match text with
    | c :: _ => c != '0' && isDigitRun text
    | [] => false
  match text with
  | '0' :: 'b' :: rest => every (isDigitOrBar 2) rest
  | '0' :: 'x' :: rest =>
    every (fun c => c == '_' || c.isDigit || ('a' ≤ c && c ≤ 'f') || ('A' ≤ c && c ≤ 'F')) rest
  | ['0'] => true
  | '0' :: rest => every (isDigitOrBar 8) rest
  | _ =>
    decimal text ||
      match colonParts text with
      | first :: second :: rest => decimal first && (second :: rest).all isSixty
      | _ => false

/-- An exponent with its sign, or nothing. -/
def isExponent : List Char → Bool
  | [] => true
  | e :: sign :: digits =>
    (e == 'e' || e == 'E') && (sign == '+' || sign == '-') && every Char.isDigit digits
  | _ => false

/-- Digits and underscores, then perhaps an exponent. -/
def isFraction (text : List Char) : Bool := isExponent (text.dropWhile (isDigitOrBar 10))

/-- What stands before and after the first point. -/
def splitPoint (text : List Char) : Option (List Char × List Char) :=
  if text.contains '.' then
    some (text.takeWhile (· != '.'), (text.dropWhile (· != '.')).drop 1)
  else none

/-- A number with a point, perhaps to base sixty, or an infinity, or an undefined number. -/
def isFloat (text : List Char) : Bool :=
  let word := String.ofList (unsigned text)
  let sixties (whole fraction : List Char) : Bool :=
    match colonParts whole with
    | first :: second :: rest =>
      isDigitRun first && (second :: rest).all isSixty && fraction.all (isDigitOrBar 10)
    | _ => false
  [".inf", ".Inf", ".INF"].contains word ||
    [".nan", ".NaN", ".NAN"].contains (String.ofList text) ||
    (match text with
      | '.' :: first :: rest => first.isDigit && isFraction rest
      | _ => false) ||
    match splitPoint (unsigned text) with
    | some (whole, fraction) =>
      (isDigitRun whole && isFraction fraction) || sixties whole fraction
    | none => false

/-- The form of a day and a time; the numbers are not checked for their ranges. -/
structure Stamp where
  year : List Char
  month : List Char
  day : List Char
  /-- Hour, minute, second and the digits after the point. -/
  clock : Option (List Char × List Char × List Char × List Char)
  /-- Whether a zone is given, and its sign, hours and minutes if it is not universal time. -/
  zone : Option (Option (Char × List Char × List Char))

/-- Up to two digits, at least one, and the text after them. -/
def digitPair (text : List Char) : Option (List Char × List Char) :=
  match text with
  | a :: b :: rest =>
    if a.isDigit then some (if b.isDigit then ([a, b], rest) else ([a], b :: rest)) else none
  | [a] => if a.isDigit then some ([a], []) else none
  | [] => none

/-- Exactly two digits behind a colon, and the text after them. -/
def colonPair (text : List Char) : Option (List Char × List Char) :=
  match text with
  | ':' :: a :: b :: rest => if a.isDigit && b.isDigit then some ([a, b], rest) else none
  | _ => none

/-- Whether a character is a space or a tab. -/
def isGap (c : Char) : Bool := c == ' ' || c == '\t'

/-- The zone at the end of a time. -/
def zone? (text : List Char) : Option (Option (Option (Char × List Char × List Char))) :=
  match text with
  | [] => some none
  | _ =>
    match text.dropWhile isGap with
    | ['Z'] => some (some none)
    | sign :: rest =>
      if sign == '+' || sign == '-' then
        match digitPair rest with
        | some (hours, []) => some (some (some (sign, hours, [])))
        | some (hours, rest) =>
          match colonPair rest with
          | some (minutes, []) => some (some (some (sign, hours, minutes)))
          | _ => none
        | none => none
      else none
    | [] => none

/-- The time behind a day. -/
def clock? (text : List Char) : Option (List Char) :=
  match text with
  | c :: rest =>
    if c == 'T' || c == 't' then some rest
    else if isGap c then some (rest.dropWhile isGap)
    else none
  | [] => none

/-- The parts of a day with or without a time. -/
def stamp? (text : List Char) : Option Stamp := do
  let year := text.take 4
  if year.length != 4 || !year.all Char.isDigit then none
  let '-' :: rest := text.drop 4 | none
  let (month, rest) ← digitPair rest
  let '-' :: rest := rest | none
  let (day, rest) ← digitPair rest
  if rest.isEmpty then return ⟨year, month, day, none, none⟩
  let (hour, rest) ← digitPair (← clock? rest)
  let (minute, rest) ← colonPair rest
  let (second, rest) ← colonPair rest
  let (fraction, rest) := match rest with
    | '.' :: rest => (rest.takeWhile Char.isDigit, rest.dropWhile Char.isDigit)
    | _ => ([], rest)
  let zone ← zone? rest
  return ⟨year, month, day, some (hour, minute, second, fraction), zone⟩

/-- Whether a plain scalar is a day or a time.  A day without a time has two digits for month and
day. -/
def isTimestamp (text : List Char) : Bool :=
  match stamp? text with
  | some stamp =>
    stamp.clock.isSome || (stamp.month.length == 2 && stamp.day.length == 2)
  | none => false

/-- The words for true. -/
def trueWords : List String := ["yes", "true", "on"]

/-- The words for false. -/
def falseWords : List String := ["no", "false", "off"]

/-- A word in lower case, with a capital or in capitals. -/
def spellings (word : String) : List String :=
  [word, word.capitalize, word.toUpper]

/-- The tag of a plain scalar, told from its text.  One line end behind the text is overlooked. -/
def ofPlain (text : String) : Tag :=
  let chars := text.toList
  let chars := if chars.getLast? == some '\n' then chars.dropLast else chars
  let word := String.ofList chars
  if (trueWords ++ falseWords).flatMap spellings |>.contains word then .bool
  else if isFloat chars then .float
  else if isInt chars then .int
  else if word == "<<" then .merge
  else if ["~", "null", "Null", "NULL", ""].contains word then .null
  else if isTimestamp chars then .timestamp
  else if word == "=" then .value
  else if ["!", "&", "*"].contains word then .unknown
  else .str

end Tag

end SchemaGraph.Yaml
