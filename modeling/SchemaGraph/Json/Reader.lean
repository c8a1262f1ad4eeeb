import SchemaGraph.Value

/-!
# Reading JSON

The reader accepts exactly one value with blanks around it.  Beyond the standard it knows the
numbers `NaN`, `Infinity` and `-Infinity`.  A number with neither fraction nor exponent is an
integer, any other a double.  A key that is written twice keeps its first position and its last
value.
-/

namespace SchemaGraph

namespace Json

/-- An integer is written with at most this many digits. -/
def digitLimit : Nat := 4300

/-- The blanks between tokens. -/
def isSpace (c : Char) : Bool := c == ' ' || c == '\t' || c == '\n' || c == '\r'

/-- The text after its leading blanks. -/
def skipSpace (text : List Char) : List Char := text.dropWhile isSpace

/-- The value of a digit to base sixteen. -/
def hexValue? (c : Char) : Option Nat :=
  if '0' ≤ c ∧ c ≤ '9' then some (c.toNat - 48)
  else if 'a' ≤ c ∧ c ≤ 'f' then some (c.toNat - 87)
  else if 'A' ≤ c ∧ c ≤ 'F' then some (c.toNat - 55)
  else none

/-- The code unit written by four digits. -/
def unit? (a b c d : Char) : Option Nat := do
  return (← hexValue? a) * 4096 + (← hexValue? b) * 256 + (← hexValue? c) * 16 + (← hexValue? d)

/-- The character for a code unit that stands alone; half of a pair without the other half has no
character and becomes the replacement character. -/
def loneUnit (unit : Nat) : Char :=
  if 0xD800 ≤ unit ∧ unit < 0xE000 then Char.ofNat 0xFFFD else Char.ofNat unit

/-- The character of an escape with one letter. -/
def shortEscape? : Char → Option Char
  | '"' => some '"'
  | '\\' => some '\\'
  | '/' => some '/'
  | 'b' => some (Char.ofNat 8)
  | 'f' => some (Char.ofNat 12)
  | 'n' => some '\n'
  | 'r' => some '\r'
  | 't' => some '\t'
  | _ => none

/-- A code unit that opens a pair, and one that closes it. -/
def pair? (high low : Nat) : Option Char :=
  if 0xD800 ≤ high ∧ high < 0xDC00 ∧ 0xDC00 ≤ low ∧ low < 0xE000 then
    some (Char.ofNat (0x10000 + (high - 0xD800) * 0x400 + (low - 0xDC00)))
  else none

/-- Read the rest of a string after its opening quote; `done` holds the characters read so far,
last first. -/
def stringBody (done : List Char) : List Char → Option (List Char × List Char)
  | '"' :: rest => some (done.reverse, rest)
  | '\\' :: 'u' :: a :: b :: c :: d :: '\\' :: 'u' :: e :: f :: g :: h :: rest =>
    match unit? a b c d, unit? e f g h with
    | some high, some low =>
      match pair? high low with
      | some char => stringBody (char :: done) rest
      | none => stringBody (loneUnit high :: done) ('\\' :: 'u' :: e :: f :: g :: h :: rest)
    | _, _ => none
  | '\\' :: 'u' :: a :: b :: c :: d :: rest =>
    match unit? a b c d with
    | some unit => stringBody (loneUnit unit :: done) rest
    | none => none
  | '\\' :: c :: rest =>
    match shortEscape? c with
    | some char => stringBody (char :: done) rest
    | none => none
  | c :: rest => if c.toNat < 0x20 ∨ c = '\\' then none else stringBody (c :: done) rest
  | [] => none

/-- The number written by ASCII digits. -/
def natOfDigits (digits : List Char) : Nat :=
  digits.foldl (fun total c => 10 * total + (c.toNat - 48)) 0

/-- The digits after a point, if a point with digits follows. -/
def fractionPart (text : List Char) : List Char × List Char :=
  match text with
  | '.' :: rest =>
    let digits := rest.takeWhile Char.isDigit
    if digits.isEmpty then ([], text) else (digits, rest.dropWhile Char.isDigit)
  | _ => ([], text)

/-- The exponent, if an exponent with digits follows. -/
def exponentPart (text : List Char) : Option Int × List Char :=
  let digitsOf (negative : Bool) (rest : List Char) : Option Int × List Char :=
    let digits := rest.takeWhile Char.isDigit
    if digits.isEmpty then (none, text)
    else
      let size : Int := natOfDigits digits
      (some (if negative then -size else size), rest.dropWhile Char.isDigit)
  match text with
  | e :: '-' :: rest => if e = 'e' ∨ e = 'E' then digitsOf true rest else (none, text)
  | e :: '+' :: rest => if e = 'e' ∨ e = 'E' then digitsOf false rest else (none, text)
  | e :: rest => if e = 'e' ∨ e = 'E' then digitsOf false rest else (none, text)
  | [] => (none, text)

/-- Read a number without its sign. -/
def unsigned (negative : Bool) (text : List Char) : Except Fault (Value × List Char) :=
  let whole := match text with
    | '0' :: _ => ['0']
    | _ => text.takeWhile Char.isDigit
  if whole.isEmpty then .error .malformedJson
  else
    let (fraction, afterFraction) := fractionPart (text.drop whole.length)
    let (exponent, rest) := exponentPart afterFraction
    if fraction.isEmpty ∧ exponent.isNone then
      if digitLimit < whole.length then .error .invalidValue
      else
        let n : Int := natOfDigits whole
        .ok (.int (if negative then -n else n), rest)
    else
      let digits := natOfDigits (whole ++ fraction)
      let power := exponent.getD 0 - fraction.length
      .ok (.double (Binary64.ofDecimal negative digits power), rest)

/-- Read a word or a number. -/
def atom : List Char → Except Fault (Value × List Char)
  | 'n' :: 'u' :: 'l' :: 'l' :: rest => .ok (.null, rest)
  | 't' :: 'r' :: 'u' :: 'e' :: rest => .ok (.bool true, rest)
  | 'f' :: 'a' :: 'l' :: 's' :: 'e' :: rest => .ok (.bool false, rest)
  | 'N' :: 'a' :: 'N' :: rest => .ok (.double .nan, rest)
  | 'I' :: 'n' :: 'f' :: 'i' :: 'n' :: 'i' :: 't' :: 'y' :: rest =>
    .ok (.double (.infinite false), rest)
  | '-' :: 'I' :: 'n' :: 'f' :: 'i' :: 'n' :: 'i' :: 't' :: 'y' :: rest =>
    .ok (.double (.infinite true), rest)
  | '-' :: rest => unsigned true rest
  | text => unsigned false text

mutual

/-- Read one value.  Every call spends one unit of the budget. -/
def value : Nat → List Char → Except Fault (Value × List Char)
  | 0, _ => .error .malformedJson
  | budget + 1, text =>
    match text with
    | '"' :: rest =>
      match stringBody [] rest with
      | some (s, after) => .ok (.str (String.ofList s), after)
      | none => .error .malformedJson
    | '[' :: rest =>
      match skipSpace rest with
      | ']' :: after => .ok (.list [], after)
      | inner => items budget [] inner
    | '\x7b' :: rest =>
      match skipSpace rest with
      | '\x7d' :: after => .ok (.map [], after)
      | inner => members budget [] inner
    | _ => atom text

/-- Read the items of a list up to its closing bracket. -/
def items : Nat → List Value → List Char → Except Fault (Value × List Char)
  | 0, _, _ => .error .malformedJson
  | budget + 1, done, text => do
    let (item, after) ← value budget text
    match skipSpace after with
    | ']' :: rest => .ok (.list (item :: done).reverse, rest)
    | ',' :: rest => items budget (item :: done) (skipSpace rest)
    | _ => .error .malformedJson

/-- Read the entries of a mapping up to its closing brace. -/
def members : Nat → Table Value → List Char → Except Fault (Value × List Char)
  | 0, _, _ => .error .malformedJson
  | budget + 1, done, text =>
    match text with
    | '"' :: rest =>
      match stringBody [] rest with
      | none => .error .malformedJson
      | some (key, after) =>
        match skipSpace after with
        | ':' :: rest => do
          let (item, after) ← value budget (skipSpace rest)
          let done := done.put (.str (String.ofList key)) item
          match skipSpace after with
          | '\x7d' :: rest => .ok (.map done, rest)
          | ',' :: rest => members budget done (skipSpace rest)
          | _ => .error .malformedJson
        | _ => .error .malformedJson
    | _ => .error .malformedJson

end

/-- Read a text that is one JSON value.  Along any chain of calls at most two are made per
character, so the budget is never spent. -/
def parse (text : String) : Except Fault Value := do
  let chars := text.toList
  let (v, rest) ← value (2 * chars.length + 2) (skipSpace chars)
  if (skipSpace rest).isEmpty then return v else throw .malformedJson

end Json

end SchemaGraph
