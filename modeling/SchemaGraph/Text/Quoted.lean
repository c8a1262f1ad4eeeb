import SchemaGraph.Text.Printable

/-!
# Quoted text

A text inside quotes.  The quote is an apostrophe, unless the text has an apostrophe and no double
quote.  The backslash and the quote are escaped, tab, line feed and carriage return have escapes of
their own, and any other character that is not printable is written by its code point.
-/

namespace SchemaGraph

namespace Quoted

/-- The digits of a number to base sixteen, in lower case. -/
def hexDigits (n : Nat) : List Char := Nat.toDigits 16 n

/-- The digits of a number to base sixteen, filled up with zeroes. -/
def hex (width n : Nat) : List Char :=
  let digits := hexDigits n
  List.replicate (width - digits.length) '0' ++ digits

/-- A character that does not stand for itself, by its code point. -/
def escapeCode (n : Nat) : List Char :=
  if n < 0x100 then '\\' :: 'x' :: hex 2 n
  else if n < 0x10000 then '\\' :: 'u' :: hex 4 n
  else '\\' :: 'U' :: hex 8 n

/-- A character inside the given quotes. -/
def escape (quote c : Char) : List Char :=
  if c = '\\' ∨ c = quote then ['\\', c]
  else if c = '\t' then ['\\', 't']
  else if c = '\n' then ['\\', 'n']
  else if c = '\r' then ['\\', 'r']
  else if Printable.isPrintable c then [c]
  else escapeCode c.toNat

/-- The quote that a text is put into. -/
def quoteFor (text : List Char) : Char :=
  if text.contains '\'' ∧ ¬ text.contains '"' then '"' else '\''

/-- A text inside quotes. -/
def text (s : String) : String :=
  let quote := quoteFor s.toList
  String.ofList (quote :: s.toList.flatMap (escape quote) ++ [quote])

/-- An octet inside the given quotes: only printable ASCII stands for itself. -/
def escapeOctet (quote : Char) (b : UInt8) : List Char :=
  let c := Char.ofNat b.toNat
  if b.toNat < 0x7F then escape quote c else escapeCode b.toNat

/-- Octets inside quotes, after the mark that they are octets. -/
def octets (bs : List UInt8) : String :=
  let quote := quoteFor (bs.map fun b => Char.ofNat b.toNat)
  String.ofList ('b' :: quote :: bs.flatMap (escapeOctet quote) ++ [quote])

end Quoted

end SchemaGraph
