import SchemaGraph.Fault

/-!
# A place in a YAML text

A cursor stands between two characters of a text and knows its line and column.  At the end of the
text it sees a mark that no text contains.
-/

namespace SchemaGraph.Yaml

/-- What a cursor sees at the end of the text. -/
def endMark : Char := Char.ofNat 0

/-- Whether a line ends here. -/
def isBreak (c : Char) : Bool :=
  c == '\n' || c == '\r' || c.toNat == 0x85 || c.toNat == 0x2028 || c.toNat == 0x2029

/-- Whether a line or the text ends here. -/
def isBreakOrEnd (c : Char) : Bool := c == endMark || isBreak c

/-- Whether a space, a line end or the end stands here. -/
def isSpaceOrEnd (c : Char) : Bool := c == ' ' || isBreakOrEnd c

/-- Whether a blank, a line end or the end stands here. -/
def isBlankOrEnd (c : Char) : Bool := c == '\t' || isSpaceOrEnd c

/-- Whether a character may stand in the name of an anchor or a directive. -/
def isNameChar (c : Char) : Bool := c.isAlphanum || c == '-' || c == '_'

/-- A place in a text. -/
structure Cursor where
  rest : List Char
  index : Nat
  line : Nat
  column : Nat

namespace Cursor

/-- The character after the cursor. -/
def peek (c : Cursor) : Char := c.rest.headD endMark

/-- The character some places further on. -/
def peekAt (c : Cursor) (distance : Nat) : Char := (c.rest.drop distance).headD endMark

/-- Whether the text goes on with the given characters. -/
def startsWith (c : Cursor) (text : List Char) : Bool := c.rest.take text.length == text

/-- One character further.  A line ends after its last line end character; a byte order mark takes
no column. -/
def next (c : Cursor) : Cursor :=
  match c.rest with
  | [] => c
  | char :: rest =>
    let ends := isBreak char && !(char == '\r' && rest.head? == some '\n')
    if ends then ⟨rest, c.index + 1, c.line + 1, 0⟩
    else ⟨rest, c.index + 1, c.line, if char.toNat = 0xFEFF then c.column else c.column + 1⟩

/-- Some characters further. -/
def advance (c : Cursor) : Nat → Cursor
  | 0 => c
  | n + 1 => c.next.advance n

/-- The characters up to the first one that fails a test, and the place after them. -/
def takeWhile (c : Cursor) (test : Char → Bool) : List Char × Cursor :=
  let taken := c.rest.takeWhile test
  (taken, c.advance taken.length)

/-- The place after all characters that pass a test. -/
def skipWhile (c : Cursor) (test : Char → Bool) : Cursor := (c.takeWhile test).2

/-- The place after all spaces. -/
def skipSpaces (c : Cursor) : Cursor := c.skipWhile (· == ' ')

/-- The line end at the cursor and the place after it; nothing where no line ends.  All line ends
but the two separators of newer scripts are read as line feeds. -/
def lineBreak (c : Cursor) : List Char × Cursor :=
  let char := c.peek
  if c.startsWith ['\r', '\n'] then (['\n'], c.advance 2)
  else if char == '\n' || char == '\r' || char.toNat == 0x85 then (['\n'], c.next)
  else if isBreak char then ([char], c.next)
  else ([], c)

/-- Whether a document starts or ends at the cursor. -/
def atSeparator (c : Cursor) : Bool :=
  (c.startsWith ['-', '-', '-'] || c.startsWith ['.', '.', '.']) && isBlankOrEnd (c.peekAt 3)

/-- A bound on the characters still to come, for loops that stop by themselves. -/
def remaining (c : Cursor) : Nat := c.rest.length + 1

end Cursor

end SchemaGraph.Yaml
