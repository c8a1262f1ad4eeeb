import SchemaGraph.Yaml.Cursor
import SchemaGraph.Json.Reader

/-!
# Texts inside YAML

How the five kinds of scalars, and the names of anchors and tags, are read from a cursor.  Each
reader returns what it has read and the place after it.
-/

namespace SchemaGraph.Yaml

namespace Cursor

/-- The end of a line after a header: spaces, perhaps a comment, and a line end. -/
def ignoredLine (c : Cursor) : Except Fault Cursor :=
  let c := c.skipSpaces
  let c := if c.peek == '#' then c.skipWhile (! isBreakOrEnd ·) else c
  if isBreakOrEnd c.peek then .ok c.lineBreak.2 else .error .malformedYaml

/-- The name of an anchor or an alias, after its mark. -/
def anchorName (c : Cursor) : Except Fault (String × Cursor) :=
  let (name, c) := c.next.takeWhile isNameChar
  let follows (char : Char) : Bool :=
    isBlankOrEnd char || "?:,]\x7d%@\x60".toList.contains char
  if name.isEmpty ∨ ! follows c.peek then .error .malformedYaml
  else .ok (String.ofList name, c)

/-- Whether a character may stand in a tag. -/
def isTagChar (char : Char) : Bool :=
  char.isAlphanum || "-;/?:@&=+$,_.!~*'()[]%".toList.contains char

/-- The octets of a run of percent escapes. -/
def escapedOctets : List Char → Except Fault (List UInt8 × List Char)
  | '%' :: a :: b :: rest => do
    match Json.hexValue? a, Json.hexValue? b with
    | some high, some low =>
      let (others, after) ← escapedOctets rest
      return (UInt8.ofNat (16 * high + low) :: others, after)
    | _, _ => throw .malformedYaml
  | '%' :: _ => .error .malformedYaml
  | text => .ok ([], text)

/-- The characters of a tag, with runs of percent escapes decoded. -/
def unescapeTag : Nat → List Char → Except Fault (List Char)
  | _, [] => .ok []
  | 0, _ => .error .malformedYaml
  | budget + 1, '%' :: rest => do
    let (octets, after) ← escapedOctets ('%' :: rest)
    match String.fromUTF8? ⟨octets.toArray⟩ with
    | some text => return text.toList ++ (← unescapeTag budget after)
    | none => throw .malformedYaml
  | budget + 1, char :: rest => do return char :: (← unescapeTag budget rest)

/-- A run of tag characters, which must not be empty. -/
def tagText (c : Cursor) : Except Fault (String × Cursor) := do
  let (text, c) := c.takeWhile isTagChar
  if text.isEmpty then throw .malformedYaml
  return (String.ofList (← unescapeTag text.length text), c)

/-- A handle: one exclamation mark, or a name between two. -/
def tagHandle (c : Cursor) : Except Fault (String × Cursor) :=
  if c.peek != '!' then .error .malformedYaml
  else
    let (name, after) := c.next.takeWhile isNameChar
    if c.peekAt 1 == ' ' then .ok ("!", c.next)
    else if after.peek == '!' then
      .ok (String.ofList ('!' :: name ++ ['!']), after.next)
    else .error .malformedYaml

/-- Handle and rest of a tag. -/
def tagParts (c : Cursor) : Except Fault ((Option String × String) × Cursor) := do
  let second := c.peekAt 1
  let (parts, c) ←
    if second == '<' then
      let (suffix, c) ← (c.advance 2).tagText
      if c.peek != '>' then throw .malformedYaml
      pure ((none, suffix), c.next)
    else if isBlankOrEnd second then pure ((none, "!"), c.next)
    else
      let word := c.next.rest.takeWhile (! isSpaceOrEnd ·)
      if word.contains '!' then
        let (handle, c) ← c.tagHandle
        let (suffix, c) ← c.tagText
        pure ((some handle, suffix), c)
      else
        let (suffix, c) ← c.next.tagText
        pure ((some "!", suffix), c)
  if isSpaceOrEnd c.peek then return (parts, c) else throw .malformedYaml

/-- A number in a directive. -/
def directiveNumber (c : Cursor) : Except Fault (Nat × Cursor) :=
  let (digits, c) := c.takeWhile Char.isDigit
  if digits.isEmpty then .error .malformedYaml else .ok (Json.natOfDigits digits, c)

/-- What is kept of the last lines of a block scalar. -/
inductive Chomping where
  | strip
  | clip
  | keep
  deriving DecidableEq, Repr

/-- Chomping and indentation in the header of a block scalar. -/
def blockHeader (c : Cursor) : Except Fault ((Chomping × Option Nat) × Cursor) := do
  let chompingOf (char : Char) : Chomping := if char == '+' then .keep else .strip
  let isSign (char : Char) : Bool := char == '+' || char == '-'
  let (header, c) ←
    if isSign c.peek then
      let chomping := chompingOf c.peek
      let c := c.next
      if c.peek.isDigit then
        if c.peek == '0' then throw .malformedYaml
        pure ((chomping, some (c.peek.toNat - 48)), c.next)
      else pure ((chomping, none), c)
    else if c.peek.isDigit then
      if c.peek == '0' then throw .malformedYaml
      let increment := some (c.peek.toNat - 48)
      let c := c.next
      if isSign c.peek then pure ((chompingOf c.peek, increment), c.next)
      else pure ((.clip, increment), c)
    else pure ((.clip, none), c)
  if isSpaceOrEnd c.peek then return (header, c) else throw .malformedYaml

/-- Up to as many spaces as lead to a column. -/
def spacesTo (c : Cursor) (column : Nat) : Cursor :=
  let spaces := (c.rest.takeWhile (· == ' ')).length
  c.advance (min spaces (column - c.column))

/-- Blank lines before a line of a block scalar, each indented at most to the given column. -/
def blockBreaks (indent : Nat) : Nat → Cursor → List Char × Cursor
  | 0, c => ([], c)
  | budget + 1, c =>
    let c := c.spacesTo indent
    if isBreak c.peek then
      let (mark, c) := c.lineBreak
      let (others, c) := blockBreaks indent budget c
      (mark ++ others, c)
    else ([], c)

/-- Blank lines before the first line of a block scalar, with the widest indentation seen. -/
def blockIndentation : Nat → Nat → Cursor → List Char × Nat × Cursor
  | 0, widest, c => ([], widest, c)
  | budget + 1, widest, c =>
    if c.peek == ' ' then
      let c := c.next
      blockIndentation budget (max widest c.column) c
    else if isBreak c.peek then
      let (mark, c) := c.lineBreak
      let (others, widest, c) := blockIndentation budget widest c
      (mark ++ others, widest, c)
    else ([], widest, c)

/-- Text of a block scalar, its last line end, the blank lines after it, and the place behind. -/
structure Block where
  text : List Char
  lastBreak : List Char
  breaks : List Char
  place : Cursor

/-- The lines of a block scalar.  Where lines are folded, a single line end between two lines that
do not start with a blank becomes a space. -/
def blockLines (folded : Bool) (indent : Nat) : Nat → List Char → Cursor → Block
  | 0, breaks, c => ⟨[], [], breaks, c⟩
  | budget + 1, breaks, c =>
    if c.column != indent || c.rest.isEmpty then ⟨[], [], breaks, c⟩
    else
      let starts (char : Char) : Bool := char != ' ' && char != '\t'
      let leading := starts c.peek
      let (line, c) := c.takeWhile (! isBreakOrEnd ·)
      let (mark, c) := c.lineBreak
      let (following, c) := blockBreaks indent c.remaining c
      if c.column == indent && !c.rest.isEmpty then
        let joint :=
          if folded && mark == ['\n'] && leading && starts c.peek then
            if following.isEmpty then [' '] else []
          else mark
        let block := blockLines folded indent budget following c
        { block with text := breaks ++ line ++ joint ++ block.text }
      else ⟨breaks ++ line, mark, following, c⟩

/-- A block scalar, after its mark.  Its indentation is given in the header, or is that of its first
line. -/
def blockScalar (c : Cursor) (folded : Bool) (parentIndent : Int) :
    Except Fault (String × Cursor) := do
  let ((chomping, increment), c) ← c.next.blockHeader
  let c ← c.ignoredLine
  let least := (max (parentIndent + 1) 1).toNat
  let (breaks, indent, c) :=
    match increment with
    | none =>
      let (breaks, widest, c) := blockIndentation c.remaining 0 c
      (breaks, max least widest, c)
    | some n =>
      let indent := least + n - 1
      let (breaks, c) := blockBreaks indent c.remaining c
      (breaks, indent, c)
  let block := blockLines folded indent c.remaining breaks c
  let ending := match chomping with
    | .strip => []
    | .clip => block.lastBreak
    | .keep => block.lastBreak ++ block.breaks
  return (String.ofList (block.text ++ ending), block.place)

/-- The character of an escape with one letter. -/
def shortEscape? : Char → Option Char
  | '0' => some (Char.ofNat 0)
  | 'a' => some (Char.ofNat 7)
  | 'b' => some (Char.ofNat 8)
  | 't' | '\t' => some '\t'
  | 'n' => some '\n'
  | 'v' => some (Char.ofNat 11)
  | 'f' => some (Char.ofNat 12)
  | 'r' => some '\r'
  | 'e' => some (Char.ofNat 27)
  | ' ' => some ' '
  | '"' => some '"'
  | '\\' => some '\\'
  | '/' => some '/'
  | 'N' => some (Char.ofNat 0x85)
  | '_' => some (Char.ofNat 0xA0)
  | 'L' => some (Char.ofNat 0x2028)
  | 'P' => some (Char.ofNat 0x2029)
  | _ => none

/-- The number of digits after the letter of an escape by code point. -/
def escapeWidth? : Char → Option Nat
  | 'x' => some 2
  | 'u' => some 4
  | 'U' => some 8
  | _ => none

/-- The character of a code point. -/
def charOfCode (code : Nat) : Except Fault Char :=
  if 0x110000 ≤ code then .error .invalidValue else .ok (Json.loneUnit code)

/-- Line ends between two lines of a quoted scalar. -/
def quotedBreaks : Nat → Cursor → Except Fault (List Char × Cursor)
  | 0, c => .ok ([], c)
  | budget + 1, c => do
    if c.atSeparator then throw .malformedYaml
    let c := c.skipWhile fun char => char == ' ' || char == '\t'
    if isBreak c.peek then
      let (mark, c) := c.lineBreak
      let (others, c) ← quotedBreaks budget c
      return (mark ++ others, c)
    else return ([], c)

/-- A backslash inside double quotes and what follows it. -/
def escapeSequence (c : Cursor) : Except Fault (List Char × Cursor) := do
  let letter := c.next.peek
  let after := c.advance 2
  match shortEscape? letter with
  | some char => if c.next.rest.isEmpty then throw .malformedYaml else return ([char], after)
  | none =>
    match escapeWidth? letter with
    | some width =>
      let digits := after.rest.take width
      if digits.length = width ∧ digits.all fun d => (Json.hexValue? d).isSome then
        let code := digits.foldl (fun n d => 16 * n + (Json.hexValue? d).getD 0) 0
        return ([← charOfCode code], after.advance width)
      else throw .malformedYaml
    | none =>
      if isBreak letter then
        let place := c.next.lineBreak.2
        quotedBreaks place.remaining place
      else throw .malformedYaml

/-- Blanks inside quotes: as written within a line, folded between lines. -/
def quotedSpaces (c : Cursor) : Except Fault (List Char × Cursor) := do
  let (spaces, c) := c.takeWhile fun char => char == ' ' || char == '\t'
  if c.rest.isEmpty then throw .malformedYaml
  if isBreak c.peek then
    let (mark, c) := c.lineBreak
    let (breaks, c) ← quotedBreaks c.remaining c
    let joint := if mark != ['\n'] then mark else if breaks.isEmpty then [' '] else []
    return (joint ++ breaks, c)
  else return (spaces, c)

/-- The rest of a quoted scalar after its opening quote. -/
def quotedRest (double : Bool) : Nat → Cursor → Except Fault (List Char × Cursor)
  | 0, _ => .error .malformedYaml
  | budget + 1, c => do
    let char := c.peek
    let goOn (text : List Char) (c : Cursor) : Except Fault (List Char × Cursor) := do
      let (others, c) ← quotedRest double budget c
      return (text ++ others, c)
    if c.rest.isEmpty then throw .malformedYaml
    else if char == ' ' || char == '\t' || isBreak char then
      let (text, c) ← c.quotedSpaces
      goOn text c
    else if !double && char == '\'' && c.peekAt 1 == '\'' then goOn ['\''] (c.advance 2)
    else if char == (if double then '"' else '\'') then return ([], c.next)
    else if double && char == '\\' then
      let (text, c) ← c.escapeSequence
      goOn text c
    else goOn [char] c.next

/-- A quoted scalar. -/
def quotedScalar (c : Cursor) (double : Bool) : Except Fault (String × Cursor) := do
  let (text, place) ← quotedRest double c.next.remaining c.next
  return (String.ofList text, place)

/-- The number of characters of a plain scalar up to its next blank or end. -/
def plainLength (inFlow : Bool) : List Char → Nat
  | [] => 0
  | char :: rest =>
    let following := rest.headD endMark
    let inside (c : Char) : Bool := inFlow && ",[]\x7b\x7d".toList.contains c
    if isBlankOrEnd char || (char == ':' && (isBlankOrEnd following || inside following)) ||
        inside char || (inFlow && char == '?') then 0
    else 1 + plainLength inFlow rest

/-- Blank lines inside a plain scalar; none where a document starts or ends. -/
def plainBreaks : Nat → Cursor → Option (List Char) × Cursor
  | 0, c => (some [], c)
  | budget + 1, c =>
    if c.peek == ' ' then plainBreaks budget c.next
    else if isBreak c.peek then
      let (mark, c) := c.lineBreak
      if c.atSeparator then (none, c)
      else
        let (others, c) := plainBreaks budget c
        (others.map (mark ++ ·), c)
    else (some [], c)

/-- Space between two words of a plain scalar, whether a line ended in it, and the place after
it. -/
structure PlainSpace where
  text : List Char
  lineEnded : Bool
  place : Cursor

/-- The space after a word of a plain scalar: as written within a line, folded between lines. -/
def plainSpace (c : Cursor) : PlainSpace :=
  let (spaces, c) := c.takeWhile (· == ' ')
  if isBreak c.peek then
    let (mark, c) := c.lineBreak
    if c.atSeparator then ⟨[], true, c⟩
    else
      match plainBreaks c.remaining c with
      | (none, c) => ⟨[], true, c⟩
      | (some breaks, c) =>
        let joint := if mark != ['\n'] then mark else if breaks.isEmpty then [' '] else []
        ⟨joint ++ breaks, true, c⟩
  else ⟨spaces, false, c⟩

/-- The words of a plain scalar, whether a line ended after its last word, and the place behind.
Outside of flow collections every line but the first must be indented. -/
def plainWords (inFlow : Bool) (indent : Int) :
    Nat → List Char → Bool → Cursor → List Char × Bool × Cursor
  | 0, _, lineEnded, c => ([], lineEnded, c)
  | budget + 1, space, lineEnded, c =>
    let length := plainLength inFlow c.rest
    if c.peek == '#' || length == 0 then ([], lineEnded, c)
    else
      let word := space ++ c.rest.take length
      let gap := (c.advance length).plainSpace
      let c := gap.place
      if gap.text.isEmpty || c.peek == '#' || (!inFlow && (c.column : Int) < indent) then
        (word, gap.lineEnded, c)
      else
        let (others, lineEnded, c) := plainWords inFlow indent budget gap.text gap.lineEnded c
        (word ++ others, lineEnded, c)

/-- A plain scalar, and whether a line ended behind it. -/
def plainScalar (c : Cursor) (inFlow : Bool) (parentIndent : Int) : String × Bool × Cursor :=
  let (text, lineEnded, c) := plainWords inFlow (parentIndent + 1) c.remaining [] false c
  (String.ofList text, lineEnded, c)

end Cursor

end SchemaGraph.Yaml
