import SchemaGraph.Yaml.Text
import SchemaGraph.Yaml.Token

/-!
# The tokens of a text

A YAML text is read from left to right.  Blocks are marked by indentation alone, so their starts and
ends are found by comparing columns.  A key in the short form is recognised only by the colon behind
it: until then the place where it would have started is a *candidate*, and when the colon comes the
tokens that open the key are put in at that place.  A candidate is good for one line and 1024
characters.

Reading stops at the first fault; the tokens before it are kept, because a fault in their grammar is
reported first.
-/

namespace SchemaGraph.Yaml

/-- A place where a key may have started. -/
structure Candidate where
  /-- The number of tokens before it. -/
  position : Nat
  /-- Nothing but a key may stand here. -/
  required : Bool
  index : Nat
  line : Nat
  column : Nat

/-- What is known in the middle of a text. -/
structure Scan where
  place : Cursor
  /-- The column of the innermost block; -1 outside of all blocks. -/
  indent : Int
  /-- The columns of the blocks around it, innermost first. -/
  outer : List Int
  /-- Whether a key in the short form may start here. -/
  keyAllowed : Bool
  /-- The candidate outside of flow collections. -/
  ground : Option Candidate
  /-- The candidates inside the open flow collections, innermost first. -/
  flow : List (Option Candidate)
  /-- The tokens so far, last first, and their number. -/
  tokens : List Token
  count : Nat

namespace Scan

/-- The start of a text. -/
def ofText (text : List Char) : Scan :=
  ⟨⟨text, 0, 0, 0⟩, -1, [], true, none, [], [], 0⟩

/-- Whether a flow collection is open. -/
def inFlow (s : Scan) : Bool := !s.flow.isEmpty

/-- Add a token at the end. -/
def push (s : Scan) (token : Token) : Scan :=
  { s with tokens := token :: s.tokens, count := s.count + 1 }

/-- Put tokens in at an earlier place. -/
def insert (s : Scan) (position : Nat) (inserted : List Token) : Scan :=
  let later := s.count - position
  { s with
    tokens := s.tokens.take later ++ inserted.reverse ++ s.tokens.drop later
    count := s.count + inserted.length }

/-- The candidate of the innermost flow collection. -/
def candidate (s : Scan) : Option Candidate := s.flow.headD s.ground

/-- Replace the candidate of the innermost flow collection. -/
def setCandidate (s : Scan) (candidate : Option Candidate) : Scan :=
  match s.flow with
  | [] => { s with ground := candidate }
  | _ :: rest => { s with flow := candidate :: rest }

/-- Give up the innermost candidate. -/
def dropCandidate (s : Scan) : Except Fault Scan :=
  match s.candidate with
  | some c => if c.required then .error .malformedYaml else .ok (s.setCandidate none)
  | none => .ok s

/-- Note that a key may start here. -/
def saveCandidate (s : Scan) : Except Fault Scan := do
  if !s.keyAllowed then return s
  let required := !s.inFlow && s.indent == s.place.column
  let s ← s.dropCandidate
  return s.setCandidate
    (some ⟨s.count, required, s.place.index, s.place.line, s.place.column⟩)

/-- A candidate, unless it lies too far back. -/
def freshen (place : Cursor) : Option Candidate → Except Fault (Option Candidate)
  | none => .ok none
  | some c =>
    if c.line == place.line && place.index - c.index ≤ 1024 then .ok (some c)
    else if c.required then .error .malformedYaml
    else .ok none

/-- Give up the candidates that lie too far back. -/
def dropStale (s : Scan) : Except Fault Scan := do
  let ground ← freshen s.place s.ground
  let flow ← s.flow.mapM (freshen s.place)
  return { s with ground := ground, flow := flow }

/-- The columns of the blocks that stay open at a column, and the number of those that end. -/
def unwind (column : Int) : Int → List Int → Nat × Int × List Int
  | indent, [] => (0, indent, [])
  | indent, around :: outer =>
    if column < indent then
      let (closed, rest) := unwind column around outer
      (closed + 1, rest)
    else (0, indent, around :: outer)

/-- End the blocks that are indented further than a column. -/
def closeTo (s : Scan) (column : Int) : Scan :=
  if s.inFlow then s
  else
    let (closed, indent, outer) := unwind column s.indent s.outer
    { s with
      indent := indent
      outer := outer
      tokens := List.replicate closed .blockEnd ++ s.tokens
      count := s.count + closed }

/-- Open a block at a column, if the innermost one is indented less. -/
def openAt (s : Scan) (column : Nat) : Bool × Scan :=
  if s.indent < column then (true, { s with indent := column, outer := s.indent :: s.outer })
  else (false, s)

/-- Skip spaces, comments and line ends. -/
def skipBlanks : Nat → Scan → Scan
  | 0, s => s
  | budget + 1, s =>
    let c := s.place.skipSpaces
    let c := if c.peek == '#' then c.skipWhile (! isBreakOrEnd ·) else c
    if isBreak c.peek then
      skipBlanks budget { s with place := c.lineBreak.2, keyAllowed := s.keyAllowed || !s.inFlow }
    else { s with place := c }

/-- Go to the next token.  A byte order mark may stand at the start. -/
def skipToToken (s : Scan) : Scan :=
  let marked := s.place.index == 0 && s.place.peek.toNat == 0xFEFF
  let s := if marked then { s with place := s.place.next } else s
  skipBlanks s.place.remaining s

/-- The end of the text. -/
def finish (s : Scan) : Except Fault Scan := do
  let s ← (s.closeTo (-1)).dropCandidate
  return s.push .streamEnd

/-- The value of a directive that sets the version. -/
def versionDirective (c : Cursor) : Except Fault (Token × Cursor) := do
  let (major, c) ← c.skipSpaces.directiveNumber
  if c.peek != '.' then throw .malformedYaml
  let (minor, c) ← c.next.directiveNumber
  if !isSpaceOrEnd c.peek then throw .malformedYaml
  return (.version major minor, c)

/-- The value of a directive that gives a shorthand for tags. -/
def shorthandDirective (c : Cursor) : Except Fault (Token × Cursor) := do
  let (handle, c) ← c.skipSpaces.tagHandle
  if c.peek != ' ' then throw .malformedYaml
  let (expansion, c) ← c.skipSpaces.tagText
  if !isSpaceOrEnd c.peek then throw .malformedYaml
  return (.shorthand handle expansion, c)

/-- A directive; one with an unknown name is skipped. -/
def directive (s : Scan) : Except Fault Scan := do
  let s ← (s.closeTo (-1)).dropCandidate
  let (name, c) := s.place.next.takeWhile isNameChar
  if name.isEmpty || !isSpaceOrEnd c.peek then throw .malformedYaml
  let (token, c) ←
    if name == ['Y', 'A', 'M', 'L'] then versionDirective c
    else if name == ['T', 'A', 'G'] then shorthandDirective c
    else pure (.otherDirective, c.skipWhile (! isBreakOrEnd ·))
  let c ← c.ignoredLine
  return { s.push token with place := c, keyAllowed := false }

/-- The mark that starts or ends a document. -/
def separator (s : Scan) (token : Token) : Except Fault Scan := do
  let s ← (s.closeTo (-1)).dropCandidate
  return { s.push token with place := s.place.advance 3, keyAllowed := false }

/-- The start of a flow collection, which may itself be a key. -/
def flowStart (s : Scan) (token : Token) : Except Fault Scan := do
  let s ← s.saveCandidate
  return { s.push token with place := s.place.next, keyAllowed := true, flow := none :: s.flow }

/-- The end of a flow collection. -/
def flowEnd (s : Scan) (token : Token) : Except Fault Scan := do
  let s ← s.dropCandidate
  match s.flow with
  | [] => throw .malformedYaml
  | _ :: rest => return { s.push token with place := s.place.next, keyAllowed := false, flow := rest }

/-- A comma between two entries of a flow collection. -/
def flowEntry (s : Scan) : Except Fault Scan := do
  let s ← s.dropCandidate
  return { s.push .flowEntry with place := s.place.next, keyAllowed := true }

/-- Open a block for a mark that stands where a key might. -/
def openBlock (s : Scan) (token : Token) : Except Fault Scan :=
  if s.inFlow then .ok s
  else if !s.keyAllowed then .error .malformedYaml
  else
    let (opened, s) := s.openAt s.place.column
    .ok (if opened then s.push token else s)

/-- The hyphen in front of an item of a block sequence. -/
def blockEntry (s : Scan) : Except Fault Scan := do
  let s ← (← s.openBlock .blockSequenceStart).dropCandidate
  return { s.push .blockEntry with place := s.place.next, keyAllowed := true }

/-- The question mark in front of a key in the long form. -/
def explicitKey (s : Scan) : Except Fault Scan := do
  let s ← (← s.openBlock .blockMappingStart).dropCandidate
  return { s.push .key with place := s.place.next, keyAllowed := !s.inFlow }

/-- The colon in front of a value.  If there is a candidate, the key started there. -/
def value (s : Scan) : Except Fault Scan := do
  match s.candidate with
  | some c =>
    let s := s.setCandidate none
    let (opened, s) := if s.inFlow then (false, s) else s.openAt c.column
    let s := s.insert c.position (if opened then [.blockMappingStart, .key] else [.key])
    return { s.push .value with place := s.place.next, keyAllowed := false }
  | none =>
    let s ← s.openBlock .blockMappingStart
    return { s.push .value with place := s.place.next, keyAllowed := !s.inFlow }

/-- A token inside a line, which may open a key. -/
def inline (s : Scan) (read : Cursor → Except Fault (Token × Cursor)) : Except Fault Scan := do
  let s ← s.saveCandidate
  let (token, c) ← read s.place
  return { s.push token with place := c, keyAllowed := false }

/-- A block scalar, which is never a key. -/
def blockScalar (s : Scan) (folded : Bool) : Except Fault Scan := do
  let s ← s.dropCandidate
  let (text, c) ← s.place.blockScalar folded s.indent
  return { s.push (.scalar text false) with place := c, keyAllowed := true }

/-- A plain scalar.  Behind the end of its line a new key may start. -/
def plainScalar (s : Scan) : Except Fault Scan := do
  let s ← s.saveCandidate
  let (text, lineEnded, c) := s.place.plainScalar s.inFlow s.indent
  return { s.push (.scalar text true) with place := c, keyAllowed := lineEnded }

/-- Whether a plain scalar starts at the place. -/
def startsPlain (s : Scan) : Bool :=
  let char := s.place.peek
  let indicators := "-?:,[]\x7b\x7d#&*!|>'\"%@\x60".toList
  !(isBlankOrEnd char || indicators.contains char) ||
    (!isBlankOrEnd (s.place.peekAt 1) &&
      (char == '-' || (!s.inFlow && (char == '?' || char == ':'))))

/-- Read the next token, with the starts and ends of blocks before it. -/
def next (s : Scan) : Except Fault Scan := do
  let s ← s.skipToToken.dropStale
  let s := s.closeTo s.place.column
  let c := s.place
  let char := c.peek
  let blankAfter := isBlankOrEnd (c.peekAt 1)
  if c.rest.isEmpty then s.finish
  else if char == '%' && c.column == 0 then s.directive
  else if char == '-' && c.column == 0 && c.atSeparator then s.separator .documentStart
  else if char == '.' && c.column == 0 && c.atSeparator then s.separator .documentEnd
  else if char == '[' then s.flowStart .flowSequenceStart
  else if char == '\x7b' then s.flowStart .flowMappingStart
  else if char == ']' then s.flowEnd .flowSequenceEnd
  else if char == '\x7d' then s.flowEnd .flowMappingEnd
  else if char == ',' then s.flowEntry
  else if char == '-' && blankAfter then s.blockEntry
  else if char == '?' && (s.inFlow || blankAfter) then s.explicitKey
  else if char == ':' && (s.inFlow || blankAfter) then s.value
  else if char == '*' then
    s.inline fun c => do let (name, c) ← c.anchorName; return (.alias name, c)
  else if char == '&' then
    s.inline fun c => do let (name, c) ← c.anchorName; return (.anchor name, c)
  else if char == '!' then
    s.inline fun c => do let (parts, c) ← c.tagParts; return (.tag parts.1 parts.2, c)
  else if char == '|' && !s.inFlow then s.blockScalar false
  else if char == '>' && !s.inFlow then s.blockScalar true
  else if char == '\'' || char == '"' then
    s.inline fun c => do
      let (text, c) ← c.quotedScalar (char == '"')
      return (.scalar text false, c)
  else if s.startsPlain then s.plainScalar
  else throw .malformedYaml

/-- Whether the end of the text has been read. -/
def finished (s : Scan) : Bool := s.tokens.head? == some .streamEnd

/-- Read the tokens up to the end or to the first fault. -/
def run : Nat → Scan → List Token × Option Fault
  | 0, s => (s.tokens.reverse, some .malformedYaml)
  | budget + 1, s =>
    match s.next with
    | .error fault => (s.tokens.reverse, some fault)
    | .ok s => if s.finished then (s.tokens.reverse, none) else run budget s

end Scan

/-- Whether a character may stand in a YAML text. -/
def isPrintable (c : Char) : Bool :=
  c == '\t' || c == '\n' || c == '\r' || (0x20 ≤ c.toNat && c.toNat ≤ 0x7E) || c.toNat == 0x85 ||
    (0xA0 ≤ c.toNat && c.toNat ≤ 0xFFFD) || 0x10000 ≤ c.toNat

/-- The tokens of a text up to its end, or up to the first fault.  Every step but the last spends a
character, so the budget is enough. -/
def Token.ofText (text : String) : List Token × Option Fault :=
  let chars := text.toList
  if chars.all isPrintable then Scan.run (chars.length + 2) (Scan.ofText chars)
  else ([], some .malformedYaml)

end SchemaGraph.Yaml
