import SchemaGraph.Yaml.Tag
import SchemaGraph.Yaml.Tokens

/-!
# The tree of a YAML text

The tokens of a text form one document: a tree of tagged scalars, sequences and mappings.  An alias
stands for a copy of the node with its anchor, which must be complete before the alias.

The grammar is read by one function per construct.  Every call of a function spends one unit of a
budget; a token is looked at by a fixed number of calls, so a budget proportional to the number of
tokens is enough.
-/

namespace SchemaGraph.Yaml

/-- A node of a document. -/
inductive Tree where
  | scalar (tag : Tag) (text : String)
  | sequence (tag : Tag) (items : List Tree)
  | mapping (tag : Tag) (entries : List (Tree × Tree))
  deriving Inhabited

/-- What is known in the middle of a document. -/
structure Reading where
  tokens : List Token
  /-- Why there are no more tokens. -/
  fault : Fault
  /-- Shorthands for tags. -/
  shorthands : List (String × String)
  /-- Complete nodes by their anchors. -/
  anchors : List (String × Tree)

/-- A step of reading. -/
abbrev Reader (α : Type) := StateT Reading (Except Fault) α

namespace Reader

/-- Text that is not in the grammar. -/
def refuse {α : Type} : Reader α := throw .malformedYaml

/-- The next token, which stays. -/
def peek : Reader Token := do
  let r ← get
  match r.tokens with
  | token :: _ => return token
  | [] => throw r.fault

/-- The next token, which is taken. -/
def take : Reader Token := do
  let token ← peek
  modify fun r => { r with tokens := r.tokens.tail }
  return token

/-- Take the next token if it is the given one. -/
def takeIf (token : Token) : Reader Bool := do
  if (← peek) == token then
    let _ ← take
    return true
  else return false

/-- Take the given token. -/
def expect (token : Token) : Reader Unit := do
  if !(← takeIf token) then refuse

/-- Whether the next token is one of some. -/
def sees (tokens : List Token) : Reader Bool := do return tokens.contains (← peek)

/-- The full name behind the parts of a tag. -/
def tagName (handle : Option String) (suffix : String) : Reader String := do
  match handle with
  | none => return suffix
  | some handle =>
    match (← get).shorthands.find? fun entry => entry.1 == handle with
    | some entry => return entry.2 ++ suffix
    | none => refuse

/-- Anchor and tag in front of a node, in either order. -/
def properties : Reader (Option String × Option String) := do
  match ← peek with
  | .anchor name =>
    let _ ← take
    match ← peek with
    | .tag handle suffix =>
      let _ ← take
      return (some name, some (← tagName handle suffix))
    | _ => return (some name, none)
  | .tag handle suffix =>
    let _ ← take
    match ← peek with
    | .anchor name =>
      let _ ← take
      return (some name, some (← tagName handle suffix))
    | _ => return (none, some (← tagName handle suffix))
  | _ => return (none, none)

/-- Note a node under its anchor, which must be new. -/
def register (anchor : Option String) (tree : Tree) : Reader Tree := do
  match anchor with
  | none => return tree
  | some name =>
    if (← get).anchors.any fun entry => entry.1 == name then refuse
    modify fun r => { r with anchors := (name, tree) :: r.anchors }
    return tree

/-- The node that an alias stands for. -/
def lookup (name : String) : Reader Tree := do
  match (← get).anchors.find? fun entry => entry.1 == name with
  | some entry => return entry.2
  | none => refuse

/-- The tag of a scalar.  A plain scalar without a tag, and any with the tag `!`, is told by its
text. -/
def scalarTag (tag : Option String) (plain : Bool) (text : String) : Tag :=
  match tag with
  | none => if plain then Tag.ofPlain text else .str
  | some "!" => Tag.ofPlain text
  | some name => Tag.ofName name

/-- The tag of a collection, if it has none of its own. -/
def collectionTag (tag : Option String) (default : Tag) : Tag :=
  match tag with
  | none | some "!" => default
  | some name => Tag.ofName name

/-- The node where none is written. -/
def absent : Tree := .scalar .null ""

mutual

/-- Read a node.  Block collections, and sequences without indentation of their own, stand only
where the caller allows them. -/
def node (block indentless : Bool) : Nat → Reader Tree
  | 0 => refuse
  | budget + 1 => do
    match ← peek with
    | .alias name =>
      let _ ← take
      lookup name
    | _ =>
      let (anchor, tag) ← properties
      let sequence (items : List Tree) : Reader Tree :=
        register anchor (.sequence (collectionTag tag .seq) items)
      let mapping (entries : List (Tree × Tree)) : Reader Tree :=
        register anchor (.mapping (collectionTag tag .map) entries)
      match ← peek with
      | .scalar text plain =>
        let _ ← take
        register anchor (.scalar (scalarTag tag plain text) text)
      | .flowSequenceStart =>
        let _ ← take
        sequence (← flowItems true budget)
      | .flowMappingStart =>
        let _ ← take
        mapping (← flowEntries true budget)
      | token =>
        if indentless && token == .blockEntry then sequence (← bareItems budget)
        else if block && token == .blockSequenceStart then
          let _ ← take
          sequence (← blockItems budget)
        else if block && token == .blockMappingStart then
          let _ ← take
          mapping (← blockEntries budget)
        else if anchor.isSome || tag.isSome then
          register anchor (.scalar (scalarTag tag true "") "")
        else refuse

/-- The items of a block sequence up to its end. -/
def blockItems : Nat → Reader (List Tree)
  | 0 => refuse
  | budget + 1 => do
    if ← takeIf .blockEntry then
      let item ←
        if ← sees [.blockEntry, .blockEnd] then pure absent else node true false budget
      return item :: (← blockItems budget)
    else
      expect .blockEnd
      return []

/-- The items of a sequence that is not indented further than the mapping around it. -/
def bareItems : Nat → Reader (List Tree)
  | 0 => refuse
  | budget + 1 => do
    if ← takeIf .blockEntry then
      let item ←
        if ← sees [.blockEntry, .key, .value, .blockEnd] then pure absent
        else node true false budget
      return item :: (← bareItems budget)
    else return []

/-- The entries of a block mapping up to its end. -/
def blockEntries : Nat → Reader (List (Tree × Tree))
  | 0 => refuse
  | budget + 1 => do
    if ← takeIf .key then
      let key ←
        if ← sees [.key, .value, .blockEnd] then pure absent else node true true budget
      let value ←
        if ← takeIf .value then
          if ← sees [.key, .value, .blockEnd] then pure absent else node true true budget
        else pure absent
      return (key, value) :: (← blockEntries budget)
    else
      expect .blockEnd
      return []

/-- The items of a flow sequence up to its end.  A key makes an item a mapping with one entry. -/
def flowItems (first : Bool) : Nat → Reader (List Tree)
  | 0 => refuse
  | budget + 1 => do
    if ← takeIf .flowSequenceEnd then return []
    if !first then expect .flowEntry
    if ← takeIf .key then
      let key ←
        if ← sees [.value, .flowEntry, .flowSequenceEnd] then pure absent
        else node false false budget
      let value ←
        if ← takeIf .value then
          if ← sees [.flowEntry, .flowSequenceEnd] then pure absent else node false false budget
        else pure absent
      return .mapping .map [(key, value)] :: (← flowItems false budget)
    if ← takeIf .flowSequenceEnd then return []
    let item ← node false false budget
    return item :: (← flowItems false budget)

/-- The entries of a flow mapping up to its end.  A node without a colon is a key of null. -/
def flowEntries (first : Bool) : Nat → Reader (List (Tree × Tree))
  | 0 => refuse
  | budget + 1 => do
    if ← takeIf .flowMappingEnd then return []
    if !first then expect .flowEntry
    if ← takeIf .key then
      let key ←
        if ← sees [.value, .flowEntry, .flowMappingEnd] then pure absent
        else node false false budget
      let value ←
        if ← takeIf .value then
          if ← sees [.flowEntry, .flowMappingEnd] then pure absent else node false false budget
        else pure absent
      return (key, value) :: (← flowEntries false budget)
    if ← takeIf .flowMappingEnd then return []
    let key ← node false false budget
    return (key, absent) :: (← flowEntries false budget)

end

/-- The shorthands that every document has, unless it gives them another meaning. -/
def defaultShorthands : List (String × String) := [("!", "!"), ("!!", Tag.family)]

/-- Read the directives in front of a document. -/
def directives : Nat → Bool → List (String × String) → Reader (List (String × String))
  | 0, _, _ => refuse
  | budget + 1, versioned, shorthands => do
    match ← peek with
    | .version major _ =>
      if versioned || major != 1 then refuse
      let _ ← take
      directives budget true shorthands
    | .shorthand handle expansion =>
      if shorthands.any fun entry => entry.1 == handle then refuse
      let _ ← take
      directives budget versioned ((handle, expansion) :: shorthands)
    | .otherDirective =>
      let _ ← take
      directives budget versioned shorthands
    | _ => return shorthands

/-- Skip the marks behind a document. -/
def documentEnds : Nat → Reader Unit
  | 0 => refuse
  | budget + 1 => do if ← takeIf .documentEnd then documentEnds budget

/-- Read a text with at most one document. -/
def stream (budget : Nat) : Reader (Option Tree) := do
  let explicit ← match ← peek with
    | .version _ _ | .shorthand _ _ | .otherDirective | .documentStart => pure true
    | .streamEnd => return none
    | _ => pure false
  if explicit then
    let shorthands ← directives budget false []
    expect .documentStart
    modify fun r => { r with shorthands := shorthands ++ defaultShorthands }
  let empty ← match ← peek with
    | .version _ _ | .shorthand _ _ | .otherDirective | .documentStart | .documentEnd
    | .streamEnd => pure explicit
    | _ => pure false
  let tree ← if empty then pure absent else node true false budget
  documentEnds budget
  expect .streamEnd
  return some tree

end Reader

namespace Tree

/-- The tree of a text; an empty text has none. -/
def ofText (text : String) : Except Fault (Option Tree) := do
  let (tokens, fault) := Token.ofText text
  let budget := 4 * tokens.length + 8
  let reading : Reading := ⟨tokens, fault.getD .malformedYaml, Reader.defaultShorthands, []⟩
  let (tree, _) ← (Reader.stream budget).run reading
  return tree

end Tree

end SchemaGraph.Yaml
