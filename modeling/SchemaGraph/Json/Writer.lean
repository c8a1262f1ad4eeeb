import SchemaGraph.Value.Display

/-!
# JSON text

Writing a value as JSON in ASCII.  Numbers, truth values and null may be keys and are written as
the texts of their JSON form; a value with no JSON form of its own is written as its display.  A key
with no JSON form stops the writing, and what was written before it remains: an *emission* is the
text so far together with the fault that ended it, if any.
-/

namespace SchemaGraph

namespace Json

/-- The digits of a code unit in an escape. -/
def unitEscape (unit : Nat) : List Char := '\\' :: 'u' :: Quoted.hex 4 unit

/-- A character inside a JSON string. -/
def escapeChar (c : Char) : List Char :=
  if c = '"' then ['\\', '"']
  else if c = '\\' then ['\\', '\\']
  else if c = '\n' then ['\\', 'n']
  else if c = '\r' then ['\\', 'r']
  else if c = '\t' then ['\\', 't']
  else if c.toNat = 8 then ['\\', 'b']
  else if c.toNat = 12 then ['\\', 'f']
  else if 0x20 ≤ c.toNat ∧ c.toNat < 0x7F then [c]
  else if c.toNat < 0x10000 then unitEscape c.toNat
  else
    let offset := c.toNat - 0x10000
    unitEscape (0xD800 + offset / 0x400) ++ unitEscape (0xDC00 + offset % 0x400)

/-- A text as a JSON string; characters beyond ASCII are written as escapes. -/
def quote (s : String) : String :=
  String.ofList ('"' :: s.toList.flatMap escapeChar ++ ['"'])

/-- A double as a JSON number. -/
def doubleText : Binary64 → String
  | .nan => "NaN"
  | .infinite negative => if negative then "-Infinity" else "Infinity"
  | x => x.text

/-- The text of a key, if it has a JSON form. -/
def keyText? : Value → Option String
  | .str s => some s
  | .double x => some (doubleText x)
  | .bool b => some (if b then "true" else "false")
  | .null => some "null"
  | .int n => some (toString n)
  | _ => none

/-- Text written so far, and the fault that ended the writing. -/
structure Emission where
  text : String
  fault : Option Fault

namespace Emission

/-- Text written without a fault. -/
def ofText (text : String) : Emission := ⟨text, none⟩

/-- Go on writing, unless a fault has ended it. -/
def andThen (first : Emission) (next : Unit → Emission) : Emission :=
  match first.fault with
  | some _ => first
  | none => let second := next (); ⟨first.text ++ second.text, second.fault⟩

/-- The whole text, if nothing was in the way. -/
def complete (e : Emission) : Except Fault String :=
  match e.fault with
  | some fault => .error fault
  | none => .ok e.text

end Emission

/-- How items are set apart. -/
structure Layout where
  /-- Between two items on one line. -/
  itemSeparator : String
  /-- Between a key and its value. -/
  keySeparator : String
  /-- Blanks per level, when every item has a line of its own. -/
  indent : Option Nat

/-- One line, a blank after every comma and colon. -/
def spaced : Layout := ⟨", ", ": ", none⟩

/-- One line without blanks. -/
def compact : Layout := ⟨",", ":", none⟩

/-- A line for every item, two blanks per level. -/
def indented : Layout := ⟨",", ": ", some 2⟩

namespace Layout

/-- The start of a new line at a level; nothing when all stands on one line. -/
def newline (layout : Layout) (level : Nat) : String :=
  match layout.indent with
  | none => ""
  | some width => String.ofList ('\n' :: List.replicate (width * level) ' ')

end Layout

mutual

/-- Write a value whose first line starts at the given level. -/
def emit (layout : Layout) (level : Nat) : Value → Emission
  | .null => .ofText "null"
  | .bool b => .ofText (if b then "true" else "false")
  | .int n => .ofText (toString n)
  | .double x => .ofText (doubleText x)
  | .str s => .ofText (quote s)
  | .list [] => .ofText "[]"
  | .list (item :: rest) =>
    (Emission.ofText ("[" ++ layout.newline (level + 1))).andThen fun _ =>
      (emit layout (level + 1) item).andThen fun _ =>
        (emitItems layout (level + 1) rest).andThen fun _ =>
          .ofText (layout.newline level ++ "]")
  | .map [] => .ofText "\x7b\x7d"
  | .map ((key, item) :: rest) =>
    (Emission.ofText ("\x7b" ++ layout.newline (level + 1))).andThen fun _ =>
      match keyText? key with
      | none => ⟨"", some .typeMismatch⟩
      | some name =>
        (Emission.ofText (quote name ++ layout.keySeparator)).andThen fun _ =>
          (emit layout (level + 1) item).andThen fun _ =>
            (emitEntries layout (level + 1) rest).andThen fun _ =>
              .ofText (layout.newline level ++ "\x7d")
  | .date d => .ofText (quote (Value.display (.date d)))
  | .moment t => .ofText (quote (Value.display (.moment t)))
  | .bytes octets => .ofText (quote (Value.display (.bytes octets)))
  | .set members => .ofText (quote (Value.display (.set members)))

/-- Write the items of a list after its first. -/
def emitItems (layout : Layout) (level : Nat) : List Value → Emission
  | [] => .ofText ""
  | item :: rest =>
    (Emission.ofText (layout.itemSeparator ++ layout.newline level)).andThen fun _ =>
      (emit layout level item).andThen fun _ => emitItems layout level rest

/-- Write the entries of a mapping after its first. -/
def emitEntries (layout : Layout) (level : Nat) : List (Value × Value) → Emission
  | [] => .ofText ""
  | (key, item) :: rest =>
    match keyText? key with
    | none => ⟨"", some .typeMismatch⟩
    | some name =>
      (Emission.ofText (layout.itemSeparator ++ layout.newline level ++ quote name ++
        layout.keySeparator)).andThen fun _ =>
        (emit layout level item).andThen fun _ => emitEntries layout level rest

end

/-- The JSON text of a value. -/
def render (layout : Layout) (v : Value) : Except Fault String := (emit layout 0 v).complete

end Json

end SchemaGraph
