import SchemaGraph.Text.Pieces

/-!
# File paths

A path is a number of leading slashes and a list of parts.  Reading drops empty parts and parts that
stand for "here"; normalizing also settles the parts that lead to the parent, without looking at any
file.  One leading slash makes a path absolute.  Two are kept as they are, three or more count as
one.
-/

namespace SchemaGraph

/-- A file path. -/
structure Path where
  /-- Leading slashes: none for a relative path, else one or two. -/
  slashes : Nat
  parts : List String
  deriving DecidableEq, Repr, Inhabited

namespace Path

/-- Leading slashes of a text, where three or more count as one. -/
def leadingSlashes (text : List Char) : Nat :=
  match (text.takeWhile (· == '/')).length with
  | 0 => 0
  | 2 => 2
  | _ => 1

/-- Read a path, dropping empty parts and the part `.`. -/
def read (text : String) : Path :=
  { slashes := leadingSlashes text.toList
    parts := ((Pieces.cut '/' text.toList).map String.ofList).filter fun part =>
      part != "" && part != "." }

/-- The text of a path; the empty relative path is written as `.`. -/
def text (p : Path) : String :=
  let body := "/".intercalate p.parts
  if p.slashes = 0 then (if p.parts.isEmpty then "." else body)
  else String.ofList (List.replicate p.slashes '/') ++ body

/-- Whether a path starts at the root. -/
def isAbsolute (p : Path) : Bool := p.slashes != 0

/-- The path without its last part; a path without parts is its own parent. -/
def parent (p : Path) : Path := { p with parts := p.parts.dropLast }

/-- A second path read from where the first one leads; an absolute one stands on its own. -/
def append (p q : Path) : Path :=
  if q.isAbsolute then q else { p with parts := p.parts ++ q.parts }

/-- Take one part more, onto the parts taken so far, last first.  The part `..` cancels the part
before it; at the root it is dropped, and at the start of a relative path it is kept. -/
def climb (absolute : Bool) (taken : List String) (part : String) : List String :=
  if part != ".." then part :: taken
  else match taken with
    | [] => if absolute then [] else [".."]
    | last :: rest => if last == ".." then ".." :: taken else rest

/-- The path without steps to a parent, except leading ones of a relative path. -/
def normalize (p : Path) : Path :=
  { p with parts := (p.parts.foldl (climb p.isAbsolute) []).reverse }

/-- The last part; empty for a path without parts. -/
def name (p : Path) : String := p.parts.getLast?.getD ""

/-- The extension of the last part with its point.  A point at either end of the part does not
start an extension. -/
def extension (p : Path) : String :=
  match Pieces.splitLast '.' p.name.toList with
  | (some before, after) =>
    if before.isEmpty ∨ after.isEmpty then "" else String.ofList ('.' :: after)
  | (none, _) => ""

end Path

end SchemaGraph
