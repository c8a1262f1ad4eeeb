import SchemaGraph.Value
import SchemaGraph.Text.Digit
import SchemaGraph.Text.Pieces

/-!
# References and pointers

A reference names a schema: a location, a hash sign, the registry and then a pointer into it.  The
segments of a pointer are separated by slashes; inside a segment `~1` stands for a slash and `~0`
for a tilde.  A pointer is followed one segment at a time, through the keys of mappings and the
positions of lists.
-/

namespace SchemaGraph

namespace Pointer

/-- Undo the escapes of a segment. -/
def unescape : List Char → List Char
  | '~' :: '1' :: rest => '/' :: unescape rest
  | '~' :: '0' :: rest => '~' :: unescape rest
  | c :: rest => c :: unescape rest
  | [] => []

/-- Write a segment so that it holds no slash, and every tilde opens an escape. -/
def escape : List Char → List Char
  | [] => []
  | '~' :: rest => '~' :: '0' :: escape rest
  | '/' :: rest => '~' :: '1' :: escape rest
  | c :: rest => c :: escape rest

theorem unescape_cons {c : Char} (h : c ≠ '~') (rest : List Char) :
    unescape (c :: rest) = c :: unescape rest := by
  rw [unescape]
  · intro _ heq
    exact absurd heq h
  · intro _ heq
    exact absurd heq h

theorem escape_cons {c : Char} (htilde : c ≠ '~') (hslash : c ≠ '/') (rest : List Char) :
    escape (c :: rest) = c :: escape rest := by
  rw [escape]
  · exact htilde
  · exact hslash

/-- A segment that was escaped reads back as itself. -/
theorem unescape_escape (segment : List Char) : unescape (escape segment) = segment := by
  induction segment with
  | nil => rfl
  | cons c rest ih =>
    by_cases htilde : c = '~'
    · subst htilde
      simp [escape, unescape, ih]
    · by_cases hslash : c = '/'
      · subst hslash
        simp [escape, unescape, ih]
      · rw [escape_cons htilde hslash, unescape_cons htilde, ih]

/-- Whether a segment is written in digits, so that it may be a position. -/
def isPosition (segment : List Char) : Bool := !segment.isEmpty && segment.all Digit.isDigitLike

/-- A position is written with at most this many digits. -/
def digitLimit : Nat := 4300

/-- The position that a segment of digits stands for.  A character that only looks like a digit
stands for none. -/
def position (segment : List Char) : Except Fault Nat :=
  if digitLimit < segment.length then .error .invalidValue
  else match Digit.number? segment with
    | some n => .ok n
    | none => .error .invalidValue

/-- Follow one segment. -/
def step (current : Value) (segment : String) : Except Fault Value :=
  match current with
  | .map entries =>
    match Table.at? entries segment with
    | some v => .ok v
    | none => .error (.deadSegment segment)
  | .list items =>
    if isPosition segment.toList then do
      match items[← position segment.toList]? with
      | some v => return v
      | none => throw (.deadSegment segment)
    else .error (.deadSegment segment)
  | _ => .error (.deadSegment segment)

/-- Follow a pointer from a value to the value inside it. -/
def walk (container : Value) (segments : List String) : Except Fault Value :=
  segments.foldlM step container

end Pointer

/-- A reference to a schema of a registry: the location of the document, empty for the document at
hand, and the pointer into its registry. -/
structure Reference where
  location : String
  segments : List String
  deriving DecidableEq, Repr, Inhabited

namespace Reference

/-- How every pointer into a registry starts. -/
def registryPointer : String := "/components/schemas/"

/-- How every reference into the registry of the document at hand starts. -/
def localRegistry : String := "#/components/schemas/"

/-- The pointer segments written in the fragment of a reference. -/
def segments? (fragment : List Char) : Option (List String) :=
  match Pieces.after? registryPointer.toList fragment with
  | none => none
  | some rest =>
    let segments := (Pieces.cut '/' rest).map Pointer.unescape
    if segments.any (·.isEmpty) then none else some (segments.map String.ofList)

/-- Read a reference; every segment of its pointer must have a character. -/
def read? (text : String) : Option Reference :=
  match Pieces.splitFirst '#' text.toList with
  | (_, none) => none
  | (location, some fragment) =>
    (segments? fragment).map fun segments => ⟨String.ofList location, segments⟩

/-- Read a reference from a value, which must be a text. -/
def ofValue? : Value → Option Reference
  | .str text => read? text
  | _ => none

/-- The fragment of a reference text: what stands after its first hash sign. -/
def fragment (text : String) : String :=
  match Pieces.splitFirst '#' text.toList with
  | (_, some fragment) => String.ofList fragment
  | (_, none) => ""

/-- The last slash-separated part of a reference text, by which its schema is called. -/
def schemaName (text : String) : String :=
  String.ofList ((Pieces.cut '/' text.toList).getLast?.getD [])

end Reference

end SchemaGraph
