import SchemaGraph.Failure
import SchemaGraph.Text.Digit
import SchemaGraph.Text.Pieces

/-!
# Valid documents

A document must follow version 3.0 of the specification, have a title and a version, and declare its
paths.  The rules are checked in order and the first broken one is reported.  Paths that do not start
with a slash are let through and pointed out.
-/

namespace SchemaGraph

namespace Document

/-- Whether a version is `3.0.` and a number.  One line end behind it is overlooked. -/
def isSupportedVersion (version : String) : Bool :=
  match Pieces.after? ['3', '.', '0', '.'] version.toList with
  | none => false
  | some patch =>
    let digits := if patch.getLast? = some '\n' then patch.dropLast else patch
    !digits.isEmpty && digits.all Digit.isDecimal

/-- Whether a value is given as a text in a supported version. -/
def hasSupportedVersion : Value → Bool
  | .str version => isSupportedVersion version
  | _ => false

/-- The entry of a mapping at a text key, or null. -/
def entry (entries : Table Value) (key : String) : Value := (entries.at? key).getD .null

/-- The first rule that the entries of a document break. -/
def violation? (entries : Table Value) : Option Violation :=
  let version := entry entries "openapi"
  let info := entry entries "info"
  if !version.truthy then some .noOpenapi
  else if !hasSupportedVersion version then some (.unsupportedVersion version)
  else match info with
    | .map fields =>
      if !(entry fields "title").truthy then some .noTitle
      else if !(entry fields "version").truthy then some .noVersion
      else match entry entries "paths" with
        | .null => some .noPaths
        | .map _ => none
        | _ => some .pathsNotObject
    | _ => some .noInfo

/-- The paths of a document that do not start with a slash. -/
def oddPaths (entries : Table Value) : List Value :=
  match entry entries "paths" with
  | .map paths => (Table.keys paths).filter fun path => path.display.toList.head? != some '/'
  | _ => []

/-- Check a document; the paths that do not start with a slash are returned. -/
def validate : Value → Except Violation (List Value)
  | .map entries =>
    match violation? entries with
    | some violation => .error violation
    | none => .ok (oddPaths entries)
  | _ => .error .notObject

end Document

end SchemaGraph
