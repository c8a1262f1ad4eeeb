import SchemaGraph.Location.Path
import SchemaGraph.Location.Url

/-!
# Locations of documents

A document is found at a file path or at a URL.  A location that starts with a scheme and two
slashes is a URL; every other one is a path.  A location written in a document is read relative to
the location of that document.
-/

namespace SchemaGraph

namespace Location

/-- Whether a location is a URL. -/
def isUrl (location : String) : Bool := (Url.schemeSlashes? location.toList).isSome

/-- A location as seen from the document at `base`.  The empty location means that document. -/
def join (base location : String) : Except Fault String :=
  if location = "" then .ok base
  else if isUrl location then .ok location
  else if isUrl base then Url.join base location
  else
    let path := Path.read location
    if path.isAbsolute ∨ base = "" then .ok path.normalize.text
    else .ok ((Path.read base).parent.append path).normalize.text

/-- A reference as seen from outside the document at `base`: its location is joined to `base`, and
what follows the first hash sign is kept. -/
def rebase (base reference : String) : Except Fault String :=
  if base = "" then .ok reference
  else
    match Pieces.splitFirst '#' reference.toList with
    | (location, none) => join base (String.ofList location)
    | (location, some fragment) => do
      return (← join base (String.ofList location)) ++ String.ofList ('#' :: fragment)

end Location

end SchemaGraph
