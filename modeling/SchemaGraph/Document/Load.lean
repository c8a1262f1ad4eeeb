import SchemaGraph.Document.Validate
import SchemaGraph.Session

/-!
# Loading documents

A document is loaded from a file with the extension of its notation, and must be valid.  It gets its
number when all else has succeeded.
-/

namespace SchemaGraph

open Resolving

namespace Document

/-- The notation for a file extension. -/
def notation? (extension : String) : Option Notation :=
  match extension with
  | ".json" => some .json
  | ".yaml" | ".yml" => some .yaml
  | _ => none

/-- A new document. -/
def create (raw : Value) (source : String) : Resolving Document := do
  let id := (← get).nextId
  modify fun s => { s with nextId := id + 1 }
  return ⟨raw, source, id⟩

/-- Load the document at a path. -/
def load (path : String) : Resolving Document := do
  let world ← read
  if path.toList.contains (Char.ofNat 0) then fault .invalidValue
  let place := world.resolve (Path.read path)
  if !world.isFile place then throw (.fileNotFound place.text)
  let extension := Case.lower place.extension
  match notation? extension with
  | none => throw (.unsupportedFormat extension)
  | some form =>
    emit (.opened place.text)
    let text ← check (world.read place)
    let raw ← lift (parseContent form place.text text)
    match validate raw with
    | .error violation => throw (.invalidDocument violation)
    | .ok oddPaths =>
      oddPaths.forM fun path => warn (.oddPath path)
      create raw place.text

end Document

end SchemaGraph
