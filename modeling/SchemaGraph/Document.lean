import SchemaGraph.Failure

/-!
# Documents

A document is a value that was read from a file or handed over, together with the place where it was
found and a number of its own.  Its registry holds the schemas that references name.
-/

namespace SchemaGraph

/-- A document. -/
structure Document where
  raw : Value
  /-- The path or URL at which it was found; empty if it was handed over. -/
  source : String
  id : Nat
  deriving Inhabited

namespace Document

/-- A mapping at a text key of a mapping; anything else counts as empty. -/
def tableAt (entries : Table Value) (key : String) : Table Value :=
  match entries.at? key with
  | some (.map inner) => inner
  | _ => []

/-- The schemas of the document under their names; empty if it declares none. -/
def registry (d : Document) : Except Fault (Table Value) :=
  match d.raw with
  | .map entries => .ok (tableAt (tableAt entries "components") "schemas")
  | _ => .error .missingMember

/-- The version of the specification that the document follows; empty if it gives none. -/
def version (d : Document) : Except Fault String :=
  match d.raw with
  | .map entries => .ok ((Table.at? entries "openapi").getD (.str "")).display
  | _ => .error .missingMember

end Document

end SchemaGraph
