import SchemaGraph.Failure
import SchemaGraph.Json.Reader
import SchemaGraph.Yaml

/-!
# The content of a document

A document is a text in JSON or YAML.  A text that is not in its notation is reported as such; other
faults of a text, such as a number out of range, are reported as they are.
-/

namespace SchemaGraph

namespace Document

/-- Read a text in the given notation; the source is named when the text is not in it. -/
def parseContent (form : Notation) (source text : String) : Except Failure Value :=
  let parsed := match form with
    | .json => Json.parse text
    | .yaml => Yaml.parse text
  match parsed with
  | .ok v => .ok v
  | .error .malformedJson => .error (.unparsable form source .malformedJson)
  | .error .malformedYaml => .error (.unparsable form source .malformedYaml)
  | .error fault => .error (.fault fault)

/-- A text with every line end written as a line feed. -/
def unifyLines : List Char → List Char
  | '\r' :: '\n' :: rest => '\n' :: unifyLines rest
  | '\r' :: rest => '\n' :: unifyLines rest
  | c :: rest => c :: unifyLines rest
  | [] => []

/-- The text that octets encode. -/
def decode (octets : List UInt8) : Except Fault String :=
  match String.fromUTF8? ⟨octets.toArray⟩ with
  | some text => .ok (String.ofList (unifyLines text.toList))
  | none => .error .undecodableText

end Document

end SchemaGraph
