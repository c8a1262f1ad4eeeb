import SchemaGraph.Digest.Sha256
import SchemaGraph.Json.Canonical
import SchemaGraph.Schema.Write

/-!
# Signatures of compositions

Two compositions that differ only in the order of the keys in their mappings resolve alike.  They
have one canonical text, which identifies them; the digest of that text is their signature.
-/

namespace SchemaGraph.Node

/-- The text that identifies a schema up to the order of keys. -/
def canonicalText (node : Node) : Except Fault String := Json.canonical node.write

/-- The kind of a composition, which other schemas do not have. -/
def compositionKind : Node → Except Fault CompositionKind
  | .composition _ shape => .ok shape.kind
  | _ => .error .missingMember

/-- The kind of a composition and the digest of its canonical text. -/
def signature (node : Node) : Except Fault String := do
  let text ← node.canonicalText
  return s!"{(← node.compositionKind).keyword}:{Sha256.digest text.toUTF8.toList}"

/-- What identifies a composition in a cache: its kind and its canonical text. -/
def identity (node : Node) : Except Fault String := do
  let text ← node.canonicalText
  return s!"{(← node.compositionKind).keyword}:{text}"

end SchemaGraph.Node
