/-!
# Tokens of YAML

The marks, tags, anchors and scalars of a YAML text in their order, with the starts and ends of
blocks made explicit.
-/

namespace SchemaGraph.Yaml

/-- A token. -/
inductive Token where
  | streamEnd
  /-- A directive that sets the version of the language. -/
  | version (major minor : Nat)
  /-- A directive that gives a shorthand for tags. -/
  | shorthand (handle expansion : String)
  /-- A directive with another name; it has no effect. -/
  | otherDirective
  | documentStart
  | documentEnd
  | blockSequenceStart
  | blockMappingStart
  | blockEnd
  | flowSequenceStart
  | flowSequenceEnd
  | flowMappingStart
  | flowMappingEnd
  | key
  | value
  | blockEntry
  | flowEntry
  | alias (name : String)
  | anchor (name : String)
  /-- A tag: a shorthand handle, if it has one, and the rest. -/
  | tag (handle : Option String) (suffix : String)
  /-- A scalar; it is plain when it stands without quotes and not as a block. -/
  | scalar (text : String) (plain : Bool)
  deriving DecidableEq, Repr, Inhabited

end SchemaGraph.Yaml
