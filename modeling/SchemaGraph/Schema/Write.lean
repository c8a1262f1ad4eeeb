import SchemaGraph.Schema.Node

/-!
# Writing schemas

A schema is written back as a value.  Fields that are absent are left out.  The variants of a
resolved composition are written as lists of names and schemas beside the merged properties.
-/

namespace SchemaGraph

/-- The keywords of the bounds on a primitive. -/
def Constraints.keywords : List String :=
  ["minLength", "maxLength", "pattern", "minimum", "maximum", "exclusiveMinimum",
    "exclusiveMaximum", "multipleOf"]

namespace Discriminator

/-- A discriminator as a value; an empty mapping is left out. -/
def write (d : Discriminator) : Value :=
  let name : List (String × Value) := [("propertyName", d.propertyName)]
  Value.record (if d.mapping.isEmpty then name else name ++ [("mapping", .map d.mapping)])

end Discriminator

namespace Node

/-- A field that is written only if a condition holds. -/
def fieldIf (condition : Bool) (key : String) (v : Value) : List (Value × Value) :=
  if condition then [(.str key, v)] else []

/-- A field that is left out when it is null. -/
def fieldUnlessNull (key : String) (v : Value) : List (Value × Value) :=
  fieldIf (!v.isNull) key v

/-- The discriminator of an object or a composition, if it has one. -/
def discriminatorField : Option Discriminator → List (Value × Value)
  | none => []
  | some d => [(.str "discriminator", d.write)]

/-- Title, description and metadata, written over the fields of a schema. -/
def annotate (info : NodeInfo) (fields : List (Value × Value)) : Value :=
  let titled := fields ++ fieldIf info.title.truthy "title" info.title ++
    fieldIf info.description.truthy "description" info.description
  .map (info.metadata.foldl (fun (table : Table Value) entry => table.put entry.1 entry.2) titled)

/-- The fields of a primitive. -/
def writePrimitive (shape : PrimitiveShape) : List (Value × Value) :=
  fieldIf shape.typeName.truthy "type" shape.typeName ++
  fieldIf shape.format.truthy "format" shape.format ++
  (match shape.choices with
    | none => []
    | some choices => [(.str "enum", .list choices)]) ++
  fieldIf shape.nullable "nullable" (.bool true) ++
  (shape.constraints.fields Constraints.keywords).map fun field => (.str field.1, field.2)

mutual

/-- A schema as a value. -/
def write : Node → Value
  | .bare info => annotate info []
  | .ref info target => annotate info [(.str "$ref", target)]
  | .primitive info shape => annotate info (writePrimitive shape)
  | .array info shape => annotate info (writeArray shape)
  | .object info shape => annotate info (writeObject shape)
  | .composition info shape => annotate info (writeComposition shape)

/-- The fields of an array. -/
def writeArray : ArrayShape Node → List (Value × Value)
  | ⟨items, minItems, maxItems, uniqueItems, nullable⟩ =>
    [(.str "type", .str "array")] ++
    writeItems items ++
    fieldUnlessNull "minItems" minItems ++
    fieldUnlessNull "maxItems" maxItems ++
    fieldIf uniqueItems "uniqueItems" (.bool true) ++
    fieldIf nullable "nullable" (.bool true)

/-- The fields of an object. -/
def writeObject : ObjectShape Node → List (Value × Value)
  | ⟨properties, required, additional, nullable, discriminator, oneOf, anyOf⟩ =>
    [(.str "type", .str "object")] ++
    fieldIf (!properties.isEmpty) "properties" (.map (writeNamed properties)) ++
    fieldIf (!required.isEmpty) "required" (.list required) ++
    writeAdditional additional ++
    fieldIf nullable "nullable" (.bool true) ++
    discriminatorField discriminator ++
    fieldIf (!oneOf.isEmpty) "oneOfVariants" (.list (writeVariants oneOf)) ++
    fieldIf (!anyOf.isEmpty) "anyOfVariants" (.list (writeVariants anyOf))

/-- The fields of a composition.  Members that are no list are written as they were. -/
def writeComposition : CompositionShape Node → List (Value × Value)
  | ⟨kind, rawMembers, members, discriminator, properties, required⟩ =>
    let written := match rawMembers with
      | .list _ => Value.list (writeEach members)
      | other => other
    [(.str kind.keyword, written)] ++
    discriminatorField discriminator ++
    fieldIf (!properties.isEmpty) "properties" (.map (writeNamed properties)) ++
    fieldIf (!required.isEmpty) "required" (.list required)

/-- The schema of the items of an array, if it has one. -/
def writeItems : Option Node → List (Value × Value)
  | none => []
  | some item => [(.str "items", write item)]

/-- What an object says of other properties. -/
def writeAdditional : Additional Node → List (Value × Value)
  | .schema node => [(.str "additionalProperties", write node)]
  | .value v => fieldUnlessNull "additionalProperties" v

/-- The schemas of named properties as values. -/
def writeNamed : List (Value × Node) → List (Value × Value)
  | [] => []
  | (name, node) :: rest => (name, write node) :: writeNamed rest

/-- A list of schemas as values. -/
def writeEach : List Node → List Value
  | [] => []
  | node :: rest => write node :: writeEach rest

/-- Variants as values. -/
def writeVariants : List (Variant Node) → List Value
  | [] => []
  | ⟨name, schema⟩ :: rest =>
    Value.record [("name", name), ("schema", write schema)] :: writeVariants rest

end

end Node

end SchemaGraph
