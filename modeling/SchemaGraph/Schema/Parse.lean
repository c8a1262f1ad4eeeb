import SchemaGraph.Failure
import SchemaGraph.Location

/-!
# Reading schemas

A schema is read from a value without following any reference.  When the schema comes from another
document, every reference and every discriminator target is rebased to the location of that
document, so that it stays valid outside of it.

Reading goes down into the value one level at a time; the number of levels is an argument, and
`Node.parse` supplies the depth of the value, which is enough.
-/

namespace SchemaGraph

namespace Value

mutual

/-- The number of levels of a value. -/
def depth : Value → Nat
  | .list items => 1 + itemsDepth items
  | .map entries => 1 + entriesDepth entries
  | .set members => 1 + itemsDepth members
  | _ => 1

/-- The number of levels of the deepest item. -/
def itemsDepth : List Value → Nat
  | [] => 0
  | item :: rest => max (depth item) (itemsDepth rest)

/-- The number of levels of the deepest value of a mapping. -/
def entriesDepth : List (Value × Value) → Nat
  | [] => 0
  | (_, item) :: rest => max (depth item) (entriesDepth rest)

end

end Value

namespace Node

/-- Annotations that are kept beside the extensions. -/
def annotationKeys : List String := ["default", "example", "readOnly", "writeOnly", "deprecated"]

/-- Whether the entry at a key is an extension or an annotation. -/
def isMetadataKey (key : String) : Bool :=
  (Pieces.after? ['x', '-'] key.toList).isSome || annotationKeys.contains key

/-- The extensions and annotations of a schema, whose keys must all be texts. -/
def metadata : List (Value × Value) → Except Failure (Table Value)
  | [] => .ok []
  | (.str key, item) :: rest => do
    let others ← metadata rest
    return if isMetadataKey key then (.str key, item) :: others else others
  | (.bytes _, _) :: _ => .error (.fault .typeMismatch)
  | _ :: _ => .error (.fault .missingMember)

/-- A field, or null if it is absent. -/
def field (entries : Table Value) (key : String) : Value := (entries.at? key).getD .null

/-- A reference as seen from outside of the document at `base`; a value that is no text stays as it
is. -/
def rebaseValue (base : String) : Value → Except Failure Value
  | .str reference => do return .str (← orFail (Location.rebase base reference))
  | v => .ok v

/-- The targets of a discriminator as seen from outside of the document at `base`. -/
def rebaseTargets (base : String) : List (Value × Value) → Except Failure (Table Value)
  | [] => .ok []
  | (name, target) :: rest => do
    let target ← rebaseValue base target
    return (name, target) :: (← rebaseTargets base rest)

/-- The discriminator of a schema, if it names a property. -/
def discriminator (base : String) (entries : Table Value) :
    Except Failure (Option Discriminator) :=
  match field entries "discriminator" with
  | .map fields =>
    let propertyName := field fields "propertyName"
    if ! propertyName.truthy then .ok none
    else
      let mapping := field fields "mapping"
      if ! mapping.truthy then .ok (some ⟨propertyName, []⟩)
      else match mapping with
        | .map targets => do return some ⟨propertyName, ← rebaseTargets base targets⟩
        | _ => .error (.fault .missingMember)
  | _ => .ok none

/-- The names of required properties. -/
def requiredNames (entries : Table Value) : Except Failure (List Value) :=
  let names := field entries "required"
  if names.truthy then orFail names.iterate else .ok []

/-- The item at position zero. -/
def firstItem : Value → Except Fault Value
  | .list (item :: _) => .ok item
  | .str s =>
    match s.toList with
    | c :: _ => .ok (.str (String.singleton c))
    | [] => .error .missingIndex
  | .bytes (b :: _) => .ok (.int b.toNat)
  | .list [] | .bytes [] => .error .missingIndex
  | .map entries =>
    match Table.get? entries (.int 0) with
    | some v => .ok v
    | none => .error .missingKey
  | _ => .error .typeMismatch

/-- The type of a primitive, told from one of its choices. -/
def typeOfChoice : Value → String
  | .bool _ => "boolean"
  | .int _ => "integer"
  | .double _ => "number"
  | .str _ => "string"
  | _ => ""

/-- The bounds that a schema of the given type may carry. -/
def constraints (typeName : Value) (entries : Table Value) : Constraints :=
  if typeName.isText "string" then
    { Constraints.none with
      minLength := field entries "minLength"
      maxLength := field entries "maxLength"
      pattern := field entries "pattern" }
  else if typeName.isText "integer" || typeName.isText "number" then
    { Constraints.none with
      minimum := field entries "minimum"
      maximum := field entries "maximum"
      exclusiveMinimum := field entries "exclusiveMinimum"
      exclusiveMaximum := field entries "exclusiveMaximum"
      multipleOf := field entries "multipleOf" }
  else Constraints.none

/-- The declared type of a primitive, or else that of its first choice. -/
def primitiveType (typeName choices : Value) : Except Failure Value :=
  if !typeName.truthy && choices.truthy then do
    return .str (typeOfChoice (← orFail (firstItem choices)))
  else .ok typeName

/-- The choices of a primitive, if they are given. -/
def listChoices : Value → Except Failure (Option (List Value))
  | .null => .ok none
  | choices => do return some (← orFail choices.iterate)

/-- Read a primitive. -/
def parsePrimitive (info : NodeInfo) (typeName : Value) (nullable : Bool) (entries : Table Value) :
    Except Failure Node := do
  let typeName ← primitiveType typeName (field entries "enum")
  let choices ← listChoices (field entries "enum")
  return .primitive info
    { typeName := typeName.orElse (.str "")
      format := field entries "format"
      choices := choices
      nullable := nullable
      constraints := constraints typeName entries }

/-- The declared type and whether null is allowed.  A list of types stands for its first type other
than `null`, and allows null if it names it. -/
def declaredTypeOf (entries : Table Value) : Value × Bool :=
  let nullable := (field entries "nullable").truthy
  match field entries "type" with
  | .list types =>
    let isNullName (t : Value) : Bool := t.isText "null"
    (((types.filter (! isNullName ·)).head?).getD .null, nullable || types.any isNullName)
  | v => (v, nullable)

/-- Read the schemas at the positions of a list. -/
def parseEach (read : Value → String → Except Failure Node) (path : String) :
    Nat → List Value → Except Failure (List Node)
  | _, [] => .ok []
  | index, item :: rest => do
    let node ← read item s!"{path}/{index}"
    return node :: (← parseEach read path (index + 1) rest)

/-- Read the schemas of named properties. -/
def parseNamed (read : Value → String → Except Failure Node) (path : String) :
    List (Value × Value) → Except Failure (Table Node)
  | [] => .ok []
  | (name, item) :: rest => do
    let node ← read item s!"{path}/properties/{name.display}"
    return (name, node) :: (← parseNamed read path rest)

/-- Read the properties of a schema, which must be a mapping if they are given. -/
def parseProperties (read : Value → String → Except Failure Node) (path : String)
    (entries : Table Value) : Except Failure (Table Node) :=
  let properties := field entries "properties"
  if ! properties.truthy then .ok []
  else match properties with
    | .map named => parseNamed read path named
    | _ => .error (.propertiesNotObject path)

/-- Read the members of a composition; members that are no list are none. -/
def parseMembers (read : Value → String → Except Failure Node) (path : String) :
    Value → Except Failure (List Node)
  | .list items => parseEach read path 0 items
  | _ => .ok []

/-- Read a composition.  Members that are no list are kept as written. -/
def parseComposition (read : Value → String → Except Failure Node) (base path : String)
    (info : NodeInfo) (kind : CompositionKind) (entries : Table Value) : Except Failure Node := do
  let raw := field entries kind.keyword
  let members ← parseMembers read s!"{path}/{kind.keyword}" raw
  let discriminator ← discriminator base entries
  let properties ← parseProperties read path entries
  let required ← requiredNames entries
  return .composition info ⟨kind, raw, members, discriminator, properties, required⟩

/-- Read the schema of the items of an array, if it is given. -/
def parseItems (read : Value → String → Except Failure Node) (path : String) :
    Value → Except Failure (Option Node)
  | .null => .ok none
  | item => do return some (← read item s!"{path}/items")

/-- Read an array. -/
def parseArray (read : Value → String → Except Failure Node) (path : String) (info : NodeInfo)
    (nullable : Bool) (entries : Table Value) : Except Failure Node := do
  let items ← parseItems read path (field entries "items")
  return .array info
    { items := items
      minItems := field entries "minItems"
      maxItems := field entries "maxItems"
      uniqueItems := (field entries "uniqueItems").truthy
      nullable := nullable }

/-- Read what an object says of other properties. -/
def parseAdditional (read : Value → String → Except Failure Node) (path : String) :
    Value → Except Failure (Additional Node)
  | .map fields => do return .schema (← read (.map fields) s!"{path}/additionalProperties")
  | v => .ok (.value v)

/-- Read an object. -/
def parseObject (read : Value → String → Except Failure Node) (base path : String)
    (info : NodeInfo) (nullable : Bool) (entries : Table Value) : Except Failure Node := do
  let additional ← parseAdditional read path (field entries "additionalProperties")
  let properties ← parseProperties read path entries
  let required ← requiredNames entries
  let discriminator ← discriminator base entries
  return .object info
    { properties := properties
      required := required
      additional := additional
      nullable := nullable
      discriminator := discriminator
      oneOfVariants := []
      anyOfVariants := [] }

/-- Read a schema from the entries of a mapping. -/
def parseEntries (read : Value → String → Except Failure Node) (base path : String)
    (entries : Table Value) : Except Failure Node := do
  let info : NodeInfo :=
    { path := path
      metadata := ← metadata entries
      title := field entries "title"
      description := field entries "description" }
  match entries.at? "$ref" with
  | some target => return .ref info (← rebaseValue base target)
  | none =>
    match CompositionKind.all.find? fun kind => entries.has kind.keyword with
    | some kind => parseComposition read base path info kind entries
    | none =>
      let (typeName, nullable) := declaredTypeOf entries
      if typeName.isText "array" then parseArray read path info nullable entries
      else if typeName.isText "object" || entries.has "properties" ||
          entries.has "additionalProperties" then
        parseObject read base path info nullable entries
      else parsePrimitive info typeName nullable entries

/-- Read a schema that goes down at most the given number of levels. -/
def parseWithin (base : String) : Nat → Value → String → Except Failure Node
  | 0, _, _ => .error (.fault .budgetExhausted)
  | levels + 1, v, path =>
    match v with
    | .map entries => parseEntries (parseWithin base levels) base path entries
    | _ => .error (.schemaNotObject path v.kindName)

/-- Read the schema that stands at `path` in the document at `base`; an empty base stands for the
document at hand. -/
def parse (base : String) (v : Value) (path : String) : Except Failure Node :=
  parseWithin base v.depth v path

end Node

end SchemaGraph
