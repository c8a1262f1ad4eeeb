import SchemaGraph.Value.Display

/-!
# Schemas

A schema is one of a few kinds: a reference to another schema, a primitive, an array, an object or a
composition of other schemas.  Resolving never changes a schema, it builds a new one: a resolved
composition is an object, which carries the named variants of a `oneOf` or an `anyOf`.

Fields that are only handed on hold the values as they were written; null stands for a field that is
absent.
-/

namespace SchemaGraph

/-- The keyword of a composition. -/
inductive CompositionKind where
  | allOf
  | oneOf
  | anyOf
  deriving DecidableEq, Repr, Inhabited

namespace CompositionKind

/-- The keyword as it is written. -/
def keyword : CompositionKind → String
  | .allOf => "allOf"
  | .oneOf => "oneOf"
  | .anyOf => "anyOf"

/-- The keywords in the order in which a schema is searched for them. -/
def all : List CompositionKind := [.allOf, .oneOf, .anyOf]

end CompositionKind

/-- What every schema carries. -/
structure NodeInfo where
  /-- Where the schema stands in its document. -/
  path : String
  /-- Extensions and annotations. -/
  metadata : Table Value
  title : Value
  description : Value
  deriving Inhabited

/-- The property that tells the variants of a composition apart. -/
structure Discriminator where
  propertyName : Value
  mapping : Table Value
  deriving Inhabited

/-- Bounds on the values of a primitive. -/
structure Constraints where
  minLength : Value
  maxLength : Value
  pattern : Value
  minimum : Value
  maximum : Value
  exclusiveMinimum : Value
  exclusiveMaximum : Value
  multipleOf : Value
  deriving Inhabited

namespace Constraints

/-- No bounds. -/
def none : Constraints := ⟨.null, .null, .null, .null, .null, .null, .null, .null⟩

/-- The bounds that are given, each under its name. -/
def fields (names : List String) (c : Constraints) : List (String × Value) :=
  (names.zip [c.minLength, c.maxLength, c.pattern, c.minimum, c.maximum, c.exclusiveMinimum,
    c.exclusiveMaximum, c.multipleOf]).filter fun field => !field.2.isNull

end Constraints

/-- What an object says of properties that it does not name: a schema for them, or a value as it was
written. -/
inductive Additional (ν : Type) where
  | value (v : Value)
  | schema (node : ν)
  deriving Inhabited

/-- A variant of a resolved composition. -/
structure Variant (ν : Type) where
  name : Value
  schema : ν

/-- The parts of an object. -/
structure ObjectShape (ν : Type) where
  properties : List (Value × ν)
  required : List Value
  additional : Additional ν
  nullable : Bool
  discriminator : Option Discriminator
  oneOfVariants : List (Variant ν)
  anyOfVariants : List (Variant ν)

/-- The parts of an array. -/
structure ArrayShape (ν : Type) where
  items : Option ν
  minItems : Value
  maxItems : Value
  uniqueItems : Bool
  nullable : Bool

/-- The parts of a composition.  The members are kept as they were written beside the schemas that
they are, so that a composition that is no list can be reported when it is resolved. -/
structure CompositionShape (ν : Type) where
  kind : CompositionKind
  rawMembers : Value
  members : List ν
  discriminator : Option Discriminator
  properties : List (Value × ν)
  required : List Value

/-- The parts of a primitive. -/
structure PrimitiveShape where
  /-- Empty when the schema declares no type. -/
  typeName : Value
  format : Value
  choices : Option (List Value)
  nullable : Bool
  constraints : Constraints
  deriving Inhabited

/-- A schema. -/
inductive Node where
  /-- A schema of which only the annotations are known. -/
  | bare (info : NodeInfo)
  /-- A reference that has not been followed. -/
  | ref (info : NodeInfo) (target : Value)
  /-- A text, a number, a truth value, or a schema without a type. -/
  | primitive (info : NodeInfo) (shape : PrimitiveShape)
  | array (info : NodeInfo) (shape : ArrayShape Node)
  | object (info : NodeInfo) (shape : ObjectShape Node)
  /-- A composition that has not been resolved. -/
  | composition (info : NodeInfo) (shape : CompositionShape Node)
  deriving Inhabited

namespace Node

/-- What a schema carries whatever its kind. -/
def info : Node → NodeInfo
  | .bare i | .ref i _ | .primitive i _ | .array i _ | .object i _ | .composition i _ => i

/-- The name of the type by which conflicts are detected; null when a schema declares none. -/
def declaredType : Node → Value
  | .primitive _ shape => shape.typeName.orElse .null
  | .array _ _ => .str "array"
  | .object _ _ => .str "object"
  | .bare _ | .ref _ _ | .composition _ _ => .null

/-- Whether a schema is a reference. -/
def isRef : Node → Bool
  | .ref _ _ => true
  | _ => false

end Node

end SchemaGraph
