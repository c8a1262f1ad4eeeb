import SchemaGraph.Failure
import SchemaGraph.Pointer

/-!
# Resolved compositions

A composition whose members are resolved becomes an object.  An `allOf` merges the properties and
required names of its members in order: the last declaration of a property counts, and two
declarations with different types are a conflict.  A `oneOf` keeps its members as variants that a
property tells apart, an `anyOf` keeps them as variants beside the properties of all of them.

The object has no place of its own, since equal compositions at different places share it.
-/

namespace SchemaGraph

/-- An object with its annotations. -/
structure Merged where
  info : NodeInfo
  shape : ObjectShape Node

namespace Merged

/-- What a composition itself declares. -/
def start (info : NodeInfo) (shape : CompositionShape Node) : Merged :=
  { info := { info with path := "" }
    shape :=
      { properties := shape.properties
        required := shape.required
        additional := .value .null
        nullable := false
        discriminator := shape.discriminator
        oneOfVariants := []
        anyOfVariants := [] } }

/-- The object as a schema. -/
def node (m : Merged) : Node := .object m.info m.shape

/-- Whether two declarations of a property have different types; a declaration without a type agrees
with all. -/
def conflict (existing declared : Node) : Bool :=
  !existing.declaredType.isNull && !declared.declaredType.isNull &&
    !existing.declaredType.same declared.declaredType

/-- Declare properties over those that are there. -/
def declare (properties : Table Node) : List (Value × Node) → Except Failure (Table Node)
  | [] => .ok properties
  | (name, declared) :: rest =>
    match properties.get? name with
    | some existing =>
      if conflict existing declared then .error (.conflictingTypes name)
      else declare (properties.put name declared) rest
    | none => declare (properties.put name declared) rest

/-- What an object says of other properties, if the merged object does not say it yet. -/
def firstAdditional (merged new : Additional Node) : Additional Node :=
  match merged with
  | .value .null => new
  | given => given

/-- Merge a resolved member of an `allOf`.  Only objects have more to give than annotations. -/
def absorb (m : Merged) (member : Node) : Except Failure Merged := do
  let info :=
    { m.info with
      title := m.info.title.orElse member.info.title
      description := m.info.description.orElse member.info.description }
  match member with
  | .object _ shape =>
    let properties ← declare m.shape.properties shape.properties
    return {
      info := info
      shape :=
        { m.shape with
          properties := properties
          required := Value.extendUnique m.shape.required shape.required
          additional := firstAdditional m.shape.additional shape.additional
          discriminator := m.shape.discriminator <|> shape.discriminator
          nullable := m.shape.nullable || shape.nullable } }
  | _ => return { m with info := info }

end Merged

namespace Node

/-- The name of a member that is a reference, or else its title, or else its number. -/
def variantName (kind : CompositionKind) (member resolved : Node) (number : Nat) : Value :=
  match member with
  | .ref _ (.str target) => .str (Reference.schemaName target)
  | _ =>
    let title := member.info.title.orElse resolved.info.title
    let label := match kind with
      | .anyOf => "Option"
      | _ => "Variant"
    title.orElse (.str s!"{label}{number}")

/-- The property that tells the variants of a `oneOf` apart, where it is not declared. -/
def tagProperty (path : String) (name : Value) : Node :=
  .primitive
    { path := s!"{path}/properties/{name.display}"
      metadata := []
      title := .null
      description := .null }
    { typeName := .str "string"
      format := .null
      choices := none
      nullable := false
      constraints := .none }

/-- A `oneOf` with resolved variants: the property that tells them apart is declared and required. -/
def resolvedOneOf (info : NodeInfo) (shape : CompositionShape Node) (d : Discriminator)
    (variants : List (Variant Node)) : Except Fault Node :=
  let name := d.propertyName
  if !name.hashable then .error .typeMismatch
  else
    let m := Merged.start info shape
    .ok (.object m.info
      { m.shape with
        properties := Table.putNew m.shape.properties name (tagProperty info.path name)
        required := Value.extendUnique m.shape.required [name]
        oneOfVariants := variants })

/-- Add the properties and required names of a variant that is an object. -/
def offer (shape : ObjectShape Node) (variant : Variant Node) : ObjectShape Node :=
  match variant.schema with
  | .object _ given =>
    { shape with
      properties := given.properties.foldl
        (fun (table : Table Node) entry => table.putNew entry.1 entry.2) shape.properties
      required := Value.extendUnique shape.required given.required }
  | _ => shape

/-- An `anyOf` with resolved variants: the first declaration of a property counts. -/
def resolvedAnyOf (info : NodeInfo) (shape : CompositionShape Node)
    (variants : List (Variant Node)) : Node :=
  let m := Merged.start info shape
  .object m.info (variants.foldl offer { m.shape with anyOfVariants := variants })

/-- Check that a composition has members, before anything else is asked of it. -/
def memberDefect? : Value → Option MemberDefect
  | .null => some .null
  | .list [] => some .empty
  | .list _ => none
  | _ => some .notList

end Node

end SchemaGraph
