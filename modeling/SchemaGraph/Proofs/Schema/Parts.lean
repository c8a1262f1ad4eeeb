import SchemaGraph.Proofs.Schema.Written

/-!
# The parts of a written schema

What stands under each name: the type, the title, the target of a reference, the members of a
composition, the properties of an object.
-/

namespace SchemaGraph

namespace Node

open Value

/-- What stands under a name in a written schema. -/
def part? (n : Node) (key : String) : Option Value := Table.at? n.entries key

section Lookup

@[simp] theorem at_fieldIf (condition : Bool) (name key : String) (v : Value) :
    Table.at? (fieldIf condition name v) key =
      if name = key then (if condition then some v else none) else none := by
  unfold fieldIf
  cases condition with
  | true => simp [Table.at_cons_str, Table.at_nil]
  | false => simp [Table.at_nil]

@[simp] theorem at_discriminatorField (d : Option Discriminator) (key : String) :
    Table.at? (discriminatorField d) key =
      if "discriminator" = key then d.map Discriminator.write else none := by
  cases d with
  | none => simp [discriminatorField, Table.at_nil]
  | some d => simp [discriminatorField, Table.at_cons_str, Table.at_nil]

theorem at_none_of_sublist {table : Table Value} {names : List String}
    (h : (table.map (·.1)).Sublist (names.map .str)) {key : String} (hkey : key ∉ names) :
    Table.at? table key = none := by
  rw [Table.at_eq_entry]
  cases hfound : Table.slot? table (.text key) with
  | none => rfl
  | some entry =>
      have hmem := h.subset
        (List.mem_map_of_mem (f := fun e : Value × Value => e.1) (Table.mem_of_entry hfound))
      obtain ⟨name, hname, heq⟩ := List.mem_map.mp hmem
      rw [Table.key_of_text hfound] at heq
      rw [Value.str.inj heq] at hname
      exact absurd hname hkey

theorem part_eq_titled {n : Node} (hinfo : n.info.Neat) {key : String} (hkey : key ∈ fixedNames) :
    n.part? key = Table.at? n.titled key :=
  at_entries hinfo (isMetadataKey_fixedNames hkey)

/-- Nothing stands under the name of a field that the kind of a schema does not have. -/
theorem part_none {n : Node} (hinfo : n.info.Neat) {key : String} (hkey : key ∈ fixedNames)
    (habsent : key ∉ n.fieldNames) : n.part? key = none := by
  rw [part_eq_titled hinfo hkey]
  exact at_none_of_sublist n.titled_sublist habsent

theorem part_eq_fields {n : Node} (hinfo : n.info.Neat) {key : String} (hkey : key ∈ fixedNames)
    (htitle : key ≠ "title") (hdescription : key ≠ "description") :
    n.part? key = Table.at? n.fields key := by
  rw [part_eq_titled hinfo hkey, titled, Table.at_append, Table.at_append, at_fieldIf, at_fieldIf,
    if_neg htitle.symm, if_neg hdescription.symm, Option.or_none, Option.or_none]

theorem at_fields_none (n : Node) {key : String} (h : key = "title" ∨ key = "description") :
    Table.at? n.fields key = none := by
  cases n with
  | bare info => rfl
  | ref info target =>
      rcases h with rfl | rfl <;> simp [fields]
  | primitive info shape =>
      have hconstraints : Table.at? ((shape.constraints.fields Constraints.keywords).map
          fun field => ((.str field.1, field.2) : Value × Value)) key = none := by
        refine at_none_of_sublist (constraints_sublist _) ?_
        rcases h with rfl | rfl <;> decide
      simp only [fields, writePrimitive, Table.at_append, at_fieldIf, hconstraints]
      rcases h with rfl | rfl <;>
        cases shape.choices <;> simp
  | array info shape =>
      obtain ⟨items, minItems, maxItems, uniqueItems, nullable⟩ := shape
      simp only [fields, writeArray, fieldUnlessNull, Table.at_append, at_fieldIf]
      rcases h with rfl | rfl <;>
        cases items <;> simp [writeItems]
  | object info shape =>
      obtain ⟨properties, required, additional, nullable, discriminator, oneOf, anyOf⟩ := shape
      simp only [fields, writeObject, Table.at_append, at_fieldIf, at_discriminatorField]
      rcases h with rfl | rfl <;>
        cases additional <;>
          simp [writeAdditional, fieldUnlessNull]
  | composition info shape =>
      obtain ⟨kind, rawMembers, members, discriminator, properties, required⟩ := shape
      simp only [fields, writeComposition, Table.at_append, at_fieldIf, at_discriminatorField]
      rcases h with rfl | rfl <;>
        cases kind <;> simp [CompositionKind.keyword]

theorem part_title {n : Node} (hinfo : n.info.Neat) :
    n.part? "title" = if n.info.title.truthy then some n.info.title else none := by
  rw [part_eq_titled hinfo (by decide), titled, Table.at_append, Table.at_append,
    at_fields_none n (Or.inl rfl), at_fieldIf, at_fieldIf, if_pos rfl,
    if_neg (show "description" ≠ "title" by decide)]
  simp

theorem part_description {n : Node} (hinfo : n.info.Neat) :
    n.part? "description" =
      if n.info.description.truthy then some n.info.description else none := by
  rw [part_eq_titled hinfo (by decide), titled, Table.at_append, Table.at_append,
    at_fields_none n (Or.inr rfl), at_fieldIf, at_fieldIf,
    if_neg (show "title" ≠ "description" by decide), if_pos rfl]
  simp

end Lookup

section Kinds

variable {info : NodeInfo}

theorem part_ref (hinfo : info.Neat) (target : Value) :
    (Node.ref info target).part? "$ref" = some target := by
  refine (part_eq_fields (n := .ref info target) hinfo (by decide) (by decide) (by decide)).trans ?_
  simp [fields]

theorem part_type_primitive (hinfo : info.Neat) (shape : PrimitiveShape) :
    (Node.primitive info shape).part? "type" =
      if shape.typeName.truthy then some shape.typeName else none := by
  have hconstraints : Table.at? ((shape.constraints.fields Constraints.keywords).map
      fun field => ((.str field.1, field.2) : Value × Value)) "type" = none :=
    at_none_of_sublist (constraints_sublist _) (by decide)
  refine (part_eq_fields (n := .primitive info shape) hinfo
    (by decide) (by decide) (by decide)).trans ?_
  simp only [fields, writePrimitive, Table.at_append, at_fieldIf, hconstraints]
  cases shape.choices <;> simp

theorem part_type_array (hinfo : info.Neat) (shape : ArrayShape Node) :
    (Node.array info shape).part? "type" = some (.str "array") := by
  refine (part_eq_fields (n := .array info shape) hinfo
    (by decide) (by decide) (by decide)).trans ?_
  obtain ⟨items, minItems, maxItems, uniqueItems, nullable⟩ := shape
  simp [fields, writeArray]

theorem part_type_object (hinfo : info.Neat) (shape : ObjectShape Node) :
    (Node.object info shape).part? "type" = some (.str "object") := by
  refine (part_eq_fields (n := .object info shape) hinfo
    (by decide) (by decide) (by decide)).trans ?_
  obtain ⟨properties, required, additional, nullable, discriminator, oneOf, anyOf⟩ := shape
  simp [fields, writeObject]

/-- What an object says of other properties, if it says anything. -/
def additionalPart : Additional Node → Option Value
  | .schema node => some node.write
  | .value v => if v.isNull then none else some v

variable (hinfo : info.Neat) (shape : ObjectShape Node)
include hinfo

theorem part_properties_object :
    (Node.object info shape).part? "properties" =
      if shape.properties.isEmpty then none else some (.map (writeNamed shape.properties)) := by
  refine (part_eq_fields (n := .object info shape) hinfo
    (by decide) (by decide) (by decide)).trans ?_
  obtain ⟨properties, required, additional, nullable, discriminator, oneOf, anyOf⟩ := shape
  cases additional <;> cases hempty : properties.isEmpty <;>
    simp [fields, writeObject, writeAdditional, fieldUnlessNull, hempty]

theorem part_required_object :
    (Node.object info shape).part? "required" =
      if shape.required.isEmpty then none else some (.list shape.required) := by
  refine (part_eq_fields (n := .object info shape) hinfo
    (by decide) (by decide) (by decide)).trans ?_
  obtain ⟨properties, required, additional, nullable, discriminator, oneOf, anyOf⟩ := shape
  cases additional <;> cases hempty : required.isEmpty <;>
    simp [fields, writeObject, writeAdditional, fieldUnlessNull, hempty]

theorem part_additional_object :
    (Node.object info shape).part? "additionalProperties" = additionalPart shape.additional := by
  refine (part_eq_fields (n := .object info shape) hinfo
    (by decide) (by decide) (by decide)).trans ?_
  obtain ⟨properties, required, additional, nullable, discriminator, oneOf, anyOf⟩ := shape
  cases additional with
  | schema node =>
      simp [fields, writeObject, writeAdditional, additionalPart]
  | value v =>
      cases hnull : v.isNull <;>
        simp [fields, writeObject, writeAdditional, fieldUnlessNull, additionalPart, hnull]

theorem part_nullable_object :
    (Node.object info shape).part? "nullable" =
      if shape.nullable then some (.bool true) else none := by
  refine (part_eq_fields (n := .object info shape) hinfo
    (by decide) (by decide) (by decide)).trans ?_
  obtain ⟨properties, required, additional, nullable, discriminator, oneOf, anyOf⟩ := shape
  cases additional <;>
    simp [fields, writeObject, writeAdditional, fieldUnlessNull]

theorem part_discriminator_object :
    (Node.object info shape).part? "discriminator" =
      shape.discriminator.map Discriminator.write := by
  refine (part_eq_fields (n := .object info shape) hinfo
    (by decide) (by decide) (by decide)).trans ?_
  obtain ⟨properties, required, additional, nullable, discriminator, oneOf, anyOf⟩ := shape
  cases additional <;>
    simp [fields, writeObject, writeAdditional, fieldUnlessNull]

theorem part_oneOf_object :
    (Node.object info shape).part? "oneOfVariants" =
      if shape.oneOfVariants.isEmpty then none
      else some (.list (writeVariants shape.oneOfVariants)) := by
  refine (part_eq_fields (n := .object info shape) hinfo
    (by decide) (by decide) (by decide)).trans ?_
  obtain ⟨properties, required, additional, nullable, discriminator, oneOf, anyOf⟩ := shape
  cases additional <;> cases hempty : oneOf.isEmpty <;>
    simp [fields, writeObject, writeAdditional, fieldUnlessNull, hempty]

theorem part_anyOf_object :
    (Node.object info shape).part? "anyOfVariants" =
      if shape.anyOfVariants.isEmpty then none
      else some (.list (writeVariants shape.anyOfVariants)) := by
  refine (part_eq_fields (n := .object info shape) hinfo
    (by decide) (by decide) (by decide)).trans ?_
  obtain ⟨properties, required, additional, nullable, discriminator, oneOf, anyOf⟩ := shape
  cases additional <;> cases hempty : anyOf.isEmpty <;>
    simp [fields, writeObject, writeAdditional, fieldUnlessNull, hempty]

end Kinds

section Compositions

/-- The members of a composition as they are written. -/
def membersPart (shape : CompositionShape Node) : Value :=
  match shape.rawMembers with
  | .list _ => .list (writeEach shape.members)
  | other => other

variable {info : NodeInfo} (hinfo : info.Neat) (shape : CompositionShape Node)
include hinfo

theorem part_members :
    (Node.composition info shape).part? shape.kind.keyword = some (membersPart shape) := by
  have hkey : shape.kind.keyword ∈ fixedNames ∧ shape.kind.keyword ≠ "title" ∧
      shape.kind.keyword ≠ "description" := by
    cases shape.kind <;> decide
  refine (part_eq_fields (n := .composition info shape) hinfo hkey.1 hkey.2.1 hkey.2.2).trans ?_
  obtain ⟨kind, rawMembers, members, discriminator, properties, required⟩ := shape
  cases rawMembers <;> simp [fields, writeComposition, membersPart]

theorem part_discriminator_composition :
    (Node.composition info shape).part? "discriminator" =
      shape.discriminator.map Discriminator.write := by
  refine (part_eq_fields (n := .composition info shape) hinfo
    (by decide) (by decide) (by decide)).trans ?_
  obtain ⟨kind, rawMembers, members, discriminator, properties, required⟩ := shape
  cases kind <;>
    simp [fields, writeComposition, CompositionKind.keyword]

theorem part_properties_composition :
    (Node.composition info shape).part? "properties" =
      if shape.properties.isEmpty then none else some (.map (writeNamed shape.properties)) := by
  refine (part_eq_fields (n := .composition info shape) hinfo
    (by decide) (by decide) (by decide)).trans ?_
  obtain ⟨kind, rawMembers, members, discriminator, properties, required⟩ := shape
  cases kind <;> cases hempty : properties.isEmpty <;>
    simp [fields, writeComposition, CompositionKind.keyword, hempty]

theorem part_required_composition :
    (Node.composition info shape).part? "required" =
      if shape.required.isEmpty then none else some (.list shape.required) := by
  refine (part_eq_fields (n := .composition info shape) hinfo
    (by decide) (by decide) (by decide)).trans ?_
  obtain ⟨kind, rawMembers, members, discriminator, properties, required⟩ := shape
  cases kind <;> cases hempty : required.isEmpty <;>
    simp [fields, writeComposition, CompositionKind.keyword, hempty]

end Compositions

end Node

end SchemaGraph
