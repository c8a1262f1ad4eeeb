import SchemaGraph.Proofs.Outcome
import SchemaGraph.Proofs.Schema.Parts

/-!
# Neat schemas

What resolving relies on of the schemas it works with: keys that stand for different things,
declared types and required names that are data, members as many as were written.  A schema that is
read from a value of JSON is neat, and so is written as a value of JSON.
-/

namespace SchemaGraph

/-- A declared type that is data, and not that of an array or an object. -/
def PrimitiveShape.Neat (shape : PrimitiveShape) : Prop :=
  shape.typeName.isJson = true ∧ shape.typeName ≠ .str "array" ∧ shape.typeName ≠ .str "object"

namespace Node

open Value

/-- Neat annotations and a neat declared type. -/
def Labelled : Node → Prop
  | .primitive info shape => info.Neat ∧ shape.Neat
  | n => n.info.Neat

/-- Properties under names that stand for different things. -/
def NeatProperties (properties : Table Node) : Prop :=
  Table.Keyed properties ∧ ∀ entry ∈ properties, entry.2.Labelled

/-- Schemas that are neat as far as resolving looks into them. -/
inductive Neat : Node → Prop where
  | leaf {n : Node} (hlabelled : n.Labelled) (hobject : ∀ info shape, n ≠ .object info shape)
      (hcomposition : ∀ info shape, n ≠ .composition info shape) : Neat n
  | object {info : NodeInfo} {shape : ObjectShape Node} (hinfo : info.Neat)
      (hproperties : NeatProperties shape.properties)
      (hrequired : ∀ name ∈ shape.required, name.isJson = true) : Neat (.object info shape)
  | composition {info : NodeInfo} {shape : CompositionShape Node} (hinfo : info.Neat)
      (hproperties : NeatProperties shape.properties)
      (hrequired : ∀ name ∈ shape.required, name.isJson = true)
      (hname : ∀ d, shape.discriminator = some d → d.propertyName.isJson = true)
      (hraw : ∀ items, shape.rawMembers = .list items → items.length = shape.members.length)
      (hmembers : ∀ member ∈ shape.members, Neat member)
      (hwrite : (Node.composition info shape).write.isJson = true) : Neat (.composition info shape)

theorem Neat.labelled {n : Node} (h : n.Neat) : n.Labelled := by
  cases h with
  | leaf hlabelled _ _ => exact hlabelled
  | object hinfo _ _ => exact hinfo
  | composition hinfo _ _ _ _ _ _ => exact hinfo

/-- What neatness says of a composition. -/
structure NeatComposition (own : NodeInfo) (shape : CompositionShape Node) : Prop where
  info : own.Neat
  properties : NeatProperties shape.properties
  required : ∀ name ∈ shape.required, name.isJson = true
  name : ∀ d, shape.discriminator = some d → d.propertyName.isJson = true
  raw : ∀ items, shape.rawMembers = .list items → items.length = shape.members.length
  members : ∀ member ∈ shape.members, member.Neat
  write : (Node.composition own shape).write.isJson = true

theorem Neat.composition_parts {info : NodeInfo} {shape : CompositionShape Node}
    (h : (Node.composition info shape).Neat) : NeatComposition info shape := by
  cases h with
  | leaf _ _ hcomposition => exact absurd rfl (hcomposition info shape)
  | composition hinfo hproperties hrequired hname hraw hmembers hwrite =>
      exact ⟨hinfo, hproperties, hrequired, hname, hraw, hmembers, hwrite⟩

theorem Labelled.info {n : Node} (h : n.Labelled) : n.info.Neat := by
  cases n with
  | primitive info shape => exact h.1
  | bare info => exact h
  | ref info target => exact h
  | array info shape => exact h
  | object info shape => exact h
  | composition info shape => exact h

/-- Fields that hold values of JSON. -/
def JsonFields (fields : List (Value × Value)) : Prop := ∀ entry ∈ fields, entry.2.isJson = true

section Written

theorem jsonFields_nil : JsonFields [] := fun _ h => absurd h (by simp)

theorem jsonFields_single {key v : Value} (h : v.isJson = true) : JsonFields [(key, v)] := by
  intro entry hentry
  rw [List.mem_singleton.mp hentry]
  exact h

theorem JsonFields.append {front back : List (Value × Value)} (hfront : JsonFields front)
    (hback : JsonFields back) : JsonFields (front ++ back) := by
  intro entry hentry
  rcases List.mem_append.mp hentry with hin | hin
  · exact hfront entry hin
  · exact hback entry hin

theorem jsonFields_fieldIf {condition : Bool} {key : String} {v : Value} (h : v.isJson = true) :
    JsonFields (fieldIf condition key v) := by
  unfold fieldIf
  split
  · exact jsonFields_single h
  · exact jsonFields_nil

/-- A schema with fields and annotations of JSON is written as a value of JSON. -/
theorem isJson_write {n : Node} (hinfo : n.info.Neat) (hmetadata : JsonFields n.info.metadata)
    (htitle : n.info.title.isJson = true) (hdescription : n.info.description.isJson = true)
    (hfields : JsonFields n.fields) : n.write.isJson = true := by
  have htitled : JsonFields n.titled :=
    (hfields.append (jsonFields_fieldIf htitle)).append (jsonFields_fieldIf hdescription)
  have htext : ∀ entry ∈ n.titled, ∃ key, entry.1 = .str key := by
    intro entry hentry
    have hmem := n.titled_sublist.subset
      (List.mem_map_of_mem (f := fun e : Value × Value => e.1) hentry)
    obtain ⟨name, -, heq⟩ := List.mem_map.mp hmem
    exact ⟨name, heq.symm⟩
  rw [write_eq]
  refine (entriesJson_iff n.entries).mpr ⟨keyed_entries hinfo, ?_⟩
  intro entry hentry
  obtain ⟨a, -, hfound⟩ := Table.entry_of_mem (keyed_entries hinfo) hentry
  rw [entries, Table.entry_putAll n.keyed_titled hinfo.1] at hfound
  cases hmeta : Table.slot? n.info.metadata a with
  | none =>
      rw [hmeta] at hfound
      have hmem := Table.mem_of_entry hfound
      exact ⟨htext entry hmem, htitled entry hmem⟩
  | some annotation =>
      rw [hmeta] at hfound
      have hmem := Table.mem_of_entry hmeta
      obtain ⟨key, hkey, -⟩ := hinfo.2 annotation hmem
      rw [← Option.some.inj hfound]
      cases hthere : Table.slot? n.titled a with
      | none => exact ⟨⟨key, hkey⟩, hmetadata annotation hmem⟩
      | some field =>
          exact ⟨htext field (Table.mem_of_entry hthere), hmetadata annotation hmem⟩

theorem isJson_record {fields : List (String × Value)} (hnames : (fields.map (·.1)).Nodup)
    (hfields : ∀ field ∈ fields, field.2.isJson = true) : (Value.record fields).isJson = true := by
  refine (entriesJson_iff _).mpr ⟨Table.keyed_of_sublist hnames ?_, ?_⟩
  · rw [List.map_map, List.map_map]
    exact List.Sublist.refl _
  · intro entry hentry
    obtain ⟨field, hfield, rfl⟩ := List.mem_map.mp hentry
    exact ⟨⟨field.1, rfl⟩, hfields field hfield⟩

theorem isJson_discriminator {d : Discriminator} (hname : d.propertyName.isJson = true)
    (hmapping : entriesJson d.mapping = true) : d.write.isJson = true := by
  unfold Discriminator.write
  split
  · refine isJson_record (by simp) ?_
    simpa using hname
  · refine isJson_record (by simp) ?_
    simpa using ⟨hname, hmapping⟩

theorem jsonFields_discriminator {d : Option Discriminator}
    (h : ∀ given, d = some given →
      given.propertyName.isJson = true ∧ entriesJson given.mapping = true) :
    JsonFields (discriminatorField d) := by
  cases d with
  | none => exact jsonFields_nil
  | some given => exact jsonFields_single (isJson_discriminator (h given rfl).1 (h given rfl).2)

end Written

end Node

end SchemaGraph
