import SchemaGraph.Schema.Parse
import SchemaGraph.Schema.Write
import SchemaGraph.Proofs.Value.Congruence

/-!
# What stands in a written schema

A written schema is the fields of its kind, its title and description, and its annotations.  The
names of the fields are no names of annotations, so nothing is written over; every part of a schema
can be found again under its name.
-/

namespace SchemaGraph

/-!
### Fields with fixed names

A written schema is a list of fields with fixed names, in a fixed order, some of which are left
out.  Looking up a name in such a list, and why its names are different.
-/

namespace Table

variable {α β : Type}

theorem entry_append (front back : Table α) (a : Atom) :
    slot? (front ++ back) a = (slot? front a).or (slot? back a) := by
  unfold slot?
  rw [List.find?_append]

/-- The item at a text key of one list of entries after another. -/
@[simp] theorem at_append (front back : Table α) (key : String) :
    at? (front ++ back) key = (at? front key).or (at? back key) := by
  rw [at_eq_entry, at_eq_entry, at_eq_entry, entry_append]
  cases slot? front (.text key) <;> rfl

@[simp] theorem at_nil (key : String) : at? ([] : Table α) key = none := rfl

@[simp] theorem at_cons_str (name key : String) (item : α) (rest : Table α) :
    at? ((.str name, item) :: rest) key = if name = key then some item else at? rest key := by
  unfold at?
  by_cases h : name = key
  · rw [if_pos h, List.find?_cons_of_pos]
    · rfl
    · simpa [Value.isText] using h
  · rw [if_neg h, List.find?_cons_of_neg]
    simpa [Value.isText] using h

theorem entry_none_iff (table : Table α) (a : Atom) :
    slot? table a = none ↔ some a ∉ table.map fun entry => entry.1.atom? := by
  unfold slot?
  rw [List.find?_eq_none]
  simp only [decide_eq_true_eq, List.mem_map, not_exists, not_and]

theorem keyed_iff_nodup (table : Table α) :
    Keyed table ↔
      (∀ entry ∈ table, entry.1.atom? ≠ none) ∧ (table.map fun entry => entry.1.atom?).Nodup := by
  induction table with
  | nil => simp [Keyed]
  | cons entry rest ih =>
      rw [Keyed, ih, List.map_cons, List.nodup_cons, List.forall_mem_cons]
      constructor
      · rintro ⟨⟨a, ha, hfresh⟩, hsome, hnodup⟩
        rw [entry_none_iff, ← ha] at hfresh
        exact ⟨⟨by rw [ha]; simp, hsome⟩, hfresh, hnodup⟩
      · rintro ⟨⟨hhead, hsome⟩, hfresh, hnodup⟩
        obtain ⟨a, ha⟩ := Option.ne_none_iff_exists'.mp hhead
        refine ⟨⟨a, ha, ?_⟩, hsome, hnodup⟩
        rw [entry_none_iff, ← ha]
        exact hfresh

/-- Whether anything stands under a key depends on the keys alone. -/
theorem entry_none_of_keys {table : Table α} {table' : Table β}
    (hkeys : table.map (·.1) = table'.map (·.1)) (a : Atom) :
    slot? table a = none ↔ slot? table' a = none := by
  have hatoms : (table.map fun entry => entry.1.atom?) = table'.map fun entry => entry.1.atom? := by
    have hmap := congrArg (List.map Value.atom?) hkeys
    rw [List.map_map, List.map_map] at hmap
    exact hmap
  rw [entry_none_iff, entry_none_iff, hatoms]

theorem keyed_of_keys {table : Table α} {table' : Table β}
    (hkeys : table.map (·.1) = table'.map (·.1)) (h : Keyed table') : Keyed table := by
  induction table generalizing table' with
  | nil => trivial
  | cons entry rest ih =>
      cases table' with
      | nil => exact absurd hkeys (by simp)
      | cons entry' rest' =>
          rw [List.map_cons, List.map_cons, List.cons.injEq] at hkeys
          obtain ⟨⟨a, ha, hfresh⟩, hrest⟩ := h
          exact ⟨⟨a, hkeys.1 ▸ ha, (entry_none_of_keys hkeys.2 a).mpr hfresh⟩, ih hkeys.2 hrest⟩

/-- Fixed names, in order and some of them left out, are different keys. -/
theorem keyed_of_sublist {table : Table α} {names : List String} (hnames : names.Nodup)
    (h : (table.map (·.1)).Sublist (names.map .str)) : Keyed table := by
  have hatoms : (table.map fun entry => entry.1.atom?).Sublist
      (names.map fun name => some (Atom.text name)) := by
    have hmap := h.map Value.atom?
    rw [List.map_map, List.map_map] at hmap
    exact hmap
  refine (keyed_iff_nodup table).mpr ⟨?_, ?_⟩
  · intro entry hentry
    have hmem := h.subset (List.mem_map_of_mem (f := fun e : Value × α => e.1) hentry)
    obtain ⟨name, -, hname⟩ := List.mem_map.mp hmem
    rw [← hname]
    simp
  · refine hatoms.nodup (hnames.map ?_)
    intro name name' heq
    simpa using heq

end Table

/-! ### Written schemas -/

/-- Annotations under different names, all of them names of annotations or extensions. -/
def NodeInfo.Neat (info : NodeInfo) : Prop :=
  Table.Keyed info.metadata ∧
    ∀ entry ∈ info.metadata, ∃ key, entry.1 = .str key ∧ Node.isMetadataKey key = true

namespace Node

open Value

/-- The fields that are written for the kind of a schema. -/
def fields : Node → List (Value × Value)
  | .bare _ => []
  | .ref _ target => [(.str "$ref", target)]
  | .primitive _ shape => writePrimitive shape
  | .array _ shape => writeArray shape
  | .object _ shape => writeObject shape
  | .composition _ shape => writeComposition shape

/-- The names of the fields of a schema and of its title and description, in their order. -/
def fieldNames : Node → List String
  | .bare _ => ["title", "description"]
  | .ref _ _ => ["$ref", "title", "description"]
  | .primitive _ _ =>
      ["type", "format", "enum", "nullable", "minLength", "maxLength", "pattern", "minimum",
        "maximum", "exclusiveMinimum", "exclusiveMaximum", "multipleOf", "title", "description"]
  | .array _ _ =>
      ["type", "items", "minItems", "maxItems", "uniqueItems", "nullable", "title", "description"]
  | .object _ _ =>
      ["type", "properties", "required", "additionalProperties", "nullable", "discriminator",
        "oneOfVariants", "anyOfVariants", "title", "description"]
  | .composition _ shape =>
      [shape.kind.keyword, "discriminator", "properties", "required", "title", "description"]

/-- The names of all fields of schemas; none of them is that of an annotation. -/
def fixedNames : List String :=
  ["allOf", "oneOf", "anyOf", "$ref", "type", "format", "enum", "nullable", "minLength",
    "maxLength", "pattern", "minimum", "maximum", "exclusiveMinimum", "exclusiveMaximum",
    "multipleOf", "items", "minItems", "maxItems", "uniqueItems", "properties", "required",
    "additionalProperties", "discriminator", "oneOfVariants", "anyOfVariants", "title",
    "description"]

/-- The fields of a schema with its title and description. -/
def titled (n : Node) : Table Value :=
  n.fields ++ fieldIf n.info.title.truthy "title" n.info.title ++
    fieldIf n.info.description.truthy "description" n.info.description

/-- The entries of a written schema. -/
def entries (n : Node) : Table Value := Table.putAll n.titled n.info.metadata

theorem write_eq (n : Node) : n.write = .map n.entries := by
  cases n with
  | bare info => rfl
  | ref info target => rfl
  | primitive info shape => rfl
  | array info shape => rfl
  | object info shape => rfl
  | composition info shape => rfl

section Names

theorem fieldIf_sublist (condition : Bool) (key : String) (v : Value) :
    ((fieldIf condition key v).map (·.1)).Sublist [.str key] := by
  unfold fieldIf
  split
  · exact List.Sublist.refl _
  · exact List.nil_sublist _

theorem discriminatorField_sublist (d : Option Discriminator) :
    ((discriminatorField d).map (·.1)).Sublist [.str "discriminator"] := by
  cases d with
  | none => exact List.nil_sublist _
  | some d => exact List.Sublist.refl _

theorem constraints_sublist (c : Constraints) :
    (((c.fields Constraints.keywords).map fun field => ((.str field.1, field.2) : Value × Value)).map
      (·.1)).Sublist (Constraints.keywords.map .str) := by
  rw [List.map_map]
  unfold Constraints.fields
  refine (List.filter_sublist.map _).trans ?_
  exact List.Sublist.refl _

theorem titled_sublist (n : Node) :
    (n.titled.map (·.1)).Sublist (n.fieldNames.map .str) := by
  have htitle := fieldIf_sublist n.info.title.truthy "title" n.info.title
  have hdescription := fieldIf_sublist n.info.description.truthy "description" n.info.description
  have hends : ∀ front : List String,
      (n.fields.map (·.1)).Sublist (front.map .str) →
        (n.titled.map (·.1)).Sublist ((front ++ ["title", "description"]).map .str) := by
    intro front hfront
    unfold titled
    rw [List.map_append, List.map_append, List.map_append, List.append_assoc]
    exact hfront.append (htitle.append hdescription)
  -- each kind writes a group of fields for each of its names, in their order
  cases n with
  | bare info => exact hends [] (List.nil_sublist _)
  | ref info target => exact hends ["$ref"] (List.Sublist.refl _)
  | primitive info shape =>
      refine hends (["type"] ++ ["format"] ++ ["enum"] ++ ["nullable"] ++ Constraints.keywords) ?_
      simp only [fields, writePrimitive, List.map_append]
      refine ((((fieldIf_sublist _ _ _).append (fieldIf_sublist _ _ _)).append ?_).append
        (fieldIf_sublist _ _ _)).append (constraints_sublist _)
      cases shape.choices with
      | none => exact List.nil_sublist _
      | some choices => exact List.Sublist.refl _
  | array info shape =>
      obtain ⟨items, minItems, maxItems, uniqueItems, nullable⟩ := shape
      refine hends (["type"] ++ ["items"] ++ ["minItems"] ++ ["maxItems"] ++ ["uniqueItems"] ++
        ["nullable"]) ?_
      simp only [fields, writeArray, List.map_append]
      refine (((((List.Sublist.refl _).append ?_).append (fieldIf_sublist _ _ _)).append
        (fieldIf_sublist _ _ _)).append (fieldIf_sublist _ _ _)).append (fieldIf_sublist _ _ _)
      cases items with
      | none => exact List.nil_sublist _
      | some item => exact List.Sublist.refl _
  | object info shape =>
      obtain ⟨properties, required, additional, nullable, discriminator, oneOf, anyOf⟩ := shape
      refine hends (["type"] ++ ["properties"] ++ ["required"] ++ ["additionalProperties"] ++
        ["nullable"] ++ ["discriminator"] ++ ["oneOfVariants"] ++ ["anyOfVariants"]) ?_
      simp only [fields, writeObject, List.map_append]
      refine (((((((List.Sublist.refl _).append (fieldIf_sublist _ _ _)).append
        (fieldIf_sublist _ _ _)).append ?_).append (fieldIf_sublist _ _ _)).append
        (discriminatorField_sublist _)).append (fieldIf_sublist _ _ _)).append
        (fieldIf_sublist _ _ _)
      cases additional with
      | value v => exact fieldIf_sublist _ _ _
      | schema node => exact List.Sublist.refl _
  | composition info shape =>
      obtain ⟨kind, rawMembers, members, discriminator, properties, required⟩ := shape
      refine hends ([kind.keyword] ++ ["discriminator"] ++ ["properties"] ++ ["required"]) ?_
      simp only [fields, writeComposition, List.map_append]
      exact (((List.Sublist.refl _).append (discriminatorField_sublist _)).append
        (fieldIf_sublist _ _ _)).append (fieldIf_sublist _ _ _)

theorem nodup_fieldNames (n : Node) : n.fieldNames.Nodup := by
  cases n with
  | composition info shape =>
      change [shape.kind.keyword, "discriminator", "properties", "required", "title",
        "description"].Nodup
      cases shape.kind <;> decide
  | _ => simp [fieldNames]

theorem fieldNames_subset (n : Node) : n.fieldNames ⊆ fixedNames := by
  cases n with
  | composition info shape =>
      change [shape.kind.keyword, "discriminator", "properties", "required", "title",
        "description"] ⊆ fixedNames
      cases shape.kind <;> decide
  | _ => simp [fieldNames, fixedNames]

theorem isMetadataKey_fixedNames {name : String} (h : name ∈ fixedNames) :
    isMetadataKey name = false := by
  have hall : (fixedNames.all fun name => !isMetadataKey name) = true := by decide
  simpa using List.all_eq_true.mp hall name h

theorem isMetadataKey_fieldNames (n : Node) {name : String} (h : name ∈ n.fieldNames) :
    isMetadataKey name = false :=
  isMetadataKey_fixedNames (n.fieldNames_subset h)

theorem keyed_titled (n : Node) : Table.Keyed n.titled :=
  Table.keyed_of_sublist n.nodup_fieldNames n.titled_sublist

theorem keyed_entries {n : Node} (hinfo : n.info.Neat) : Table.Keyed n.entries :=
  Table.keyed_putAll n.keyed_titled hinfo.1

theorem mem_fieldNames {n : Node} {key : String} {entry : Value × Value}
    (h : Table.slot? n.titled (.text key) = some entry) : key ∈ n.fieldNames := by
  have hmem := n.titled_sublist.subset
    (List.mem_map_of_mem (f := fun e : Value × Value => e.1) (Table.mem_of_entry h))
  obtain ⟨name, hname, heq⟩ := List.mem_map.mp hmem
  rw [Table.key_of_text h] at heq
  rw [← Value.str.inj heq]
  exact hname

theorem isMetadataKey_of_entry {info : NodeInfo} (hinfo : info.Neat) {key : String}
    {entry : Value × Value} (h : Table.slot? info.metadata (.text key) = some entry) :
    isMetadataKey key = true := by
  obtain ⟨name, hname, hkey⟩ := hinfo.2 entry (Table.mem_of_entry h)
  rw [Table.key_of_text h] at hname
  rw [Value.str.inj hname]
  exact hkey

/-- Under a name that is none of an annotation stands the field of that name. -/
theorem at_entries {n : Node} (hinfo : n.info.Neat) {key : String}
    (hkey : isMetadataKey key = false) : Table.at? n.entries key = Table.at? n.titled key := by
  rw [Table.at_eq_entry, Table.at_eq_entry, entries,
    Table.entry_putAll n.keyed_titled hinfo.1]
  cases hmeta : Table.slot? n.info.metadata (.text key) with
  | none => rfl
  | some entry =>
      rw [isMetadataKey_of_entry hinfo hmeta] at hkey
      exact absurd hkey (by decide)

/-- The annotations stand in a written schema as they are. -/
theorem entry_metadata {n : Node} (hinfo : n.info.Neat) {key : String}
    (hkey : isMetadataKey key = true) :
    Table.slot? n.entries (.text key) = Table.slot? n.info.metadata (.text key) := by
  rw [entries, Table.entry_putAll n.keyed_titled hinfo.1]
  have hnone : Table.slot? n.titled (.text key) = none := by
    cases hfield : Table.slot? n.titled (.text key) with
    | none => rfl
    | some entry =>
        rw [isMetadataKey_fieldNames n (mem_fieldNames hfield)] at hkey
        exact absurd hkey (by decide)
  rw [hnone]
  cases hmeta : Table.slot? n.info.metadata (.text key) with
  | none => rfl
  | some entry => simp [Table.written]

end Names

end Node

end SchemaGraph
