import SchemaGraph.Proofs.Schema.Parsed
import SchemaGraph.Proofs.Schema.Like
import SchemaGraph.Proofs.Schema.References

/-!
# Reading what was written

A written schema is read again as a schema that is written the same.  Titles that do not count as
given, and the place of the schema, may be lost; nothing of them is written.  For each kind of
schema: it rereads if its parts do.
-/

namespace SchemaGraph

namespace Value

theorem depth_le_of_mem_entries {entries : List (Value × Value)} {entry : Value × Value}
    (h : entry ∈ entries) : entry.2.depth ≤ entriesDepth entries := by
  induction entries with
  | nil => exact absurd h (by simp)
  | cons first rest ih =>
      rw [entriesDepth]
      rcases List.mem_cons.mp h with rfl | hin
      · exact Nat.le_max_left _ _
      · exact (ih hin).trans (Nat.le_max_right _ _)

theorem depth_le_of_at {entries : Table Value} {key : String} {v : Value}
    (h : entries.at? key = some v) : v.depth ≤ entriesDepth entries := by
  obtain ⟨entry, hentry, -, rfl⟩ := mem_of_at h
  exact depth_le_of_mem_entries hentry

end Value

namespace Node

open Value

section Annotations

theorem metadata_append {front back : List (Value × Value)} {table table' : Table Value}
    (hfront : metadata front = .ok table) (hback : metadata back = .ok table') :
    metadata (front ++ back) = .ok (table ++ table') := by
  induction front generalizing table with
  | nil =>
      rw [← Except.ok.inj hfront]
      exact hback
  | cons entry rest ih =>
      obtain ⟨key, item⟩ := entry
      cases key with
      | str key =>
          rw [metadata, bind_eq_ok] at hfront
          obtain ⟨others, hothers, hfront⟩ := hfront
          rw [List.cons_append, metadata, ih hothers, ← Except.ok.inj hfront]
          cases isMetadataKey key <;> rfl
      | _ => cases hfront

/-- Fields with fixed names are no annotations. -/
theorem metadata_fields {fields : List (Value × Value)}
    (h : ∀ entry ∈ fields, ∃ key, entry.1 = .str key ∧ isMetadataKey key = false) :
    metadata fields = .ok [] := by
  induction fields with
  | nil => rfl
  | cons entry rest ih =>
      obtain ⟨key, hkey, hfixed⟩ := h entry List.mem_cons_self
      obtain ⟨k, item⟩ := entry
      dsimp only at hkey
      rw [hkey, metadata, ih fun other hother => h other (List.mem_cons_of_mem _ hother)]
      simp [hfixed]

theorem metadata_marked {table : Table Value}
    (h : ∀ entry ∈ table, ∃ key, entry.1 = .str key ∧ isMetadataKey key = true) :
    metadata table = .ok table := by
  induction table with
  | nil => rfl
  | cons entry rest ih =>
      obtain ⟨key, hkey, hmarked⟩ := h entry List.mem_cons_self
      obtain ⟨k, item⟩ := entry
      dsimp only at hkey
      rw [hkey, metadata, ih fun other hother => h other (List.mem_cons_of_mem _ hother)]
      simp [hmarked]

variable {n : Node} (hinfo : n.info.Neat)
include hinfo

/-- The annotations stand behind all other fields. -/
theorem entries_eq_append : n.entries = n.titled ++ n.info.metadata := by
  refine Table.putAll_new n.keyed_titled hinfo.1 fun entry hentry a ha => ?_
  obtain ⟨key, hkey, hmarked⟩ := hinfo.2 entry hentry
  rw [hkey, atom_str, Option.some.injEq] at ha
  -- a name that marks an annotation is never that of a field
  cases hfound : Table.slot? n.titled a with
  | none => rfl
  | some field =>
      rw [← ha] at hfound
      rw [isMetadataKey_fieldNames n (mem_fieldNames hfound)] at hmarked
      exact absurd hmarked (by simp)

/-- The annotations of a schema are read again as they are. -/
theorem metadata_entries : metadata n.entries = .ok n.info.metadata := by
  rw [entries_eq_append hinfo]
  refine metadata_append (metadata_fields fun entry hentry => ?_) (metadata_marked hinfo.2)
  have hmem := n.titled_sublist.subset
    (List.mem_map_of_mem (f := fun e : Value × Value => e.1) hentry)
  obtain ⟨name, hname, heq⟩ := List.mem_map.mp hmem
  exact ⟨name, heq.symm, isMetadataKey_fieldNames n hname⟩

omit hinfo in
theorem fieldIf_orElse (key : String) (v : Value) :
    fieldIf (v.orElse .null).truthy key (v.orElse .null) = fieldIf v.truthy key v := by
  unfold orElse
  cases h : v.truthy with
  | true => rw [if_pos rfl, h]
  | false => rfl

/-- Schemas with the same fields are written the same if one has the annotations that are read of
the other. -/
theorem write_of_fields {m : Node} {place : String}
    (hm : m.info = infoOf place n.info.metadata n.entries) (hfields : m.fields = n.fields) :
    m.write = n.write := by
  have htitle : m.info.title = n.info.title.orElse .null := by
    rw [hm, title_eq_part hinfo]
    rfl
  have hdescription : m.info.description = n.info.description.orElse .null := by
    rw [hm, description_eq_part hinfo]
    rfl
  have hmetadata : m.info.metadata = n.info.metadata := by rw [hm]; rfl
  rw [write_eq, write_eq, entries, entries, titled, titled, hfields, htitle, hdescription,
    fieldIf_orElse, fieldIf_orElse, hmetadata]

end Annotations

/-- Whether a schema that was written is read again, whatever its place, as one that is written the
same. -/
def Rereads (n : Node) : Prop :=
  ∀ levels, n.write.depth ≤ levels → ∀ place,
    ∃ m, parseWithin "" levels n.write place = .ok m ∧ m.write = n.write

section Levels

variable {n : Node} {levels : Nat}

/-- A schema rereads if what is read of its entries has the same fields. -/
theorem rereads_of_parsed (hinfo : n.info.Neat)
    (h : ∀ levels, entriesDepth n.entries ≤ levels → ∀ place, ∃ m,
      Parsed (parseWithin "" levels) "" place n.entries
        (infoOf place n.info.metadata n.entries) m ∧
      m.info = infoOf place n.info.metadata n.entries ∧ m.fields = n.fields) : n.Rereads := by
  intro levels hlevels place
  rw [write_eq, Value.depth] at hlevels
  cases levels with
  | zero => omega
  | succ levels =>
      -- one level is spent on the mapping, the others suffice for its entries
      obtain ⟨m, hparsed, hm, hfields⟩ := h levels (by omega) place
      refine ⟨m, ?_, write_of_fields hinfo hm hfields⟩
      rw [write_eq, parseWithin]
      exact parseEntries_eq_ok.mpr ⟨_, metadata_entries hinfo, hparsed⟩

theorem rereads_each {nodes : List Node} (h : ∀ node ∈ nodes, node.Rereads)
    (hlevels : itemsDepth (writeEach nodes) ≤ levels) (path : String) (index : Nat) :
    ∃ others, parseEach (parseWithin "" levels) path index (writeEach nodes) = .ok others ∧
      writeEach others = writeEach nodes := by
  induction nodes generalizing index with
  | nil => exact ⟨[], rfl, rfl⟩
  | cons node rest ih =>
      rw [writeEach, itemsDepth] at hlevels
      obtain ⟨m, hm, hwrite⟩ := h node List.mem_cons_self levels (by omega) s!"{path}/{index}"
      obtain ⟨others, hothers, hwrites⟩ := ih (fun n hn => h n (List.mem_cons_of_mem _ hn))
        (by omega) (index + 1)
      refine ⟨m :: others, parseEach_cons_eq_ok.mpr ⟨m, others, hm, hothers, rfl⟩, ?_⟩
      rw [writeEach, writeEach, hwrite, hwrites]

theorem rereads_named {nodes : Table Node} (h : ∀ entry ∈ nodes, entry.2.Rereads)
    (hlevels : entriesDepth (writeNamed nodes) ≤ levels) (path : String) :
    ∃ others, parseNamed (parseWithin "" levels) path (writeNamed nodes) = .ok others ∧
      writeNamed others = writeNamed nodes := by
  induction nodes with
  | nil => exact ⟨[], rfl, rfl⟩
  | cons entry rest ih =>
      obtain ⟨name, node⟩ := entry
      rw [writeNamed, entriesDepth] at hlevels
      have hnode : node.write.depth ≤ levels := by omega
      obtain ⟨m, hm, hwrite⟩ := h (name, node) List.mem_cons_self levels hnode
        s!"{path}/properties/{name.display}"
      obtain ⟨others, hothers, hwrites⟩ := ih (fun e he => h e (List.mem_cons_of_mem _ he))
        (by omega)
      refine ⟨(name, m) :: others, parseNamed_cons_eq_ok.mpr ⟨m, others, hm, hothers, rfl⟩, ?_⟩
      rw [writeNamed, writeNamed, hwrite, hwrites]

end Levels

section Lookup

@[simp] theorem at_fieldUnlessNull (name key : String) (v : Value) :
    Table.at? (fieldUnlessNull name v) key =
      if name = key then (if v.isNull then none else some v) else none := by
  unfold fieldUnlessNull
  rw [at_fieldIf]
  cases v.isNull <;> rfl

@[simp] theorem at_writeItems (items : Option Node) (key : String) :
    Table.at? (writeItems items) key = if "items" = key then items.map write else none := by
  cases items with
  | none => simp [writeItems]
  | some item => simp [writeItems]

/-- A value that is left out when it is null. -/
theorem getD_unlessNull (v : Value) : (if v.isNull then none else some v).getD Value.null = v := by
  cases v <;> rfl

/-- A switch that is written only when it is set. -/
theorem truthy_switch (b : Bool) :
    ((if b = true then some (Value.bool true) else none).getD .null).truthy = b := by
  cases b <;> rfl

/-- A type that is no list is declared as it is. -/
theorem declaredTypeOf_single {entries : Table Value} {typeName : Value}
    (h : field entries "type" = typeName) (hsingle : ∀ types, typeName ≠ .list types) :
    declaredTypeOf entries = (typeName, (field entries "nullable").truthy) := by
  rw [declaredTypeOf, h]
  cases typeName with
  | list types => exact absurd rfl (hsingle types)
  | _ => rfl

end Lookup

section Fields

/-- The names of the fields that the kinds of schemas have. -/
def bodyNames : List String := fixedNames.filter fun name => name != "title" && name != "description"

variable {n : Node} {entries : Table Value} {levels : Nat}

/-- Reading a field of a written schema. -/
theorem at_body (hinfo : n.info.Neat) {key : String} (hkey : key ∈ bodyNames) :
    Table.at? n.entries key = Table.at? n.fields key := by
  obtain ⟨hfixed, hother⟩ := List.mem_filter.mp hkey
  simp only [Bool.and_eq_true, bne_iff_ne, ne_eq] at hother
  exact part_eq_fields hinfo hfixed hother.1 hother.2

theorem field_body (hinfo : n.info.Neat) {key : String} (hkey : key ∈ bodyNames) :
    field n.entries key = field n.fields key := by
  rw [field, field, at_body hinfo hkey]

theorem at_none (hinfo : n.info.Neat) {key : String} (hkey : key ∈ bodyNames)
    (habsent : key ∉ n.fieldNames) : Table.at? n.entries key = none :=
  part_none hinfo (List.mem_filter.mp hkey).1 habsent

theorem depth_le_of_field (key : String) (hlevels : entriesDepth entries ≤ levels)
    (h : (field entries key).isNull = false) : (field entries key).depth ≤ levels := by
  unfold field at h ⊢
  cases hat : Table.at? entries key with
  | none =>
      rw [hat] at h
      cases h
  | some v => exact (depth_le_of_at hat).trans hlevels

/-- Only a reference is written with a target. -/
theorem at_target_none (hinfo : n.info.Neat) (h : n.isRef = false) :
    Table.at? n.entries "$ref" = none := by
  refine at_none hinfo (by decide) ?_
  cases n with
  | ref info target => cases h
  | composition info shape =>
      obtain ⟨kind, rawMembers, members, discriminator, properties, required⟩ := shape
      cases kind <;> simp [fieldNames, CompositionKind.keyword]
  | _ => simp [fieldNames]

/-- Only a composition is written with members. -/
theorem compositionOf_none (hinfo : n.info.Neat) (h : ∀ info shape, n ≠ .composition info shape) :
    compositionOf n.entries = none := by
  refine List.find?_eq_none.mpr fun kind _ => ?_
  have habsent : kind.keyword ∉ n.fieldNames := by
    cases n with
    | composition info shape => exact absurd rfl (h info shape)
    | _ => cases kind <;> simp [fieldNames, CompositionKind.keyword]
  have hnone : Table.at? n.entries kind.keyword = none :=
    part_none hinfo (keyword_mem_fixedNames kind) habsent
  rw [Table.has, hnone]
  simp

/-- The items that were written are read again. -/
theorem rereads_items (path : String) {items : Option Node}
    (hlevels : entriesDepth entries ≤ levels)
    (hfield : field entries "items" = (items.map write).getD .null)
    (h : ∀ item, items = some item → item.Rereads) :
    ∃ others, parseItems (parseWithin "" levels) path (field entries "items") = .ok others ∧
      writeItems others = writeItems items := by
  cases items with
  | none =>
      rw [hfield]
      exact ⟨none, rfl, rfl⟩
  | some item =>
      have hitem : field entries "items" = item.write := hfield
      have hdepth := depth_le_of_field "items" hlevels (by rw [hitem, write_eq]; rfl)
      rw [hitem] at hdepth ⊢
      obtain ⟨m, hm, hwrite⟩ := h item rfl levels hdepth s!"{path}/items"
      refine ⟨some m, ?_, by rw [writeItems, writeItems, hwrite]⟩
      -- what was written is a mapping, so it does not count as absent
      rw [write_eq] at hm ⊢
      exact bind_eq_ok.mpr ⟨m, hm, rfl⟩

/-- Members that were written are read again; members that are no list stay as they are. -/
theorem rereads_members (path : String) {shape : CompositionShape Node} {key : String}
    (hlevels : entriesDepth entries ≤ levels) (hfield : field entries key = membersPart shape)
    (h : ∀ member ∈ shape.members, member.Rereads) :
    ∃ members, parseMembers (parseWithin "" levels) path (field entries key) = .ok members ∧
      ∀ other : CompositionShape Node, other.rawMembers = field entries key →
        other.members = members → membersPart other = membersPart shape := by
  cases hraw : shape.rawMembers with
  | list items =>
      have hlist : field entries key = .list (writeEach shape.members) := by
        rw [hfield, membersPart, hraw]
      have hdepth := depth_le_of_field key hlevels (by rw [hlist]; rfl)
      rw [hlist, Value.depth] at hdepth
      have hitems : itemsDepth (writeEach shape.members) ≤ levels := by omega
      obtain ⟨members, hmembers, hwrites⟩ := rereads_each h hitems path 0
      refine ⟨members, by rw [hlist]; exact hmembers, fun other hother hothers => ?_⟩
      rw [membersPart, membersPart, hother, hlist, hraw, hothers, hwrites]
  | _ =>
      -- nothing was read of members that are no list, and they are written as they were
      have hkept : field entries key = shape.rawMembers := by rw [hfield, membersPart, hraw]
      refine ⟨[], by rw [hkept, hraw]; rfl, fun other hother _ => ?_⟩
      rw [membersPart, membersPart, hother, hkept, hraw]

/-- What was written of other properties is read again, if it is no schema that was not read. -/
theorem rereads_additional (path : String) {additional : Additional Node}
    (hlevels : entriesDepth entries ≤ levels)
    (hfield : field entries "additionalProperties" = (additionalPart additional).getD .null)
    (hschema : ∀ node, additional = .schema node → node.Rereads)
    (hvalue : ∀ v, additional = .value v → v.isMap = false) :
    ∃ other, parseAdditional (parseWithin "" levels) path (field entries "additionalProperties") =
        .ok other ∧
      writeAdditional other = writeAdditional additional := by
  cases additional with
  | schema node =>
      have hnode : field entries "additionalProperties" = node.write := hfield
      have hdepth := depth_le_of_field "additionalProperties" hlevels
        (by rw [hnode, write_eq]; rfl)
      rw [hnode] at hdepth ⊢
      obtain ⟨m, hm, hwrite⟩ := hschema node rfl levels hdepth s!"{path}/additionalProperties"
      refine ⟨.schema m, ?_, by rw [writeAdditional, writeAdditional, hwrite]⟩
      rw [write_eq] at hm ⊢
      exact bind_eq_ok.mpr ⟨m, hm, rfl⟩
  | value v =>
      have hmap := hvalue v rfl
      rw [hfield, additionalPart, getD_unlessNull]
      refine ⟨.value v, ?_, rfl⟩
      cases v with
      | map fields => cases hmap
      | _ => rfl

theorem rereads_properties (path : String) {properties : Table Node}
    (hlevels : entriesDepth entries ≤ levels)
    (hfield : field entries "properties" =
      if properties.isEmpty then .null else .map (writeNamed properties))
    (h : ∀ entry ∈ properties, entry.2.Rereads) :
    ∃ others, parseProperties (parseWithin "" levels) path entries = .ok others ∧
      writeNamed others = writeNamed properties ∧ others.isEmpty = properties.isEmpty := by
  cases properties with
  | nil =>
      refine ⟨[], ?_, rfl, rfl⟩
      rw [parseProperties, hfield]
      rfl
  | cons entry rest =>
      have hmap : field entries "properties" = .map (writeNamed (entry :: rest)) := hfield
      have hdepth := depth_le_of_field "properties" hlevels (by rw [hmap]; rfl)
      rw [hmap, Value.depth] at hdepth
      have hentries : entriesDepth (writeNamed (entry :: rest)) ≤ levels := by omega
      obtain ⟨others, hothers, hwrites⟩ := rereads_named h hentries path
      refine ⟨others, ?_, hwrites, ?_⟩
      · rw [parseProperties, hmap]
        exact hothers
      · cases others with
        | nil => cases hwrites
        | cons other more => rfl

theorem requiredNames_written {names : List Value}
    (hfield : field entries "required" = if names.isEmpty then .null else .list names) :
    requiredNames entries = .ok names := by
  rw [requiredNames, hfield]
  cases names <;> rfl

theorem rebaseTargets_local (targets : Table Value) : rebaseTargets "" targets = .ok targets := by
  induction targets with
  | nil => rfl
  | cons entry rest ih =>
      obtain ⟨name, target⟩ := entry
      rw [rebaseTargets, rebaseValue_local, ih]
      rfl

/-- A discriminator that names a property is read again as it is. -/
theorem discriminator_written {d : Option Discriminator}
    (hname : ∀ given, d = some given → given.propertyName.truthy = true)
    (hfield : field entries "discriminator" = (d.map Discriminator.write).getD .null) :
    discriminator "" entries = .ok d := by
  rw [discriminator, hfield]
  cases d with
  | none => rfl
  | some given =>
      have htruthy := hname given rfl
      obtain ⟨propertyName, mapping⟩ := given
      dsimp only at htruthy
      cases mapping with
      | nil =>
          have hnull : Value.null.truthy = false := rfl
          simp [Discriminator.write, record, field, htruthy, hnull]
      | cons entry rest =>
          have hmapping : (Value.map (entry :: rest)).truthy = true := rfl
          simp [Discriminator.write, record, field, htruthy, hmapping, rebaseTargets_local]

end Fields

section Kinds

theorem writeArray_eq (shape : ArrayShape Node) :
    writeArray shape = [(.str "type", .str "array")] ++ writeItems shape.items ++
      fieldUnlessNull "minItems" shape.minItems ++ fieldUnlessNull "maxItems" shape.maxItems ++
      fieldIf shape.uniqueItems "uniqueItems" (.bool true) ++
      fieldIf shape.nullable "nullable" (.bool true) := by
  cases shape
  rfl

theorem writeObject_eq (shape : ObjectShape Node) :
    writeObject shape = [(.str "type", .str "object")] ++
      fieldIf (!shape.properties.isEmpty) "properties" (.map (writeNamed shape.properties)) ++
      fieldIf (!shape.required.isEmpty) "required" (.list shape.required) ++
      writeAdditional shape.additional ++ fieldIf shape.nullable "nullable" (.bool true) ++
      discriminatorField shape.discriminator ++
      fieldIf (!shape.oneOfVariants.isEmpty) "oneOfVariants"
        (.list (writeVariants shape.oneOfVariants)) ++
      fieldIf (!shape.anyOfVariants.isEmpty) "anyOfVariants"
        (.list (writeVariants shape.anyOfVariants)) := by
  cases shape
  rfl

theorem writeComposition_eq (shape : CompositionShape Node) :
    writeComposition shape = [(.str shape.kind.keyword, membersPart shape)] ++
      discriminatorField shape.discriminator ++
      fieldIf (!shape.properties.isEmpty) "properties" (.map (writeNamed shape.properties)) ++
      fieldIf (!shape.required.isEmpty) "required" (.list shape.required) := by
  cases shape
  rfl

variable {info : NodeInfo} (hinfo : info.Neat)
include hinfo

theorem rereads_ref (target : Value) : (Node.ref info target).Rereads := by
  refine rereads_of_parsed hinfo fun levels _ place => ?_
  exact ⟨.ref _ target, .ref (part_ref hinfo target) (rebaseValue_local target), rfl, rfl⟩

theorem rereads_array {shape : ArrayShape Node} (h : ∀ item, shape.items = some item → item.Rereads) :
    (Node.array info shape).Rereads := by
  have hneat : (Node.array info shape).info.Neat := hinfo
  have hfield {key : String} (hkey : key ∈ bodyNames) :
      field (Node.array info shape).entries key = field (writeArray shape) key :=
    field_body hneat hkey
  have htype : field (Node.array info shape).entries "type" = .str "array" := by
    rw [hfield (by decide)]
    simp [field, writeArray_eq]
  have hitems : field (Node.array info shape).entries "items" =
      (shape.items.map write).getD .null := by
    rw [hfield (by decide)]
    simp [field, writeArray_eq]
  have hminItems : field (Node.array info shape).entries "minItems" = shape.minItems := by
    rw [hfield (by decide)]
    simp [field, writeArray_eq, getD_unlessNull]
  have hmaxItems : field (Node.array info shape).entries "maxItems" = shape.maxItems := by
    rw [hfield (by decide)]
    simp [field, writeArray_eq, getD_unlessNull]
  have hunique : (field (Node.array info shape).entries "uniqueItems").truthy =
      shape.uniqueItems := by
    rw [hfield (by decide)]
    simp [field, writeArray_eq, truthy_switch]
  have hnullable : (field (Node.array info shape).entries "nullable").truthy = shape.nullable := by
    rw [hfield (by decide)]
    simp [field, writeArray_eq, truthy_switch]
  refine rereads_of_parsed hneat fun levels hlevels place => ?_
  obtain ⟨items, hread, hwrites⟩ := rereads_items place hlevels hitems h
  refine ⟨_, .array (at_target_none hneat rfl) (compositionOf_none hneat (by simp)) ?_
    (parseArray_eq_ok.mpr ⟨items, hread, rfl⟩), rfl, ?_⟩
  · rw [declaredTypeOf_single htype (by simp)]
    rfl
  · rw [declaredTypeOf_single htype (by simp), hminItems, hmaxItems, hunique, hnullable]
    simp only [fields, writeArray_eq, hwrites]

theorem rereads_object {shape : ObjectShape Node}
    (hproperties : ∀ entry ∈ shape.properties, entry.2.Rereads)
    (hschema : ∀ node, shape.additional = .schema node → node.Rereads)
    (hvalue : ∀ v, shape.additional = .value v → v.isMap = false)
    (hname : ∀ d, shape.discriminator = some d → d.propertyName.truthy = true)
    (honeOf : shape.oneOfVariants = []) (hanyOf : shape.anyOfVariants = []) :
    (Node.object info shape).Rereads := by
  have hneat : (Node.object info shape).info.Neat := hinfo
  have hpart (key : String) : field (Node.object info shape).entries key =
      ((Node.object info shape).part? key).getD .null := rfl
  have htype : field (Node.object info shape).entries "type" = .str "object" := by
    rw [hpart, part_type_object hinfo]
    rfl
  have hnamed : field (Node.object info shape).entries "properties" =
      if shape.properties.isEmpty then .null else .map (writeNamed shape.properties) := by
    rw [hpart, part_properties_object hinfo]
    cases shape.properties.isEmpty <;> rfl
  have hrequired : field (Node.object info shape).entries "required" =
      if shape.required.isEmpty then .null else .list shape.required := by
    rw [hpart, part_required_object hinfo]
    cases shape.required.isEmpty <;> rfl
  have hadditional : field (Node.object info shape).entries "additionalProperties" =
      (additionalPart shape.additional).getD .null := by
    rw [hpart, part_additional_object hinfo]
  have hnullable : (field (Node.object info shape).entries "nullable").truthy = shape.nullable := by
    rw [hpart, part_nullable_object hinfo, truthy_switch]
  have hdiscriminator : field (Node.object info shape).entries "discriminator" =
      (shape.discriminator.map Discriminator.write).getD .null := by
    rw [hpart, part_discriminator_object hinfo]
  refine rereads_of_parsed hneat fun levels hlevels place => ?_
  obtain ⟨properties, hproperties, hwrites, hempty⟩ :=
    rereads_properties place hlevels hnamed hproperties
  obtain ⟨additional, hother, hwrite⟩ :=
    rereads_additional place hlevels hadditional hschema hvalue
  -- the type is written, so the schema is an object also without properties
  refine ⟨_, .object (at_target_none hneat rfl) (compositionOf_none hneat (by simp)) ?_ ?_
    (parseObject_eq_ok.mpr ⟨additional, properties, shape.required, shape.discriminator, hother,
      hproperties, requiredNames_written hrequired, discriminator_written hname hdiscriminator,
      rfl⟩), rfl, ?_⟩
  · rw [declaredTypeOf_single htype (by simp)]
    rfl
  · rw [isObject, declaredTypeOf_single htype (by simp)]
    rfl
  · rw [declaredTypeOf_single htype (by simp), hnullable]
    simp only [fields, writeObject_eq, hempty, hwrites, hwrite, honeOf, hanyOf]

/-- The composition whose members were written is found again. -/
theorem compositionOf_written (shape : CompositionShape Node) :
    compositionOf (Node.composition info shape).entries = some shape.kind := by
  have hhas : ∀ kind : CompositionKind,
      Table.has (Node.composition info shape).entries kind.keyword = decide (kind = shape.kind) := by
    intro kind
    by_cases hkind : kind = shape.kind
    · have hpart := part_members hinfo shape
      unfold part? at hpart
      rw [hkind, Table.has, hpart]
      simp
    · have hnone := part_none (n := .composition info shape) hinfo (keyword_mem_fixedNames kind)
        (by cases kind <;> cases hshape : shape.kind <;> simp_all [fieldNames, CompositionKind.keyword])
      unfold part? at hnone
      rw [Table.has, hnone]
      simp [hkind]
  -- the first keyword that is present is the only one
  unfold compositionOf
  rw [funext hhas]
  cases shape.kind <;> rfl

theorem rereads_composition {shape : CompositionShape Node}
    (hmembers : ∀ member ∈ shape.members, member.Rereads)
    (hproperties : ∀ entry ∈ shape.properties, entry.2.Rereads)
    (hname : ∀ d, shape.discriminator = some d → d.propertyName.truthy = true) :
    (Node.composition info shape).Rereads := by
  have hneat : (Node.composition info shape).info.Neat := hinfo
  have hpart (key : String) : field (Node.composition info shape).entries key =
      ((Node.composition info shape).part? key).getD .null := rfl
  have hnamed : field (Node.composition info shape).entries "properties" =
      if shape.properties.isEmpty then .null else .map (writeNamed shape.properties) := by
    rw [hpart, part_properties_composition hinfo]
    cases shape.properties.isEmpty <;> rfl
  have hrequired : field (Node.composition info shape).entries "required" =
      if shape.required.isEmpty then .null else .list shape.required := by
    rw [hpart, part_required_composition hinfo]
    cases shape.required.isEmpty <;> rfl
  have hdiscriminator : field (Node.composition info shape).entries "discriminator" =
      (shape.discriminator.map Discriminator.write).getD .null := by
    rw [hpart, part_discriminator_composition hinfo]
  have hlisted : field (Node.composition info shape).entries shape.kind.keyword =
      membersPart shape := by
    rw [hpart, part_members hinfo]
    rfl
  refine rereads_of_parsed hneat fun levels hlevels place => ?_
  obtain ⟨properties, hproperties, hwrites, hempty⟩ :=
    rereads_properties place hlevels hnamed hproperties
  obtain ⟨members, hread, hwritten⟩ := rereads_members
    s!"{place}/{shape.kind.keyword}" hlevels hlisted hmembers
  refine ⟨_, .composition (at_target_none hneat rfl) (compositionOf_written hinfo shape)
    (parseComposition_eq_ok.mpr ⟨members, shape.discriminator, properties, shape.required, hread,
      discriminator_written hname hdiscriminator, hproperties, requiredNames_written hrequired,
      rfl⟩), rfl, ?_⟩
  rw [fields, fields, writeComposition_eq, writeComposition_eq, hwritten _ rfl rfl]
  simp only [hempty, hwrites]

end Kinds

end Node

end SchemaGraph
