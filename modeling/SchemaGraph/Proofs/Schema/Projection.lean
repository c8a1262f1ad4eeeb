import SchemaGraph.Proofs.Schema.Reread

/-!
# Reading and writing is a projection

A schema of JSON whose types are null, texts or lists of texts is read as a schema that rereads.  So
what is written for it is read again, and is written the same: reading undoes writing on everything
that was written, and writing after reading changes nothing the second time.

For primitives this needs the types to be names.  A type that is guessed from the choices is written
and read as a declared one, and the bounds that are kept are those of that type.
-/

namespace SchemaGraph

/-- The bounds, in the order of their keywords. -/
def Constraints.values (c : Constraints) : List Value :=
  [c.minLength, c.maxLength, c.pattern, c.minimum, c.maximum, c.exclusiveMinimum,
    c.exclusiveMaximum, c.multipleOf]

/-- Primitives as reading gives them: the type is a name; where none is known, the choices do not
tell it; the bounds are those of the type. -/
structure PrimitiveShape.Told (shape : PrimitiveShape) : Prop where
  named : ∃ name, shape.typeName = .str name
  untold : shape.typeName = .str "" → ∀ first rest, shape.choices = some (first :: rest) →
    Node.typeOfChoice first = ""
  bounded : ∃ entries, shape.constraints = Node.constraints shape.typeName entries

namespace Value

/-- Whether a value is a name of a type, a list of such names, or none. -/
def isTypeName : Value → Bool
  | .null | .str _ => true
  | .list names => names.all fun
    | .str _ => true
    | _ => false
  | _ => false

/-- Values that may be read as schemas: at every depth, the type of a schema is a name, a list of
names, or none. -/
inductive Typed : Value → Prop where
  | plain {v : Value} (h : v.isMap = false) : Typed v
  | schema {entries : List (Value × Value)}
      (htype : (Node.field entries "type").isTypeName = true)
      (hitems : Typed (Node.field entries "items"))
      (hadditional : Typed (Node.field entries "additionalProperties"))
      (hproperties : ∀ named, Node.field entries "properties" = .map named →
        ∀ entry ∈ named, Typed entry.2)
      (hmembers : ∀ kind : CompositionKind, ∀ items, Node.field entries kind.keyword = .list items →
        ∀ item ∈ items, Typed item) : Typed (.map entries)

end Value

namespace Node

open Value

section Bounds

/-- The bounds that were written. -/
def writeBounds (c : Constraints) : List (Value × Value) :=
  (c.fields Constraints.keywords).map fun field => (.str field.1, field.2)

/-- What is left out as null is read as null. -/
theorem field_given {fields : List (String × Value)} (hnames : (fields.map (·.1)).Nodup)
    {name : String} {v : Value} (h : (name, v) ∈ fields) :
    field ((fields.filter fun f => !f.2.isNull).map fun f => ((.str f.1, f.2) : Value × Value))
      name = v := by
  induction fields with
  | nil => exact absurd h (by simp)
  | cons first rest ih =>
      obtain ⟨other, item⟩ := first
      rw [List.map_cons, List.nodup_cons] at hnames
      rcases List.mem_cons.mp h with heq | hin
      · obtain ⟨rfl, rfl⟩ := Prod.mk.inj heq
        -- The first field: it is found at once, or left out and not among the others.
        cases hnull : v.isNull with
        | false => simp [field, hnull]
        | true =>
            have habsent : Table.at? ((rest.filter fun f => !f.2.isNull).map fun f =>
                ((.str f.1, f.2) : Value × Value)) name = none := by
              refine at_none_of_sublist ?_ hnames.1
              rw [List.map_map, List.map_map]
              exact List.filter_sublist.map _
            rw [List.filter_cons_of_neg (by simp [hnull]), field, habsent]
            cases v with
            | null => rfl
            | _ => cases hnull
      · have hmem : name ∈ rest.map (·.1) :=
          List.mem_map_of_mem (f := fun f : String × Value => f.1) hin
        have hne : other ≠ name := by
          rintro rfl
          exact hnames.1 hmem
        have hrest := ih hnames.2 hin
        unfold field at hrest ⊢
        cases hnull : item.isNull with
        | false => simpa [hnull, hne] using hrest
        | true => simpa [hnull] using hrest

theorem field_writeBounds {c : Constraints} {name : String} {v : Value}
    (h : (name, v) ∈ Constraints.keywords.zip c.values) : field (writeBounds c) name = v := by
  have hnames : ((Constraints.keywords.zip c.values).map (·.1)).Nodup :=
    show Constraints.keywords.Nodup by decide
  exact field_given hnames h

/-- Bounds that stand under their keywords are read as the bounds of the type. -/
theorem constraints_of_fields {typeName : Value} {entries written : Table Value}
    (h : ∀ name v, (name, v) ∈ Constraints.keywords.zip (constraints typeName entries).values →
      field written name = v) : constraints typeName written = constraints typeName entries := by
  unfold constraints at h ⊢
  split
  · simp_all [Constraints.keywords, Constraints.values]
  · split
    · simp_all [Constraints.keywords, Constraints.values]
    · rfl

/-- A type that does not count as given has no bounds. -/
theorem constraints_orElse (typeName : Value) (entries : Table Value) :
    constraints (typeName.orElse (.str "")) entries = constraints typeName entries := by
  unfold orElse
  cases h : typeName.truthy with
  | true => rw [if_pos rfl]
  | false =>
      rw [if_neg (by simp)]
      cases typeName with
      | str s =>
          have hempty : s = "" := by simpa [truthy] using h
          rw [hempty]
      | _ => rfl

end Bounds

section Primitives

/-- The choices of a primitive that were written. -/
def writeChoices : Option (List Value) → List (Value × Value)
  | none => []
  | some choices => [(.str "enum", .list choices)]

@[simp] theorem at_writeChoices (choices : Option (List Value)) (key : String) :
    Table.at? (writeChoices choices) key = if "enum" = key then choices.map .list else none := by
  cases choices <;> simp [writeChoices]

theorem writePrimitive_eq (shape : PrimitiveShape) :
    writePrimitive shape = fieldIf shape.typeName.truthy "type" shape.typeName ++
      fieldIf shape.format.truthy "format" shape.format ++ writeChoices shape.choices ++
      fieldIf shape.nullable "nullable" (.bool true) ++ writeBounds shape.constraints := by
  obtain ⟨typeName, format, choices, nullable, constraints⟩ := shape
  cases choices <;> rfl

theorem at_writeBounds_none {c : Constraints} {key : String} (h : key ∉ Constraints.keywords) :
    Table.at? (writeBounds c) key = none :=
  at_none_of_sublist (constraints_sublist c) h

variable {info : NodeInfo} (hinfo : info.Neat) (shape : PrimitiveShape)
include hinfo

/-- Under a name that is none of a bound stands another field. -/
theorem field_primitive {key : String} (hkey : key ∈ bodyNames) (hother : key ∉ Constraints.keywords) :
    field (Node.primitive info shape).entries key =
      field (fieldIf shape.typeName.truthy "type" shape.typeName ++
        fieldIf shape.format.truthy "format" shape.format ++ writeChoices shape.choices ++
        fieldIf shape.nullable "nullable" (.bool true)) key := by
  rw [field_body (n := .primitive info shape) hinfo hkey]
  simp only [field, fields, writePrimitive_eq, Table.at_append, at_writeBounds_none hother,
    Option.or_none]

theorem field_bound {name : String} {v : Value}
    (h : (name, v) ∈ Constraints.keywords.zip shape.constraints.values) :
    field (Node.primitive info shape).entries name = v := by
  have hname : name ∈ Constraints.keywords := (List.of_mem_zip h).1
  have hkeywords : ∀ key ∈ Constraints.keywords, "type" ≠ key ∧ "format" ≠ key ∧ "enum" ≠ key ∧
      "nullable" ≠ key ∧ key ∈ bodyNames := by decide
  obtain ⟨htype, hformat, henum, hnullable, hbody⟩ := hkeywords name hname
  rw [field_body (n := .primitive info shape) hinfo hbody, ← field_writeBounds h]
  simp only [field, fields, writePrimitive_eq, Table.at_append, at_fieldIf, at_writeChoices,
    if_neg htype, if_neg hformat, if_neg henum, if_neg hnullable, Option.none_or]

omit hinfo in
/-- A type that is told is the one that is read again. -/
theorem primitiveType_told {shape : PrimitiveShape} (htold : shape.Told) :
    ∃ declared, primitiveType (shape.typeName.orElse .null)
        ((shape.choices.map .list).getD .null) = .ok declared ∧
      declared.orElse (.str "") = shape.typeName := by
  obtain ⟨name, hname⟩ := htold.named
  by_cases hempty : name = ""
  · rw [hempty] at hname
    rw [hname]
    cases hchoices : shape.choices with
    | none => exact ⟨.null, rfl, rfl⟩
    | some choices =>
        cases choices with
        | nil => exact ⟨.null, rfl, rfl⟩
        | cons first rest =>
            have hfirst := htold.untold hname first rest hchoices
            exact ⟨.str (typeOfChoice first), rfl, by rw [hfirst]; rfl⟩
  · have htruthy : (Value.str name).truthy = true := by simpa [truthy] using hempty
    refine ⟨.str name, ?_, ?_⟩
    · rw [hname, orElse, if_pos htruthy, primitiveType, htruthy]
      rfl
    · rw [hname, orElse, if_pos htruthy]

omit hinfo in
/-- The name of the type of a primitive is written as a text, and is not that of another kind. -/
theorem typeName_told {shape : PrimitiveShape} (htold : shape.Told) (hneat : shape.Neat) :
    (∀ types, shape.typeName.orElse .null ≠ .list types) ∧
      (shape.typeName.orElse .null).isText "array" = false ∧
      (shape.typeName.orElse .null).isText "object" = false := by
  obtain ⟨name, hname⟩ := htold.named
  obtain ⟨-, harray, hobject⟩ := hneat
  rw [hname] at harray hobject ⊢
  unfold orElse
  split
  · simpa [isText] using And.intro harray hobject
  · simp [isText]

theorem rereads_primitive {shape : PrimitiveShape} (htold : shape.Told) (hneat : shape.Neat) :
    (Node.primitive info shape).Rereads := by
  obtain ⟨hlist, harray, hobject⟩ := typeName_told htold hneat
  have htype : field (Node.primitive info shape).entries "type" = shape.typeName.orElse .null := by
    rw [field_primitive hinfo shape (by decide) (by decide)]
    cases htruthy : shape.typeName.truthy <;> simp [field, orElse, htruthy]
  have hformat : field (Node.primitive info shape).entries "format" =
      shape.format.orElse .null := by
    rw [field_primitive hinfo shape (by decide) (by decide)]
    cases htruthy : shape.format.truthy <;> simp [field, orElse, htruthy]
  have henum : field (Node.primitive info shape).entries "enum" =
      (shape.choices.map .list).getD .null := by
    rw [field_primitive hinfo shape (by decide) (by decide)]
    simp [field]
  have hnullable : (field (Node.primitive info shape).entries "nullable").truthy =
      shape.nullable := by
    rw [field_primitive hinfo shape (by decide) (by decide)]
    simp [field, truthy_switch]
  have hchoices : listChoices ((shape.choices.map .list).getD .null) = .ok shape.choices := by
    cases shape.choices <;> rfl
  have hproperties : Table.at? (Node.primitive info shape).entries "properties" = none :=
    at_none (n := .primitive info shape) hinfo (by decide) (by simp [fieldNames])
  have hadditional : Table.at? (Node.primitive info shape).entries "additionalProperties" = none :=
    at_none (n := .primitive info shape) hinfo (by decide) (by simp [fieldNames])
  obtain ⟨declared, hdeclared, hsame⟩ := primitiveType_told htold
  obtain ⟨entries, hbounds⟩ := htold.bounded
  have hconstraints : constraints declared (Node.primitive info shape).entries =
      shape.constraints := by
    rw [← constraints_orElse, hsame, hbounds]
    refine constraints_of_fields fun name v h => ?_
    rw [← hbounds] at h
    exact field_bound hinfo shape h
  -- read again, the declared type is the told one, and with it the bounds are the same
  refine rereads_of_parsed (n := .primitive info shape) hinfo fun levels _ place => ?_
  have hsingle := declaredTypeOf_single htype hlist
  refine ⟨_, .primitive (at_target_none hinfo rfl) (compositionOf_none hinfo (by simp)) ?_ ?_
    (parsePrimitive_eq_ok.mpr ⟨declared, shape.choices, ?_, ?_, rfl⟩), rfl, ?_⟩
  · rw [hsingle]
    exact harray
  · rw [isObject, hsingle, Table.has, Table.has, hproperties, hadditional]
    simpa using hobject
  · rw [hsingle, henum, hdeclared]
  · rw [henum, hchoices]
  · rw [hsingle, hsame, hformat, hnullable, hconstraints]
    simp only [fields, writePrimitive_eq, fieldIf_orElse]

end Primitives

section Reading

/-- A discriminator that is read names a property. -/
theorem truthy_discriminator {base : String} {entries : Table Value} {d : Option Discriminator}
    (h : discriminator base entries = .ok d) :
    ∀ given, d = some given → given.propertyName.truthy = true := by
  rintro given rfl
  rw [discriminator] at h
  cases hfield : field entries "discriminator" with
  | map fields =>
      rw [hfield] at h
      dsimp only at h
      cases htruthy : (field fields "propertyName").truthy with
      | false =>
          rw [htruthy] at h
          cases h
      | true =>
          rw [htruthy] at h
          cases hmapping : (field fields "mapping").truthy with
          | false =>
              rw [hmapping] at h
              rw [← Option.some.inj (Except.ok.inj h)]
              exact htruthy
          | true =>
              rw [hmapping] at h
              cases htargets : field fields "mapping" with
              | map targets =>
                  rw [htargets] at h
                  obtain ⟨mapping, -, h⟩ := bind_eq_ok.mp h
                  rw [← Option.some.inj (Except.ok.inj h)]
                  exact htruthy
              | _ =>
                  rw [htargets] at h
                  cases h
  | _ =>
      rw [hfield] at h
      cases h

/-- The declared type is a name or none. -/
theorem declaredTypeOf_typed {entries : Table Value}
    (h : (field entries "type").isTypeName = true) :
    (declaredTypeOf entries).1 = .null ∨ ∃ name, (declaredTypeOf entries).1 = .str name := by
  unfold declaredTypeOf
  cases hfield : field entries "type" with
  | null => exact Or.inl rfl
  | str name => exact Or.inr ⟨name, rfl⟩
  | list types =>
      rw [hfield] at h
      dsimp only
      cases hfirst : (types.filter fun t => !t.isText "null").head? with
      | none => exact Or.inl rfl
      | some first =>
          have hmem := List.mem_of_mem_filter (List.mem_of_head? hfirst)
          have hname := List.all_eq_true.mp h first hmem
          cases first with
          | str name => exact Or.inr ⟨name, rfl⟩
          | _ => cases hname
  | _ =>
      rw [hfield] at h
      cases h

/-- What can be listed and is not empty counts as given. -/
theorem truthy_of_iterate {v first : Value} {rest : List Value}
    (h : v.iterate = .ok (first :: rest)) : v.truthy = true := by
  cases v with
  | list items =>
      rw [Except.ok.inj h]
      rfl
  | str s =>
      have hs : s ≠ "" := by
        rintro rfl
        cases Except.ok.inj h
      simpa [truthy] using hs
  | map entries =>
      cases entries with
      | nil => cases Except.ok.inj h
      | cons entry rest => rfl
  | bytes octets =>
      cases octets with
      | nil => cases Except.ok.inj h
      | cons octet rest => rfl
  | set members =>
      rw [Except.ok.inj h]
      rfl
  | _ => cases h

/-- A mapping of JSON has nothing under a number, so only lists and texts have a first item. -/
theorem firstItem_eq {v first told : Value} {rest : List Value} (hv : v.isJson = true)
    (h : v.iterate = .ok (first :: rest)) (htold : firstItem v = .ok told) : told = first := by
  cases v with
  | list items =>
      rw [Except.ok.inj h] at htold
      exact (Except.ok.inj htold).symm
  | str s =>
      have hlist := Except.ok.inj h
      cases hs : s.toList with
      | nil =>
          rw [hs] at hlist
          cases hlist
      | cons c more =>
          rw [hs, List.map_cons] at hlist
          rw [firstItem, hs] at htold
          rw [← Except.ok.inj htold, (List.cons.inj hlist).1]
  | map entries =>
      have hnone : Table.get? entries (.int 0) = none := by
        rw [Table.get_eq_entry (keyed_of_entriesJson hv) (a := .number 0) (by simp [atom?])]
        cases hfound : Table.slot? entries (.number 0) with
        | none => rfl
        | some entry =>
            obtain ⟨⟨key, hkey⟩, -⟩ := isJson_of_mem_entries hv (Table.mem_of_entry hfound)
            have hatom := Table.atom_of_entry hfound
            rw [hkey, atom_str] at hatom
            cases hatom
      rw [firstItem, hnone] at htold
      cases htold
  | bytes octets => exact absurd hv (by simp [isJson])
  | _ => cases htold

theorem orElse_text (s : String) : (Value.str s).orElse (.str "") = .str s := by
  unfold orElse
  cases h : (Value.str s).truthy with
  | true => rfl
  | false =>
      have hempty : s = "" := by simpa [truthy] using h
      rw [hempty]
      rfl

/-- A primitive that is read of typed entries tells its type. -/
theorem told_parsePrimitive {entries : Table Value} {typeName declared : Value}
    {choices : Option (List Value)} {nullable : Bool} (hentries : entriesJson entries = true)
    (htype : typeName = .null ∨ ∃ name, typeName = .str name)
    (hdeclared : primitiveType typeName (field entries "enum") = .ok declared)
    (hchoices : listChoices (field entries "enum") = .ok choices) :
    PrimitiveShape.Told ⟨declared.orElse (.str ""), field entries "format", choices, nullable,
      constraints declared entries⟩ where
  named := by
    rcases primitiveType_eq_ok.mp hdeclared with ⟨-, -, told, -, rfl⟩ | ⟨-, rfl⟩
    · exact ⟨typeOfChoice told, orElse_text _⟩
    · rcases htype with rfl | ⟨name, rfl⟩
      · exact ⟨"", rfl⟩
      · exact ⟨name, orElse_text name⟩
  untold := by
    intro hempty first rest hsome
    dsimp only at hempty hsome
    rw [hsome] at hchoices
    have hlisted := listChoices_eq_some.mp hchoices
    rcases primitiveType_eq_ok.mp hdeclared with ⟨-, -, told, htold, rfl⟩ | ⟨hgiven, rfl⟩
    · rw [orElse_text] at hempty
      rw [← firstItem_eq (isJson_field hentries "enum") hlisted htold]
      exact Value.str.inj hempty
    · -- The type was given, and then it is not empty.
      rcases hgiven with htruthy | hfalsy
      · rw [orElse, if_pos htruthy] at hempty
        rw [hempty] at htruthy
        cases htruthy
      · rw [truthy_of_iterate hlisted] at hfalsy
        cases hfalsy
  bounded := ⟨entries, (constraints_orElse declared entries).symm⟩

/-- The properties of typed entries are read as schemas that reread. -/
theorem rereads_parseProperties {read : Value → String → Except Failure Node} {path : String}
    (hread : ∀ item path n, item.isJson = true ∧ item.Typed → read item path = .ok n → n.Rereads)
    {entries : Table Value} {properties : Table Node} (hentries : entriesJson entries = true)
    (htyped : ∀ named, field entries "properties" = .map named → ∀ entry ∈ named, entry.2.Typed)
    (h : parseProperties read path entries = .ok properties) :
    ∀ entry ∈ properties, entry.2.Rereads := by
  rcases parseProperties_eq_ok.mp h with ⟨-, rfl⟩ | ⟨-, named, hnamed, h⟩
  · exact fun _ hentry => absurd hentry (by simp)
  · have hjson := isJson_of_field hentries hnamed
    refine forall_parseNamed hread (fun entry hentry => ?_) h
    exact ⟨(isJson_of_mem_entries hjson hentry).2, htyped named hnamed entry hentry⟩

/-- Reading a typed value of JSON gives a schema that rereads. -/
theorem rereads_parseWithin (base : String) (levels : Nat) :
    ∀ v path n, v.isJson = true ∧ v.Typed → parseWithin base levels v path = .ok n →
      n.Rereads := by
  induction levels with
  | zero =>
      intro v path n _ h
      cases h
  | succ levels ih =>
      rintro v path n ⟨hv, htyped⟩ h
      -- what is read is neat, so its annotations and its type are written apart from the rest
      have hlabelled := (sound_parseWithin base (levels + 1) v path n hv h).1.labelled
      cases htyped with
      | plain hmap =>
          cases v with
          | map entries => cases hmap
          | _ => cases h
      | @schema entries htype hitems hadditional hproperties hmembers =>
          have hfield := isJson_field hv
          obtain ⟨table, -, hparsed⟩ := parseEntries_eq_ok.mp h
          cases hparsed with
          | ref href hrebased => exact rereads_ref hlabelled _
          | @composition kind _ href hkind h =>
              obtain ⟨members, d, properties, required, hread, hd, hnamed, -, rfl⟩ :=
                parseComposition_eq_ok.mp h
              refine rereads_composition hlabelled ?_
                (rereads_parseProperties ih hv hproperties hnamed) (truthy_discriminator hd)
              rcases parseMembers_eq_ok.mp hread with ⟨items, hlist, h⟩ | ⟨-, rfl⟩
              · have hjson := hfield kind.keyword
                rw [hlist] at hjson
                refine forall_parseEach ih (fun item hitem => ?_) h
                exact ⟨isJson_of_mem_items hjson hitem, hmembers kind items hlist item hitem⟩
              · exact fun _ hmember => absurd hmember (by simp)
          | array href hkind _ h =>
              obtain ⟨items, hread, rfl⟩ := parseArray_eq_ok.mp h
              refine rereads_array hlabelled ?_
              rintro item rfl
              rcases parseItems_eq_ok.mp hread with ⟨-, hnone⟩ | ⟨-, found, hfound, hsome⟩
              · cases hnone
              · rw [Option.some.inj hsome]
                exact ih _ _ _ ⟨hfield _, hitems⟩ hfound
          | object href hkind _ _ h =>
              obtain ⟨additional, properties, required, d, hother, hnamed, -, hd, rfl⟩ :=
                parseObject_eq_ok.mp h
              refine rereads_object hlabelled (rereads_parseProperties ih hv hproperties hnamed)
                ?_ ?_ (truthy_discriminator hd) rfl rfl
              · rintro node rfl
                rcases parseAdditional_eq_ok.mp hother with ⟨-, found, hfound, heq⟩ | ⟨-, heq⟩
                · rw [Additional.schema.inj heq]
                  exact ih _ _ _ ⟨hfield _, hadditional⟩ hfound
                · cases heq
              · rintro v rfl
                rcases parseAdditional_eq_ok.mp hother with ⟨-, found, -, heq⟩ | ⟨hmap, heq⟩
                · cases heq
                · rw [Additional.value.inj heq]
                  exact hmap
          | primitive href hkind _ _ h =>
              obtain ⟨declared, choices, hdeclared, hchoices, rfl⟩ := parsePrimitive_eq_ok.mp h
              exact rereads_primitive hlabelled.1
                (told_parsePrimitive hv (declaredTypeOf_typed htype) hdeclared hchoices) hlabelled.2

/-- A schema that was written is read again, and is written the same. -/
theorem write_reread {base path : String} {v : Value} {n : Node} (hv : v.isJson = true)
    (htyped : v.Typed) (h : parse base v path = .ok n) (place : String) :
    ∃ m, parse "" n.write place = .ok m ∧ m.write = n.write :=
  rereads_parseWithin base v.depth v path n ⟨hv, htyped⟩ h n.write.depth le_rfl place

/-- An object with a type that is a list, a type that is told by the choices, and a composition that
is no list. -/
def mixedSchema : Value :=
  record [("type", .str "object"), ("title", .str ""),
    ("properties", record
      [("id", record [("type", texts ["null", "string"]), ("minLength", .int 1)]),
        ("kind", record [("enum", texts ["cat", "dog"]), ("pattern", .str "c|d")]),
        ("other", record [("oneOf", .str "none"), ("x-note", .int 1)])]),
    ("additionalProperties", .bool false)]

theorem typed_mixedSchema : mixedSchema.Typed := by
  have hleaf : ∀ item ∈ [record [("type", texts ["null", "string"]), ("minLength", .int 1)],
      record [("enum", texts ["cat", "dog"]), ("pattern", .str "c|d")],
      record [("oneOf", .str "none"), ("x-note", .int 1)]], item.Typed := by
    intro item hitem
    simp only [List.mem_cons, List.not_mem_nil, or_false] at hitem
    rcases hitem with rfl | rfl | rfl <;>
      refine .schema rfl (.plain rfl) (.plain rfl) (fun _ h => nomatch h) fun kind items h => ?_ <;>
      cases kind <;> cases h
  refine .schema rfl (.plain rfl) (.plain rfl) (fun named hnamed entry hentry => ?_)
    fun kind items h => ?_
  · rw [← Value.map.inj hnamed] at hentry
    exact hleaf entry.2 (List.mem_map_of_mem (f := fun e : Value × Value => e.2) hentry)
  · cases kind <;> cases h

theorem mixedSchema_reread : mixedSchema.isJson = true ∧ mixedSchema.Typed ∧
    ∃ n, parse "" mixedSchema "#" = .ok n ∧
      ∃ m, parse "" n.write "#" = .ok m ∧ m.write = n.write := by
  have hread : ∃ n, parse "" mixedSchema "#" = .ok n := ⟨_, rfl⟩
  obtain ⟨n, hn⟩ := hread
  exact ⟨rfl, typed_mixedSchema, n, hn, write_reread rfl typed_mixedSchema hn "#"⟩

end Reading

end Node

end SchemaGraph
