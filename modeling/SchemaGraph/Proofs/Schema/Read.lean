import SchemaGraph.Proofs.Schema.Neat
import SchemaGraph.Proofs.Schema.Parsed
import SchemaGraph.Proofs.Value.Inherited

/-!
# Schemas that are read

A schema that is read from a value of JSON is neat and is written as a value of JSON again.  The
proof follows the reading: what holds of the schemas one level below holds of the schema itself.
-/

namespace SchemaGraph

namespace Node

open Value

/-- Neat, and written as a value of JSON. -/
def Sound (n : Node) : Prop := n.Neat ∧ n.write.isJson = true

section Values

theorem isJson_iterate {v : Value} {items : List Value} (hv : v.isJson = true)
    (h : v.iterate = .ok items) : ∀ item ∈ items, item.isJson = true := by
  cases v with
  | list listed =>
      rw [← Except.ok.inj h]
      exact (itemsJson_iff listed).mp hv
  | str s =>
      rw [← Except.ok.inj h]
      intro item hitem
      obtain ⟨c, -, rfl⟩ := List.mem_map.mp hitem
      rfl
  | map entries =>
      rw [← Except.ok.inj h]
      intro item hitem
      obtain ⟨entry, hentry, rfl⟩ := List.mem_map.mp hitem
      obtain ⟨⟨key, hkey⟩, -⟩ := isJson_of_mem_entries hv hentry
      rw [hkey]
      rfl
  | bytes octets => exact absurd hv (by simp [isJson])
  | set members => exact absurd hv (by simp [isJson])
  | _ => cases h

theorem isJson_iterate_list {v : Value} {items : List Value} (hv : v.isJson = true)
    (h : v.iterate = .ok items) : (Value.list items).isJson = true :=
  (itemsJson_iff items).mpr (isJson_iterate hv h)

theorem isJson_listChoices {v : Value} {items : List Value} (hv : v.isJson = true)
    (h : listChoices v = .ok (some items)) : (Value.list items).isJson = true :=
  isJson_iterate_list hv (listChoices_eq_some.mp h)

variable {entries : Table Value} (hentries : entriesJson entries = true)
include hentries

theorem isJson_at {key : String} {v : Value} (h : Table.at? entries key = some v) :
    v.isJson = true := by
  rw [Table.at_eq_entry] at h
  cases hfound : Table.slot? entries (.text key) with
  | none =>
      rw [hfound] at h
      cases h
  | some entry =>
      rw [hfound] at h
      rw [← Option.some.inj h]
      exact (isJson_of_mem_entries hentries (Table.mem_of_entry hfound)).2

omit hentries in
theorem inherited_isJson : Inherited fun v => v.isJson = true where
  entry := fun h hat => isJson_at h hat
  item := fun h hitem => isJson_of_mem_items h hitem
  null := rfl
  blank := rfl

theorem isJson_field (key : String) : (field entries key).isJson = true :=
  inherited_isJson.field hentries key

theorem isJson_of_field {key : String} {inner : List (Value × Value)}
    (h : field entries key = .map inner) : entriesJson inner = true := by
  have hjson := isJson_field hentries key
  rw [h] at hjson
  exact hjson

/-- The annotations that are read are neat, and hold values of JSON. -/
theorem neat_metadata {table : Table Value} (h : metadata entries = .ok table) :
    Table.Keyed table ∧ (∀ entry ∈ table, ∃ key, entry.1 = .str key ∧ isMetadataKey key = true) ∧
      JsonFields table := by
  obtain ⟨hsublist, hkeys⟩ := metadata_sublist h
  refine ⟨?_, hkeys, ?_⟩
  · obtain ⟨hatoms, hnodup⟩ := (Table.keyed_iff_nodup entries).mp (keyed_of_entriesJson hentries)
    refine (Table.keyed_iff_nodup table).mpr ⟨?_, hnodup.sublist (hsublist.map _)⟩
    exact fun entry hentry => hatoms entry (hsublist.subset hentry)
  · exact fun entry hentry => (isJson_of_mem_entries hentries (hsublist.subset hentry)).2

theorem isJson_requiredNames {names : List Value} (h : requiredNames entries = .ok names) :
    (Value.list names).isJson = true := by
  unfold requiredNames at h
  dsimp only at h
  split at h
  · exact isJson_iterate_list (isJson_field hentries "required") (orFail_eq_ok.mp h)
  · rw [← Except.ok.inj h]
    rfl

/-- The bounds that are read are values of JSON. -/
theorem isJson_bound {typeName : Value} {bound : String × Value}
    (h : bound ∈ (constraints typeName entries).fields Constraints.keywords) :
    bound.2.isJson = true := by
  have hzip := List.of_mem_zip (List.mem_of_mem_filter h)
  have hfield := isJson_field hentries
  have hnull : Value.null.isJson = true := rfl
  have hall : ∀ v ∈ [(constraints typeName entries).minLength,
      (constraints typeName entries).maxLength, (constraints typeName entries).pattern,
      (constraints typeName entries).minimum, (constraints typeName entries).maximum,
      (constraints typeName entries).exclusiveMinimum,
      (constraints typeName entries).exclusiveMaximum,
      (constraints typeName entries).multipleOf], v.isJson = true := by
    unfold constraints
    split
    · simp [Constraints.none, hfield, hnull]
    · split
      · simp [Constraints.none, hfield, hnull]
      · simp [Constraints.none, hnull]
  exact hall _ hzip.2

theorem isJson_declaredType : (declaredTypeOf entries).1.isJson = true :=
  inherited_isJson.declaredType hentries

end Values

section Discriminators

theorem isJson_rebaseValue {base : String} {v w : Value} (hv : v.isJson = true)
    (h : rebaseValue base v = .ok w) : w.isJson = true := by
  cases v with
  | str s =>
      rw [rebaseValue, bind_eq_ok] at h
      obtain ⟨text, -, h⟩ := h
      rw [← Except.ok.inj h]
      rfl
  | _ =>
      rw [← Except.ok.inj h]
      exact hv

theorem entriesJson_rebaseTargets {base : String} {targets mapping : List (Value × Value)}
    (htargets : entriesJson targets = true) (h : rebaseTargets base targets = .ok mapping) :
    entriesJson mapping = true ∧ mapping.map (·.1) = targets.map (·.1) := by
  induction targets generalizing mapping with
  | nil =>
      rw [← Except.ok.inj h]
      exact ⟨rfl, rfl⟩
  | cons entry rest ih =>
      obtain ⟨key, item, rfl, hfresh, hitem, hrest⟩ := entriesJson_cons htargets
      rw [rebaseTargets, bind_eq_ok] at h
      obtain ⟨target, htarget, h⟩ := h
      rw [bind_eq_ok] at h
      obtain ⟨others, hothers, h⟩ := h
      obtain ⟨hjson, hkeys⟩ := ih hrest hothers
      rw [← Except.ok.inj h]
      refine ⟨?_, by rw [List.map_cons, List.map_cons, hkeys]⟩
      have hhas : Table.has others key = false := by
        rw [Table.has_eq_entry, Option.isSome_eq_false_iff, Option.isNone_iff_eq_none] at hfresh ⊢
        exact (Table.entry_none_of_keys hkeys _).mpr hfresh
      simp [entriesJson, hhas, hjson, isJson_rebaseValue hitem htarget]

/-- The discriminator that is read holds values of JSON. -/
theorem isJson_discriminatorOf {base : String} {entries : Table Value}
    (hentries : entriesJson entries = true) {d : Option Discriminator}
    (h : discriminator base entries = .ok d) :
    ∀ given, d = some given →
      given.propertyName.isJson = true ∧ entriesJson given.mapping = true := by
  unfold discriminator at h
  cases hfield : field entries "discriminator" with
  | map fields =>
      have hfields := isJson_of_field hentries hfield
      rw [hfield] at h
      dsimp only at h
      split at h
      · rw [← Except.ok.inj h]
        intro given hgiven
        cases hgiven
      · split at h
        · rw [← Except.ok.inj h]
          intro given hgiven
          rw [← Option.some.inj hgiven]
          exact ⟨isJson_field hfields _, rfl⟩
        · cases hmapping : field fields "mapping" with
          | map targets =>
              rw [hmapping] at h
              dsimp only at h
              rw [bind_eq_ok] at h
              obtain ⟨mapping, hrebased, h⟩ := h
              rw [← Except.ok.inj h]
              intro given hgiven
              rw [← Option.some.inj hgiven]
              exact ⟨isJson_field hfields _,
                (entriesJson_rebaseTargets (isJson_of_field hfields hmapping) hrebased).1⟩
          | _ =>
              rw [hmapping] at h
              cases h
  | _ =>
      rw [hfield] at h
      rw [← Except.ok.inj h]
      intro given hgiven
      cases hgiven

end Discriminators

section Kinds

/-- What is read one level below is sound. -/
def Reads (read : Value → String → Except Failure Node) : Prop :=
  ∀ item path n, item.isJson = true → read item path = .ok n → n.Sound

variable {read : Value → String → Except Failure Node} (hread : Reads read)
include hread

theorem sound_parseEach {path : String} {index : Nat} {items : List Value} {nodes : List Node}
    (hitems : ∀ item ∈ items, item.isJson = true)
    (h : parseEach read path index items = .ok nodes) :
    items.length = nodes.length ∧ ∀ node ∈ nodes, node.Sound :=
  ⟨length_parseEach h, forall_parseEach hread hitems h⟩

theorem sound_parseNamed {path : String} {named : List (Value × Value)} {nodes : Table Node}
    (hnamed : entriesJson named = true) (h : parseNamed read path named = .ok nodes) :
    nodes.map (·.1) = named.map (·.1) ∧ ∀ entry ∈ nodes, entry.2.Sound :=
  ⟨keys_parseNamed h, forall_parseNamed hread
    (fun _ hentry => (isJson_of_mem_entries hnamed hentry).2) h⟩

end Kinds

section Fields

theorem writeNamed_keys (nodes : Table Node) :
    (writeNamed nodes).map (·.1) = nodes.map (·.1) := by
  induction nodes with
  | nil => rfl
  | cons entry rest ih => rw [writeNamed, List.map_cons, List.map_cons, ih]

theorem mem_writeNamed {nodes : Table Node} {entry : Value × Value}
    (h : entry ∈ writeNamed nodes) : ∃ given ∈ nodes, entry = (given.1, given.2.write) := by
  induction nodes with
  | nil => exact absurd h (by simp [writeNamed])
  | cons first rest ih =>
      rw [writeNamed, List.mem_cons] at h
      rcases h with rfl | hin
      · exact ⟨first, List.mem_cons_self, rfl⟩
      · obtain ⟨given, hgiven, heq⟩ := ih hin
        exact ⟨given, List.mem_cons_of_mem _ hgiven, heq⟩

theorem mem_writeEach {nodes : List Node} {v : Value} (h : v ∈ writeEach nodes) :
    ∃ node ∈ nodes, v = node.write := by
  induction nodes with
  | nil => exact absurd h (by simp [writeEach])
  | cons first rest ih =>
      rw [writeEach, List.mem_cons] at h
      rcases h with rfl | hin
      · exact ⟨first, List.mem_cons_self, rfl⟩
      · obtain ⟨node, hnode, heq⟩ := ih hin
        exact ⟨node, List.mem_cons_of_mem _ hnode, heq⟩

theorem isJson_writeEach {nodes : List Node} (h : ∀ node ∈ nodes, node.Sound) :
    (Value.list (writeEach nodes)).isJson = true := by
  refine (itemsJson_iff _).mpr ?_
  intro v hv
  obtain ⟨node, hnode, rfl⟩ := mem_writeEach hv
  exact (h node hnode).2

theorem isJson_writeNamed {nodes : Table Node} {named : List (Value × Value)}
    (hnamed : entriesJson named = true) (hkeys : nodes.map (·.1) = named.map (·.1))
    (h : ∀ entry ∈ nodes, entry.2.Sound) :
    (Value.map (writeNamed nodes)).isJson = true := by
  have hwritten := (writeNamed_keys nodes).trans hkeys
  refine (entriesJson_iff _).mpr
    ⟨Table.keyed_of_keys hwritten (keyed_of_entriesJson hnamed), ?_⟩
  intro entry hentry
  have hkey := List.mem_map_of_mem (f := fun e : Value × Value => e.1) hentry
  rw [hwritten] at hkey
  obtain ⟨original, horiginal, heq⟩ := List.mem_map.mp hkey
  obtain ⟨given, hgiven, hsame⟩ := mem_writeNamed hentry
  rw [← heq]
  refine ⟨(isJson_of_mem_entries hnamed horiginal).1, ?_⟩
  rw [hsame]
  exact (h given hgiven).2

variable {read : Value → String → Except Failure Node} (hread : Reads read)
  {entries : Table Value} (hentries : entriesJson entries = true)
include hread hentries

/-- The properties that are read are neat and written as a mapping of JSON. -/
theorem sound_parseProperties {path : String} {properties : Table Node}
    (h : parseProperties read path entries = .ok properties) :
    NeatProperties properties ∧ (Value.map (writeNamed properties)).isJson = true := by
  rcases parseProperties_eq_ok.mp h with ⟨-, rfl⟩ | ⟨-, named, hfield, h⟩
  · exact ⟨⟨trivial, fun _ hentry => absurd hentry (by simp)⟩, rfl⟩
  · have hnamed := isJson_of_field hentries hfield
    obtain ⟨hkeys, hall⟩ := sound_parseNamed hread hnamed h
    refine ⟨⟨Table.keyed_of_keys hkeys (keyed_of_entriesJson hnamed), ?_⟩,
      isJson_writeNamed hnamed hkeys hall⟩
    exact fun entry hentry => (hall entry hentry).1.labelled

variable {info : NodeInfo} (hinfo : info.Neat) (hmetadata : JsonFields info.metadata)
  (htitle : info.title.isJson = true) (hdescription : info.description.isJson = true)
include hinfo hmetadata htitle hdescription

theorem sound_parseArray {path : String} {nullable : Bool} {n : Node}
    (h : parseArray read path info nullable entries = .ok n) : n.Sound := by
  obtain ⟨items, hitems, rfl⟩ := parseArray_eq_ok.mp h
  refine ⟨.leaf hinfo (by simp) (by simp), isJson_write hinfo hmetadata htitle hdescription ?_⟩
  have hitem : JsonFields (writeItems items) := by
    rcases parseItems_eq_ok.mp hitems with ⟨-, rfl⟩ | ⟨-, item, hitem, rfl⟩
    · exact jsonFields_nil
    · exact jsonFields_single (hread _ _ _ (isJson_field hentries "items") hitem).2
  exact (((((jsonFields_single rfl).append hitem).append
    (jsonFields_fieldIf (isJson_field hentries _))).append
    (jsonFields_fieldIf (isJson_field hentries _))).append (jsonFields_fieldIf rfl)).append
    (jsonFields_fieldIf rfl)

theorem sound_parseObject {base path : String} {nullable : Bool} {n : Node}
    (h : parseObject read base path info nullable entries = .ok n) : n.Sound := by
  obtain ⟨additional, properties, required, d, hadditional, hproperties, hrequired, hd, rfl⟩ :=
    parseObject_eq_ok.mp h
  have hnames := isJson_requiredNames hentries hrequired
  obtain ⟨hneat, hnamed⟩ := sound_parseProperties hread hentries hproperties
  refine ⟨.object hinfo hneat ((itemsJson_iff required).mp hnames),
    isJson_write hinfo hmetadata htitle hdescription ?_⟩
  have hother : JsonFields (writeAdditional additional) := by
    have hjson := isJson_field hentries "additionalProperties"
    rcases parseAdditional_eq_ok.mp hadditional with ⟨-, node, hnode, rfl⟩ | ⟨-, rfl⟩
    · exact jsonFields_single (hread _ _ _ hjson hnode).2
    · exact jsonFields_fieldIf hjson
  exact (((((((jsonFields_single rfl).append (jsonFields_fieldIf hnamed)).append
    (jsonFields_fieldIf hnames)).append hother).append (jsonFields_fieldIf rfl)).append
    (jsonFields_discriminator (isJson_discriminatorOf hentries hd))).append
    (jsonFields_fieldIf rfl)).append (jsonFields_fieldIf rfl)

theorem sound_parseComposition {base path : String} {kind : CompositionKind} {n : Node}
    (h : parseComposition read base path info kind entries = .ok n) : n.Sound := by
  obtain ⟨members, d, properties, required, hmembers, hd, hproperties, hrequired, rfl⟩ :=
    parseComposition_eq_ok.mp h
  have hnames := isJson_requiredNames hentries hrequired
  obtain ⟨hneat, hnamed⟩ := sound_parseProperties hread hentries hproperties
  have hdiscriminator := isJson_discriminatorOf hentries hd
  have hraw := isJson_field hentries kind.keyword
  have hall : (∀ items, field entries kind.keyword = .list items → items.length = members.length) ∧
      ∀ member ∈ members, member.Sound := by
    rcases parseMembers_eq_ok.mp hmembers with ⟨items, hlist, hmembers⟩ | ⟨hother, rfl⟩
    · rw [hlist] at hraw ⊢
      obtain ⟨hlength, hsound⟩ :=
        sound_parseEach hread ((itemsJson_iff items).mp hraw) hmembers
      refine ⟨?_, hsound⟩
      intro items' heq
      rw [← Value.list.inj heq]
      exact hlength
    · exact ⟨fun items heq => absurd heq (hother items), fun _ hmember => absurd hmember (by simp)⟩
  have hwritten : (membersPart ⟨kind, field entries kind.keyword, members, d, properties,
      required⟩).isJson = true := by
    unfold membersPart
    dsimp only
    split
    · exact isJson_writeEach hall.2
    · exact hraw
  have hwrite := isJson_write (n := .composition info ⟨kind, field entries kind.keyword, members,
    d, properties, required⟩) hinfo hmetadata htitle hdescription
    ((((jsonFields_single hwritten).append (jsonFields_discriminator hdiscriminator)).append
      (jsonFields_fieldIf hnamed)).append (jsonFields_fieldIf hnames))
  exact ⟨.composition hinfo hneat ((itemsJson_iff required).mp hnames)
    (fun given hgiven => (hdiscriminator given hgiven).1) hall.1
    (fun member hmember => (hall.2 member hmember).1) hwrite, hwrite⟩

omit hread in
theorem sound_parsePrimitive {typeName : Value} {nullable : Bool} {n : Node}
    (htype : typeName.isJson = true) (harray : typeName.isText "array" = false)
    (hobject : typeName.isText "object" = false)
    (h : parsePrimitive info typeName nullable entries = .ok n) : n.Sound := by
  obtain ⟨declared, choices, hdeclared, hchoices, rfl⟩ := parsePrimitive_eq_ok.mp h
  have hplain : ∀ {v : Value}, v.isJson = true → v ≠ .str "array" → v ≠ .str "object" →
      (v.orElse (.str "")).isJson = true ∧ v.orElse (.str "") ≠ .str "array" ∧
        v.orElse (.str "") ≠ .str "object" := by
    intro v hjson hv hv'
    unfold orElse
    split
    · exact ⟨hjson, hv, hv'⟩
    · exact ⟨rfl, by simp, by simp⟩
  have hneat : declared.isJson = true ∧ declared ≠ .str "array" ∧ declared ≠ .str "object" := by
    rcases primitiveType_eq_ok.mp hdeclared with ⟨-, -, told, -, rfl⟩ | ⟨-, rfl⟩
    · unfold typeOfChoice
      split <;> exact ⟨rfl, by simp, by simp⟩
    · refine ⟨htype, ?_, ?_⟩
      · rintro rfl
        exact absurd harray (by simp [isText])
      · rintro rfl
        exact absurd hobject (by simp [isText])
  have hshape := hplain hneat.1 hneat.2.1 hneat.2.2
  refine ⟨.leaf ⟨hinfo, hshape⟩ (by simp) (by simp),
    isJson_write hinfo hmetadata htitle hdescription ?_⟩
  have hbounds : JsonFields (((constraints declared entries).fields Constraints.keywords).map
      fun field => ((.str field.1, field.2) : Value × Value)) := by
    intro entry hentry
    obtain ⟨bound, hbound, rfl⟩ := List.mem_map.mp hentry
    exact isJson_bound hentries hbound
  have hnullable : JsonFields (fieldIf nullable "nullable" (.bool true)) := jsonFields_fieldIf rfl
  have htyped : JsonFields (fieldIf (declared.orElse (.str "")).truthy "type"
      (declared.orElse (.str "")) ++
        fieldIf (field entries "format").truthy "format" (field entries "format")) :=
    (jsonFields_fieldIf hshape.1).append (jsonFields_fieldIf (isJson_field hentries "format"))
  cases choices with
  | none => exact ((htyped.append jsonFields_nil).append hnullable).append hbounds
  | some items =>
      have hitems : JsonFields [(.str "enum", .list items)] :=
        jsonFields_single (isJson_listChoices (isJson_field hentries "enum") hchoices)
      exact ((htyped.append hitems).append hnullable).append hbounds

end Fields

/-- Reading the entries of a mapping of JSON gives a sound schema, if it does so one level below. -/
theorem sound_parseEntries {read : Value → String → Except Failure Node} (hread : Reads read)
    {base path : String} {entries : Table Value} (hentries : entriesJson entries = true) {n : Node}
    (h : parseEntries read base path entries = .ok n) : n.Sound := by
  obtain ⟨table, htable, hparsed⟩ := parseEntries_eq_ok.mp h
  obtain ⟨hkeyed, hkeys, hmetadata⟩ := neat_metadata hentries htable
  have htitle := isJson_field hentries "title"
  have hdescription := isJson_field hentries "description"
  have hinfo : (infoOf path table entries).Neat := ⟨hkeyed, hkeys⟩
  cases hparsed with
  | ref href hrebased =>
      refine ⟨.leaf hinfo (by simp) (by simp),
        isJson_write hinfo hmetadata htitle hdescription ?_⟩
      exact jsonFields_single (isJson_rebaseValue (isJson_at hentries href) hrebased)
  | composition _ _ h =>
      exact sound_parseComposition hread hentries hinfo hmetadata htitle hdescription h
  | array _ _ _ h => exact sound_parseArray hread hentries hinfo hmetadata htitle hdescription h
  | object _ _ _ _ h => exact sound_parseObject hread hentries hinfo hmetadata htitle hdescription h
  | primitive _ _ harray hobject h =>
      unfold isObject at hobject
      rw [Bool.or_eq_false_iff, Bool.or_eq_false_iff] at hobject
      exact sound_parsePrimitive hentries hinfo hmetadata htitle hdescription
        (isJson_declaredType hentries) harray hobject.1.1 h

theorem sound_parseWithin (base : String) (levels : Nat) : Reads (parseWithin base levels) := by
  have hsound := parseWithin_induction base
    (P := fun v n => v.isJson = true → n.Sound) (fun read hread entries path n h hentries =>
      sound_parseEntries (fun item path n hitem hn => hread item path n hn hitem) hentries h) levels
  exact fun v path n hv h => hsound v path n h hv

/-- A schema that is read from a value of JSON is neat, and is written as a value of JSON. -/
theorem sound_parse {base path : String} {v : Value} {n : Node} (hv : v.isJson = true)
    (h : parse base v path = .ok n) : n.Sound :=
  sound_parseWithin base v.depth v path n hv h

end Node

end SchemaGraph
