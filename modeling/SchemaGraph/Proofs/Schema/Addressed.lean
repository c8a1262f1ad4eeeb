import Mathlib.Logic.Relation
import SchemaGraph.Proofs.Pointer.Leading
import SchemaGraph.Proofs.Schema.Reread

/-!
# The place of a schema is a pointer to it

Reading a schema hands down the place at which it stands, with one or two segments more for each
part: a keyword, and the name of a property or the position of a member behind it.  The value that
the part is read from stands under the same segments.  So, as long as names need no escapes, the
place of each schema inside is a reference that leads to a value from which the schema is read again.
-/

namespace SchemaGraph

/-!
### How many levels reading takes

Reading goes down one level at a time and asks only for values that stand below.  So two ways to read
that agree on values with few levels agree one level higher, and reading a value with more levels than
it has gives what reading it gives.
-/

namespace Node

variable {levels : Nat} {read read' : Value → String → Except Failure Node}
  (hread : ∀ v path, v.depth ≤ levels → read v path = read' v path)
include hread

theorem parseEach_congr (path : String) (index : Nat) {items : List Value}
    (hlevels : Value.itemsDepth items ≤ levels) :
    parseEach read path index items = parseEach read' path index items := by
  induction items generalizing index with
  | nil => rfl
  | cons item rest ih =>
      rw [Value.itemsDepth, Nat.max_le] at hlevels
      rw [parseEach, parseEach, hread item _ hlevels.1, ih (index + 1) hlevels.2]

theorem parseNamed_congr (path : String) {named : List (Value × Value)}
    (hlevels : Value.entriesDepth named ≤ levels) :
    parseNamed read path named = parseNamed read' path named := by
  induction named with
  | nil => rfl
  | cons entry rest ih =>
      obtain ⟨name, item⟩ := entry
      rw [Value.entriesDepth, Nat.max_le] at hlevels
      rw [parseNamed, parseNamed, hread item _ hlevels.1, ih hlevels.2]

theorem parseProperties_congr (path : String) {entries : Table Value}
    (hlevels : Value.entriesDepth entries ≤ levels) :
    parseProperties read path entries = parseProperties read' path entries := by
  unfold parseProperties
  dsimp only
  split
  · rfl
  · cases hnamed : field entries "properties" with
    | map named =>
        have hdepth := depth_le_of_field "properties" hlevels (by rw [hnamed]; rfl)
        rw [hnamed, Value.depth] at hdepth
        exact parseNamed_congr hread path (by omega)
    | _ => rfl

theorem parseMembers_congr (path : String) {raw : Value}
    (hlevels : raw.isNull = false → raw.depth ≤ levels) :
    parseMembers read path raw = parseMembers read' path raw := by
  cases raw with
  | list items =>
      have hdepth := hlevels rfl
      rw [Value.depth] at hdepth
      exact parseEach_congr hread path 0 (by omega)
  | _ => rfl

theorem parseItems_congr (path : String) {raw : Value}
    (hlevels : raw.isNull = false → raw.depth ≤ levels) :
    parseItems read path raw = parseItems read' path raw := by
  cases raw with
  | null => rfl
  | _ => simp only [parseItems, hread _ _ (hlevels rfl)]

theorem parseAdditional_congr (path : String) {raw : Value}
    (hlevels : raw.isNull = false → raw.depth ≤ levels) :
    parseAdditional read path raw = parseAdditional read' path raw := by
  cases raw with
  | map fields => rw [parseAdditional, parseAdditional, hread _ _ (hlevels rfl)]
  | _ => rfl

/-- Reading entries asks for the values below them only. -/
theorem parseEntries_congr (base path : String) {entries : Table Value}
    (hlevels : Value.entriesDepth entries ≤ levels) :
    parseEntries read base path entries = parseEntries read' base path entries := by
  have hproperties := parseProperties_congr hread path hlevels
  unfold parseEntries parseComposition parseArray parseObject
  simp only [hproperties, parseMembers_congr hread _ (depth_le_of_field _ hlevels),
    parseItems_congr hread _ (depth_le_of_field _ hlevels),
    parseAdditional_congr hread _ (depth_le_of_field _ hlevels)]

omit hread

/-- Reading with as many levels as a value has gives the same as reading with more. -/
theorem parseWithin_eq_parse (base : String) {v : Value} (hv : v.depth ≤ levels) (path : String) :
    parseWithin base levels v path = parse base v path := by
  have hstable : ∀ levels levels' (v : Value) path, v.depth ≤ levels → v.depth ≤ levels' →
      parseWithin base levels v path = parseWithin base levels' v path := by
    intro levels
    induction levels with
    | zero =>
        intro levels' v path hv
        cases v <;> simp [Value.depth] at hv
    | succ levels ih =>
        intro levels' v path hv hv'
        cases levels' with
        | zero => cases v <;> simp [Value.depth] at hv'
        | succ levels' =>
            cases v with
            | map entries =>
                rw [Value.depth] at hv hv'
                rw [parseWithin, parseWithin]
                have hread : ∀ item place, item.depth ≤ min levels levels' →
                    parseWithin base levels item place = parseWithin base levels' item place :=
                  fun item place hitem => ih levels' item place (by omega) (by omega)
                exact parseEntries_congr hread base path (by omega)
            | _ => rfl
  exact hstable levels v.depth v path hv le_rfl

end Node

/-! ### Places and pointers -/

namespace Value

theorem depth_le_of_mem_items {items : List Value} {item : Value} (h : item ∈ items) :
    item.depth ≤ itemsDepth items := by
  induction items with
  | nil => exact absurd h List.not_mem_nil
  | cons first rest ih =>
      rw [itemsDepth]
      rcases List.mem_cons.mp h with rfl | hin
      · exact Nat.le_max_left _ _
      · exact (ih hin).trans (Nat.le_max_right _ _)

end Value

theorem Table.mem_of_at_text {α : Type} {table : Table α} {key : String} {item : α}
    (h : Table.at? table key = some item) : (.str key, item) ∈ table := by
  rw [at_eq_entry] at h
  obtain ⟨entry, hentry, rfl⟩ := Option.map_eq_some_iff.mp h
  rw [← key_of_text hentry]
  exact mem_of_entry hentry

namespace Pointer

variable {v w u : Value} {path path' : List String}

theorem Leads.trans (h : Leads v path w) (h' : Leads w path' u) : Leads v (path ++ path') u := by
  induction h with
  | here v => exact h'
  | key hentry h ih => exact .key hentry (ih h')
  | item hitem h ih => exact .item hitem (ih h')

/-- Each segment goes down by a level at least. -/
theorem Leads.depth (h : Leads v path w) : w.depth + path.length ≤ v.depth := by
  induction h with
  | here v => exact le_rfl
  | key hentry h ih =>
      have hinside := Value.depth_le_of_mem_entries hentry
      rw [Value.depth, List.length_cons]
      dsimp only at hinside
      omega
  | item hitem h ih =>
      have hinside := Value.depth_le_of_mem_items (List.mem_of_getElem? hitem)
      rw [Value.depth, List.length_cons]
      omega

theorem Leads.isJson (h : Leads v path w) (hv : v.isJson = true) : w.isJson = true := by
  induction h with
  | here v => exact hv
  | key hentry h ih => exact ih (Value.isJson_of_mem_entries hv hentry).2
  | item hitem h ih => exact ih (Value.isJson_of_mem_items hv (List.mem_of_getElem? hitem))

/-- The place that some segments lead to from another one. -/
def under (place : String) (segments : List String) : String :=
  segments.foldl (fun place segment => place ++ "/" ++ segment) place

end Pointer

namespace Reference

theorem write_under {more : List String} (hmore : ∀ segment ∈ more, IsSegment segment)
    (location : String) {segments : List String} (hne : segments ≠ []) :
    write ⟨location, segments ++ more⟩ = Pointer.under (write ⟨location, segments⟩) more := by
  induction more generalizing segments with
  | nil =>
      rw [List.append_nil]
      rfl
  | cons segment rest ih =>
      obtain ⟨hsegment, hrest⟩ := List.forall_mem_cons.mp hmore
      have hone : segments ++ [segment] ≠ [] := by simp
      rw [List.append_cons, ih hrest hone, write_append hsegment location hne]
      rfl

end Reference

namespace Node

/-- The named properties of a schema. -/
def properties : Node → Table Node
  | .object _ shape => shape.properties
  | .composition _ shape => shape.properties
  | _ => []

/-- The schema for properties that are not named. -/
def additional? : Node → Option Node
  | .object _ ⟨_, _, .schema node, _, _, _, _⟩ => some node
  | _ => none

/-- The schema of the items. -/
def items? : Node → Option Node
  | .array _ shape => shape.items
  | _ => none

/-- The members of a composition, and the variants of a resolved one. -/
def members : Node → List Node
  | .composition _ shape => shape.members
  | .object _ shape => (shape.oneOfVariants ++ shape.anyOfVariants).map (·.schema)
  | _ => []

/-- Whether a schema is a part of another one. -/
inductive IsPart (n : Node) : Node → Prop
  | property {name : Value} {part : Node} (h : (name, part) ∈ n.properties) : IsPart n part
  | additional {part : Node} (h : n.additional? = some part) : IsPart n part
  | items {part : Node} (h : n.items? = some part) : IsPart n part
  | member {part : Node} (h : part ∈ n.members) : IsPart n part

theorem not_isPart {n part : Node} (hproperties : n.properties = [])
    (hadditional : n.additional? = none) (hitems : n.items? = none) (hmembers : n.members = []) :
    ¬ n.IsPart part := by
  intro h
  cases h with
  | property hin =>
      rw [hproperties] at hin
      exact absurd hin List.not_mem_nil
  | additional heq =>
      rw [hadditional] at heq
      cases heq
  | items heq =>
      rw [hitems] at heq
      cases heq
  | member hin =>
      rw [hmembers] at hin
      exact absurd hin List.not_mem_nil

/-- Whether a schema is another one, or stands anywhere inside it. -/
def Contains : Node → Node → Prop := Relation.ReflTransGen IsPart

section Parts

variable {read : Value → String → Except Failure Node} {path : String}

theorem exists_of_mem_parseEach {index : Nat} {items : List Value} {nodes : List Node}
    (h : parseEach read path index items = .ok nodes) {node : Node} (hnode : node ∈ nodes) :
    ∃ i item, items[i]? = some item ∧ read item s!"{path}/{index + i}" = .ok node := by
  induction items generalizing index nodes with
  | nil =>
      rw [← Except.ok.inj h] at hnode
      exact absurd hnode List.not_mem_nil
  | cons item rest ih =>
      obtain ⟨first, others, hfirst, hothers, rfl⟩ := parseEach_cons_eq_ok.mp h
      rcases List.mem_cons.mp hnode with rfl | hin
      · exact ⟨0, item, rfl, hfirst⟩
      · obtain ⟨i, found, hfound, hread⟩ := ih hothers hin
        refine ⟨i + 1, found, hfound, ?_⟩
        rw [show index + (i + 1) = index + 1 + i by omega]
        exact hread

theorem exists_of_mem_parseNamed {named : List (Value × Value)} {nodes : Table Node}
    (h : parseNamed read path named = .ok nodes) {name : Value} {node : Node}
    (hnode : (name, node) ∈ nodes) :
    ∃ item, (name, item) ∈ named ∧ read item s!"{path}/properties/{name.display}" = .ok node := by
  induction named generalizing nodes with
  | nil =>
      rw [← Except.ok.inj h] at hnode
      exact absurd hnode List.not_mem_nil
  | cons entry rest ih =>
      obtain ⟨first, others, hfirst, hothers, rfl⟩ := parseNamed_cons_eq_ok.mp h
      rcases List.mem_cons.mp hnode with heq | hin
      · obtain ⟨rfl, rfl⟩ := Prod.mk.inj heq
        exact ⟨entry.2, List.mem_cons_self, hfirst⟩
      · obtain ⟨item, hitem, hread⟩ := ih hothers hin
        exact ⟨item, List.mem_cons_of_mem _ hitem, hread⟩

theorem leads_of_field {entries : Table Value} {key : String} {v : Value}
    (h : field entries key = v) (hv : v ≠ .null) : Pointer.Leads (.map entries) [key] v := by
  unfold field at h
  cases hat : Table.at? entries key with
  | none =>
      rw [hat] at h
      exact absurd h.symm hv
  | some found =>
      rw [hat, Option.getD_some] at h
      subst h
      exact .key (Table.mem_of_at_text hat) (.here _)

/-- Whether a schema is read from a value inside another one, at the place that leads there. -/
def ReadInside (read : Value → String → Except Failure Node) (v : Value) (path : String)
    (part : Node) : Prop :=
  ∃ segments inside, segments ≠ [] ∧
    (∀ segment ∈ segments, segment ≠ "" ∧ Reference.IsSegment segment) ∧
    Pointer.Leads v segments inside ∧ read inside (Pointer.under path segments) = .ok part

variable {entries : Table Value} (hentries : Value.entriesJson entries = true)

theorem isSegment_keyword (kind : CompositionKind) :
    kind.keyword ≠ "" ∧ Reference.IsSegment kind.keyword := by
  cases kind <;> decide

theorem isSegment_toString (i : Nat) : toString i ≠ "" ∧ Reference.IsSegment (toString i) := by
  have hdigit := Shortest.isDigit_toString i
  refine ⟨fun hempty => Pointer.toString_ne_nil i (String.toList_eq_nil_iff.mpr hempty), ?_, ?_⟩
  · intro hslash
    exact absurd (hdigit _ hslash) (by decide)
  · intro htilde
    exact absurd (hdigit _ htilde) (by decide)

theorem readInside_items {part : Node}
    (h : parseItems read path (field entries "items") = .ok (some part)) :
    ReadInside read (.map entries) path part := by
  rcases parseItems_eq_ok.mp h with ⟨-, hnone⟩ | ⟨hraw, item, hitem, hsome⟩
  · cases hnone
  · obtain rfl := Option.some.inj hsome
    refine ⟨["items"], field entries "items", by simp, by decide, leads_of_field rfl hraw, ?_⟩
    rw [Pointer.under, List.foldl_cons, String.append_assoc]
    exact hitem

theorem readInside_additional {part : Node}
    (h : parseAdditional read path (field entries "additionalProperties") = .ok (.schema part)) :
    ReadInside read (.map entries) path part := by
  rcases parseAdditional_eq_ok.mp h with ⟨hmap, node, hnode, hschema⟩ | ⟨-, hvalue⟩
  · obtain rfl := Additional.schema.inj hschema
    have hraw : field entries "additionalProperties" ≠ .null := fun hnull => by
      rw [hnull] at hmap
      cases hmap
    refine ⟨["additionalProperties"], field entries "additionalProperties", by simp,
      by decide, leads_of_field rfl hraw, ?_⟩
    rw [Pointer.under, List.foldl_cons, String.append_assoc]
    exact hnode
  · cases hvalue

theorem readInside_member {kind : CompositionKind} {members : List Node}
    (h : parseMembers read s!"{path}/{kind.keyword}" (field entries kind.keyword) = .ok members)
    {part : Node} (hpart : part ∈ members) : ReadInside read (.map entries) path part := by
  rcases parseMembers_eq_ok.mp h with ⟨items, hfield, hmembers⟩ | ⟨-, rfl⟩
  · obtain ⟨i, item, hitem, hread⟩ := exists_of_mem_parseEach hmembers hpart
    have hlist := leads_of_field hfield (by simp)
    refine ⟨[kind.keyword, toString i], item, by simp, ?_, hlist.trans (.item hitem (.here _)), ?_⟩
    · exact List.forall_mem_cons.mpr ⟨isSegment_keyword kind,
        List.forall_mem_singleton.mpr (isSegment_toString i)⟩
    · rw [Nat.zero_add] at hread
      exact hread
  · exact absurd hpart List.not_mem_nil

include hentries

theorem readInside_property {properties : Table Node}
    (h : parseProperties read path entries = .ok properties) {name : Value} {part : Node}
    (hpart : (name, part) ∈ properties)
    (hname : ∀ text, name = .str text → text ≠ "" ∧ Reference.IsSegment text) :
    ReadInside read (.map entries) path part := by
  rcases parseProperties_eq_ok.mp h with ⟨-, rfl⟩ | ⟨-, named, hfield, hnamed⟩
  · exact absurd hpart List.not_mem_nil
  · obtain ⟨item, hitem, hread⟩ := exists_of_mem_parseNamed hnamed hpart
    have hmap := leads_of_field hfield (by simp)
    obtain ⟨⟨text, htext⟩, -⟩ := Value.isJson_of_mem_entries (hmap.isJson hentries) hitem
    dsimp only at htext
    subst htext
    refine ⟨["properties", text], item, by simp, ?_, hmap.trans (.key hitem (.here _)), ?_⟩
    · exact List.forall_mem_cons.mpr ⟨by decide, List.forall_mem_singleton.mpr (hname text rfl)⟩
    · have hplace : s!"{path}/properties/{(Value.str text).display}" =
          Pointer.under path ["properties", text] := by
        simp only [Pointer.under, List.foldl_cons, List.foldl_nil, String.append_assoc]
        rfl
      rw [← hplace]
      exact hread

/-- Each part of a schema is read from a value inside, at the place that leads there. -/
theorem readInside_of_isPart {base : String} {n part : Node}
    (h : parseEntries read base path entries = .ok n) (hpart : n.IsPart part)
    (hnames : ∀ property ∈ n.properties, ∀ text, property.1 = .str text →
      text ≠ "" ∧ Reference.IsSegment text) : ReadInside read (.map entries) path part := by
  obtain ⟨table, -, hparsed⟩ := parseEntries_eq_ok.mp h
  -- one case for each form of schema; most forms have parts of one or two kinds only
  cases hparsed with
  | ref href hrebased => exact absurd hpart (not_isPart rfl rfl rfl rfl)
  | composition href hkind h =>
      obtain ⟨members, d, properties, required, hmembers, -, hproperties, -, rfl⟩ :=
        parseComposition_eq_ok.mp h
      cases hpart with
      | property hin => exact readInside_property hentries hproperties hin (hnames _ hin)
      | additional heq => cases heq
      | items heq => cases heq
      | member hin => exact readInside_member hmembers hin
  | array href hkind htype h =>
      obtain ⟨items, hitems, rfl⟩ := parseArray_eq_ok.mp h
      cases hpart with
      | property hin => exact absurd hin List.not_mem_nil
      | additional heq => cases heq
      | items heq =>
          obtain rfl : items = some part := heq
          exact readInside_items hitems
      | member hin => exact absurd hin List.not_mem_nil
  | object href hkind htype hobject h =>
      obtain ⟨additional, properties, required, d, hadditional, hproperties, -, -, rfl⟩ :=
        parseObject_eq_ok.mp h
      cases hpart with
      | property hin => exact readInside_property hentries hproperties hin (hnames _ hin)
      | additional heq =>
          cases additional with
          | value v => cases heq
          | schema node =>
              obtain rfl := Option.some.inj heq
              exact readInside_additional hadditional
      | items heq => cases heq
      | member hin => exact absurd hin List.not_mem_nil
  | primitive href hkind htype hobject h =>
      obtain ⟨declared, choices, -, -, rfl⟩ := parsePrimitive_eq_ok.mp h
      exact absurd hpart (not_isPart rfl rfl rfl rfl)

end Parts

/-- A schema that was read holds the place at which it was read. -/
theorem path_parse {base path : String} {v : Value} {n : Node} (h : parse base v path = .ok n) :
    n.info.path = path := by
  unfold parse at h
  generalize v.depth = levels at h
  cases levels with
  | zero => cases h
  | succ levels =>
      cases v with
      | map entries =>
          obtain ⟨table, -, hparsed⟩ := parseEntries_eq_ok.mp h
          cases hparsed with
          | ref _ _ => rfl
          | composition _ _ h =>
              obtain ⟨_, _, _, _, -, -, -, -, rfl⟩ := parseComposition_eq_ok.mp h
              rfl
          | array _ _ _ h =>
              obtain ⟨_, -, rfl⟩ := parseArray_eq_ok.mp h
              rfl
          | object _ _ _ _ h =>
              obtain ⟨_, _, _, _, -, -, -, -, rfl⟩ := parseObject_eq_ok.mp h
              rfl
          | primitive _ _ _ _ h =>
              obtain ⟨_, _, -, -, rfl⟩ := parsePrimitive_eq_ok.mp h
              rfl
      | _ => cases h

/-- Each part of a schema that was read is read on its own from a value inside. -/
theorem readInside_parse {base path : String} {v : Value} {n part : Node} (hv : v.isJson = true)
    (h : parse base v path = .ok n) (hpart : n.IsPart part)
    (hnames : ∀ property ∈ n.properties, ∀ text, property.1 = .str text →
      text ≠ "" ∧ Reference.IsSegment text) : ReadInside (parse base) v path part := by
  cases v with
  | map entries =>
      have hentries : parseEntries (parseWithin base (Value.entriesDepth entries)) base path entries =
          .ok n := by
        unfold parse at h
        rw [Value.depth, Nat.add_comm] at h
        exact h
      obtain ⟨segments, inside, hne, hsegments, hleads, hread⟩ :=
        readInside_of_isPart hv hentries hpart hnames
      refine ⟨segments, inside, hne, hsegments, hleads, ?_⟩
      -- a segment takes a level away, so the levels that are left are enough
      have hdepth := hleads.depth
      have hlength := List.length_pos_iff.mpr hne
      rw [Value.depth] at hdepth
      have henough : inside.depth ≤ Value.entriesDepth entries := by omega
      rw [← parseWithin_eq_parse base henough]
      exact hread
  | list items =>
      unfold parse at h
      rw [Value.depth, Nat.add_comm] at h
      cases h
  | set members => cases hv
  | _ => cases h

/-- Whether the place of a schema leads to a value of a registry from which the schema is read. -/
def Addressed (registry : Value) (n : Node) : Prop :=
  ∃ segments raw, segments ≠ [] ∧ (∀ segment ∈ segments, segment ≠ "") ∧
    n.info.path = Reference.write ⟨"", segments⟩ ∧ Pointer.Leads registry segments raw ∧
    parse "" raw n.info.path = .ok n

namespace Addressed

variable {registry : Value} {n part : Node}

/-- What a schema is a part of hands its address on. -/
theorem isPart (hjson : registry.isJson = true) (h : Addressed registry n) (hpart : n.IsPart part)
    (hnames : ∀ property ∈ n.properties, ∀ text, property.1 = .str text →
      text ≠ "" ∧ Reference.IsSegment text) : Addressed registry part := by
  obtain ⟨segments, raw, hne, hgiven, hpath, hleads, hparse⟩ := h
  obtain ⟨more, inside, -, hmore, hinside, hread⟩ :=
    readInside_parse (hleads.isJson hjson) hparse hpart hnames
  have hplace : part.info.path = Reference.write ⟨"", segments ++ more⟩ := by
    rw [path_parse hread, hpath]
    exact (Reference.write_under (fun segment hin => (hmore segment hin).2) "" hne).symm
  refine ⟨segments ++ more, inside, by simp [hne], ?_, hplace, hleads.trans hinside, ?_⟩
  · intro segment hin
    rcases List.mem_append.mp hin with hin | hin
    · exact hgiven segment hin
    · exact (hmore segment hin).1
  · rw [path_parse hread]
    exact hread

/-- An address is a reference that is read, followed and read from. -/
theorem found (hjson : registry.isJson = true) (hheld : registry.isHeld = true)
    (h : Addressed registry n) : ∃ segments raw,
      Reference.read? n.info.path = some ⟨"", segments⟩ ∧
      Pointer.walk registry segments = .ok raw ∧ parse "" raw n.info.path = .ok n := by
  obtain ⟨segments, raw, hne, hgiven, hpath, hleads, hparse⟩ := h
  refine ⟨segments, raw, ?_, Pointer.walk_of_leads hjson hheld hleads, hparse⟩
  rw [hpath]
  exact Reference.read_write (by simp) hne hgiven

end Addressed

/-- The place of every schema inside an entry of a registry is a reference into the registry, and the
value that it leads to is read as the schema, if the names on the way need no escapes. -/
theorem addressed_of_contains {table : Table Value} (hjson : (Value.map table).isJson = true)
    (hheld : (Value.map table).isHeld = true) {name : String} {raw : Value}
    (hentry : (.str name, raw) ∈ table) (hne : name ≠ "") (hname : Reference.IsSegment name)
    {n : Node} (hparse : parse "" raw (Reference.localRegistry ++ name) = .ok n)
    (hnames : ∀ inner, n.Contains inner → ∀ property ∈ inner.properties, ∀ text,
      property.1 = .str text → text ≠ "" ∧ Reference.IsSegment text)
    {m : Node} (hm : n.Contains m) : ∃ segments raw,
      Reference.read? m.info.path = some ⟨"", segments⟩ ∧
      Pointer.walk (.map table) segments = .ok raw ∧ parse "" raw m.info.path = .ok m := by
  refine Addressed.found hjson hheld ?_
  -- by induction on the way from the entry to the schema inside
  induction hm with
  | refl =>
      have hpath : n.info.path = Reference.write ⟨"", [name]⟩ := by
        rw [path_parse hparse, Reference.write_single hname]
      refine ⟨[name], raw, by simp, by simpa using hne, hpath, .key hentry (.here _), ?_⟩
      rw [path_parse hparse]
      exact hparse
  | tail hinner hpart ih => exact ih.isPart hjson hpart (hnames _ hinner)

/-- The items of an array that is a property beside the members of a composition. -/
theorem addressed_of_contains_items :
    let schema : Value := .record
      [("allOf", .list [.record [("type", .str "string")]]),
        ("properties", .record [("lines", .record
          [("type", .str "array"), ("items", .record [("type", .str "string")])])])]
    let text (path : String) : Node :=
      .primitive ⟨path, [], .null, .null⟩ ⟨.str "string", .null, none, false, .none⟩
    let items := text "#/components/schemas/Order/properties/lines/items"
    let lines : Node := .array ⟨"#/components/schemas/Order/properties/lines", [], .null, .null⟩
      ⟨some items, .null, .null, false, false⟩
    let order : Node := .composition ⟨"#/components/schemas/Order", [], .null, .null⟩
      ⟨.allOf, .list [.record [("type", .str "string")]],
        [text "#/components/schemas/Order/allOf/0"], none, [(.str "lines", lines)], []⟩
    parse "" schema "#/components/schemas/Order" = .ok order ∧ order.Contains items ∧
      ∃ segments raw, Reference.read? items.info.path = some ⟨"", segments⟩ ∧
        Pointer.walk (.map [(.str "Order", schema)]) segments = .ok raw ∧
        parse "" raw items.info.path = .ok items := by
  intro schema text items lines order
  have hparse : parse "" schema (Reference.localRegistry ++ "Order") = .ok order := rfl
  have hitems : order.Contains items :=
    .tail (.single (.property List.mem_cons_self)) (.items rfl)
  -- what stands inside, of which only the outermost schema has properties
  have hinside : ∀ inner, order.Contains inner →
      inner = order ∨ inner = lines ∨ ∃ path, inner = text path := by
    intro inner h
    induction h with
    | refl => exact Or.inl rfl
    | tail _ hpart ih =>
        rcases ih with heq | heq | ⟨path, heq⟩
        · rw [heq] at hpart
          cases hpart with
          | property hin => exact Or.inr (Or.inl (Prod.mk.inj (List.mem_singleton.mp hin)).2)
          | additional h => cases h
          | items h => cases h
          | member hin => exact Or.inr (Or.inr ⟨_, List.mem_singleton.mp hin⟩)
        · rw [heq] at hpart
          cases hpart with
          | property hin => exact absurd hin List.not_mem_nil
          | additional h => cases h
          | items h => exact Or.inr (Or.inr ⟨_, (Option.some.inj h).symm⟩)
          | member hin => exact absurd hin List.not_mem_nil
        · rw [heq] at hpart
          exact absurd hpart (not_isPart rfl rfl rfl rfl)
  have hnames : ∀ inner, order.Contains inner → ∀ property ∈ inner.properties, ∀ text,
      property.1 = .str text → text ≠ "" ∧ Reference.IsSegment text := by
    intro inner hinner property hproperty name hname
    rcases hinside inner hinner with heq | heq | ⟨path, heq⟩
    · rw [heq] at hproperty
      rw [List.mem_singleton.mp hproperty] at hname
      rw [← Value.str.inj hname]
      decide
    · rw [heq] at hproperty
      exact absurd hproperty List.not_mem_nil
    · rw [heq] at hproperty
      exact absurd hproperty List.not_mem_nil
  refine ⟨hparse, hitems, ?_⟩
  exact addressed_of_contains (by decide) (by decide) List.mem_cons_self (by decide) (by decide)
    hparse hnames hitems

end Node

end SchemaGraph
