import SchemaGraph.Schema.Parse
import SchemaGraph.Proofs.Outcome

/-!
# What reading gives, kind by kind

Reading a schema goes one of five ways: a reference, a composition, an array, an object or a
primitive.  `Parsed` says which way is taken and with what result, and `parseEntries_eq_ok` that
reading succeeds in exactly these ways.  For each kind, reading succeeds when all of its parts are
read, and puts them together.
-/

namespace SchemaGraph.Node

/-- Without a base a reference stays as it is. -/
theorem rebaseValue_local (v : Value) : rebaseValue "" v = .ok v := by
  cases v with
  | str s => rfl
  | _ => rfl

/-- Only a text is rebased to a text. -/
theorem rebaseValue_eq_str {base x : String} {v : Value} (h : rebaseValue base v = .ok (.str x)) :
    ∃ y, v = .str y ∧ Location.rebase base y = .ok x := by
  cases v with
  | str y =>
      obtain ⟨rebased, hrebased, h⟩ := bind_eq_ok.mp h
      rw [Value.str.inj (Except.ok.inj h)] at hrebased
      exact ⟨y, rfl, orFail_eq_ok.mp hrebased⟩
  | _ => cases h

/-- The annotations that are read stand among the entries, under names that mark them. -/
theorem metadata_sublist {entries table : List (Value × Value)} (h : metadata entries = .ok table) :
    table.Sublist entries ∧
      ∀ entry ∈ table, ∃ key, entry.1 = .str key ∧ isMetadataKey key = true := by
  induction entries generalizing table with
  | nil =>
      rw [← Except.ok.inj h]
      exact ⟨List.Sublist.refl _, fun _ hentry => absurd hentry (by simp)⟩
  | cons entry rest ih =>
      obtain ⟨key, item⟩ := entry
      cases key with
      | str key =>
          rw [metadata, bind_eq_ok] at h
          obtain ⟨others, hothers, h⟩ := h
          obtain ⟨hsublist, hkeys⟩ := ih hothers
          rw [← Except.ok.inj h]
          cases hkey : isMetadataKey key with
          | true =>
              rw [if_pos rfl]
              exact ⟨hsublist.cons_cons _, List.forall_mem_cons.mpr ⟨⟨key, rfl, hkey⟩, hkeys⟩⟩
          | false =>
              rw [if_neg (by simp)]
              exact ⟨hsublist.cons _, hkeys⟩
      | _ => cases h

section Kinds

variable {read : Value → String → Except Failure Node} {base path : String} {info : NodeInfo}
  {entries : Table Value} {nullable : Bool} {n : Node}

theorem parseEach_cons_eq_ok {index : Nat} {item : Value} {rest : List Value}
    {nodes : List Node} :
    parseEach read path index (item :: rest) = .ok nodes ↔
      ∃ node others, read item s!"{path}/{index}" = .ok node ∧
        parseEach read path (index + 1) rest = .ok others ∧ nodes = node :: others := by
  rw [parseEach, bind_eq_ok]
  constructor
  · rintro ⟨node, hnode, h⟩
    obtain ⟨others, hothers, h⟩ := bind_eq_ok.mp h
    exact ⟨node, others, hnode, hothers, (Except.ok.inj h).symm⟩
  · rintro ⟨node, others, hnode, hothers, rfl⟩
    exact ⟨node, hnode, bind_eq_ok.mpr ⟨others, hothers, rfl⟩⟩

theorem parseNamed_cons_eq_ok {name item : Value} {rest : List (Value × Value)}
    {nodes : Table Node} :
    parseNamed read path ((name, item) :: rest) = .ok nodes ↔
      ∃ node others, read item s!"{path}/properties/{name.display}" = .ok node ∧
        parseNamed read path rest = .ok others ∧ nodes = (name, node) :: others := by
  rw [parseNamed, bind_eq_ok]
  constructor
  · rintro ⟨node, hnode, h⟩
    obtain ⟨others, hothers, h⟩ := bind_eq_ok.mp h
    exact ⟨node, others, hnode, hothers, (Except.ok.inj h).symm⟩
  · rintro ⟨node, others, hnode, hothers, rfl⟩
    exact ⟨node, hnode, bind_eq_ok.mpr ⟨others, hothers, rfl⟩⟩

theorem length_parseEach {index : Nat} {items : List Value} {nodes : List Node}
    (h : parseEach read path index items = .ok nodes) : items.length = nodes.length := by
  induction items generalizing index nodes with
  | nil =>
      rw [← Except.ok.inj h]
      rfl
  | cons item rest ih =>
      obtain ⟨node, others, -, hothers, rfl⟩ := parseEach_cons_eq_ok.mp h
      rw [List.length_cons, List.length_cons, ih hothers]

theorem keys_parseNamed {named : List (Value × Value)} {nodes : Table Node}
    (h : parseNamed read path named = .ok nodes) : nodes.map (·.1) = named.map (·.1) := by
  induction named generalizing nodes with
  | nil =>
      rw [← Except.ok.inj h]
      rfl
  | cons entry rest ih =>
      obtain ⟨node, others, -, hothers, rfl⟩ := parseNamed_cons_eq_ok.mp h
      rw [List.map_cons, List.map_cons, ih hothers]

section Members

variable {P : Value → Prop} {Q : Node → Prop}
  (hread : ∀ item path n, P item → read item path = .ok n → Q n)
include hread

/-- What reading says of a schema, it says of all schemas of a list. -/
theorem forall_parseEach {index : Nat} {items : List Value} {nodes : List Node}
    (hitems : ∀ item ∈ items, P item) (h : parseEach read path index items = .ok nodes) :
    ∀ node ∈ nodes, Q node := by
  induction items generalizing index nodes with
  | nil =>
      rw [← Except.ok.inj h]
      exact fun _ hnode => absurd hnode (by simp)
  | cons item rest ih =>
      obtain ⟨node, others, hnode, hothers, rfl⟩ := parseEach_cons_eq_ok.mp h
      obtain ⟨hitem, hrest⟩ := List.forall_mem_cons.mp hitems
      exact List.forall_mem_cons.mpr ⟨hread item _ node hitem hnode, ih hrest hothers⟩

theorem forall_parseNamed {named : List (Value × Value)} {nodes : Table Node}
    (hnamed : ∀ entry ∈ named, P entry.2) (h : parseNamed read path named = .ok nodes) :
    ∀ entry ∈ nodes, Q entry.2 := by
  induction named generalizing nodes with
  | nil =>
      rw [← Except.ok.inj h]
      exact fun _ hnode => absurd hnode (by simp)
  | cons entry rest ih =>
      obtain ⟨node, others, hnode, hothers, rfl⟩ := parseNamed_cons_eq_ok.mp h
      obtain ⟨hitem, hrest⟩ := List.forall_mem_cons.mp hnamed
      exact List.forall_mem_cons.mpr ⟨hread entry.2 _ node hitem hnode, ih hrest hothers⟩

end Members

/-- Members are read one by one if they are a list, and are none if not. -/
theorem parseMembers_eq_ok {raw : Value} {members : List Node} :
    parseMembers read path raw = .ok members ↔
      (∃ items, raw = .list items ∧ parseEach read path 0 items = .ok members) ∨
      (∀ items, raw ≠ .list items) ∧ members = [] := by
  cases raw with
  | list items =>
      constructor
      · intro h
        exact Or.inl ⟨items, rfl, h⟩
      · rintro (⟨items', heq, h⟩ | ⟨hne, -⟩)
        · rw [Value.list.inj heq]
          exact h
        · exact absurd rfl (hne items)
  | _ =>
      constructor
      · intro h
        exact Or.inr ⟨by simp, (Except.ok.inj h).symm⟩
      · rintro (⟨items', heq, -⟩ | ⟨-, rfl⟩)
        · cases heq
        · rfl

/-- Properties are read one by one, if they are given. -/
theorem parseProperties_eq_ok {properties : Table Node} :
    parseProperties read path entries = .ok properties ↔
      ((field entries "properties").truthy = false ∧ properties = []) ∨
      (field entries "properties").truthy = true ∧ ∃ named,
        field entries "properties" = .map named ∧ parseNamed read path named = .ok properties := by
  rw [parseProperties]
  cases htruthy : (field entries "properties").truthy with
  | false =>
      constructor
      · intro h
        exact Or.inl ⟨rfl, (Except.ok.inj h).symm⟩
      · rintro (⟨-, rfl⟩ | ⟨hne, -⟩)
        · rfl
        · cases hne
  | true =>
      cases hfield : field entries "properties" with
      | map named =>
          constructor
          · intro h
            exact Or.inr ⟨rfl, named, rfl, h⟩
          · rintro (⟨hne, -⟩ | ⟨-, named', heq, h⟩)
            · cases hne
            · rw [Value.map.inj heq]
              exact h
      | _ =>
          constructor
          · intro h
            cases h
          · rintro (⟨hne, -⟩ | ⟨-, named, heq, -⟩)
            · cases hne
            · cases heq

theorem parseItems_eq_ok {raw : Value} {items : Option Node} :
    parseItems read path raw = .ok items ↔
      (raw = .null ∧ items = none) ∨
      raw ≠ .null ∧ ∃ item, read raw s!"{path}/items" = .ok item ∧ items = some item := by
  cases raw with
  | null =>
      constructor
      · intro h
        exact Or.inl ⟨rfl, (Except.ok.inj h).symm⟩
      · rintro (⟨-, rfl⟩ | ⟨hne, -⟩)
        · rfl
        · exact absurd rfl hne
  | _ =>
      rw [parseItems, bind_eq_ok]
      · constructor
        · rintro ⟨item, hitem, h⟩
          exact Or.inr ⟨by simp, item, hitem, (Except.ok.inj h).symm⟩
        · rintro (⟨heq, -⟩ | ⟨-, item, hitem, rfl⟩)
          · cases heq
          · exact ⟨item, hitem, rfl⟩
      · simp

theorem parseAdditional_eq_ok {raw : Value} {additional : Additional Node} :
    parseAdditional read path raw = .ok additional ↔
      (raw.isMap = true ∧ ∃ node, read raw s!"{path}/additionalProperties" = .ok node ∧
        additional = .schema node) ∨
      raw.isMap = false ∧ additional = .value raw := by
  cases raw with
  | map fields =>
      rw [parseAdditional, bind_eq_ok]
      constructor
      · rintro ⟨node, hnode, h⟩
        exact Or.inl ⟨rfl, node, hnode, (Except.ok.inj h).symm⟩
      · rintro (⟨-, node, hnode, rfl⟩ | ⟨hne, -⟩)
        · exact ⟨node, hnode, rfl⟩
        · cases hne
  | _ =>
      constructor
      · intro h
        exact Or.inr ⟨rfl, (Except.ok.inj h).symm⟩
      · rintro (⟨hne, -⟩ | ⟨-, rfl⟩)
        · cases hne
        · rfl

theorem parseArray_eq_ok :
    parseArray read path info nullable entries = .ok n ↔
      ∃ items, parseItems read path (field entries "items") = .ok items ∧
        n = .array info
          { items := items
            minItems := field entries "minItems"
            maxItems := field entries "maxItems"
            uniqueItems := (field entries "uniqueItems").truthy
            nullable := nullable } := by
  rw [parseArray, bind_eq_ok]
  constructor
  · rintro ⟨items, hitems, h⟩
    exact ⟨items, hitems, (Except.ok.inj h).symm⟩
  · rintro ⟨items, hitems, rfl⟩
    exact ⟨items, hitems, rfl⟩

theorem parseObject_eq_ok :
    parseObject read base path info nullable entries = .ok n ↔
      ∃ additional properties required d,
        parseAdditional read path (field entries "additionalProperties") = .ok additional ∧
        parseProperties read path entries = .ok properties ∧
        requiredNames entries = .ok required ∧ discriminator base entries = .ok d ∧
        n = .object info
          { properties := properties
            required := required
            additional := additional
            nullable := nullable
            discriminator := d
            oneOfVariants := []
            anyOfVariants := [] } := by
  rw [parseObject, bind_eq_ok]
  constructor
  · rintro ⟨additional, hadditional, h⟩
    obtain ⟨properties, hproperties, h⟩ := bind_eq_ok.mp h
    obtain ⟨required, hrequired, h⟩ := bind_eq_ok.mp h
    obtain ⟨d, hd, h⟩ := bind_eq_ok.mp h
    exact ⟨additional, properties, required, d, hadditional, hproperties, hrequired, hd,
      (Except.ok.inj h).symm⟩
  · rintro ⟨additional, properties, required, d, hadditional, hproperties, hrequired, hd, rfl⟩
    exact ⟨additional, hadditional, bind_eq_ok.mpr ⟨properties, hproperties,
      bind_eq_ok.mpr ⟨required, hrequired, bind_eq_ok.mpr ⟨d, hd, rfl⟩⟩⟩⟩

theorem parseComposition_eq_ok {kind : CompositionKind} :
    parseComposition read base path info kind entries = .ok n ↔
      ∃ members d properties required,
        parseMembers read s!"{path}/{kind.keyword}" (field entries kind.keyword) = .ok members ∧
        discriminator base entries = .ok d ∧
        parseProperties read path entries = .ok properties ∧
        requiredNames entries = .ok required ∧
        n = .composition info
          ⟨kind, field entries kind.keyword, members, d, properties, required⟩ := by
  rw [parseComposition, bind_eq_ok]
  constructor
  · rintro ⟨members, hmembers, h⟩
    obtain ⟨d, hd, h⟩ := bind_eq_ok.mp h
    obtain ⟨properties, hproperties, h⟩ := bind_eq_ok.mp h
    obtain ⟨required, hrequired, h⟩ := bind_eq_ok.mp h
    exact ⟨members, d, properties, required, hmembers, hd, hproperties, hrequired,
      (Except.ok.inj h).symm⟩
  · rintro ⟨members, d, properties, required, hmembers, hd, hproperties, hrequired, rfl⟩
    exact ⟨members, hmembers, bind_eq_ok.mpr ⟨d, hd, bind_eq_ok.mpr ⟨properties, hproperties,
      bind_eq_ok.mpr ⟨required, hrequired, rfl⟩⟩⟩⟩

/-- A type that is not given is told by the first choice, if choices are given. -/
theorem primitiveType_eq_ok {typeName choices declared : Value} :
    primitiveType typeName choices = .ok declared ↔
      (typeName.truthy = false ∧ choices.truthy = true ∧
        ∃ told, firstItem choices = .ok told ∧ declared = .str (typeOfChoice told)) ∨
      (typeName.truthy = true ∨ choices.truthy = false) ∧ declared = typeName := by
  rw [primitiveType]
  cases typeName.truthy with
  | true =>
      constructor
      · intro h
        exact Or.inr ⟨Or.inl rfl, (Except.ok.inj h).symm⟩
      · rintro (⟨hne, -⟩ | ⟨-, rfl⟩)
        · cases hne
        · rfl
  | false =>
      cases choices.truthy with
      | true =>
          rw [if_pos (by rfl), bind_eq_ok]
          constructor
          · rintro ⟨told, htold, h⟩
            exact Or.inl ⟨rfl, rfl, told, orFail_eq_ok.mp htold, (Except.ok.inj h).symm⟩
          · rintro (⟨-, -, told, htold, rfl⟩ | ⟨hne, -⟩)
            · exact ⟨told, orFail_eq_ok.mpr htold, rfl⟩
            · rcases hne with hne | hne <;> cases hne
      | false =>
          constructor
          · intro h
            exact Or.inr ⟨Or.inr rfl, (Except.ok.inj h).symm⟩
          · rintro (⟨-, hne, -⟩ | ⟨-, rfl⟩)
            · cases hne
            · rfl

theorem listChoices_eq_some {choices : Value} {items : List Value} :
    listChoices choices = .ok (some items) ↔ choices.iterate = .ok items := by
  cases choices with
  | null =>
      constructor
      · intro h
        cases h
      · intro h
        cases h
  | _ =>
      rw [listChoices, bind_eq_ok]
      · constructor
        · rintro ⟨listed, hlisted, h⟩
          rw [← Option.some.inj (Except.ok.inj h)]
          exact orFail_eq_ok.mp hlisted
        · intro h
          exact ⟨items, orFail_eq_ok.mpr h, rfl⟩
      · simp

theorem parsePrimitive_eq_ok {typeName : Value} :
    parsePrimitive info typeName nullable entries = .ok n ↔
      ∃ declared choices, primitiveType typeName (field entries "enum") = .ok declared ∧
        listChoices (field entries "enum") = .ok choices ∧
        n = .primitive info
          { typeName := declared.orElse (.str "")
            format := field entries "format"
            choices := choices
            nullable := nullable
            constraints := constraints declared entries } := by
  rw [parsePrimitive, bind_eq_ok]
  constructor
  · rintro ⟨declared, hdeclared, h⟩
    obtain ⟨choices, hchoices, h⟩ := bind_eq_ok.mp h
    exact ⟨declared, choices, hdeclared, hchoices, (Except.ok.inj h).symm⟩
  · rintro ⟨declared, choices, hdeclared, hchoices, rfl⟩
    exact ⟨declared, hdeclared, bind_eq_ok.mpr ⟨choices, hchoices, rfl⟩⟩

end Kinds

/-- The keyword of the composition that is written in some entries. -/
def compositionOf (entries : Table Value) : Option CompositionKind :=
  CompositionKind.all.find? fun kind => entries.has kind.keyword

/-- Whether entries are those of an object, where they are neither those of a reference or a
composition nor those of an array. -/
def isObject (entries : Table Value) : Bool :=
  (declaredTypeOf entries).1.isText "object" || entries.has "properties" ||
    entries.has "additionalProperties"

/-- What entries are read as, with annotations that were read already. -/
inductive Parsed (read : Value → String → Except Failure Node) (base path : String)
    (entries : Table Value) (info : NodeInfo) : Node → Prop where
  | ref {target rebased : Value} (href : entries.at? "$ref" = some target)
      (hrebased : rebaseValue base target = .ok rebased) :
      Parsed read base path entries info (.ref info rebased)
  | composition {kind : CompositionKind} {n : Node} (href : entries.at? "$ref" = none)
      (hkind : compositionOf entries = some kind)
      (h : parseComposition read base path info kind entries = .ok n) :
      Parsed read base path entries info n
  | array {n : Node} (href : entries.at? "$ref" = none) (hkind : compositionOf entries = none)
      (htype : (declaredTypeOf entries).1.isText "array" = true)
      (h : parseArray read path info (declaredTypeOf entries).2 entries = .ok n) :
      Parsed read base path entries info n
  | object {n : Node} (href : entries.at? "$ref" = none) (hkind : compositionOf entries = none)
      (htype : (declaredTypeOf entries).1.isText "array" = false)
      (hobject : isObject entries = true)
      (h : parseObject read base path info (declaredTypeOf entries).2 entries = .ok n) :
      Parsed read base path entries info n
  | primitive {n : Node} (href : entries.at? "$ref" = none) (hkind : compositionOf entries = none)
      (htype : (declaredTypeOf entries).1.isText "array" = false)
      (hobject : isObject entries = false)
      (h : parsePrimitive info (declaredTypeOf entries).1 (declaredTypeOf entries).2 entries =
        .ok n) :
      Parsed read base path entries info n

/-- What is read as the annotations of a schema. -/
def infoOf (path : String) (table entries : Table Value) : NodeInfo :=
  ⟨path, table, field entries "title", field entries "description"⟩

/-- Reading succeeds in exactly five ways. -/
theorem parseEntries_eq_ok {read : Value → String → Except Failure Node} {base path : String}
    {entries : Table Value} {n : Node} :
    parseEntries read base path entries = .ok n ↔
      ∃ table, metadata entries = .ok table ∧
        Parsed read base path entries (infoOf path table entries) n := by
  rw [parseEntries, bind_eq_ok]
  refine exists_congr fun table => and_congr_right fun _ => ?_
  constructor
  · intro h
    dsimp only at h
    -- the questions in the order in which reading asks them: target, members, type
    cases href : entries.at? "$ref" with
    | some target =>
        rw [href] at h
        obtain ⟨rebased, hrebased, h⟩ := bind_eq_ok.mp h
        rw [← Except.ok.inj h]
        exact .ref href hrebased
    | none =>
        rw [href] at h
        cases hkind : CompositionKind.all.find? fun kind => Table.has entries kind.keyword with
        | some kind =>
            rw [hkind] at h
            exact .composition href hkind h
        | none =>
            rw [hkind] at h
            dsimp only at h
            split at h
            · rename_i htype
              exact .array href hkind htype h
            · rename_i htype
              split at h
              · rename_i hobject
                exact .object href hkind (Bool.eq_false_iff.mpr htype) hobject h
              · rename_i hobject
                exact .primitive href hkind (Bool.eq_false_iff.mpr htype)
                  (Bool.eq_false_iff.mpr hobject) h
  · intro h
    cases h with
    | ref href hrebased =>
        rw [href]
        exact bind_eq_ok.mpr ⟨_, hrebased, rfl⟩
    | composition href hkind h =>
        unfold compositionOf at hkind
        rw [href, hkind]
        exact h
    | array href hkind htype h =>
        unfold compositionOf at hkind
        rw [href, hkind]
        dsimp only
        rw [if_pos htype]
        exact h
    | object href hkind htype hobject h =>
        unfold compositionOf at hkind
        unfold isObject at hobject
        rw [href, hkind]
        dsimp only
        rw [if_neg (by rw [htype]; decide), if_pos hobject]
        exact h
    | primitive href hkind htype hobject h =>
        unfold compositionOf at hkind
        unfold isObject at hobject
        rw [href, hkind]
        dsimp only
        rw [if_neg (by rw [htype]; decide), if_neg (by rw [hobject]; decide)]
        exact h

/-- What holds of reading entries, if it holds of reading one level below, holds of reading every
value. -/
theorem parseWithin_induction (base : String) {P : Value → Node → Prop}
    (h : ∀ read : Value → String → Except Failure Node,
      (∀ item path n, read item path = .ok n → P item n) →
      ∀ entries path n, parseEntries read base path entries = .ok n → P (.map entries) n)
    (levels : Nat) : ∀ v path n, parseWithin base levels v path = .ok n → P v n := by
  induction levels with
  | zero =>
      intro v path n hn
      cases hn
  | succ levels ih =>
      intro v path n hn
      cases v with
      | map entries => exact h _ ih entries path n hn
      | _ => cases hn

end SchemaGraph.Node
