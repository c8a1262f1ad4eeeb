import SchemaGraph.Proofs.Json.Writable
import SchemaGraph.Proofs.Resolve.Moved
import SchemaGraph.Proofs.Schema.Rebased

/-!
# Where a schema stands

A value is read as the same schema at every place, places apart, and a schema is written without its
place.  So the members of an `allOf` are read the same whether they stand in it or in an `allOf` that
is a member of it, and an `allOf` has an identity exactly if all its members can be written.
-/

namespace SchemaGraph

namespace Node

section Written

theorem retargeted_id (d : Option Discriminator) : d.map (·.retargeted id) = d := by
  cases d with
  | none => rfl
  | some d =>
      refine congrArg some (congrArg (Discriminator.mk d.propertyName) ?_)
      exact List.map_id' d.mapping

mutual

/-- What is written of a schema does not depend on its place. -/
theorem write_unplaced : ∀ n : Node, (n.retargeted id).write = n.write
  | .bare _ | .ref _ _ | .primitive _ _ => by
      rw [retargeted, write, write]
      rfl
  | .array info ⟨items, minItems, maxItems, uniqueItems, nullable⟩ => by
      rw [retargeted, write, write, retargetedArray, writeArray, writeArray,
        writeItems_unplaced items]
      rfl
  | .object info ⟨properties, required, additional, nullable, discriminator, oneOf, anyOf⟩ => by
      rw [retargeted, write, write, retargetedObject, writeObject, writeObject,
        isEmpty_retargetedNamed, isEmpty_retargetedVariants, isEmpty_retargetedVariants,
        retargeted_id, writeNamed_unplaced properties, writeAdditional_unplaced additional,
        writeVariants_unplaced oneOf, writeVariants_unplaced anyOf]
      rfl
  | .composition info ⟨kind, rawMembers, members, discriminator, properties, required⟩ => by
      rw [retargeted, write, write, retargetedComposition]
      unfold writeComposition
      rw [isEmpty_retargetedNamed, retargeted_id, writeNamed_unplaced properties,
        writeEach_unplaced members]
      rfl

theorem writeItems_unplaced : ∀ items : Option Node,
    writeItems (retargetedItems id items) = writeItems items
  | none => rfl
  | some item => by rw [retargetedItems, writeItems, writeItems, write_unplaced item]

theorem writeAdditional_unplaced : ∀ additional : Additional Node,
    writeAdditional (retargetedAdditional id additional) = writeAdditional additional
  | .value _ => rfl
  | .schema node => by
      rw [retargetedAdditional, writeAdditional, writeAdditional, write_unplaced node]

theorem writeNamed_unplaced : ∀ named : List (Value × Node),
    writeNamed (retargetedNamed id named) = writeNamed named
  | [] => rfl
  | (name, node) :: rest => by
      rw [retargetedNamed, writeNamed, writeNamed, write_unplaced node, writeNamed_unplaced rest]

theorem writeEach_unplaced : ∀ nodes : List Node,
    writeEach (retargetedEach id nodes) = writeEach nodes
  | [] => rfl
  | node :: rest => by
      rw [retargetedEach, writeEach, writeEach, write_unplaced node, writeEach_unplaced rest]

theorem writeVariants_unplaced : ∀ variants : List (Variant Node),
    writeVariants (retargetedVariants id variants) = writeVariants variants
  | [] => rfl
  | ⟨name, schema⟩ :: rest => by
      rw [retargetedVariants, writeVariants, writeVariants, write_unplaced schema,
        writeVariants_unplaced rest]

end

end Written

section Misplaced

variable {n n' n'' : Node}

theorem Misplaced.of_same (h : n.retargeted id = n'.retargeted id) : Misplaced n n' :=
  ⟨h, fun _ _ => trivial⟩

theorem Misplaced.refl (n : Node) : Misplaced n n := .of_same rfl

theorem Misplaced.symm (h : Misplaced n n') : Misplaced n' n := .of_same h.same.symm

theorem misplaced_symm_each {nodes nodes' : List Node} (h : List.Forall₂ Misplaced nodes nodes') :
    List.Forall₂ Misplaced nodes' nodes := h.flip.imp fun _ _ hn => Misplaced.symm hn

/-- Schemas that differ in their places only are written the same. -/
theorem Misplaced.write (h : Misplaced n n') : n.write = n'.write := by
  rw [← write_unplaced n, h.same, write_unplaced]

end Misplaced

section Reading

/-- Whether a schema is what a value is read as, wherever it stands. -/
def ReadOf (v : Value) (n : Node) : Prop :=
  ∃ levels place, v.depth ≤ levels ∧ parseWithin "" levels v place = .ok n

/-- A value is read the same at every place, and however many levels reading may go down. -/
theorem parseWithin_misplaced {v : Value} {levels levels' : Nat} (hv : v.depth ≤ levels)
    (hv' : v.depth ≤ levels') (place place' : String) :
    Agree Misplaced (parseWithin "" levels v place) (parseWithin "" levels' v place') := by
  refine (parseWithin_agree (fun target => ?_) hv hv' place place').mono fun _ _ => .of_same
  rw [rebaseValue_local]
  exact .ok rfl

theorem ReadOf.misplaced {v : Value} {n n' : Node} (h : ReadOf v n) (h' : ReadOf v n') :
    Misplaced n n' := by
  obtain ⟨levels, place, hlevels, hn⟩ := h
  obtain ⟨levels', place', hlevels', hn'⟩ := h'
  obtain ⟨m, hm, hmisplaced⟩ :=
    (parseWithin_misplaced hlevels hlevels' place place').exists_ok hn
  exact Except.ok.inj (hm.symm.trans hn') ▸ hmisplaced

theorem readOf_parse {v : Value} {place : String} {n : Node} (h : parse "" v place = .ok n) :
    ReadOf v n := ⟨v.depth, place, le_rfl, h⟩

/-- What can be read can be read at every place. -/
theorem ReadOf.exists_ok {v : Value} {n : Node} (h : ReadOf v n) {levels : Nat}
    (hlevels : v.depth ≤ levels) (place : String) :
    ∃ n', parseWithin "" levels v place = .ok n' := by
  obtain ⟨levels', place', hlevels', hn⟩ := h
  obtain ⟨n', hn', -⟩ := (parseWithin_misplaced hlevels' hlevels place' place).exists_ok hn
  exact ⟨n', hn'⟩

theorem ReadOf.exists_parse {v : Value} {n : Node} (h : ReadOf v n) (place : String) :
    ∃ n', parse "" v place = .ok n' := h.exists_ok le_rfl place

theorem ReadOf.misplaced_each {items : List Value} {nodes nodes' : List Node}
    (h : List.Forall₂ ReadOf items nodes) (h' : List.Forall₂ ReadOf items nodes') :
    List.Forall₂ Misplaced nodes nodes' := by
  induction h generalizing nodes' with
  | nil =>
      rw [List.forall₂_nil_left_iff.mp h']
      exact .nil
  | cons hn _ ih =>
      obtain ⟨n', rest', hn', hrest', rfl⟩ := List.forall₂_cons_left_iff.mp h'
      exact .cons (hn.misplaced hn') (ih hrest')

theorem readOf_parseEach {items : List Value} {levels : Nat}
    (hlevels : Value.itemsDepth items ≤ levels) {place : String} {index : Nat} {nodes : List Node}
    (h : parseEach (parseWithin "" levels) place index items = .ok nodes) :
    List.Forall₂ ReadOf items nodes := by
  induction items generalizing index nodes with
  | nil =>
      rw [← Except.ok.inj h]
      exact .nil
  | cons item rest ih =>
      rw [Value.itemsDepth, Nat.max_le] at hlevels
      obtain ⟨node, others, hnode, hothers, rfl⟩ := parseEach_cons_eq_ok.mp h
      exact .cons ⟨levels, _, hlevels.1, hnode⟩ (ih hlevels.2 hothers)

theorem exists_parseEach {items : List Value} {levels : Nat}
    (hlevels : Value.itemsDepth items ≤ levels) {nodes : List Node}
    (h : List.Forall₂ ReadOf items nodes) (place : String) (index : Nat) :
    ∃ nodes', parseEach (parseWithin "" levels) place index items = .ok nodes' := by
  induction h generalizing index with
  | nil => exact ⟨[], rfl⟩
  | cons hn _ ih =>
      rw [Value.itemsDepth, Nat.max_le] at hlevels
      obtain ⟨node, hnode⟩ := hn.exists_ok hlevels.1 _
      obtain ⟨others, hothers⟩ := ih hlevels.2 (index + 1)
      exact ⟨_, parseEach_cons_eq_ok.mpr ⟨node, others, hnode, hothers, rfl⟩⟩

end Reading

section AllOf

/-- An `allOf` that has nothing but members. -/
def allOfSchema (items : List Value) : Value := Value.record [("allOf", .list items)]

/-- What such an `allOf` is read as. -/
def allOfNode (place : String) (items : List Value) (members : List Node) : Node :=
  .composition { path := place, metadata := [], title := .null, description := .null }
    { kind := .allOf
      rawMembers := .list items
      members := members
      discriminator := none
      properties := []
      required := [] }

/-- Such an `allOf` is read exactly if its members are. -/
theorem parseWithin_allOf {levels : Nat} {items : List Value} {place : String} {n : Node} :
    parseWithin "" (levels + 1) (allOfSchema items) place = .ok n ↔
      ∃ members, parseEach (parseWithin "" levels) s!"{place}/{CompositionKind.allOf.keyword}" 0
        items = .ok members ∧ n = allOfNode place items members := by
  have hmetadata : metadata [(.str "allOf", .list items)] = .ok [] := by
    rw [metadata, metadata]
    simp [show isMetadataKey "allOf" = false by decide]
  have hkind : compositionOf [(.str "allOf", .list items)] = some .allOf := rfl
  change parseEntries (parseWithin "" levels) "" place [(.str "allOf", .list items)] = .ok n ↔ _
  rw [parseEntries_eq_ok, hmetadata]
  constructor
  · rintro ⟨table, htable, hparsed⟩
    obtain rfl := Except.ok.inj htable
    cases hparsed with
    | ref href => cases href
    | composition href hcomposition h =>
        obtain rfl := Option.some.inj (hkind.symm.trans hcomposition)
        obtain ⟨members, d, properties, required, hmembers, hd, hproperties, hrequired, rfl⟩ :=
          parseComposition_eq_ok.mp h
        obtain rfl := Except.ok.inj hd
        obtain rfl := Except.ok.inj hproperties
        obtain rfl := Except.ok.inj hrequired
        exact ⟨members, hmembers, rfl⟩
    | array _ hcomposition => exact absurd (hkind.symm.trans hcomposition) (Option.some_ne_none _)
    | object _ hcomposition => exact absurd (hkind.symm.trans hcomposition) (Option.some_ne_none _)
    | primitive _ hcomposition => exact absurd (hkind.symm.trans hcomposition) (Option.some_ne_none _)
  · rintro ⟨members, hmembers, rfl⟩
    refine ⟨[], rfl, .composition rfl hkind ?_⟩
    exact parseComposition_eq_ok.mpr ⟨members, none, [], [], hmembers, rfl, rfl, rfl, rfl⟩

theorem depth_allOfSchema (items : List Value) :
    (allOfSchema items).depth = Value.itemsDepth items + 2 := by
  rw [allOfSchema, Value.record, List.map_singleton, Value.depth, Value.entriesDepth, Value.depth,
    Value.entriesDepth]
  omega

/-- An `allOf` is read if its members are. -/
theorem readOf_allOf {items : List Value} {n : Node} (h : ReadOf (allOfSchema items) n) :
    ∃ place members, n = allOfNode place items members ∧ List.Forall₂ ReadOf items members := by
  obtain ⟨levels, place, hlevels, hn⟩ := h
  rw [depth_allOfSchema] at hlevels
  obtain ⟨below, rfl⟩ : ∃ below, levels = below + 1 := ⟨levels - 1, by omega⟩
  obtain ⟨members, hmembers, rfl⟩ := parseWithin_allOf.mp hn
  exact ⟨place, members, rfl, readOf_parseEach (by omega) hmembers⟩

theorem exists_readOf_allOf {items : List Value} {members : List Node}
    (h : List.Forall₂ ReadOf items members) (place : String) :
    ∃ n, parse "" (allOfSchema items) place = .ok n := by
  obtain ⟨nodes, hnodes⟩ := exists_parseEach (Nat.le_succ (Value.itemsDepth items)) h
    s!"{place}/{CompositionKind.allOf.keyword}" 0
  refine ⟨allOfNode place items nodes, ?_⟩
  rw [parse, depth_allOfSchema]
  exact parseWithin_allOf.mpr ⟨nodes, hnodes, rfl⟩

/-- What values can be read as one by one. -/
theorem exists_readOf_each {items : List Value} :
    (∃ nodes, List.Forall₂ ReadOf items nodes) ↔ ∀ item ∈ items, ∃ n, ReadOf item n := by
  induction items with
  | nil => exact iff_of_true ⟨[], .nil⟩ fun _ hitem => nomatch hitem
  | cons item rest ih =>
      rw [List.forall_mem_cons, ← ih]
      constructor
      · rintro ⟨nodes, h⟩
        obtain ⟨n, others, hn, hothers, -⟩ := List.forall₂_cons_left_iff.mp h
        exact ⟨⟨n, hn⟩, others, hothers⟩
      · rintro ⟨⟨n, hn⟩, others, hothers⟩
        exact ⟨n :: others, .cons hn hothers⟩

/-- An `allOf` can be read exactly if each of its members can. -/
theorem readable_allOf {items : List Value} :
    (∃ n, ReadOf (allOfSchema items) n) ↔ ∀ item ∈ items, ∃ n, ReadOf item n := by
  rw [← exists_readOf_each]
  constructor
  · rintro ⟨n, hn⟩
    obtain ⟨-, members, -, hmembers⟩ := readOf_allOf hn
    exact ⟨members, hmembers⟩
  · rintro ⟨members, hmembers⟩
    obtain ⟨n, hn⟩ := exists_readOf_allOf hmembers ""
    exact ⟨n, readOf_parse hn⟩

theorem writeEach_eq (nodes : List Node) : writeEach nodes = nodes.map write := by
  induction nodes with
  | nil => rfl
  | cons node rest ih => rw [writeEach, ih, List.map_cons]

theorem write_allOfNode (place : String) (items : List Value) (members : List Node) :
    (allOfNode place items members).write = .map [(.str "allOf", .list (members.map write))] := by
  rw [allOfNode, write, writeComposition, writeEach_eq]
  rfl

theorem writable_allOfNode {place : String} {items : List Value} {members : List Node} :
    Json.Writable (allOfNode place items members).write ↔
      ∀ member ∈ members, Json.Writable member.write := by
  rw [write_allOfNode, Json.writable_single_iff, Json.writable_list_iff, List.forall_mem_map]

/-- An `allOf` has an identity exactly if all its members can be written. -/
theorem identity_allOf_iff {place : String} {items : List Value} {members : List Node} :
    (∃ key, identity (allOfNode place items members) = .ok key) ↔
      ∀ member ∈ members, Json.Writable member.write := by
  rw [← @writable_allOfNode place items members]
  unfold identity canonicalText Json.Writable
  cases Json.canonical (allOfNode place items members).write with
  | error fault => exact iff_of_false (fun ⟨_, h⟩ => nomatch h) fun ⟨_, h⟩ => nomatch h
  | ok text => exact iff_of_true ⟨_, rfl⟩ ⟨_, rfl⟩

/-- Schemas that differ in their places only can both be written or neither. -/
theorem writable_misplaced {nodes nodes' : List Node} (h : List.Forall₂ Misplaced nodes nodes') :
    (∀ node ∈ nodes, Json.Writable node.write) ↔ ∀ node ∈ nodes', Json.Writable node.write := by
  induction h with
  | nil => exact Iff.rfl
  | cons hn _ ih =>
      rw [List.forall_mem_cons, List.forall_mem_cons, ih, Misplaced.write hn]

end AllOf

end Node

end SchemaGraph
