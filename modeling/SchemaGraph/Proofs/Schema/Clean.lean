import SchemaGraph.Proofs.Schema.Grouping
import SchemaGraph.Proofs.Schema.Parsed
import SchemaGraph.Proofs.Value.ProperParts

/-!
# Proper schemas

What proper members are merged to is proper, and so is what variants are made of.  A schema that is
read from a proper value is clean: nothing but the references and compositions in it keeps it from
being proper.
-/

namespace SchemaGraph

namespace Node

/-- A schema is proper if the properties and the names that it brings are. -/
theorem proper_iff {n : Node} :
    n.Proper ↔
      (∀ entry ∈ n.brought.properties, entry.1.hashable = true ∧ entry.2.declaredType.Proper) ∧
        ∀ name ∈ n.brought.required, name.Proper := by
  rw [brought_properties]
  constructor
  · exact fun h => ⟨fun entry hentry => ⟨h.names entry hentry, h.types entry hentry⟩, h.required⟩
  · exact fun h => ⟨fun entry hentry => (h.1 entry hentry).1, fun entry hentry =>
      (h.1 entry hentry).2, h.2⟩

/-- Whatever is no object brings nothing. -/
theorem proper_of_other {n : Node} (h : n.object? = none) : n.Proper := by
  have hbrought : n.brought = emptyShape := by
    unfold brought
    rw [h]
    rfl
  rw [proper_iff, hbrought]
  simp [emptyShape]

end Node

open Node

section Merging

theorem Merged.proper_absorb {m next : Merged} {n : Node} (hm : m.node.Proper) (hn : n.Proper)
    (h : m.absorb n = .ok next) : next.node.Proper := by
  obtain ⟨hproperties, hrequired⟩ := proper_iff.mp hm
  obtain ⟨hbrought, hnames⟩ := proper_iff.mp hn
  rw [absorb_eq, bind_eq_ok] at h
  obtain ⟨_, -, h⟩ := h
  rw [← Except.ok.inj h, proper_iff]
  exact ⟨Table.forall_putAll (P := fun key => key.hashable = true)
    (Q := fun declared : Node => declared.declaredType.Proper) hproperties hbrought,
    Value.extendUnique_proper hrequired hnames⟩

variable {info : NodeInfo} {shape : CompositionShape Node} {variants : List (Variant Node)}
  (hown : (Merged.start info shape).node.Proper)
include hown

theorem Node.proper_resolvedOneOf {d : Discriminator} {n : Node}
    (h : resolvedOneOf info shape d variants = .ok n) : n.Proper := by
  obtain ⟨hproperties, hrequired⟩ := proper_iff.mp hown
  unfold resolvedOneOf at h
  dsimp only at h
  split at h
  · cases h
  · rename_i hname
    have hname : d.propertyName.hashable = true := by simpa using hname
    rw [← Except.ok.inj h, proper_iff]
    refine ⟨Table.forall_putNew (P := fun key => key.hashable = true)
      (Q := fun declared : Node => declared.declaredType.Proper) hproperties hname trivial, ?_⟩
    exact Value.extendUnique_proper hrequired
      (List.forall_mem_singleton.mpr (Value.proper_of_hashable hname))

theorem Node.proper_resolvedAnyOf (hvariants : ∀ v ∈ variants, v.schema.Proper) :
    (resolvedAnyOf info shape variants).Proper := by
  have hoffers : ∀ offering : ObjectShape Node,
      (Node.object (Merged.start info shape).info offering).Proper →
        (Node.object (Merged.start info shape).info (variants.foldl offer offering)).Proper := by
    induction variants with
    | nil => exact fun _ hoffering => hoffering
    | cons v rest ih =>
        obtain ⟨hv, hrest⟩ := List.forall_mem_cons.mp hvariants
        intro offering hoffering
        refine ih hrest _ ?_
        obtain ⟨hproperties, hrequired⟩ := proper_iff.mp hoffering
        obtain ⟨hbrought, hnames⟩ := proper_iff.mp hv
        rw [offer_eq, proper_iff]
        exact ⟨Table.forall_putAllNew (P := fun key => key.hashable = true)
          (Q := fun declared : Node => declared.declaredType.Proper) hproperties hbrought,
          Value.extendUnique_proper hrequired hnames⟩
  have hstart := proper_iff.mp hown
  exact hoffers _ (proper_iff.mpr hstart)

end Merging

namespace Node

/-- Schemas that are proper but for references and compositions: what a composition declares by itself
is proper, and its members are clean. -/
inductive Clean : Node → Prop where
  | leaf {n : Node} (hleaf : n.isLeaf = true) (hproper : n.Proper) : Clean n
  | ref (info : NodeInfo) (target : Value) : Clean (.ref info target)
  | composition {info : NodeInfo} {shape : CompositionShape Node}
      (hown : (Merged.start info shape).node.Proper)
      (hmembers : ∀ member ∈ shape.members, Clean member) : Clean (.composition info shape)

theorem Clean.proper_of_isLeaf {n : Node} (h : n.Clean) (hleaf : n.isLeaf = true) : n.Proper := by
  cases h with
  | leaf _ hproper => exact hproper
  | ref info target => cases hleaf
  | composition hown hmembers => cases hleaf

theorem Clean.parts {info : NodeInfo} {shape : CompositionShape Node}
    (h : (Node.composition info shape).Clean) :
    (Merged.start info shape).node.Proper ∧ ∀ member ∈ shape.members, member.Clean := by
  cases h with
  | leaf hleaf _ => cases hleaf
  | composition hown hmembers => exact ⟨hown, hmembers⟩

section Reading

open Value

variable {entries : Table Value} (hentries : (Value.map entries).Proper)
include hentries

theorem proper_requiredNames {names : List Value} (h : requiredNames entries = .ok names) :
    ∀ name ∈ names, name.Proper := by
  unfold requiredNames at h
  dsimp only at h
  split at h
  · exact proper_iterate (inherited_proper.field hentries "required") (orFail_eq_ok.mp h)
  · rw [← Except.ok.inj h]
    exact fun _ hname => nomatch hname

variable {read : Value → String → Except Failure Node}
  (hread : ∀ item path n, item.Proper → read item path = .ok n →
    n.Clean ∧ n.declaredType.Proper)
include hread

theorem proper_parseProperties {path : String} {properties : Table Node}
    (h : parseProperties read path entries = .ok properties) :
    ∀ entry ∈ properties, entry.1.hashable = true ∧ entry.2.declaredType.Proper := by
  rcases parseProperties_eq_ok.mp h with ⟨-, rfl⟩ | ⟨-, named, hfield, hnamed⟩
  · exact fun _ hentry => nomatch hentry
  · have hproper := inherited_proper.field hentries "properties"
    rw [hfield, proper_map_iff] at hproper
    have hkeys : Table.keys properties = Table.keys named := keys_parseNamed hnamed
    intro entry hentry
    have hkey := List.mem_map_of_mem (f := (·.1)) hentry
    refine ⟨hproper.1.1 entry.1 (hkeys ▸ hkey), ?_⟩
    exact (forall_parseNamed hread hproper.2 hnamed entry hentry).2

/-- Reading the entries of a proper mapping gives a clean schema with a proper type, if it does so one
level below. -/
theorem clean_parseEntries {base path : String} {n : Node}
    (h : parseEntries read base path entries = .ok n) : n.Clean ∧ n.declaredType.Proper := by
  obtain ⟨table, -, hparsed⟩ := parseEntries_eq_ok.mp h
  cases hparsed with
  | ref _ _ => exact ⟨.ref _ _, trivial⟩
  | composition _ _ h =>
      obtain ⟨members, d, properties, required, hmembers, -, hproperties, hrequired, rfl⟩ :=
        parseComposition_eq_ok.mp h
      refine ⟨.composition (proper_iff.mpr ⟨?_, ?_⟩) ?_, trivial⟩
      · exact proper_parseProperties hentries hread hproperties
      · exact proper_requiredNames hentries hrequired
      · rcases parseMembers_eq_ok.mp hmembers with ⟨items, hlist, hmembers⟩ | ⟨-, rfl⟩
        · have hlisted : (Value.list items).Proper := hlist ▸ inherited_proper.field hentries _
          rw [proper_list_iff] at hlisted
          exact fun member hmember => (forall_parseEach hread hlisted hmembers member hmember).1
        · exact fun _ hmember => nomatch hmember
  | array _ _ _ h =>
      obtain ⟨items, -, rfl⟩ := parseArray_eq_ok.mp h
      exact ⟨.leaf rfl (proper_of_other rfl), trivial⟩
  | object _ _ _ _ h =>
      obtain ⟨additional, properties, required, d, -, hproperties, hrequired, -, rfl⟩ :=
        parseObject_eq_ok.mp h
      refine ⟨.leaf rfl (proper_iff.mpr ⟨?_, ?_⟩), trivial⟩
      · exact proper_parseProperties hentries hread hproperties
      · exact proper_requiredNames hentries hrequired
  | primitive _ _ _ _ h =>
      obtain ⟨declared, choices, hdeclared, -, rfl⟩ := parsePrimitive_eq_ok.mp h
      have hproper : declared.Proper := by
        rcases primitiveType_eq_ok.mp hdeclared with ⟨-, -, told, -, rfl⟩ | ⟨-, rfl⟩
        · trivial
        · exact inherited_proper.declaredType hentries
      have htype : (declared.orElse (.str "")).Proper := hproper.orElse trivial
      exact ⟨.leaf rfl (proper_of_other rfl), htype.orElse trivial⟩

end Reading

/-- A schema that is read from a proper value is clean. -/
theorem clean_parse {base path : String} {v : Value} {n : Node} (hv : v.Proper)
    (h : parse base v path = .ok n) : n.Clean := by
  have hread := parseWithin_induction base
    (P := fun v n => v.Proper → n.Clean ∧ n.declaredType.Proper)
    (fun read hread entries path n h hentries =>
      clean_parseEntries hentries (fun item path n hitem hn => hread item path n hn hitem) h) v.depth
  exact (hread v path n h hv).1

end Node

end SchemaGraph
