import SchemaGraph.Schema.Merge
import SchemaGraph.Proofs.Schema.References

/-!
# Schemas in normal form

A schema in normal form is neither a reference nor a composition, and neither are its variants, all
the way down.  Merging members and naming variants gives schemas in normal form if the members are.
A schema is regular if nothing but references and compositions keeps it from being in normal form,
as it is with every schema that is read.
-/

namespace SchemaGraph

/-!
### Schemas from a source

What reading gives of any value, of JSON or not: references, compositions with as many members as
were written, and schemas without members and variants.  Annotations are those that may be written,
all the way down through the members of compositions.
-/

/-- Annotations that may be written. -/
def NodeInfo.Marked (info : NodeInfo) : Prop :=
  ∀ entry ∈ info.metadata, ∃ key, entry.1 = .str key ∧ Node.isMetadataKey key = true

namespace Node

/-- Schemas as reading gives them. -/
inductive Sourced : Node → Prop where
  | leaf {n : Node} (hinfo : n.info.Marked) (hleaf : n.isLeaf = true)
      (hvariants : ∀ info shape, n = .object info shape →
        shape.oneOfVariants = [] ∧ shape.anyOfVariants = []) : Sourced n
  | ref {info : NodeInfo} {target : Value} (hinfo : info.Marked) : Sourced (.ref info target)
  | composition {info : NodeInfo} {shape : CompositionShape Node} (hinfo : info.Marked)
      (hraw : ∀ items, shape.rawMembers = .list items → items.length = shape.members.length)
      (hmembers : ∀ member ∈ shape.members, Sourced member) : Sourced (.composition info shape)

theorem Sourced.info {n : Node} (h : n.Sourced) : n.info.Marked := by
  cases h with
  | leaf hinfo _ _ => exact hinfo
  | ref hinfo => exact hinfo
  | composition hinfo _ _ => exact hinfo

theorem Sourced.members {info : NodeInfo} {shape : CompositionShape Node}
    (h : (Node.composition info shape).Sourced) : ∀ member ∈ shape.members, member.Sourced := by
  cases h with
  | leaf _ hleaf _ => cases hleaf
  | composition _ _ hmembers => exact hmembers

section Reading

variable {read : Value → String → Except Failure Node}

variable (hread : ∀ item path n, read item path = .ok n → n.Sourced)
include hread

theorem sourced_parseEntries {base path : String} {entries : Table Value} {n : Node}
    (h : parseEntries read base path entries = .ok n) : n.Sourced := by
  obtain ⟨table, htable, hparsed⟩ := parseEntries_eq_ok.mp h
  have hinfo : (infoOf path table entries).Marked := (metadata_sublist htable).2
  cases hparsed with
  | ref _ _ => exact .ref hinfo
  | composition _ _ h =>
      obtain ⟨members, d, properties, required, hmembers, -, -, -, rfl⟩ :=
        parseComposition_eq_ok.mp h
      rcases parseMembers_eq_ok.mp hmembers with ⟨items, hlist, hmembers⟩ | ⟨hother, rfl⟩
      · refine .composition hinfo (fun items' heq => ?_) ?_
        · rw [← Value.list.inj (hlist.symm.trans heq)]
          exact length_parseEach hmembers
        · exact forall_parseEach (P := fun _ => True) (fun item path n _ => hread item path n)
            (fun _ _ => trivial) hmembers
      · exact .composition hinfo (fun items heq => absurd heq (hother items))
          fun _ hmember => absurd hmember (by simp)
  | array _ _ _ h =>
      obtain ⟨items, -, rfl⟩ := parseArray_eq_ok.mp h
      exact .leaf hinfo rfl fun _ _ heq => nomatch heq
  | object _ _ _ _ h =>
      obtain ⟨additional, properties, required, d, -, -, -, -, rfl⟩ := parseObject_eq_ok.mp h
      refine .leaf hinfo rfl fun info' shape' heq => ?_
      obtain ⟨rfl, rfl⟩ := Node.object.inj heq
      exact ⟨rfl, rfl⟩
  | primitive _ _ _ _ h =>
      obtain ⟨declared, choices, -, -, rfl⟩ := parsePrimitive_eq_ok.mp h
      exact .leaf hinfo rfl fun _ _ heq => nomatch heq

end Reading

theorem sourced_parse {base path : String} {v : Value} {n : Node}
    (h : parse base v path = .ok n) : n.Sourced := by
  have hread : ∀ v path n, parseWithin base v.depth v path = .ok n → n.Sourced := fun v =>
    parseWithin_induction base (P := fun _ n => n.Sourced) (fun read hread entries path n h =>
      sourced_parseEntries hread h) v.depth v
  exact hread v path n h

end Node

/-! ### Normal form -/

namespace Node

/-- Schemas with nothing left to resolve, up to their variants. -/
inductive Normal : Node → Prop where
  | bare (info : NodeInfo) : Normal (.bare info)
  | primitive (info : NodeInfo) (shape : PrimitiveShape) : Normal (.primitive info shape)
  | array (info : NodeInfo) (shape : ArrayShape Node) : Normal (.array info shape)
  | object {info : NodeInfo} {shape : ObjectShape Node}
      (honeOf : ∀ v ∈ shape.oneOfVariants, Normal v.schema)
      (hanyOf : ∀ v ∈ shape.anyOfVariants, Normal v.schema) : Normal (.object info shape)

/-- Schemas that are in normal form but for references and compositions. -/
inductive Regular : Node → Prop where
  | normal {n : Node} (h : n.Normal) : Regular n
  | ref (info : NodeInfo) (target : Value) : Regular (.ref info target)
  | composition {info : NodeInfo} {shape : CompositionShape Node}
      (hmembers : ∀ member ∈ shape.members, Regular member) : Regular (.composition info shape)

theorem Normal.isLeaf {n : Node} (h : n.Normal) : n.isLeaf = true := by
  cases h with
  | bare info => rfl
  | primitive info shape => rfl
  | array info shape => rfl
  | object honeOf hanyOf => rfl

theorem Normal.isRef {n : Node} (h : n.Normal) : n.isRef = false := by
  cases h with
  | bare info => rfl
  | primitive info shape => rfl
  | array info shape => rfl
  | object honeOf hanyOf => rfl

theorem Regular.normal_of_isLeaf {n : Node} (h : n.Regular) (hleaf : n.isLeaf = true) :
    n.Normal := by
  cases h with
  | normal h => exact h
  | ref info target => exact absurd hleaf (by simp [Node.isLeaf])
  | composition hmembers => exact absurd hleaf (by simp [Node.isLeaf])

theorem Regular.members {info : NodeInfo} {shape : CompositionShape Node}
    (h : (Node.composition info shape).Regular) : ∀ member ∈ shape.members, member.Regular := by
  cases h with
  | normal h => exact absurd h.isLeaf (by simp [Node.isLeaf])
  | composition hmembers => exact hmembers

/-- Objects without variants are in normal form. -/
theorem normal_of_variantless {n : Node} (hleaf : n.isLeaf = true)
    (hvariants : ∀ info shape, n = .object info shape →
      shape.oneOfVariants = [] ∧ shape.anyOfVariants = []) : n.Normal := by
  cases n with
  | bare info => exact .bare info
  | ref info target => exact absurd hleaf (by simp [Node.isLeaf])
  | primitive info shape => exact .primitive info shape
  | array info shape => exact .array info shape
  | object info shape =>
      obtain ⟨hone, hany⟩ := hvariants info shape rfl
      refine .object ?_ ?_
      · rw [hone]
        exact fun _ hv => absurd hv (by simp)
      · rw [hany]
        exact fun _ hv => absurd hv (by simp)
  | composition info shape => exact absurd hleaf (by simp [Node.isLeaf])

/-- A schema that is read is regular. -/
theorem Sourced.regular {n : Node} (h : n.Sourced) : n.Regular := by
  induction h with
  | leaf hinfo hleaf hvariants => exact .normal (normal_of_variantless hleaf hvariants)
  | ref hinfo => exact .ref _ _
  | composition hinfo hraw hmembers ih => exact .composition ih

/-- Schemas that were read, or that are in normal form. -/
def Known (n : Node) : Prop := n.Sourced ∨ n.Normal

theorem Known.regular {n : Node} (h : n.Known) : n.Regular := by
  rcases h with hsourced | hnormal
  · exact hsourced.regular
  · exact .normal hnormal

end Node

/-- Whether a merged object has no variants. -/
def Merged.Variantless (m : Merged) : Prop :=
  m.shape.oneOfVariants = [] ∧ m.shape.anyOfVariants = []

namespace Merged

theorem variantless_start (info : NodeInfo) (shape : CompositionShape Node) :
    (start info shape).Variantless :=
  ⟨rfl, rfl⟩

theorem Variantless.absorb {m next : Merged} (h : m.Variantless) {member : Node}
    (hnext : m.absorb member = .ok next) : next.Variantless := by
  unfold Merged.absorb at hnext
  cases member with
  | object info shape =>
      dsimp only at hnext
      rw [bind_eq_ok] at hnext
      obtain ⟨properties, -, hnext⟩ := hnext
      rw [← Except.ok.inj hnext]
      exact h
  | _ =>
      rw [← Except.ok.inj hnext]
      exact h

theorem Variantless.normal {m : Merged} (h : m.Variantless) : m.node.Normal := by
  refine Node.normal_of_variantless rfl fun info shape heq => ?_
  obtain ⟨rfl, rfl⟩ := Node.object.inj heq
  exact h

end Merged

namespace Node

variable {info : NodeInfo} {shape : CompositionShape Node} {variants : List (Variant Node)}

theorem normal_resolvedOneOf {d : Discriminator} {n : Node}
    (hvariants : ∀ v ∈ variants, v.schema.Normal)
    (h : resolvedOneOf info shape d variants = .ok n) : n.Normal := by
  unfold resolvedOneOf at h
  dsimp only at h
  split at h
  · cases h
  · rw [← Except.ok.inj h]
    exact .object hvariants fun _ hv => absurd hv (by simp [Merged.start])

theorem variants_offer (shape : ObjectShape Node) (v : Variant Node) :
    (offer shape v).oneOfVariants = shape.oneOfVariants ∧
      (offer shape v).anyOfVariants = shape.anyOfVariants := by
  unfold offer
  split <;> exact ⟨rfl, rfl⟩

theorem variants_offers (offered : List (Variant Node)) (shape : ObjectShape Node) :
    (offered.foldl offer shape).oneOfVariants = shape.oneOfVariants ∧
      (offered.foldl offer shape).anyOfVariants = shape.anyOfVariants := by
  induction offered generalizing shape with
  | nil => exact ⟨rfl, rfl⟩
  | cons v rest ih =>
      obtain ⟨hone, hany⟩ := ih (offer shape v)
      exact ⟨hone.trans (variants_offer shape v).1, hany.trans (variants_offer shape v).2⟩

theorem normal_resolvedAnyOf (hvariants : ∀ v ∈ variants, v.schema.Normal) :
    (resolvedAnyOf info shape variants).Normal := by
  unfold resolvedAnyOf
  dsimp only
  obtain ⟨hone, hany⟩ := variants_offers variants
    { (Merged.start info shape).shape with anyOfVariants := variants }
  refine .object ?_ ?_
  · rw [hone]
    exact fun _ hv => absurd hv (by simp [Merged.start])
  · rw [hany]
    exact hvariants

end Node

end SchemaGraph
