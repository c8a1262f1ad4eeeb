import SchemaGraph.Proofs.Json.Writable
import SchemaGraph.Proofs.Resolve.Congruence

/-!
# Schemas with other targets

The targets of references and of discriminators in a schema can be changed all through it, while the
places of its parts are forgotten.  Merging does not look at targets or places, so it goes along with
such a change; only the names of variants are read off the targets, and they must be kept by it.
-/

namespace SchemaGraph

/-- What a schema carries, without its place. -/
def NodeInfo.unplaced (info : NodeInfo) : NodeInfo := { info with path := "" }

/-- The discriminator with its targets changed. -/
def Discriminator.retargeted (change : Value → Value) (d : Discriminator) : Discriminator :=
  ⟨d.propertyName, d.mapping.map fun entry => (entry.1, change entry.2)⟩

namespace Node

mutual

/-- The schema with the targets of its references and discriminators changed, and without places. -/
def retargeted (change : Value → Value) : Node → Node
  | .bare info => .bare info.unplaced
  | .ref info target => .ref info.unplaced (change target)
  | .primitive info shape => .primitive info.unplaced shape
  | .array info shape => .array info.unplaced (retargetedArray change shape)
  | .object info shape => .object info.unplaced (retargetedObject change shape)
  | .composition info shape => .composition info.unplaced (retargetedComposition change shape)

/-- The parts of an array with targets changed. -/
def retargetedArray (change : Value → Value) : ArrayShape Node → ArrayShape Node
  | ⟨items, minItems, maxItems, uniqueItems, nullable⟩ =>
    ⟨retargetedItems change items, minItems, maxItems, uniqueItems, nullable⟩

/-- The parts of an object with targets changed. -/
def retargetedObject (change : Value → Value) : ObjectShape Node → ObjectShape Node
  | ⟨properties, required, additional, nullable, discriminator, oneOf, anyOf⟩ =>
    ⟨retargetedNamed change properties, required, retargetedAdditional change additional, nullable,
      discriminator.map (·.retargeted change), retargetedVariants change oneOf,
      retargetedVariants change anyOf⟩

/-- The parts of a composition with targets changed; the members as they were written stay. -/
def retargetedComposition (change : Value → Value) :
    CompositionShape Node → CompositionShape Node
  | ⟨kind, rawMembers, members, discriminator, properties, required⟩ =>
    ⟨kind, rawMembers, retargetedEach change members, discriminator.map (·.retargeted change),
      retargetedNamed change properties, required⟩

/-- The schema of the items of an array with targets changed. -/
def retargetedItems (change : Value → Value) : Option Node → Option Node
  | none => none
  | some item => some (retargeted change item)

/-- What an object says of other properties, with targets changed. -/
def retargetedAdditional (change : Value → Value) : Additional Node → Additional Node
  | .value v => .value v
  | .schema node => .schema (retargeted change node)

/-- The schemas of named properties with targets changed. -/
def retargetedNamed (change : Value → Value) : List (Value × Node) → List (Value × Node)
  | [] => []
  | (name, node) :: rest => (name, retargeted change node) :: retargetedNamed change rest

/-- A list of schemas with targets changed. -/
def retargetedEach (change : Value → Value) : List Node → List Node
  | [] => []
  | node :: rest => retargeted change node :: retargetedEach change rest

/-- Variants with targets changed. -/
def retargetedVariants (change : Value → Value) : List (Variant Node) → List (Variant Node)
  | [] => []
  | ⟨name, schema⟩ :: rest => ⟨name, retargeted change schema⟩ :: retargetedVariants change rest

end

section Parts

variable {change : Value → Value}

theorem retargetedNamed_eq : retargetedNamed change = Table.mapItems (retargeted change) := by
  funext named
  induction named with
  | nil => rfl
  | cons entry rest ih =>
      rw [retargetedNamed, ih]
      rfl

theorem retargetedEach_eq (nodes : List Node) :
    retargetedEach change nodes = nodes.map (·.retargeted change) := by
  induction nodes with
  | nil => rfl
  | cons node rest ih => rw [retargetedEach, ih, List.map_cons]

theorem retargetedVariants_eq (variants : List (Variant Node)) :
    retargetedVariants change variants =
      variants.map fun v => ⟨v.name, v.schema.retargeted change⟩ := by
  induction variants with
  | nil => rfl
  | cons v rest ih => rw [retargetedVariants, ih, List.map_cons]

@[simp] theorem info_retargeted (n : Node) : (n.retargeted change).info = n.info.unplaced := by
  cases n <;> rw [retargeted] <;> rfl

@[simp] theorem declaredType_retargeted (n : Node) :
    (n.retargeted change).declaredType = n.declaredType := by
  cases n <;> rw [retargeted] <;> rfl

@[simp] theorem isLeaf_retargeted (n : Node) : (n.retargeted change).isLeaf = n.isLeaf := by
  cases n <;> rw [retargeted] <;> rfl

end Parts

section Written

variable {change : Value → Value}

theorem entriesSkeleton_append (front back : List (Value × Value)) :
    Value.entriesSkeleton (front ++ back) =
      Value.entriesSkeleton front ++ Value.entriesSkeleton back := by
  rw [Value.entriesSkeleton_eq, Table.mapItems_append]

theorem entriesSkeleton_fieldIf (condition : Bool) (key : String) (v : Value) :
    Value.entriesSkeleton (fieldIf condition key v) = fieldIf condition key v.skeleton := by
  cases condition <;> rfl

/-- The skeleton of a schema depends on the skeletons of its fields only. -/
theorem skeleton_annotate {info info' : NodeInfo} (hinfo : info.unplaced = info'.unplaced)
    {fields fields' : List (Value × Value)}
    (h : Value.entriesSkeleton fields = Value.entriesSkeleton fields') :
    (annotate info fields).skeleton = (annotate info' fields').skeleton := by
  obtain ⟨path, metadata, title, description⟩ := info
  obtain ⟨path', metadata', title', description'⟩ := info'
  obtain ⟨-, rfl, rfl, rfl⟩ := (NodeInfo.mk.injEq ..).mp hinfo
  unfold annotate
  dsimp only
  rw [Value.skeleton, Value.skeleton, Value.entriesSkeleton_eq, ← Table.putAll_mapItems,
    ← Table.putAll_mapItems, ← Value.entriesSkeleton_eq, entriesSkeleton_append,
    entriesSkeleton_append, entriesSkeleton_append, entriesSkeleton_append, h]

theorem skeleton_discriminatorField (d : Option Discriminator)
    (hchange : ∀ v, (change v).skeleton = v.skeleton) :
    Value.entriesSkeleton (discriminatorField (d.map (·.retargeted change))) =
      Value.entriesSkeleton (discriminatorField d) := by
  cases d with
  | none => rfl
  | some d =>
      obtain ⟨name, mapping⟩ := d
      have hmapping : Value.entriesSkeleton (Table.mapItems change mapping) =
          Value.entriesSkeleton mapping := by
        rw [Value.entriesSkeleton_eq]
        unfold Table.mapItems
        rw [List.map_map]
        exact List.map_congr_left fun entry _ => Prod.ext rfl (hchange entry.2)
      cases mapping with
      | nil => rfl
      | cons entry rest =>
          change [(Value.str "discriminator", Value.skeleton (.map [(.str "propertyName", name),
            (.str "mapping", .map (Table.mapItems change (entry :: rest)))]))] = _
          simp only [Value.skeleton, Value.entriesSkeleton, hmapping]
          rfl

theorem isEmpty_retargetedNamed (named : List (Value × Node)) :
    (retargetedNamed change named).isEmpty = named.isEmpty := by
  cases named with
  | nil => rfl
  | cons entry rest => rfl

theorem isEmpty_retargetedVariants (variants : List (Variant Node)) :
    (retargetedVariants change variants).isEmpty = variants.isEmpty := by
  cases variants with
  | nil => rfl
  | cons v rest => rfl

variable (hchange : ∀ v, (change v).skeleton = v.skeleton)
include hchange

set_option linter.unusedSectionVars false in
mutual

/-- What is written of a schema keeps its skeleton when targets are changed. -/
theorem skeleton_write : ∀ n : Node, (n.retargeted change).write.skeleton = n.write.skeleton
  | .bare info => by
      rw [retargeted, write, write]
      exact skeleton_annotate rfl rfl
  | .ref info target => by
      rw [retargeted, write, write]
      refine skeleton_annotate rfl ?_
      rw [Value.entriesSkeleton, hchange target]
      rfl
  | .primitive info shape => by
      rw [retargeted, write, write]
      exact skeleton_annotate rfl rfl
  | .array info ⟨items, minItems, maxItems, uniqueItems, nullable⟩ => by
      rw [retargeted, write, write]
      refine skeleton_annotate rfl ?_
      rw [retargetedArray, writeArray, writeArray]
      simp only [entriesSkeleton_append, skeleton_writeItems items]
  | .object info ⟨properties, required, additional, nullable, discriminator, oneOf, anyOf⟩ => by
      rw [retargeted, write, write]
      refine skeleton_annotate rfl ?_
      rw [retargetedObject, writeObject, writeObject]
      simp only [entriesSkeleton_append, entriesSkeleton_fieldIf, isEmpty_retargetedNamed,
        isEmpty_retargetedVariants, Value.skeleton, skeleton_writeNamed properties,
        skeleton_writeAdditional additional, skeleton_discriminatorField discriminator hchange,
        skeleton_writeVariants oneOf, skeleton_writeVariants anyOf]
  | .composition info ⟨kind, rawMembers, members, discriminator, properties, required⟩ => by
      rw [retargeted, write, write]
      refine skeleton_annotate rfl ?_
      rw [retargetedComposition]
      -- members are written only where a list of them was read
      cases rawMembers with
      | list items =>
          simp only [writeComposition, entriesSkeleton_append, entriesSkeleton_fieldIf,
            isEmpty_retargetedNamed, Value.skeleton, Value.entriesSkeleton,
            skeleton_writeEach members,
            skeleton_writeNamed properties, skeleton_discriminatorField discriminator hchange]
      | _ =>
          simp only [writeComposition, entriesSkeleton_append, entriesSkeleton_fieldIf,
            isEmpty_retargetedNamed, Value.skeleton, skeleton_writeNamed properties,
            skeleton_discriminatorField discriminator hchange]

theorem skeleton_writeItems : ∀ items : Option Node,
    Value.entriesSkeleton (writeItems (retargetedItems change items)) =
      Value.entriesSkeleton (writeItems items)
  | none => rfl
  | some item => by
      rw [retargetedItems, writeItems, writeItems, Value.entriesSkeleton, skeleton_write item]
      rfl

theorem skeleton_writeAdditional : ∀ additional : Additional Node,
    Value.entriesSkeleton (writeAdditional (retargetedAdditional change additional)) =
      Value.entriesSkeleton (writeAdditional additional)
  | .value _ => rfl
  | .schema node => by
      rw [retargetedAdditional, writeAdditional, writeAdditional, Value.entriesSkeleton,
        skeleton_write node]
      rfl

theorem skeleton_writeNamed : ∀ named : List (Value × Node),
    Value.entriesSkeleton (writeNamed (retargetedNamed change named)) =
      Value.entriesSkeleton (writeNamed named)
  | [] => rfl
  | (name, node) :: rest => by
      rw [retargetedNamed, writeNamed, writeNamed, Value.entriesSkeleton, Value.entriesSkeleton,
        skeleton_write node, skeleton_writeNamed rest]

theorem skeleton_writeEach : ∀ nodes : List Node,
    Value.itemsSkeleton (writeEach (retargetedEach change nodes)) =
      Value.itemsSkeleton (writeEach nodes)
  | [] => rfl
  | node :: rest => by
      rw [retargetedEach, writeEach, writeEach, Value.itemsSkeleton, Value.itemsSkeleton,
        skeleton_write node, skeleton_writeEach rest]

theorem skeleton_writeVariants : ∀ variants : List (Variant Node),
    Value.itemsSkeleton (writeVariants (retargetedVariants change variants)) =
      Value.itemsSkeleton (writeVariants variants)
  | [] => rfl
  | ⟨name, schema⟩ :: rest => by
      rw [retargetedVariants, writeVariants, writeVariants, Value.itemsSkeleton,
        Value.itemsSkeleton, skeleton_writeVariants rest]
      simp only [Value.record, List.map_cons, List.map_nil, Value.skeleton, Value.entriesSkeleton,
        skeleton_write schema]

end

/-- Whether a composition has an identity does not depend on its targets. -/
theorem identity_retargeted (info : NodeInfo) (shape : CompositionShape Node) :
    (identity ((Node.composition info shape).retargeted change)).map (fun _ => ()) =
      (identity (.composition info shape)).map fun _ => () := by
  have hcanonical := Json.canonical_skeleton (Node.composition info shape).write
  rw [← skeleton_write hchange, Json.canonical_skeleton] at hcanonical
  have hidentity : ∀ info shape, (identity (.composition info shape)).map (fun _ => ()) =
      (Json.canonical (Node.composition info shape).write).map fun _ => () := by
    intro info shape
    unfold identity canonicalText
    cases Json.canonical (Node.composition info shape).write <;> rfl
  rw [retargeted] at hcanonical ⊢
  rw [hidentity, hidentity, hcanonical]

end Written

end Node

namespace Merged

variable {change : Value → Value}

/-- A merged object with targets changed. -/
def retargeted (change : Value → Value) (m : Merged) : Merged :=
  ⟨m.info.unplaced, Node.retargetedObject change m.shape⟩

theorem retargeted_node (m : Merged) :
    m.node.retargeted change = (m.retargeted change).node := by
  rw [node, Node.retargeted]
  rfl

/-- Declaring properties goes along with changing targets. -/
theorem declare_retargeted (properties : Table Node) (entries : List (Value × Node)) :
    declare (Node.retargetedNamed change properties) (Node.retargetedNamed change entries) =
      (declare properties entries).map (Node.retargetedNamed change) := by
  rw [Node.retargetedNamed_eq]
  induction entries generalizing properties with
  | nil => rfl
  | cons entry rest ih =>
      obtain ⟨name, declared⟩ := entry
      change declare _ ((name, declared.retargeted change) :: Table.mapItems _ rest) = _
      rw [declare, declare, Table.get_mapItems, Table.put_mapItems, ih]
      cases properties.get? name with
      | none => rfl
      | some existing =>
          have hconflict : conflict (existing.retargeted change) (declared.retargeted change) =
              conflict existing declared := by
            unfold conflict
            rw [Node.declaredType_retargeted, Node.declaredType_retargeted]
          change (if conflict (existing.retargeted change) (declared.retargeted change) = true
            then _ else _) = _
          rw [hconflict]
          dsimp only
          split
          · rfl
          · rfl

/-- Absorbing a member goes along with changing targets. -/
theorem absorb_retargeted (m : Merged) (n : Node) :
    (m.retargeted change).absorb (n.retargeted change) =
      (m.absorb n).map (retargeted change) := by
  obtain ⟨info, ⟨properties, required, additional, nullable, discriminator, oneOf, anyOf⟩⟩ := m
  cases n with
  | object info' shape' =>
      obtain ⟨properties', required', additional', nullable', discriminator', oneOf', anyOf'⟩ := shape'
      have hadditional : firstAdditional (Node.retargetedAdditional change additional)
          (Node.retargetedAdditional change additional') =
            Node.retargetedAdditional change (firstAdditional additional additional') := by
        cases additional with
        | schema node => rfl
        | value v => cases v <;> rfl
      have hdiscriminator : (discriminator.map (·.retargeted change) <|>
          discriminator'.map (·.retargeted change)) =
            (discriminator <|> discriminator').map (·.retargeted change) := by
        cases discriminator <;> rfl
      rw [Node.retargeted]
      unfold absorb retargeted
      simp only [Node.retargetedObject, declare_retargeted, hadditional, hdiscriminator]
      cases declare properties properties' with
      | error failure => rfl
      | ok table => rfl
  | _ => rw [Node.retargeted]; rfl

/-- What a composition itself declares, with targets changed. -/
theorem start_retargeted (info : NodeInfo) (shape : CompositionShape Node) :
    (start info shape).retargeted change =
      start info.unplaced (Node.retargetedComposition change shape) := by
  obtain ⟨kind, rawMembers, members, discriminator, properties, required⟩ := shape
  rfl

end Merged

namespace Node

variable {change : Value → Value}

/-- A resolved `oneOf` without places. -/
def unplacedOneOf (info : NodeInfo) (shape : CompositionShape Node) (name : Value)
    (variants : List (Variant Node)) : Except Fault Node :=
  if !name.hashable then .error .typeMismatch
  else
    let m := Merged.start info shape
    .ok (.object m.info
      { m.shape with
        properties :=
          Table.putNew m.shape.properties name ((tagProperty "" name).retargeted id)
        required := Value.extendUnique m.shape.required [name]
        oneOfVariants := variants })

theorem resolvedOneOf_retargeted (info : NodeInfo) (shape : CompositionShape Node)
    (d : Discriminator) (variants : List (Variant Node)) :
    (resolvedOneOf info shape d variants).map (retargeted change) =
      unplacedOneOf info.unplaced (retargetedComposition change shape) d.propertyName
        (retargetedVariants change variants) := by
  obtain ⟨kind, rawMembers, members, discriminator, properties, required⟩ := shape
  unfold resolvedOneOf unplacedOneOf
  dsimp only
  split
  · rfl
  · change Except.ok (retargeted change (.object _ _)) = Except.ok _
    rw [retargeted, retargetedObject]
    have hput : retargetedNamed change (Table.putNew properties d.propertyName
          (tagProperty info.path d.propertyName)) =
        Table.putNew (retargetedNamed change properties) d.propertyName
          ((tagProperty info.path d.propertyName).retargeted change) := by
      rw [retargetedNamed_eq, Table.putNew_mapItems]
    change Except.ok (Node.object _ ⟨retargetedNamed change (Table.putNew properties _ _), _, _, _,
      _, _, _⟩) = _
    rw [hput]
    rfl

/-- Offering what a variant has goes along with changing targets. -/
theorem offer_retargeted (shape : ObjectShape Node) (v : Variant Node) :
    offer (retargetedObject change shape) ⟨v.name, v.schema.retargeted change⟩ =
      retargetedObject change (offer shape v) := by
  obtain ⟨name, schema⟩ := v
  obtain ⟨properties, required, additional, nullable, discriminator, oneOf, anyOf⟩ := shape
  cases schema with
  | object info given =>
      obtain ⟨properties', required', -, -, -, -, -⟩ := given
      have hput : ∀ table, (retargetedNamed change properties').foldl
            (fun (t : Table Node) entry => t.putNew entry.1 entry.2) (retargetedNamed change table) =
          retargetedNamed change (properties'.foldl
            (fun (t : Table Node) entry => t.putNew entry.1 entry.2) table) := by
        rw [retargetedNamed_eq]
        induction properties' with
        | nil => exact fun _ => rfl
        | cons entry rest ih =>
            intro table
            rw [Table.mapItems_cons, List.foldl_cons, List.foldl_cons, Table.putNew_mapItems, ih]
      rw [retargeted, retargetedObject]
      unfold offer
      dsimp only [retargetedObject]
      rw [hput]
  | _ => rw [retargeted]; rfl

theorem resolvedAnyOf_retargeted (info : NodeInfo) (shape : CompositionShape Node)
    (variants : List (Variant Node)) :
    (resolvedAnyOf info shape variants).retargeted change =
      resolvedAnyOf info.unplaced (retargetedComposition change shape)
        (retargetedVariants change variants) := by
  have hoffers : ∀ start : ObjectShape Node,
      (retargetedVariants change variants).foldl offer (retargetedObject change start) =
        retargetedObject change (variants.foldl offer start) := by
    rw [retargetedVariants_eq]
    induction variants with
    | nil => exact fun _ => rfl
    | cons v rest ih =>
        intro start
        rw [List.map_cons, List.foldl_cons, List.foldl_cons, offer_retargeted, ih]
  obtain ⟨kind, rawMembers, members, discriminator, properties, required⟩ := shape
  unfold resolvedAnyOf
  dsimp only
  rw [retargeted, ← hoffers]
  rfl

end Node

end SchemaGraph
