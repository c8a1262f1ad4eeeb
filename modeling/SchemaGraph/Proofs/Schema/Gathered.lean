import SchemaGraph.Proofs.Value.Names

/-!
# What a resolved composition holds

A merge takes one member after the other and follows a rule of its own in each field: the last
declaration of a property counts, the first title and the first discriminator do, names are listed
where they first occur, and one member that allows null is enough.  Merging them one by one comes down
to a formula in all of them for each field (`gathers_of_absorbAll`).  The variants of a `oneOf` and an
`anyOf` are not merged, so their formulas are shorter.
-/

namespace SchemaGraph

/-- What an object says of other properties, if it says anything. -/
def Additional.given? {ν : Type} : Additional ν → Option (Additional ν)
  | .value .null => none
  | given => some given

theorem Additional.getD_given {ν : Type} (additional : Additional ν) :
    additional.given?.getD (.value .null) = additional := by
  unfold given?
  split <;> rfl

/-- The first value that counts as given is kept. -/
theorem Value.foldl_orElse {first v : Value} {rest : List Value}
    (h : (first :: rest).find? truthy = some v) : rest.foldl orElse first = v := by
  induction rest generalizing first with
  | nil => exact List.mem_singleton.mp (List.mem_of_find?_eq_some h) |>.symm
  | cons second rest ih =>
      rw [List.foldl_cons]
      refine ih ?_
      unfold orElse
      rw [List.find?_cons] at h
      cases hfirst : first.truthy with
      | true =>
          rw [hfirst] at h
          rw [if_pos rfl, List.find?_cons, hfirst]
          exact h
      | false =>
          rw [hfirst] at h
          exact h

namespace Node

/-- The parts of a schema that is an object. -/
def object? : Node → Option (ObjectShape Node)
  | .object _ shape => some shape
  | _ => none

/-- The parts of the objects among some schemas, in order. -/
def objects (nodes : List Node) : List (ObjectShape Node) := nodes.filterMap object?

/-- The parts of an object that holds nothing. -/
def emptyShape : ObjectShape Node :=
  { properties := []
    required := []
    additional := .value .null
    nullable := false
    discriminator := none
    oneOfVariants := []
    anyOfVariants := [] }

/-- What a resolved member brings into an `allOf` besides its annotations: nothing unless it is an
object. -/
def brought (n : Node) : ObjectShape Node := n.object?.getD emptyShape

theorem brought_properties (n : Node) : n.brought.properties = n.offered := by
  cases n <;> rfl

theorem objects_cons (n : Node) (rest : List Node) :
    objects (n :: rest) = n.object?.toList ++ objects rest := by
  unfold objects
  rw [List.filterMap_cons]
  cases n.object? <;> rfl

section Formulas

variable {α : Type} (nodes : List Node)

/-- A formula in what members bring is one in the objects among them, if nothing comes of nothing. -/
theorem flatMap_brought {f : ObjectShape Node → List α} (hf : f emptyShape = []) :
    nodes.flatMap (fun n => f n.brought) = (objects nodes).flatMap f := by
  induction nodes with
  | nil => rfl
  | cons n rest ih =>
      rw [List.flatMap_cons, ih, objects_cons, List.flatMap_append]
      congr 1
      unfold brought
      cases n.object? with
      | none => exact hf
      | some shape => exact (List.append_nil _).symm

/-- The first thing of a kind that members bring is the first one that the objects among them have. -/
theorem findSome_brought {f : ObjectShape Node → Option α} (hf : f emptyShape = none) :
    nodes.findSome? (fun n => f n.brought) = (objects nodes).findSome? f := by
  induction nodes with
  | nil => rfl
  | cons n rest ih =>
      have hhead : f n.brought = n.object?.toList.findSome? f := by
        unfold brought
        cases n.object? with
        | none => exact hf
        | some shape => simp
      rw [objects_cons, List.findSome?_append, List.findSome?_cons, ih, ← hhead]
      cases f n.brought <;> rfl

theorem any_brought {f : ObjectShape Node → Bool} (hf : f emptyShape = false) :
    nodes.any (fun n => f n.brought) = (objects nodes).any f := by
  induction nodes with
  | nil => rfl
  | cons n rest ih =>
      rw [objects_cons, List.any_append, List.any_cons, ih]
      unfold brought
      cases n.object? with
      | none => rw [Option.getD_none, hf]; rfl
      | some shape => rw [Option.getD_some]; simp

end Formulas

end Node

namespace Merged

open Node

/-- A merged object with one more member, whether or not the member conflicts with it. -/
def joined (m : Merged) (n : Node) : Merged :=
  { info :=
      { m.info with
        title := m.info.title.orElse n.info.title
        description := m.info.description.orElse n.info.description }
    shape :=
      { m.shape with
        properties := Table.putAll m.shape.properties n.brought.properties
        required := Value.extendUnique m.shape.required n.brought.required
        additional := firstAdditional m.shape.additional n.brought.additional
        discriminator := m.shape.discriminator <|> n.brought.discriminator
        nullable := m.shape.nullable || n.brought.nullable } }

theorem declare_append (table entries others : Table Node) :
    declare table (entries ++ others) = declare table entries >>= fun next => declare next others := by
  induction entries generalizing table with
  | nil => rfl
  | cons entry rest ih =>
      rw [List.cons_append, declare, declare]
      split
      · split
        · rfl
        · exact ih _
      · exact ih _

theorem firstAdditional_null (given : Additional Node) :
    firstAdditional given (.value .null) = given := by
  unfold firstAdditional
  split <;> rfl

theorem given_firstAdditional (merged new : Additional Node) :
    (firstAdditional merged new).given? = merged.given?.or new.given? := by
  unfold firstAdditional
  split
  · rfl
  · rename_i hgiven
    unfold Additional.given?
    split
    · exact absurd rfl hgiven
    · rfl

/-- A member that is no object brings annotations only. -/
theorem joined_other {n : Node} (h : n.object? = none) (m : Merged) :
    m.joined n =
      { m with
        info :=
          { m.info with
            title := m.info.title.orElse n.info.title
            description := m.info.description.orElse n.info.description } } := by
  have hdiscriminator : (m.shape.discriminator <|> none) = m.shape.discriminator := by
    cases m.shape.discriminator <;> rfl
  unfold joined brought
  rw [h]
  change Merged.mk _ { m.shape with
    additional := firstAdditional m.shape.additional (.value .null)
    discriminator := m.shape.discriminator <|> none
    nullable := m.shape.nullable || false } = _
  rw [firstAdditional_null, Bool.or_false, hdiscriminator]

/-- Only declaring the properties of a member can fail. -/
theorem absorb_eq (m : Merged) (n : Node) :
    m.absorb n = declare m.shape.properties n.offered >>= fun _ => .ok (m.joined n) := by
  cases n with
  | object info shape =>
      rw [absorb]
      dsimp only [offered]
      cases hdeclare : declare m.shape.properties shape.properties with
      | error failure => rfl
      | ok properties =>
          rw [putAll_of_declare hdeclare]
          rfl
  | _ =>
      rw [joined_other rfl]
      rfl

/-- Only declaring the properties of all members, one after the other, can fail. -/
theorem absorbAll_eq (m : Merged) (members : List Node) :
    m.absorbAll members =
      declare m.shape.properties (members.flatMap offered) >>= fun _ =>
        .ok (members.foldl joined m) := by
  induction members generalizing m with
  | nil => rfl
  | cons n rest ih =>
      rw [absorbAll_cons, absorb_eq, List.flatMap_cons, declare_append]
      cases hdeclare : declare m.shape.properties n.offered with
      | error failure => rfl
      | ok properties =>
          have hproperties : (m.joined n).shape.properties = properties := by
            rw [putAll_of_declare hdeclare, ← brought_properties]
            rfl
          change (m.joined n).absorbAll rest = declare properties (rest.flatMap offered) >>= _
          rw [ih, hproperties]
          rfl

theorem eq_of_absorbAll {m last : Merged} {members : List Node}
    (h : m.absorbAll members = .ok last) : last = members.foldl joined m := by
  rw [absorbAll_eq, bind_eq_ok] at h
  obtain ⟨properties, -, hlast⟩ := h
  exact (Except.ok.inj hlast).symm

section Fields

variable (m : Merged) (members : List Node)

theorem properties_foldl_joined :
    (members.foldl joined m).shape.properties =
      Table.putAll m.shape.properties (members.flatMap fun n => n.brought.properties) := by
  induction members generalizing m with
  | nil => rfl
  | cons n rest ih =>
      rw [List.foldl_cons, ih, List.flatMap_cons]
      exact (List.foldl_append).symm

theorem required_foldl_joined :
    (members.foldl joined m).shape.required =
      Value.extendUnique m.shape.required (members.flatMap fun n => n.brought.required) := by
  induction members generalizing m with
  | nil => rfl
  | cons n rest ih =>
      rw [List.foldl_cons, ih, List.flatMap_cons, Value.extendUnique_append]
      rfl

theorem additional_foldl_joined :
    (members.foldl joined m).shape.additional =
      (m.shape.additional.given?.or
        (members.findSome? fun n => n.brought.additional.given?)).getD (.value .null) := by
  induction members generalizing m with
  | nil =>
      rw [List.findSome?_nil, Option.or_none, Additional.getD_given]
      rfl
  | cons n rest ih =>
      have hfirst : (m.joined n).shape.additional.given? =
          m.shape.additional.given?.or n.brought.additional.given? :=
        given_firstAdditional _ _
      rw [List.foldl_cons, ih, hfirst, Option.or_assoc, List.findSome?_cons]
      cases n.brought.additional.given? <;> rfl

theorem discriminator_foldl_joined :
    (members.foldl joined m).shape.discriminator =
      m.shape.discriminator.or (members.findSome? (·.brought.discriminator)) := by
  induction members generalizing m with
  | nil => exact (Option.or_none).symm
  | cons n rest ih =>
      rw [List.foldl_cons, ih, List.findSome?_cons]
      unfold joined
      dsimp only
      cases m.shape.discriminator with
      | some d => rfl
      | none => cases n.brought.discriminator <;> rfl

theorem nullable_foldl_joined :
    (members.foldl joined m).shape.nullable =
      (m.shape.nullable || members.any (·.brought.nullable)) := by
  induction members generalizing m with
  | nil => exact (Bool.or_false _).symm
  | cons n rest ih =>
      rw [List.foldl_cons, ih, List.any_cons, ← Bool.or_assoc]
      rfl

theorem title_foldl_joined :
    (members.foldl joined m).info.title =
      (members.map (·.info.title)).foldl Value.orElse m.info.title := by
  induction members generalizing m with
  | nil => rfl
  | cons n rest ih =>
      rw [List.foldl_cons, ih]
      rfl

theorem description_foldl_joined :
    (members.foldl joined m).info.description =
      (members.map (·.info.description)).foldl Value.orElse m.info.description := by
  induction members generalizing m with
  | nil => rfl
  | cons n rest ih =>
      rw [List.foldl_cons, ih]
      rfl

theorem metadata_foldl_joined : (members.foldl joined m).info.metadata = m.info.metadata := by
  induction members generalizing m with
  | nil => rfl
  | cons n rest ih => exact ih (m.joined n)

end Fields

end Merged

namespace Node

/-- What an `allOf` holds whose members are resolved. -/
structure Gathers (info : NodeInfo) (shape : CompositionShape Node) (resolved : List Node)
    (merged : Merged) : Prop where
  /-- A name is a property if the composition itself or an object declares it. -/
  declared : ∀ name : Value, name.hashable = true →
    ((Table.get? merged.shape.properties name).isSome = true ↔
      (Table.get? shape.properties name).isSome = true ∨
        ∃ o ∈ objects resolved, (Table.get? o.properties name).isSome = true)
  /-- The last declaration of a property counts. -/
  property : ∀ name : Value, name.hashable = true →
    Table.get? merged.shape.properties name =
      (Table.last? ((objects resolved).flatMap (·.properties)) name).or
        (Table.get? shape.properties name)
  /-- The names stand where they are first declared. -/
  names : Table.keys merged.shape.properties =
    Table.keys shape.properties ++
      Value.unlisted (Table.keys shape.properties)
        ((objects resolved).flatMap fun o => Table.keys o.properties)
  required : merged.shape.required =
    shape.required ++ Value.unlisted shape.required ((objects resolved).flatMap (·.required))
  title : ∀ title, (info.title :: resolved.map (·.info.title)).find? Value.truthy = some title →
    merged.info.title = title
  description : ∀ description,
    (info.description :: resolved.map (·.info.description)).find? Value.truthy = some description →
      merged.info.description = description
  additional : merged.shape.additional =
    ((objects resolved).findSome? (·.additional.given?)).getD (.value .null)
  discriminator : merged.shape.discriminator =
    shape.discriminator.or ((objects resolved).findSome? (·.discriminator))
  nullable : merged.shape.nullable = true ↔ ∃ o ∈ objects resolved, o.nullable = true
  metadata : merged.info.metadata = info.metadata

/-- Merging resolved members one after the other gathers all of them. -/
theorem gathers_of_absorbAll {info : NodeInfo} {shape : CompositionShape Node}
    {resolved : List Node} {merged : Merged}
    (h : (Merged.start info shape).absorbAll resolved = .ok merged) :
    Gathers info shape resolved merged := by
  -- without conflicts the fold joins the members, and each field of it has a closed form
  obtain rfl := Merged.eq_of_absorbAll h
  have hproperties : Table.keys ((objects resolved).flatMap (·.properties)) =
      (objects resolved).flatMap fun o => Table.keys o.properties := List.map_flatMap
  have htable : (resolved.foldl Merged.joined (Merged.start info shape)).shape.properties =
      Table.putAll shape.properties ((objects resolved).flatMap (·.properties)) := by
    rw [Merged.properties_foldl_joined, flatMap_brought _ rfl]
    rfl
  have hrequired : (resolved.foldl Merged.joined (Merged.start info shape)).shape.required =
      Value.extendUnique shape.required ((objects resolved).flatMap (·.required)) := by
    rw [Merged.required_foldl_joined, flatMap_brought _ rfl]
    rfl
  refine ⟨?_, ?_, ?_, ?_, ?_, ?_, ?_, ?_, ?_, ?_⟩
  · intro name hname
    rw [htable, Table.get_putAll hname, Option.isSome_or, Table.last_isSome, Bool.or_eq_true,
      or_comm]
    refine or_congr_right ?_
    rw [Table.get_isSome, hproperties, Value.among, List.any_flatMap, List.any_eq_true]
    simp only [Table.get_isSome, Value.among]
  · intro name hname
    rw [htable, Table.get_putAll hname]
  · rw [htable, Table.keys_putAll, hproperties, Value.extendUnique_eq]
  · rw [hrequired, Value.extendUnique_eq]
  · intro title htitle
    rw [Merged.title_foldl_joined]
    exact Value.foldl_orElse htitle
  · intro description hdescription
    rw [Merged.description_foldl_joined]
    exact Value.foldl_orElse hdescription
  · rw [Merged.additional_foldl_joined,
      findSome_brought resolved (f := fun o => o.additional.given?) rfl]
    rfl
  · rw [Merged.discriminator_foldl_joined, findSome_brought _ rfl]
    rfl
  · rw [Merged.nullable_foldl_joined, any_brought _ rfl, ← List.any_eq_true]
    rfl
  · rw [Merged.metadata_foldl_joined]
    rfl

/-- What an `anyOf` holds beside its variants. -/
structure Offers (shape : CompositionShape Node) (resolved : List Node)
    (offered : ObjectShape Node) : Prop where
  /-- The first declaration of a property counts. -/
  property : ∀ name : Value, name.hashable = true →
    Table.get? offered.properties name =
      (Table.get? shape.properties name).or
        ((objects resolved).findSome? fun o => Table.get? o.properties name)
  /-- The names stand where they are first declared, each once. -/
  names : Table.keys offered.properties =
    Table.keys shape.properties ++
      Value.unlisted (Table.keys shape.properties)
        ((objects resolved).flatMap fun o => Table.keys o.properties)
  required : offered.required =
    shape.required ++ Value.unlisted shape.required ((objects resolved).flatMap (·.required))

/-- A variant offers properties that are new and names that are not yet listed. -/
theorem offer_eq (shape : ObjectShape Node) (variant : Variant Node) :
    offer shape variant =
      { shape with
        properties := Table.putAllNew shape.properties variant.schema.brought.properties
        required := Value.extendUnique shape.required variant.schema.brought.required } := by
  unfold offer brought
  cases variant.schema <;> rfl

theorem foldl_offer_eq (shape : ObjectShape Node) (variants : List (Variant Node)) :
    variants.foldl offer shape =
      { shape with
        properties := Table.putAllNew shape.properties
          ((objects (variants.map (·.schema))).flatMap (·.properties))
        required := Value.extendUnique shape.required
          ((objects (variants.map (·.schema))).flatMap (·.required)) } := by
  rw [← flatMap_brought _ rfl, ← flatMap_brought _ rfl]
  induction variants generalizing shape with
  | nil => rfl
  | cons variant rest ih =>
      rw [List.foldl_cons, ih, offer_eq, List.map_cons, List.flatMap_cons, List.flatMap_cons,
        Value.extendUnique_append]
      unfold Table.putAllNew
      rw [List.foldl_append]

theorem get_flatMap (shapes : List (ObjectShape Node)) (name : Value) :
    Table.get? (shapes.flatMap (·.properties)) name =
      shapes.findSome? fun o => Table.get? o.properties name := by
  induction shapes with
  | nil => rfl
  | cons shape rest ih =>
      rw [List.flatMap_cons, Table.get_append, ih, List.findSome?_cons]
      cases Table.get? shape.properties name <;> rfl

/-- An `anyOf` keeps its variants, and gathers what they offer. -/
theorem offers_of_resolvedAnyOf (info : NodeInfo) (shape : CompositionShape Node)
    (variants : List (Variant Node)) :
    ∃ offered, resolvedAnyOf info shape variants = .object (Merged.start info shape).info offered ∧
      offered.anyOfVariants = variants ∧ offered.oneOfVariants = [] ∧
        Offers shape (variants.map (·.schema)) offered := by
  refine ⟨_, rfl, ?_, ?_, ?_⟩
  · rw [foldl_offer_eq]
  · rw [foldl_offer_eq]
    rfl
  · rw [foldl_offer_eq]
    have hproperties : Table.keys ((objects (variants.map (·.schema))).flatMap (·.properties)) =
        (objects (variants.map (·.schema))).flatMap fun o => Table.keys o.properties :=
      List.map_flatMap
    refine ⟨fun name hname => ?_, ?_, Value.extendUnique_eq _ _⟩
    · dsimp only
      rw [Table.get_putAllNew hname, get_flatMap]
      rfl
    · dsimp only
      rw [Table.keys_putAllNew, hproperties, Value.extendUnique_eq]
      rfl

/-- What a `oneOf` holds beside its variants: the property that tells them apart is declared last, as
a text, and required, if the composition does not do so itself. -/
structure Tagged (shape : CompositionShape Node) (name : Value) (tagged : ObjectShape Node) :
    Prop where
  present : (Table.get? shape.properties name).isSome = true →
    tagged.properties = shape.properties
  absent : Table.get? shape.properties name = none →
    ∃ tag, tag.declaredType = .str "string" ∧ tagged.properties = shape.properties ++ [(name, tag)]
  required : tagged.required =
    if name.among shape.required then shape.required else shape.required ++ [name]

/-- A `oneOf` keeps its variants, and tells them apart. -/
theorem tagged_of_resolvedOneOf {info : NodeInfo} {shape : CompositionShape Node}
    {d : Discriminator} {variants : List (Variant Node)} {n : Node}
    (h : resolvedOneOf info shape d variants = .ok n) :
    ∃ tagged, n = .object (Merged.start info shape).info tagged ∧
      tagged.oneOfVariants = variants ∧ tagged.anyOfVariants = [] ∧
        Tagged shape d.propertyName tagged := by
  unfold resolvedOneOf at h
  dsimp only at h
  split at h
  · cases h
  · refine ⟨_, (Except.ok.inj h).symm, rfl, rfl, ?_, ?_, rfl⟩
    · intro hpresent
      obtain ⟨declared, hdeclared⟩ := Option.isSome_iff_exists.mp hpresent
      change Table.putNew shape.properties _ _ = _
      unfold Table.putNew
      rw [hdeclared]
    · intro habsent
      refine ⟨tagProperty info.path d.propertyName, rfl, ?_⟩
      change Table.putNew shape.properties _ _ = _
      unfold Table.putNew
      rw [habsent]
      exact Table.put_of_get_none habsent _

end Node

end SchemaGraph
