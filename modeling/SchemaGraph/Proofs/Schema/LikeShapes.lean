import SchemaGraph.Schema.Merge
import SchemaGraph.Proofs.Schema.Like
import SchemaGraph.Proofs.Schema.Read

/-!
# The shapes of schemas alike

Objects are alike exactly when their annotations and their parts are: properties under the same
names, required names in the same order, variants in the same order.  Compositions alike have as
many members, in the same order.
-/

namespace SchemaGraph

namespace Node

open Value

section Lists

theorem isEmpty_part_iff {α β : Type} {items : List α} {items' : List β} {whole whole' : Value}
    {P : Prop} (hboth : Value.Alike whole whole' ↔ P)
    (hempty : P → items.isEmpty = items'.isEmpty)
    (hnil : items.isEmpty = true → items'.isEmpty = true → P) :
    Option.Rel Value.Alike (if items.isEmpty then none else some whole)
      (if items'.isEmpty then none else some whole') ↔ P := by
  cases hitems : items.isEmpty with
  | true =>
      cases hitems' : items'.isEmpty with
      | true =>
          simp only [if_true]
          exact ⟨fun _ => hnil hitems hitems', fun _ => Option.Rel.none⟩
      | false =>
          simp only [if_true, Bool.false_eq_true, if_false]
          constructor
          · rintro ⟨⟩
          · intro h
            rw [hempty h, hitems'] at hitems
            exact absurd hitems (by simp)
  | false =>
      cases hitems' : items'.isEmpty with
      | true =>
          simp only [if_true, Bool.false_eq_true, if_false]
          constructor
          · rintro ⟨⟩
          · intro h
            rw [hempty h, hitems'] at hitems
            exact absurd hitems (by simp)
      | false =>
          simp only [Bool.false_eq_true, if_false]
          rw [← hboth]
          constructor
          · rintro ⟨h⟩
            exact h
          · exact Option.Rel.some

theorem alike_lists_iff {items items' : List Value} :
    Value.Alike (.list items) (.list items') ↔ List.Forall₂ Value.Alike items items' := by
  rw [alike_list_iff]
  constructor
  · rintro ⟨others, heq, h⟩
    rw [Value.list.inj heq]
    exact h
  · intro h
    exact ⟨items', rfl, h⟩

/-- Variants with names alike and schemas alike. -/
def VariantLike (v v' : Variant Node) : Prop :=
  Value.Alike v.name v'.name ∧ v.schema.Alike v'.schema

theorem alike_variant_iff {v v' : Variant Node} :
    Value.Alike (Value.record [("name", v.name), ("schema", v.schema.write)])
      (Value.record [("name", v'.name), ("schema", v'.schema.write)]) ↔ VariantLike v v' := by
  have hkeyed : Table.Keyed ([(.str "name", v.name), (.str "schema", v.schema.write)] :
      Table Value) :=
    Table.keyed_of_sublist (show ["name", "schema"].Nodup by decide) (List.Sublist.refl _)
  constructor
  · intro h
    have hname := alike_at hkeyed h "name"
    have hschema := alike_at hkeyed h "schema"
    simp only [Table.at_cons_str, if_true] at hname
    simp only [Table.at_cons_str, if_true, show "name" ≠ "schema" by decide, if_false] at hschema
    cases hname with
    | some hname =>
        cases hschema with
        | some hschema => exact ⟨hname, hschema⟩
  · intro h
    refine (alike_map_iff _ _).mpr ⟨_, _, rfl, ?_, List.Perm.refl _⟩
    exact .cons ⟨rfl, h.1⟩ (.cons ⟨rfl, h.2⟩ .nil)

theorem alike_variants_iff {variants variants' : List (Variant Node)} :
    List.Forall₂ Value.Alike (writeVariants variants) (writeVariants variants') ↔
      List.Forall₂ VariantLike variants variants' := by
  induction variants generalizing variants' with
  | nil =>
      cases variants' with
      | nil => exact ⟨fun _ => .nil, fun _ => .nil⟩
      | cons v' rest' => exact ⟨nofun, nofun⟩
  | cons v rest ih =>
      cases variants' with
      | nil => exact ⟨nofun, nofun⟩
      | cons v' rest' =>
          rw [writeVariants, writeVariants, List.forall₂_cons, List.forall₂_cons, ih,
            ← alike_variant_iff]

theorem alike_members_iff {members members' : List Node} :
    List.Forall₂ Value.Alike (writeEach members) (writeEach members') ↔
      List.Forall₂ Node.Alike members members' := by
  induction members generalizing members' with
  | nil =>
      cases members' with
      | nil => exact ⟨fun _ => .nil, fun _ => .nil⟩
      | cons member' rest' => exact ⟨nofun, nofun⟩
  | cons member rest ih =>
      cases members' with
      | nil => exact ⟨nofun, nofun⟩
      | cons member' rest' =>
          rw [writeEach, writeEach, List.forall₂_cons, List.forall₂_cons, ih]
          exact Iff.rfl

end Lists

section Properties

theorem entry_writeNamed (properties : Table Node) (a : Atom) :
    Table.slot? (writeNamed properties) a =
      (Table.slot? properties a).map fun entry => (entry.1, entry.2.write) := by
  induction properties with
  | nil => rfl
  | cons entry rest ih =>
      rw [writeNamed]
      by_cases ha : entry.1.atom? = some a
      · have hwritten : ((entry.1, entry.2.write) : Value × Value).1.atom? = some a := ha
        rw [Table.entry_cons_eq ha, Table.entry_cons_eq hwritten]
        rfl
      · have hwritten : ((entry.1, entry.2.write) : Value × Value).1.atom? ≠ some a := ha
        rw [Table.entry_cons_ne ha, Table.entry_cons_ne hwritten, ih]

theorem similar_writeNamed_iff {properties properties' : Table Node} :
    Table.Similar Value.Alike (writeNamed properties) (writeNamed properties') ↔
      Table.Similar Node.Alike properties properties' := by
  refine forall_congr' fun a => ?_
  rw [entry_writeNamed, entry_writeNamed]
  cases Table.slot? properties a with
  | none =>
      cases Table.slot? properties' a with
      | none => exact ⟨fun _ => .none, fun _ => .none⟩
      | some entry' => exact ⟨nofun, nofun⟩
  | some entry =>
      cases Table.slot? properties' a with
      | none => exact ⟨nofun, nofun⟩
      | some entry' =>
          constructor
          · rintro ⟨hkey, hitem⟩
            exact .some ⟨hkey, hitem⟩
          · rintro ⟨hkey, hitem⟩
            exact .some ⟨hkey, hitem⟩

/-- Properties are written alike when they are alike under the same names. -/
theorem alike_properties_iff {properties properties' : Table Node}
    (hkeyed : Table.Keyed properties) (hkeyed' : Table.Keyed properties') :
    Option.Rel Value.Alike
        (if properties.isEmpty then none else some (.map (writeNamed properties)))
        (if properties'.isEmpty then none else some (.map (writeNamed properties'))) ↔
      Table.Similar Node.Alike properties properties' := by
  refine isEmpty_part_iff ?_ (fun h => h.isEmpty_eq hkeyed hkeyed') ?_
  · rw [alike_map_iff_similar (Table.keyed_of_keys (writeNamed_keys properties) hkeyed),
      similar_writeNamed_iff]
    exact and_iff_right (Table.keyed_of_keys (writeNamed_keys properties') hkeyed')
  · intro hempty hempty'
    rw [List.isEmpty_iff.mp hempty, List.isEmpty_iff.mp hempty']
    exact Table.similar_self fun _ hentry => absurd hentry (by simp)

end Properties

section Objects

/-- Discriminators that are written alike. -/
def DiscriminatorLike (d d' : Discriminator) : Prop := Value.Alike d.write d'.write

/-- Objects with parts alike. -/
structure ObjectLike (shape shape' : ObjectShape Node) : Prop where
  properties : Table.Similar Node.Alike shape.properties shape'.properties
  required : List.Forall₂ Value.Alike shape.required shape'.required
  additional :
    Option.Rel Value.Alike (additionalPart shape.additional) (additionalPart shape'.additional)
  nullable : shape.nullable = shape'.nullable
  discriminator : Option.Rel DiscriminatorLike shape.discriminator shape'.discriminator
  oneOf : List.Forall₂ VariantLike shape.oneOfVariants shape'.oneOfVariants
  anyOf : List.Forall₂ VariantLike shape.anyOfVariants shape'.anyOfVariants

theorem required_part_iff {required required' : List Value} :
    Option.Rel Value.Alike (if required.isEmpty then none else some (.list required))
        (if required'.isEmpty then none else some (.list required')) ↔
      List.Forall₂ Value.Alike required required' := by
  refine isEmpty_part_iff alike_lists_iff (fun h => isEmpty_eq_of_length h.length_eq) ?_
  intro hempty hempty'
  rw [List.isEmpty_iff.mp hempty, List.isEmpty_iff.mp hempty']
  exact .nil

theorem variants_part_iff {variants variants' : List (Variant Node)} :
    Option.Rel Value.Alike
        (if variants.isEmpty then none else some (.list (writeVariants variants)))
        (if variants'.isEmpty then none else some (.list (writeVariants variants'))) ↔
      List.Forall₂ VariantLike variants variants' := by
  refine isEmpty_part_iff (alike_lists_iff.trans alike_variants_iff)
    (fun h => isEmpty_eq_of_length h.length_eq) ?_
  intro hempty hempty'
  rw [List.isEmpty_iff.mp hempty, List.isEmpty_iff.mp hempty']
  exact .nil

theorem nullable_part_iff {nullable nullable' : Bool} :
    Option.Rel Value.Alike (if nullable then some (.bool true) else none)
        (if nullable' then some (.bool true) else none) ↔ nullable = nullable' := by
  cases nullable <;> cases nullable' <;> simp [alike_refl]

theorem discriminator_part_iff {d d' : Option Discriminator} :
    Option.Rel Value.Alike (d.map Discriminator.write) (d'.map Discriminator.write) ↔
      Option.Rel DiscriminatorLike d d' := by
  cases d with
  | none =>
      cases d' with
      | none => exact ⟨fun _ => .none, fun _ => .none⟩
      | some given' => exact ⟨nofun, nofun⟩
  | some given =>
      cases d' with
      | none => exact ⟨nofun, nofun⟩
      | some given' =>
          constructor
          · rintro ⟨h⟩
            exact .some h
          · rintro ⟨h⟩
            exact .some h

variable {info info' : NodeInfo} {shape shape' : ObjectShape Node}

theorem objectLike_of_alike (hinfo : info.Neat) (hinfo' : info'.Neat)
    (hkeyed : Table.Keyed shape.properties) (hkeyed' : Table.Keyed shape'.properties)
    (h : (Node.object info shape).Alike (.object info' shape')) :
    InfoLike info info' ∧ ObjectLike shape shape' := by
  refine ⟨h.info hinfo hinfo', ?_⟩
  have hpart := h.part hinfo
  constructor
  case properties =>
    rw [← alike_properties_iff hkeyed hkeyed', ← part_properties_object hinfo,
      ← part_properties_object hinfo']
    exact hpart "properties"
  case required =>
    rw [← required_part_iff, ← part_required_object hinfo, ← part_required_object hinfo']
    exact hpart "required"
  case additional =>
    rw [← part_additional_object hinfo, ← part_additional_object hinfo']
    exact hpart "additionalProperties"
  case nullable =>
    rw [← nullable_part_iff, ← part_nullable_object hinfo, ← part_nullable_object hinfo']
    exact hpart "nullable"
  case discriminator =>
    rw [← discriminator_part_iff, ← part_discriminator_object hinfo,
      ← part_discriminator_object hinfo']
    exact hpart "discriminator"
  case oneOf =>
    rw [← variants_part_iff, ← part_oneOf_object hinfo, ← part_oneOf_object hinfo']
    exact hpart "oneOfVariants"
  case anyOf =>
    rw [← variants_part_iff, ← part_anyOf_object hinfo, ← part_anyOf_object hinfo']
    exact hpart "anyOfVariants"

theorem alike_title_part {n n' : Node} (hinfo : n.info.Neat) (hinfo' : n'.info.Neat)
    (h : InfoLike n.info n'.info) :
    Option.Rel Value.Alike (n.part? "title") (n'.part? "title") ∧
      Option.Rel Value.Alike (n.part? "description") (n'.part? "description") := by
  have hpart : ∀ {v v' : Value}, Value.Alike (v.orElse .null) (v'.orElse .null) →
      Option.Rel Value.Alike (if v.truthy then some v else none)
        (if v'.truthy then some v' else none) := by
    intro v v' halike
    have htruthy := alike_truthy halike
    unfold orElse at halike htruthy
    cases hv : v.truthy with
    | true =>
        rw [hv, if_pos rfl, hv] at htruthy
        cases hv' : v'.truthy with
        | true =>
            simp only [hv, hv', if_true] at halike ⊢
            exact .some halike
        | false =>
            rw [hv'] at htruthy
            exact absurd htruthy (by simp [truthy])
    | false =>
        rw [hv] at htruthy
        cases hv' : v'.truthy with
        | true =>
            rw [hv', if_pos rfl, hv'] at htruthy
            exact absurd htruthy (by simp [truthy])
        | false =>
            simp only [Bool.false_eq_true, if_false]
            exact .none
  rw [part_title hinfo, part_title hinfo', part_description hinfo, part_description hinfo']
  exact ⟨hpart h.title, hpart h.description⟩

theorem alike_of_objectLike (hinfo : info.Neat) (hinfo' : info'.Neat)
    (hkeyed : Table.Keyed shape.properties) (hkeyed' : Table.Keyed shape'.properties)
    (hannotations : InfoLike info info') (hshape : ObjectLike shape shape') :
    (Node.object info shape).Alike (.object info' shape') := by
  refine @alike_of_parts (.object info shape) (.object info' shape') hinfo hinfo'
    hannotations.metadata ?_
  intro key hkey
  by_cases hname : key ∈ (Node.object info shape).fieldNames
  · simp only [fieldNames, List.mem_cons, List.not_mem_nil, or_false] at hname
    rcases hname with rfl | rfl | rfl | rfl | rfl | rfl | rfl | rfl | rfl | rfl
    · rw [part_type_object hinfo, part_type_object hinfo']
      exact .some (alike_refl _)
    · rw [part_properties_object hinfo, part_properties_object hinfo']
      exact (alike_properties_iff hkeyed hkeyed').mpr hshape.properties
    · rw [part_required_object hinfo, part_required_object hinfo']
      exact required_part_iff.mpr hshape.required
    · rw [part_additional_object hinfo, part_additional_object hinfo']
      exact hshape.additional
    · rw [part_nullable_object hinfo, part_nullable_object hinfo']
      exact nullable_part_iff.mpr hshape.nullable
    · rw [part_discriminator_object hinfo, part_discriminator_object hinfo']
      exact discriminator_part_iff.mpr hshape.discriminator
    · rw [part_oneOf_object hinfo, part_oneOf_object hinfo']
      exact variants_part_iff.mpr hshape.oneOf
    · rw [part_anyOf_object hinfo, part_anyOf_object hinfo']
      exact variants_part_iff.mpr hshape.anyOf
    · exact (@alike_title_part (.object info shape) (.object info' shape') hinfo hinfo'
        hannotations).1
    · exact (@alike_title_part (.object info shape) (.object info' shape') hinfo hinfo'
        hannotations).2
  · rw [part_none (n := .object info shape) hinfo hkey hname,
      part_none (n := .object info' shape') hinfo' hkey hname]
    exact .none

end Objects

section Compositions

/-- Compositions with parts alike. -/
structure CompositionLike (shape shape' : CompositionShape Node) : Prop where
  kind : shape.kind = shape'.kind
  defect : memberDefect? shape.rawMembers = memberDefect? shape'.rawMembers
  members : memberDefect? shape.rawMembers = none →
    List.Forall₂ Node.Alike shape.members shape'.members
  discriminator : Option.Rel DiscriminatorLike shape.discriminator shape'.discriminator
  properties : Table.Similar Node.Alike shape.properties shape'.properties
  required : List.Forall₂ Value.Alike shape.required shape'.required

theorem isList_of_alike {v v' : Value} (h : Value.Alike v v') {items : List Value}
    (hv : v = .list items) : ∃ items', v' = .list items' := by
  rw [hv] at h
  obtain ⟨items', heq, -⟩ := (alike_list_iff items v').mp h
  exact ⟨items', heq⟩

theorem memberDefect_list (items : List Value) :
    memberDefect? (.list items) = if items.isEmpty then some .empty else none := by
  cases items with
  | nil => rfl
  | cons item rest => rfl

theorem memberDefect_of_alike {v v' : Value} (h : Value.Alike v v')
    (hlist : ∀ items, v ≠ .list items) :
    memberDefect? v = memberDefect? v' ∧ memberDefect? v ≠ none := by
  rcases alike_cases h with ⟨hscalar, heq⟩ | ⟨items, items', hv, -, -⟩ |
    ⟨entries, entries', arranged, hv, hv', -, -⟩
  · rw [heq]
    refine ⟨rfl, ?_⟩
    cases v with
    | list items => exact absurd rfl (hlist items)
    | _ => simp [memberDefect?]
  · exact absurd hv (hlist items)
  · rw [hv, hv']
    exact ⟨rfl, by simp [memberDefect?]⟩

/-- The members of compositions alike: none in both, for one reason, or as many and alike. -/
theorem members_of_alike {shape shape' : CompositionShape Node}
    (hraw : ∀ items, shape.rawMembers = .list items → items.length = shape.members.length)
    (hraw' : ∀ items, shape'.rawMembers = .list items → items.length = shape'.members.length)
    (h : Value.Alike (membersPart shape) (membersPart shape')) :
    memberDefect? shape.rawMembers = memberDefect? shape'.rawMembers ∧
      (memberDefect? shape.rawMembers = none →
        List.Forall₂ Node.Alike shape.members shape'.members) := by
  have hpart : ∀ shape : CompositionShape Node, (∀ items, shape.rawMembers ≠ .list items) →
      membersPart shape = shape.rawMembers := by
    intro shape hlist
    unfold membersPart
    split
    · rename_i items heq
      exact absurd heq (hlist items)
    · rfl
  have hparts : ∀ (shape : CompositionShape Node) items, shape.rawMembers = .list items →
      membersPart shape = .list (writeEach shape.members) := by
    intro shape items heq
    unfold membersPart
    rw [heq]
  -- a list is written as its members, anything else as it is, and the two are never alike
  by_cases hlist : ∃ items, shape.rawMembers = .list items
  · obtain ⟨items, hitems⟩ := hlist
    rw [hparts shape items hitems] at h
    by_cases hlist' : ∃ items', shape'.rawMembers = .list items'
    · obtain ⟨items', hitems'⟩ := hlist'
      rw [hparts shape' items' hitems'] at h
      have hmembers := alike_members_iff.mp (alike_lists_iff.mp h)
      have hlength : items.length = items'.length :=
        (hraw items hitems).trans (hmembers.length_eq.trans (hraw' items' hitems').symm)
      rw [hitems, hitems', memberDefect_list, memberDefect_list, isEmpty_eq_of_length hlength]
      exact ⟨rfl, fun _ => hmembers⟩
    · have hother : ∀ items', shape'.rawMembers ≠ .list items' :=
        fun items' heq => hlist' ⟨items', heq⟩
      rw [hpart shape' hother] at h
      exact absurd (isList_of_alike h rfl) hlist'
  · have hother : ∀ items, shape.rawMembers ≠ .list items := fun items heq => hlist ⟨items, heq⟩
    rw [hpart shape hother] at h
    by_cases hlist' : ∃ items', shape'.rawMembers = .list items'
    · obtain ⟨items', hitems'⟩ := hlist'
      rw [hparts shape' items' hitems'] at h
      exact absurd (isList_of_alike (alike_symm h) rfl) hlist
    · rw [hpart shape' fun items' heq => hlist' ⟨items', heq⟩] at h
      obtain ⟨heq, hdefect⟩ := memberDefect_of_alike h hother
      exact ⟨heq, fun hnone => absurd hnone hdefect⟩

theorem compositionLike_of_alike {info info' : NodeInfo} {shape shape' : CompositionShape Node}
    (hneat : (Node.composition info shape).Neat) (hneat' : (Node.composition info' shape').Neat)
    (h : (Node.composition info shape).Alike (.composition info' shape')) :
    InfoLike info info' ∧ CompositionLike shape shape' := by
  obtain ⟨hinfo, hproperties, -, -, hraw, -, -⟩ := hneat.composition_parts
  obtain ⟨hinfo', hproperties', -, -, hraw', -, -⟩ := hneat'.composition_parts
  have hpart := h.part hinfo
  obtain ⟨info'', shape'', heq, hkind⟩ := h.composition hinfo hinfo'
  obtain ⟨rfl, rfl⟩ := Node.composition.inj heq
  have hwritten : Value.Alike (membersPart shape) (membersPart shape') := by
    have hrel := hpart shape.kind.keyword
    rw [part_members hinfo, hkind, part_members hinfo'] at hrel
    cases hrel with
    | some halike => exact halike
  obtain ⟨hdefect, hlike⟩ := members_of_alike hraw hraw' hwritten
  refine ⟨h.info hinfo hinfo', hkind, hdefect, hlike, ?_, ?_, ?_⟩
  · rw [← discriminator_part_iff, ← part_discriminator_composition hinfo,
      ← part_discriminator_composition hinfo']
    exact hpart "discriminator"
  · rw [← alike_properties_iff hproperties.1 hproperties'.1,
      ← part_properties_composition hinfo, ← part_properties_composition hinfo']
    exact hpart "properties"
  · rw [← required_part_iff, ← part_required_composition hinfo,
      ← part_required_composition hinfo']
    exact hpart "required"

end Compositions

end Node

end SchemaGraph
