import SchemaGraph.Proofs.Schema.Neat

/-!
# Schemas up to the order of keys

Two schemas are alike when what is written for them is.  Schemas alike are of one kind, and their
parts are alike: the type, the title, the properties, the variants.  An object is alike to another
exactly when its parts are.
-/

namespace SchemaGraph

namespace Node

open Value

/-- Schemas that are written alike. -/
def Alike (n n' : Node) : Prop := Value.Alike n.write n'.write

theorem Alike.refl (n : Node) : n.Alike n := alike_refl _

theorem Alike.symm {n n' : Node} (h : n.Alike n') : n'.Alike n := alike_symm h

theorem Alike.trans {n n' n'' : Node} (h : n.Alike n') (h' : n'.Alike n'') : n.Alike n'' :=
  alike_trans h h'

section Parts

variable {n n' : Node}

/-- What stands under a name in schemas that are alike. -/
theorem Alike.part (h : n.Alike n') (hinfo : n.info.Neat) (key : String) :
    Option.Rel Value.Alike (n.part? key) (n'.part? key) := by
  unfold Alike at h
  rw [write_eq, write_eq] at h
  exact alike_at (keyed_entries hinfo) h key

theorem Alike.part_of_some (h : n.Alike n') (hinfo : n.info.Neat) {key : String} {v : Value}
    (hv : n.part? key = some v) : ∃ v', n'.part? key = some v' ∧ Value.Alike v v' := by
  have hrel := h.part hinfo key
  rw [hv] at hrel
  cases hpart : n'.part? key with
  | none =>
      rw [hpart] at hrel
      cases hrel
  | some v' =>
      rw [hpart] at hrel
      cases hrel with
      | some halike => exact ⟨v', rfl, halike⟩

theorem entry_metadata_none {info : NodeInfo} (hinfo : info.Neat) {a : Atom}
    (ha : ∀ key, a = .text key → isMetadataKey key = false) :
    Table.slot? info.metadata a = none := by
  cases hfound : Table.slot? info.metadata a with
  | none => rfl
  | some entry =>
      obtain ⟨key, hkey, hmeta⟩ := hinfo.2 entry (Table.mem_of_entry hfound)
      have hatom := Table.atom_of_entry hfound
      rw [hkey, atom_str, Option.some.injEq] at hatom
      rw [ha key hatom.symm] at hmeta
      exact absurd hmeta (by simp)

theorem Alike.metadata (h : n.Alike n') (hinfo : n.info.Neat) (hinfo' : n'.info.Neat) :
    Table.Similar Value.Alike n.info.metadata n'.info.metadata := by
  unfold Alike at h
  rw [write_eq, write_eq] at h
  obtain ⟨-, hsimilar⟩ := (alike_map_iff_similar (keyed_entries hinfo)).mp h
  intro a
  by_cases hkey : ∃ key, a = .text key ∧ isMetadataKey key = true
  · obtain ⟨key, rfl, hmeta⟩ := hkey
    rw [← entry_metadata hinfo hmeta, ← entry_metadata hinfo' hmeta]
    exact hsimilar (.text key)
  · have hnone : ∀ key, a = .text key → isMetadataKey key = false := by
      intro key ha
      cases hmeta : isMetadataKey key with
      | false => rfl
      | true => exact absurd ⟨key, ha, hmeta⟩ hkey
    rw [entry_metadata_none hinfo hnone, entry_metadata_none hinfo' hnone]
    exact Option.Rel.none

theorem getD_alike {o o' : Option Value} (h : Option.Rel Value.Alike o o') :
    Value.Alike (o.getD .null) (o'.getD .null) := by
  cases h with
  | some h => exact h
  | none => exact alike_refl _

theorem title_eq_part (hinfo : n.info.Neat) :
    n.info.title.orElse .null = (n.part? "title").getD .null := by
  rw [part_title hinfo]
  unfold orElse
  split <;> rfl

theorem description_eq_part (hinfo : n.info.Neat) :
    n.info.description.orElse .null = (n.part? "description").getD .null := by
  rw [part_description hinfo]
  unfold orElse
  split <;> rfl

/-- Annotations alike; a title that counts as not given is like none. -/
structure InfoLike (info info' : NodeInfo) : Prop where
  metadata : Table.Similar Value.Alike info.metadata info'.metadata
  title : Value.Alike (info.title.orElse .null) (info'.title.orElse .null)
  description : Value.Alike (info.description.orElse .null) (info'.description.orElse .null)

theorem Alike.info (h : n.Alike n') (hinfo : n.info.Neat) (hinfo' : n'.info.Neat) :
    InfoLike n.info n'.info where
  metadata := h.metadata hinfo hinfo'
  title := by
    rw [title_eq_part hinfo, title_eq_part hinfo']
    exact getD_alike (h.part hinfo "title")
  description := by
    rw [description_eq_part hinfo, description_eq_part hinfo']
    exact getD_alike (h.part hinfo "description")

theorem entry_text_eq {α : Type} (table : Table α) (key : String) :
    Table.slot? table (.text key) = (Table.at? table key).map fun item => (.str key, item) := by
  rw [Table.at_eq_entry]
  cases hfound : Table.slot? table (.text key) with
  | none => rfl
  | some entry =>
      rw [Option.map_some, Option.map_some, ← Table.key_of_text hfound]

theorem entry_entries_none (hinfo : n.info.Neat) {a : Atom}
    (hmeta : ∀ key, a = .text key → isMetadataKey key = false)
    (hfixed : ∀ key, a = .text key → key ∉ fixedNames) : Table.slot? n.entries a = none := by
  rw [entries, Table.entry_putAll n.keyed_titled hinfo.1, entry_metadata_none hinfo hmeta]
  cases hfound : Table.slot? n.titled a with
  | none => rfl
  | some entry =>
      have hmem := n.titled_sublist.subset
        (List.mem_map_of_mem (f := fun e : Value × Value => e.1) (Table.mem_of_entry hfound))
      obtain ⟨name, hname, heq⟩ := List.mem_map.mp hmem
      have hatom := Table.atom_of_entry hfound
      rw [← heq, atom_str, Option.some.injEq] at hatom
      exact absurd (n.fieldNames_subset hname) (hfixed name hatom.symm)

/-- Schemas with like annotations and like parts are alike. -/
theorem alike_of_parts (hinfo : n.info.Neat) (hinfo' : n'.info.Neat)
    (hmetadata : Table.Similar Value.Alike n.info.metadata n'.info.metadata)
    (hparts : ∀ key ∈ fixedNames, Option.Rel Value.Alike (n.part? key) (n'.part? key)) :
    n.Alike n' := by
  unfold Alike
  rw [write_eq, write_eq]
  refine (alike_map_iff_similar (keyed_entries hinfo)).mpr ⟨keyed_entries hinfo', ?_⟩
  intro a
  by_cases hkey : ∃ key, a = .text key ∧ isMetadataKey key = true
  · obtain ⟨key, rfl, hmeta⟩ := hkey
    rw [entry_metadata hinfo hmeta, entry_metadata hinfo' hmeta]
    exact hmetadata (.text key)
  · have hmeta : ∀ key, a = .text key → isMetadataKey key = false := by
      intro key ha
      cases hmeta : isMetadataKey key with
      | false => rfl
      | true => exact absurd ⟨key, ha, hmeta⟩ hkey
    by_cases hfixed : ∃ key, a = .text key ∧ key ∈ fixedNames
    · obtain ⟨key, rfl, hmem⟩ := hfixed
      have hrel := hparts key hmem
      unfold part? at hrel
      rw [entry_text_eq, entry_text_eq]
      revert hrel
      generalize Table.at? n.entries key = o
      generalize Table.at? n'.entries key = o'
      intro hrel
      cases hrel with
      | some halike => exact Option.Rel.some ⟨rfl, halike⟩
      | none => exact Option.Rel.none
    · have hother : ∀ key, a = .text key → key ∉ fixedNames :=
        fun key ha hmem => hfixed ⟨key, ha, hmem⟩
      rw [entry_entries_none hinfo hmeta hother, entry_entries_none hinfo' hmeta hother]
      exact Option.Rel.none

end Parts

section Kinds

/-- A schema has a part only under a name of its kind. -/
theorem mem_fieldNames_of_part {n : Node} (hinfo : n.info.Neat) {key : String}
    (hkey : key ∈ fixedNames) {v : Value} (h : n.part? key = some v) : key ∈ n.fieldNames := by
  by_contra habsent
  rw [part_none hinfo hkey habsent] at h
  cases h

theorem Alike.ref {info : NodeInfo} {target : Value} {n' : Node}
    (h : (Node.ref info target).Alike n') (hinfo : info.Neat) (hinfo' : n'.info.Neat) :
    ∃ info' target', n' = .ref info' target' ∧ Value.Alike target target' := by
  obtain ⟨target', hpart, halike⟩ := h.part_of_some hinfo (part_ref hinfo target)
  have hname := mem_fieldNames_of_part hinfo' (by decide) hpart
  cases n' with
  | ref info' target'' =>
      have hinfo'' : info'.Neat := hinfo'
      rw [part_ref hinfo'', Option.some.injEq] at hpart
      exact ⟨info', target'', rfl, hpart ▸ halike⟩
  | composition info' shape' =>
      obtain ⟨kind, rawMembers, members, discriminator, properties, required⟩ := shape'
      cases kind <;> exact absurd hname (by simp [fieldNames, CompositionKind.keyword])
  | _ => exact absurd hname (by simp [fieldNames])

theorem keyword_mem_fixedNames (kind : CompositionKind) : kind.keyword ∈ fixedNames := by
  cases kind <;> decide

theorem Alike.composition {info : NodeInfo} {shape : CompositionShape Node} {n' : Node}
    (h : (Node.composition info shape).Alike n') (hinfo : info.Neat) (hinfo' : n'.info.Neat) :
    ∃ info' shape', n' = .composition info' shape' ∧ shape.kind = shape'.kind := by
  obtain ⟨members', hpart, -⟩ := h.part_of_some hinfo (part_members hinfo shape)
  have hname := mem_fieldNames_of_part hinfo' (keyword_mem_fixedNames _) hpart
  cases n' with
  | composition info' shape' =>
      refine ⟨info', shape', rfl, ?_⟩
      cases hkind : shape.kind <;> cases hkind' : shape'.kind <;>
        first
        | rfl
        | exact absurd hname (by simp [fieldNames, CompositionKind.keyword, hkind, hkind'])
  | _ =>
      cases hkind : shape.kind <;>
        exact absurd hname (by simp [fieldNames, CompositionKind.keyword, hkind])

/-- The declared type is what stands under its name. -/
theorem declaredType_eq_part {n : Node} (h : n.Labelled) :
    n.declaredType = (n.part? "type").getD .null := by
  cases n with
  | primitive info shape =>
      rw [part_type_primitive h.1]
      change shape.typeName.orElse .null = _
      unfold orElse
      split <;> rfl
  | array info shape =>
      rw [part_type_array (show info.Neat from h)]
      rfl
  | object info shape =>
      rw [part_type_object (show info.Neat from h)]
      rfl
  | composition info shape =>
      rw [part_none h (by decide)]
      · rfl
      · obtain ⟨kind, rawMembers, members, discriminator, properties, required⟩ := shape
        cases kind <;> simp [fieldNames, CompositionKind.keyword]
  | bare info =>
      rw [part_none h (by decide) (by simp [fieldNames])]
      rfl
  | ref info target =>
      rw [part_none h (by decide) (by simp [fieldNames])]
      rfl

theorem isJson_declaredTypeOf {n : Node} (h : n.Labelled) : n.declaredType.isJson = true := by
  cases n with
  | primitive info shape =>
      change (shape.typeName.orElse .null).isJson = true
      unfold orElse
      split
      · exact h.2.1
      · rfl
  | _ => rfl

theorem Alike.declaredType {n n' : Node} (h : n.Alike n') (hn : n.Labelled) (hn' : n'.Labelled) :
    Value.Alike n.declaredType n'.declaredType := by
  rw [declaredType_eq_part hn, declaredType_eq_part hn']
  exact getD_alike (h.part hn.info "type")

theorem Alike.object {info : NodeInfo} {shape : ObjectShape Node} {n' : Node}
    (h : (Node.object info shape).Alike n') (hinfo : info.Neat) (hn' : n'.Labelled) :
    ∃ info' shape', n' = .object info' shape' := by
  have htype := h.declaredType (show (Node.object info shape).Labelled from hinfo) hn'
  have heq : n'.declaredType = .str "object" := (alike_scalar_iff rfl _).mp htype
  cases n' with
  | object info' shape' => exact ⟨info', shape', rfl⟩
  | primitive info' shape' =>
      change shape'.typeName.orElse .null = .str "object" at heq
      unfold orElse at heq
      split at heq
      · exact absurd heq hn'.2.2.2
      · cases heq
  | array info' shape' => exact absurd heq (by simp [Node.declaredType])
  | bare info' => cases heq
  | ref info' target' => cases heq
  | composition info' shape' => cases heq

end Kinds

end Node

end SchemaGraph
