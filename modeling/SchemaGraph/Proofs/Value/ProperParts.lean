import SchemaGraph.Proofs.Schema.References
import SchemaGraph.Proofs.Value.Grouped

/-!
# Parts of proper values

What is found in a proper value is proper, and so is what is put together of proper values under keys
that may be keys.
-/

namespace SchemaGraph

namespace Value

theorem proper_list_iff {items : List Value} :
    (Value.list items).Proper ↔ ∀ item ∈ items, item.Proper :=
  itemsProper_iff items

theorem proper_map_iff {entries : Table Value} :
    (Value.map entries).Proper ↔
      Distinct (Table.keys entries) ∧ ∀ entry ∈ entries, entry.2.Proper := by
  rw [Proper, entriesProper_iff]
  exact Iff.rfl

theorem inherited_proper : Inherited Proper where
  entry := by
    intro entries key v h hat
    obtain ⟨entry, hentry, -, rfl⟩ := mem_of_at hat
    exact (proper_map_iff.mp h).2 entry hentry
  item := fun h hitem => proper_list_iff.mp h _ hitem
  null := trivial
  blank := proper_map_iff.mpr ⟨distinct_nil, fun _ hentry => nomatch hentry⟩

/-- Values of JSON are proper. -/
theorem proper_of_isJson {v : Value} (h : v.isJson = true) : v.Proper := by
  induction v using nested with
  | hscalar v hscalar =>
      cases v with
      | list items => cases hscalar
      | map entries => cases hscalar
      | set members => cases h
      | _ => trivial
  | hlist items ih =>
      exact proper_list_iff.mpr fun item hitem => ih item hitem (isJson_of_mem_items h hitem)
  | hmap entries ih =>
      obtain ⟨hkeyed, hall⟩ := (entriesJson_iff entries).mp h
      refine proper_map_iff.mpr ⟨⟨fun key hkey => ?_, ?_⟩, fun entry hentry =>
        ih entry hentry (hall entry hentry).2⟩
      · obtain ⟨entry, hentry, rfl⟩ := List.mem_map.mp hkey
        obtain ⟨⟨text, htext⟩, -⟩ := hall entry hentry
        rw [htext]
        rfl
      · -- texts stand for different things as scalars if they do as atoms
        obtain ⟨-, hnodup⟩ := (Table.keyed_iff_nodup entries).mp hkeyed
        unfold Table.keys
        rw [List.map_map]
        refine List.pairwise_map.mpr ((List.pairwise_map.mp hnodup).imp_of_mem ?_)
        intro entry other hentry hother hne heq
        obtain ⟨⟨text, htext⟩, -⟩ := hall entry hentry
        obtain ⟨⟨text', htext'⟩, -⟩ := hall other hother
        rw [Function.comp_apply, Function.comp_apply, htext, htext',
          scalar_of_atom (atom_str text), scalar_of_atom (atom_str text'), Option.some.injEq,
          Scalar.atom.injEq] at heq
        rw [htext, htext', atom_str, atom_str, heq] at hne
        exact hne rfl

theorem Proper.orElse {v other : Value} (hv : v.Proper) (hother : other.Proper) :
    (v.orElse other).Proper := by
  unfold Value.orElse
  split
  · exact hv
  · exact hother

/-- The values that a proper value runs through are proper. -/
theorem proper_iterate {v : Value} {items : List Value} (hv : v.Proper) (h : v.iterate = .ok items) :
    ∀ item ∈ items, item.Proper := by
  have hkeys : ∀ keys : List Value, Distinct keys → ∀ key ∈ keys, key.Proper :=
    fun keys hdistinct key hkey => proper_of_hashable (hdistinct.1 key hkey)
  cases v with
  | list listed =>
      rw [← Except.ok.inj h]
      exact proper_list_iff.mp hv
  | str s =>
      rw [← Except.ok.inj h]
      intro item hitem
      obtain ⟨c, -, rfl⟩ := List.mem_map.mp hitem
      trivial
  | map entries =>
      rw [← Except.ok.inj h]
      exact hkeys _ (proper_map_iff.mp hv).1
  | bytes octets =>
      rw [← Except.ok.inj h]
      intro item hitem
      obtain ⟨b, -, rfl⟩ := List.mem_map.mp hitem
      trivial
  | set members =>
      rw [← Except.ok.inj h]
      exact hkeys _ hv
  | _ => cases h

section Writing

theorem proper_putAll {table entries : Table Value} (htable : (Value.map table).Proper)
    (hentries : ∀ entry ∈ entries, entry.1.hashable = true ∧ entry.2.Proper) :
    (Value.map (Table.putAll table entries)).Proper := by
  obtain ⟨hdistinct, hitems⟩ := proper_map_iff.mp htable
  have hkeys : ∀ key ∈ Table.keys entries, key.hashable = true := by
    intro key hkey
    obtain ⟨entry, hentry, rfl⟩ := List.mem_map.mp hkey
    exact (hentries entry hentry).1
  have hgiven : ∀ entry ∈ table, entry.1.hashable = true ∧ entry.2.Proper := fun entry hentry =>
    ⟨hdistinct.1 _ (List.mem_map_of_mem hentry), hitems entry hentry⟩
  have hall := Table.forall_putAll (P := fun key => key.hashable = true) (Q := Proper) hgiven hentries
  exact proper_map_iff.mpr
    ⟨Table.distinct_putAll hdistinct hkeys, fun entry hentry => (hall entry hentry).2⟩

theorem proper_put {table : Table Value} {key item : Value} (htable : (Value.map table).Proper)
    (hkey : key.hashable = true) (hitem : item.Proper) :
    (Value.map (table.put key item)).Proper := by
  have hone : ∀ entry ∈ [(key, item)], entry.1.hashable = true ∧ entry.2.Proper :=
    List.forall_mem_singleton.mpr ⟨hkey, hitem⟩
  exact proper_putAll htable hone

/-- A table that is written of proper values under keys is proper. -/
theorem proper_ofList {entries : List (Value × Value)}
    (h : ∀ entry ∈ entries, entry.1.hashable = true ∧ entry.2.Proper) :
    (Value.map (Table.ofList entries)).Proper :=
  proper_putAll inherited_proper.blank h

end Writing

end Value

end SchemaGraph
