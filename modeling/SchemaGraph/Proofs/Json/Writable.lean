import SchemaGraph.Proofs.Json.SameTree

/-!
# What has a canonical text

A value has a canonical text exactly if the keys of its mappings can be sorted and have texts.  So a
list has one exactly if each of its items has one, and a mapping with a single text as its key if what
stands under the key has one.

Whether a value has a canonical text does not depend on the texts in it, keys apart.  So it is enough
to look at the skeleton of the value, in which all these texts are empty.
-/

namespace SchemaGraph

namespace Json

open Value

/-- Whether a value has a canonical text. -/
def Writable (v : Value) : Prop := ∃ text, canonical v = .ok text

theorem Emission.complete_eq_ok {e : Emission} :
    (∃ text, e.complete = .ok text) ↔ e.fault = none := by
  unfold Emission.complete
  cases e.fault <;> simp

/-- A value has a canonical text if its keys can be sorted and have texts. -/
theorem writable_iff (v : Value) :
    Writable v ↔ ∃ sorted, sortKeys v = .ok sorted ∧ sorted.isSpelled = true := by
  unfold Writable canonical render
  cases sortKeys v with
  | error fault =>
      refine iff_of_false ?_ ?_
      · rintro ⟨text, h⟩
        cases h
      · rintro ⟨sorted, h, -⟩
        cases h
  | ok sorted =>
      change (∃ text, (emit compact 0 sorted).complete = .ok text) ↔ _
      rw [Emission.complete_eq_ok, fault_emit_eq_none]
      simp

theorem sortItems_writable (items : List Value) :
    (∃ sorted, sortItems items = .ok sorted ∧ itemsSpelled sorted = true) ↔
      ∀ item ∈ items, Writable item := by
  induction items with
  | nil => exact iff_of_true ⟨[], rfl, rfl⟩ (by simp)
  | cons item rest ih =>
      rw [List.forall_mem_cons, ← ih, writable_iff]
      constructor
      · rintro ⟨sorted, hsorted, hspelled⟩
        obtain ⟨first, tail, hfirst, htail, rfl⟩ := sortItems_cons hsorted
        rw [itemsSpelled, Bool.and_eq_true] at hspelled
        exact ⟨⟨first, hfirst, hspelled.1⟩, tail, htail, hspelled.2⟩
      · rintro ⟨⟨first, hfirst, hspelled⟩, tail, htail, hothers⟩
        refine ⟨first :: tail, ?_, by rw [itemsSpelled, hspelled, hothers]; rfl⟩
        rw [sortItems]
        exact bind_eq_ok.mpr ⟨first, hfirst, bind_eq_ok.mpr ⟨tail, htail, rfl⟩⟩

/-- A list has a canonical text exactly if each of its items has one. -/
theorem writable_list_iff (items : List Value) :
    Writable (.list items) ↔ ∀ item ∈ items, Writable item := by
  rw [writable_iff, ← sortItems_writable]
  constructor
  · rintro ⟨sorted, hsorted, hspelled⟩
    obtain ⟨others, hothers, rfl⟩ := sortKeys_list hsorted
    exact ⟨others, hothers, hspelled⟩
  · rintro ⟨others, hothers, hspelled⟩
    refine ⟨.list others, ?_, hspelled⟩
    rw [sortKeys, hothers]
    rfl

/-- A mapping with one text as its key has a canonical text exactly if what stands there has one. -/
theorem writable_single_iff (key : String) (v : Value) :
    Writable (.map [(.str key, v)]) ↔ Writable v := by
  have hsort : sortKeys (.map [(.str key, v)]) =
      sortKeys v >>= fun sorted => .ok (.map [(.str key, sorted)]) := by
    rw [sortKeys, sortFields, sortFields]
    cases sortKeys v <;> rfl
  have hspelled : ∀ sorted : Value,
      (Value.map [(.str key, sorted)]).isSpelled = sorted.isSpelled := by
    intro sorted
    rw [isSpelled, entriesSpelled, entriesSpelled, Bool.and_true]
    rfl
  rw [writable_iff, writable_iff, hsort]
  constructor
  · rintro ⟨sorted, hsorted, h⟩
    obtain ⟨item, hitem, heq⟩ := bind_eq_ok.mp hsorted
    obtain rfl := Except.ok.inj heq
    exact ⟨item, hitem, (hspelled item).symm.trans h⟩
  · rintro ⟨item, hitem, h⟩
    exact ⟨_, bind_eq_ok.mpr ⟨item, hitem, rfl⟩, (hspelled item).trans h⟩

end Json

/-!
### Changing the items of a table

Looking up and writing do not look at the items of a table, so they go along with changing all of
them.
-/

namespace Table

variable {α β : Type}

/-- The table with its items changed. -/
def mapItems (f : α → β) (table : Table α) : Table β := table.map fun entry => (entry.1, f entry.2)

@[simp] theorem mapItems_cons (f : α → β) (entry : Value × α) (rest : Table α) :
    mapItems f (entry :: rest) = (entry.1, f entry.2) :: mapItems f rest := rfl

theorem mapItems_append (f : α → β) (front back : Table α) :
    mapItems f (front ++ back) = mapItems f front ++ mapItems f back := List.map_append

theorem keys_mapItems (f : α → β) (table : Table α) :
    (mapItems f table).map (·.1) = table.map (·.1) := by
  unfold mapItems
  rw [List.map_map]
  rfl

theorem get_mapItems (f : α → β) (table : Table α) (key : Value) :
    (mapItems f table).get? key = (table.get? key).map f := by
  unfold get? mapItems
  rw [List.find?_map, Option.map_map, Option.map_map]
  rfl

theorem put_mapItems (f : α → β) (table : Table α) (key : Value) (item : α) :
    (mapItems f table).put key (f item) = mapItems f (table.put key item) := by
  induction table with
  | nil => rfl
  | cons entry rest ih =>
      rw [mapItems_cons, put, put]
      split
      · rfl
      · rw [ih]
        rfl

theorem putNew_mapItems (f : α → β) (table : Table α) (key : Value) (item : α) :
    (mapItems f table).putNew key (f item) = mapItems f (table.putNew key item) := by
  unfold putNew
  rw [get_mapItems]
  cases table.get? key with
  | some found => rfl
  | none => exact put_mapItems f table key item

/-- Writing entries, in order, goes along with changing items. -/
theorem putAll_mapItems (f : α → β) (table : Table α) (entries : List (Value × α)) :
    (mapItems f entries).foldl (fun (t : Table β) entry => t.put entry.1 entry.2) (mapItems f table) =
      mapItems f (entries.foldl (fun (t : Table α) entry => t.put entry.1 entry.2) table) := by
  induction entries generalizing table with
  | nil => rfl
  | cons entry rest ih => rw [mapItems_cons, List.foldl_cons, List.foldl_cons, put_mapItems, ih]

end Table

/-! ### Skeletons -/

namespace Value

mutual

/-- The value with every text in it made empty; keys stay. -/
def skeleton : Value → Value
  | .str _ => .str ""
  | .list items => .list (itemsSkeleton items)
  | .map entries => .map (entriesSkeleton entries)
  | v => v

/-- The skeletons of the items of a list. -/
def itemsSkeleton : List Value → List Value
  | [] => []
  | item :: rest => skeleton item :: itemsSkeleton rest

/-- The entries of a mapping with the skeletons of their values. -/
def entriesSkeleton : List (Value × Value) → List (Value × Value)
  | [] => []
  | (key, item) :: rest => (key, skeleton item) :: entriesSkeleton rest

end

theorem entriesSkeleton_eq : entriesSkeleton = Table.mapItems skeleton := by
  funext entries
  induction entries with
  | nil => rfl
  | cons entry rest ih =>
      rw [entriesSkeleton, ih]
      rfl

end Value

namespace Json

open Value

theorem sortEntries_mapItems (entries : List (Value × Value)) (f : Value → Value) :
    sortEntries (Table.mapItems f entries) = (sortEntries entries).map (Table.mapItems f) := by
  have hlength : (Table.mapItems f entries).length = entries.length := List.length_map _
  unfold sortEntries
  rw [hlength, Table.keys_mapItems]
  split
  · rfl
  · split
    · have hsort := List.map_mergeSort (r := fun a b : Value × Value => keyLe a.1 b.1)
        (s := fun a b : Value × Value => keyLe a.1 b.1)
        (f := fun entry : Value × Value => (entry.1, f entry.2)) (l := entries)
        fun _ _ _ _ => rfl
      exact congrArg Except.ok hsort.symm
    · rfl

mutual

theorem sortKeys_skeleton : ∀ v : Value, sortKeys v.skeleton = (sortKeys v).map skeleton
  | .list items => by
      rw [skeleton, sortKeys, sortKeys, sortItems_skeleton items]
      cases sortItems items <;> rfl
  | .map entries => by
      rw [skeleton, sortKeys, sortKeys, sortFields_skeleton entries]
      cases sortFields entries with
      | error f => rfl
      | ok fields =>
          change (do return Value.map (← sortEntries (entriesSkeleton fields))) =
            ((do return Value.map (← sortEntries fields)) : Except Fault Value).map skeleton
          rw [entriesSkeleton_eq, sortEntries_mapItems, ← entriesSkeleton_eq]
          cases sortEntries fields <;> rfl
  | .str _ | .null | .bool _ | .int _ | .double _ | .date _ | .moment _ | .bytes _ | .set _ => rfl

theorem sortItems_skeleton : ∀ items : List Value,
    sortItems (itemsSkeleton items) = (sortItems items).map itemsSkeleton
  | [] => rfl
  | item :: rest => by
      rw [itemsSkeleton, sortItems, sortItems, sortKeys_skeleton item, sortItems_skeleton rest]
      cases sortKeys item with
      | error f => rfl
      | ok sorted => cases sortItems rest <;> rfl

theorem sortFields_skeleton : ∀ entries : List (Value × Value),
    sortFields (entriesSkeleton entries) = (sortFields entries).map entriesSkeleton
  | [] => rfl
  | (key, item) :: rest => by
      rw [entriesSkeleton, sortFields, sortFields, sortKeys_skeleton item,
        sortFields_skeleton rest]
      cases sortKeys item with
      | error f => rfl
      | ok sorted => cases sortFields rest <;> rfl

end

mutual

theorem isSpelled_skeleton : ∀ v : Value, v.skeleton.isSpelled = v.isSpelled
  | .list items => by rw [skeleton, isSpelled, isSpelled, itemsSpelled_skeleton items]
  | .map entries => by rw [skeleton, isSpelled, isSpelled, entriesSpelled_skeleton entries]
  | .str _ | .null | .bool _ | .int _ | .double _ | .date _ | .moment _ | .bytes _ | .set _ => rfl

theorem itemsSpelled_skeleton : ∀ items : List Value,
    itemsSpelled (itemsSkeleton items) = itemsSpelled items
  | [] => rfl
  | item :: rest => by
      rw [itemsSkeleton, itemsSpelled, itemsSpelled, isSpelled_skeleton item,
        itemsSpelled_skeleton rest]

theorem entriesSpelled_skeleton : ∀ entries : List (Value × Value),
    entriesSpelled (entriesSkeleton entries) = entriesSpelled entries
  | [] => rfl
  | (key, item) :: rest => by
      rw [entriesSkeleton, entriesSpelled, entriesSpelled, isSpelled_skeleton item,
        entriesSpelled_skeleton rest]

end

/-- A value has a canonical text if its skeleton has, and lacks it for the same fault. -/
theorem canonical_skeleton (v : Value) :
    (canonical v.skeleton).map (fun _ => ()) = (canonical v).map fun _ => () := by
  unfold canonical
  rw [sortKeys_skeleton]
  cases sortKeys v with
  | error f => rfl
  | ok sorted =>
      change (render compact sorted.skeleton).map (fun _ => ()) = (render compact sorted).map _
      unfold render Emission.complete
      rw [fault_emit, fault_emit, isSpelled_skeleton]
      cases sorted.isSpelled <;> rfl

end Json

end SchemaGraph
