import SchemaGraph.Json.Canonical
import SchemaGraph.Proofs.Json.Shown
import SchemaGraph.Proofs.Value.Congruence

/-!
# The canonical text identifies a value

Sorting the keys of a value gives a value alike to it.  Nothing but a key without a JSON text stops
the writing of a value.  Every value of JSON has a canonical text, and values of JSON with one
canonical text are alike.
-/

namespace SchemaGraph

namespace Value

mutual

/-- Whether every key in a value has a JSON text.  A set is written as it is displayed, so its members
may be anything. -/
def isSpelled : Value → Bool
  | .list items => itemsSpelled items
  | .map entries => entriesSpelled entries
  | _ => true

/-- Whether every key in the items of a list has a JSON text. -/
def itemsSpelled : List Value → Bool
  | [] => true
  | item :: rest => isSpelled item && itemsSpelled rest

/-- Whether the keys of entries, and every key in what stands under them, have a JSON text. -/
def entriesSpelled : List (Value × Value) → Bool
  | [] => true
  | (key, item) :: rest => (Json.keyText? key).isSome && isSpelled item && entriesSpelled rest

end

mutual

theorem isSpelled_of_isJson : ∀ {v : Value}, v.isJson = true → v.isSpelled = true
  | .list _, h => itemsSpelled_of_itemsJson h
  | .map _, h => entriesSpelled_of_entriesJson h
  | .null, _ | .bool _, _ | .int _, _ | .double _, _ | .str _, _ => rfl

theorem itemsSpelled_of_itemsJson : ∀ {items : List Value}, itemsJson items = true →
    itemsSpelled items = true
  | [], _ => rfl
  | item :: rest, h => by
      rw [itemsJson, Bool.and_eq_true] at h
      rw [itemsSpelled, isSpelled_of_isJson h.1, itemsSpelled_of_itemsJson h.2]
      rfl

theorem entriesSpelled_of_entriesJson : ∀ {entries : List (Value × Value)},
    entriesJson entries = true → entriesSpelled entries = true
  | [], _ => rfl
  | (key, item) :: rest, h => by
      obtain ⟨name, item', heq, -, hitem, hrest⟩ := entriesJson_cons h
      obtain ⟨rfl, rfl⟩ := Prod.mk.inj heq
      rw [entriesSpelled, isSpelled_of_isJson hitem, entriesSpelled_of_entriesJson hrest]
      rfl

end

end Value

namespace Json

open Value

theorem perm_sortEntries {entries sorted : List (Value × Value)}
    (h : sortEntries entries = .ok sorted) : List.Perm entries sorted := by
  unfold sortEntries at h
  split at h
  · rw [Except.ok.inj h]
  · split at h
    · rw [← Except.ok.inj h]
      exact (List.mergeSort_perm _ _).symm
    · exact absurd h (by simp)

mutual

/-- Sorting changes the order of keys and nothing else. -/
theorem alike_sortKeys : ∀ {v s : Value}, sortKeys v = .ok s → Alike v s
  | .list items, s, h => by
      rw [sortKeys] at h
      cases hitems : sortItems items with
      | error fault =>
          rw [hitems] at h
          exact absurd h (by simp [bind, Except.bind])
      | ok sorted =>
          rw [hitems] at h
          rw [← Except.ok.inj h]
          exact (alike_list_iff _ _).mpr ⟨sorted, rfl, forall₂_sortItems hitems⟩
  | .map entries, s, h => by
      rw [sortKeys] at h
      cases hfields : sortFields entries with
      | error fault =>
          rw [hfields] at h
          exact absurd h (by simp [bind, Except.bind])
      | ok fields =>
          cases hsorted : sortEntries fields with
          | error fault =>
              simp only [hfields, hsorted, bind, Except.bind] at h
              exact absurd h (by simp)
          | ok sorted =>
              simp only [hfields, hsorted, bind, Except.bind, pure, Except.pure] at h
              rw [← Except.ok.inj h]
              exact (alike_map_iff _ _).mpr
                ⟨sorted, fields, rfl, forall₂_sortFields hfields, perm_sortEntries hsorted⟩
  | .null, s, h => by rw [← Except.ok.inj h]; exact alike_refl _
  | .bool b, s, h => by rw [← Except.ok.inj h]; exact alike_refl _
  | .int n, s, h => by rw [← Except.ok.inj h]; exact alike_refl _
  | .double x, s, h => by rw [← Except.ok.inj h]; exact alike_refl _
  | .str t, s, h => by rw [← Except.ok.inj h]; exact alike_refl _
  | .date d, s, h => by rw [← Except.ok.inj h]; exact alike_refl _
  | .moment t, s, h => by rw [← Except.ok.inj h]; exact alike_refl _
  | .bytes octets, s, h => by rw [← Except.ok.inj h]; exact alike_refl _
  | .set members, s, h => by rw [← Except.ok.inj h]; exact alike_refl _

theorem forall₂_sortItems : ∀ {items sorted : List Value}, sortItems items = .ok sorted →
    List.Forall₂ Alike items sorted
  | [], sorted, h => by
      rw [← Except.ok.inj h]
      exact List.Forall₂.nil
  | item :: rest, sorted, h => by
      rw [sortItems] at h
      cases hitem : sortKeys item with
      | error fault =>
          simp only [hitem, bind, Except.bind] at h
          exact absurd h (by simp)
      | ok first =>
          cases hrest : sortItems rest with
          | error fault =>
              simp only [hitem, hrest, bind, Except.bind] at h
              exact absurd h (by simp)
          | ok others =>
              simp only [hitem, hrest, bind, Except.bind, pure, Except.pure] at h
              rw [← Except.ok.inj h]
              exact List.Forall₂.cons (alike_sortKeys hitem) (forall₂_sortItems hrest)

theorem forall₂_sortFields : ∀ {entries fields : List (Value × Value)},
    sortFields entries = .ok fields → List.Forall₂ (Table.EntryRel Alike) entries fields
  | [], fields, h => by
      rw [← Except.ok.inj h]
      exact List.Forall₂.nil
  | (key, item) :: rest, fields, h => by
      rw [sortFields] at h
      cases hitem : sortKeys item with
      | error fault =>
          simp only [hitem, bind, Except.bind] at h
          exact absurd h (by simp)
      | ok first =>
          cases hrest : sortFields rest with
          | error fault =>
              simp only [hitem, hrest, bind, Except.bind] at h
              exact absurd h (by simp)
          | ok others =>
              simp only [hitem, hrest, bind, Except.bind, pure, Except.pure] at h
              rw [← Except.ok.inj h]
              exact List.Forall₂.cons ⟨rfl, alike_sortKeys hitem⟩ (forall₂_sortFields hrest)

end

theorem canonical_ok {v : Value} {text : String} (h : canonical v = .ok text) :
    ∃ sorted, sortKeys v = .ok sorted ∧ render compact sorted = .ok text := by
  unfold canonical at h
  cases hsorted : sortKeys v with
  | error fault =>
      rw [hsorted] at h
      exact absurd h (by simp [bind, Except.bind])
  | ok sorted =>
      rw [hsorted] at h
      exact ⟨sorted, rfl, h⟩

/-- Values with one canonical text show one tree, once their keys are sorted. -/
theorem trees_of_canonical {v w : Value} {text : String} (hv : canonical v = .ok text)
    (hw : canonical w = .ok text) :
    ∃ sorted sorted', Alike v sorted ∧ Alike w sorted' ∧ tree sorted = tree sorted' := by
  obtain ⟨sorted, hsorted, hrender⟩ := canonical_ok hv
  obtain ⟨sorted', hsorted', hrender'⟩ := canonical_ok hw
  exact ⟨sorted, sorted', alike_sortKeys hsorted, alike_sortKeys hsorted',
    tree_eq_of_render hrender hrender'⟩

/-- Values of JSON with one canonical text are alike. -/
theorem alike_of_canonical {v w : Value} {text : String} (hv : canonical v = .ok text)
    (hw : canonical w = .ok text) (hvjson : v.isJson = true) (hwjson : w.isJson = true) :
    Alike v w := by
  obtain ⟨sorted, sorted', halike, halike', htree⟩ := trees_of_canonical hv hw
  have heq := tree_inj sorted sorted' (isJson_of_alike halike hvjson)
    (isJson_of_alike halike' hwjson) htree
  rw [← heq] at halike'
  exact alike_trans halike (alike_symm halike')

/-! ### What stops the writing -/

/-- What stops the writing of two things in turn. -/
theorem fault_andThen_eq (first : Emission) (next : Unit → Emission) :
    (first.andThen next).fault = (first.fault <|> (next ()).fault) := by
  unfold Emission.andThen
  cases hfirst : first.fault with
  | some f => exact hfirst
  | none => rfl

mutual

/-- The writing of a value stops at a key without a JSON text, wherever the value stands and however
it is laid out, and at nothing else. -/
theorem fault_emit (layout : Layout) : ∀ (level : Nat) (v : Value),
    (emit layout level v).fault = if v.isSpelled then none else some .typeMismatch
  | _, .null | _, .bool _ | _, .int _ | _, .double _ | _, .str _ | _, .date _ | _, .moment _
  | _, .bytes _ | _, .set _ => rfl
  | _, .list [] | _, .map [] => rfl
  | level, .list (item :: rest) => by
      rw [emit, fault_andThen_eq, fault_andThen_eq, fault_andThen_eq,
        fault_emit layout (level + 1) item, fault_emitItems layout (level + 1) rest, isSpelled,
        itemsSpelled]
      cases item.isSpelled <;> cases itemsSpelled rest <;> rfl
  | level, .map ((key, item) :: rest) => by
      rw [emit, isSpelled, entriesSpelled]
      cases keyText? key with
      | none => rfl
      | some name =>
          dsimp only
          rw [fault_andThen_eq, fault_andThen_eq, fault_andThen_eq, fault_andThen_eq,
            fault_emit layout (level + 1) item, fault_emitEntries layout (level + 1) rest]
          cases item.isSpelled <;> cases entriesSpelled rest <;> rfl

theorem fault_emitItems (layout : Layout) : ∀ (level : Nat) (items : List Value),
    (emitItems layout level items).fault =
      if itemsSpelled items then none else some .typeMismatch
  | _, [] => rfl
  | level, item :: rest => by
      rw [emitItems, fault_andThen_eq, fault_andThen_eq, fault_emit layout level item,
        fault_emitItems layout level rest, itemsSpelled]
      cases item.isSpelled <;> cases itemsSpelled rest <;> rfl

theorem fault_emitEntries (layout : Layout) : ∀ (level : Nat) (entries : List (Value × Value)),
    (emitEntries layout level entries).fault =
      if entriesSpelled entries then none else some .typeMismatch
  | _, [] => rfl
  | level, (key, item) :: rest => by
      rw [emitEntries, entriesSpelled]
      cases keyText? key with
      | none => rfl
      | some name =>
          dsimp only
          rw [fault_andThen_eq, fault_andThen_eq, fault_emit layout level item,
            fault_emitEntries layout level rest]
          cases item.isSpelled <;> cases entriesSpelled rest <;> rfl

end

/-- Nothing stops the writing of a value exactly if its keys have texts. -/
theorem fault_emit_eq_none {layout : Layout} {level : Nat} {v : Value} :
    (emit layout level v).fault = none ↔ v.isSpelled = true := by
  rw [fault_emit]
  cases v.isSpelled <;> simp

/-- Nothing stops the writing of a value of JSON. -/
theorem fault_emit_json (layout : Layout) (level : Nat) {v : Value} (h : v.isJson = true) :
    (emit layout level v).fault = none :=
  fault_emit_eq_none.mpr (isSpelled_of_isJson h)

section Existence

/-- Keys that are texts can be compared. -/
theorem comparableKeys_texts {entries : List (Value × Value)}
    (h : ∀ entry ∈ entries, ∃ key, entry.1 = .str key) :
    comparableKeys (entries.map (·.1)) = true := by
  unfold comparableKeys
  rw [Bool.or_eq_true]
  left
  rw [List.all_eq_true]
  intro key hkey
  obtain ⟨entry, hentry, rfl⟩ := List.mem_map.mp hkey
  obtain ⟨s, hs⟩ := h entry hentry
  rw [hs]

theorem sortEntries_ok {entries : List (Value × Value)}
    (h : ∀ entry ∈ entries, ∃ key, entry.1 = .str key) :
    ∃ sorted, sortEntries entries = .ok sorted := by
  unfold sortEntries
  split
  · exact ⟨entries, rfl⟩
  · rw [if_pos (comparableKeys_texts h)]
    exact ⟨_, rfl⟩

theorem sortItems_ok {items : List Value}
    (h : ∀ item ∈ items, ∃ sorted, sortKeys item = .ok sorted) :
    ∃ sorted, sortItems items = .ok sorted := by
  induction items with
  | nil => exact ⟨[], rfl⟩
  | cons item rest ih =>
      obtain ⟨first, hfirst⟩ := h item List.mem_cons_self
      obtain ⟨others, hothers⟩ := ih fun a ha => h a (List.mem_cons_of_mem _ ha)
      exact ⟨first :: others, by simp [sortItems, hfirst, hothers, bind, Except.bind, pure,
        Except.pure]⟩

theorem sortFields_ok {entries : List (Value × Value)}
    (h : ∀ entry ∈ entries, ∃ sorted, sortKeys entry.2 = .ok sorted) :
    ∃ fields, sortFields entries = .ok fields := by
  induction entries with
  | nil => exact ⟨[], rfl⟩
  | cons entry rest ih =>
      obtain ⟨key, item⟩ := entry
      obtain ⟨first, hfirst⟩ := h _ List.mem_cons_self
      obtain ⟨others, hothers⟩ := ih fun a ha => h a (List.mem_cons_of_mem _ ha)
      dsimp only at hfirst
      exact ⟨(key, first) :: others, by simp [sortFields, hfirst, hothers, bind, Except.bind, pure,
        Except.pure]⟩

theorem sortKeys_ok {v : Value} (h : v.isJson = true) : ∃ sorted, sortKeys v = .ok sorted := by
  induction v using nested with
  | hscalar v hscalar =>
      cases v with
      | list items => exact absurd hscalar (by simp [isScalar])
      | map entries => exact absurd hscalar (by simp [isScalar])
      | _ => exact ⟨_, rfl⟩
  | hlist items ih =>
      obtain ⟨sorted, hsorted⟩ := sortItems_ok fun item hitem =>
        ih item hitem ((itemsJson_iff items).mp h item hitem)
      exact ⟨.list sorted, by simp [sortKeys, hsorted, bind, Except.bind, pure, Except.pure]⟩
  | hmap entries ih =>
      obtain ⟨hkeyed, hall⟩ := (entriesJson_iff entries).mp h
      obtain ⟨fields, hfields⟩ := sortFields_ok fun entry hentry =>
        ih entry hentry (hall entry hentry).2
      have hforall := forall₂_sortFields hfields
      have hkeys : ∀ field ∈ fields, ∃ key, field.1 = .str key := by
        intro field hfield
        obtain ⟨index, hindex, rfl⟩ := List.mem_iff_getElem.mp hfield
        have hlength := hforall.length_eq
        obtain ⟨hkey, -⟩ := hforall.get (by omega) hindex
        obtain ⟨⟨key, hstr⟩, -⟩ := hall _ (List.getElem_mem (by omega : index < entries.length))
        exact ⟨key, hkey.symm.trans hstr⟩
      obtain ⟨sorted, hsorted⟩ := sortEntries_ok hkeys
      exact ⟨.map sorted, by simp [sortKeys, hfields, hsorted, bind, Except.bind, pure, Except.pure]⟩

/-- Every value of JSON has a canonical text. -/
theorem canonical_exists {v : Value} (h : v.isJson = true) : ∃ text, canonical v = .ok text := by
  obtain ⟨sorted, hsorted⟩ := sortKeys_ok h
  have hfault := fault_emit_json compact 0 (isJson_of_alike (alike_sortKeys hsorted) h)
  refine ⟨(emit compact 0 sorted).text, ?_⟩
  simp [canonical, hsorted, render, Emission.complete, hfault, bind, Except.bind]

end Existence

end Json

end SchemaGraph
