import SchemaGraph.Proofs.Json.Canonical
import SchemaGraph.Proofs.Outcome

/-!
# Values that show one tree

A canonical text shows the tree of a value whose keys are sorted.  Values with one such tree need not
be alike, since a date shows the tree of its text; but they are lists or mappings together, and what
they hold shows the same trees.
-/

namespace SchemaGraph

namespace Json

/-- Whether two values show one tree, once their keys are sorted. -/
def SameTree (v w : Value) : Prop :=
  ∃ sorted sorted', sortKeys v = .ok sorted ∧ sortKeys w = .ok sorted' ∧ tree sorted = tree sorted'

section Sorting

theorem sortKeys_list {items : List Value} {sorted : Value}
    (h : sortKeys (.list items) = .ok sorted) :
    ∃ others, sortItems items = .ok others ∧ sorted = .list others := by
  rw [sortKeys] at h
  cases hitems : sortItems items with
  | error fault =>
      rw [hitems] at h
      cases h
  | ok others =>
      rw [hitems] at h
      exact ⟨others, rfl, (Except.ok.inj h).symm⟩

theorem sortKeys_map {entries : List (Value × Value)} {sorted : Value}
    (h : sortKeys (.map entries) = .ok sorted) :
    ∃ fields others, sortFields entries = .ok fields ∧ List.Perm fields others ∧
      sorted = .map others := by
  rw [sortKeys] at h
  cases hfields : sortFields entries with
  | error fault =>
      rw [hfields] at h
      cases h
  | ok fields =>
      rw [hfields] at h
      cases hsorted : sortEntries fields with
      | error fault =>
          simp only [hsorted, bind, Except.bind] at h
          cases h
      | ok others =>
          simp only [hsorted, bind, Except.bind, pure, Except.pure] at h
          exact ⟨fields, others, rfl, perm_sortEntries hsorted, (Except.ok.inj h).symm⟩

/-- Sorting makes no list of what is none. -/
theorem list_of_sortKeys {v : Value} {others : List Value} (h : sortKeys v = .ok (.list others)) :
    ∃ items, v = .list items := by
  cases v with
  | list items => exact ⟨items, rfl⟩
  | map entries =>
      obtain ⟨_, _, _, _, heq⟩ := sortKeys_map h
      cases heq
  | _ => cases Except.ok.inj h

theorem sortItems_cons {item : Value} {rest others : List Value}
    (h : sortItems (item :: rest) = .ok others) :
    ∃ first tail, sortKeys item = .ok first ∧ sortItems rest = .ok tail ∧
      others = first :: tail := by
  rw [sortItems, bind_eq_ok] at h
  obtain ⟨first, hfirst, h⟩ := h
  rw [bind_eq_ok] at h
  obtain ⟨tail, htail, h⟩ := h
  exact ⟨first, tail, hfirst, htail, (Except.ok.inj h).symm⟩

theorem mem_sortFields {entries fields : List (Value × Value)}
    (h : sortFields entries = .ok fields) {field : Value × Value} :
    field ∈ fields ↔ ∃ entry ∈ entries, entry.1 = field.1 ∧ sortKeys entry.2 = .ok field.2 := by
  induction entries generalizing fields with
  | nil =>
      rw [← Except.ok.inj h]
      simp
  | cons entry rest ih =>
      obtain ⟨key, item⟩ := entry
      rw [sortFields] at h
      cases hitem : sortKeys item with
      | error fault =>
          rw [hitem] at h
          cases h
      | ok first =>
          rw [hitem] at h
          cases hrest : sortFields rest with
          | error fault =>
              rw [hrest] at h
              cases h
          | ok others =>
              rw [hrest] at h
              rw [← Except.ok.inj h, List.mem_cons, ih hrest, List.exists_mem_cons_iff, hitem]
              refine or_congr_left ⟨?_, ?_⟩
              · rintro rfl
                exact ⟨rfl, rfl⟩
              · rintro ⟨hkey, hfirst⟩
                exact Prod.ext hkey.symm (Except.ok.inj hfirst).symm

theorem sortKeys_of_mem {entries fields : List (Value × Value)}
    (h : sortFields entries = .ok fields) {entry : Value × Value} (hentry : entry ∈ entries) :
    ∃ first, sortKeys entry.2 = .ok first := by
  induction entries generalizing fields with
  | nil => exact absurd hentry (by simp)
  | cons given rest ih =>
      obtain ⟨key, item⟩ := given
      rw [sortFields, bind_eq_ok] at h
      obtain ⟨first, hfirst, h⟩ := h
      rw [bind_eq_ok] at h
      obtain ⟨tail, htail, -⟩ := h
      rcases List.mem_cons.mp hentry with rfl | hin
      · exact ⟨first, hfirst⟩
      · exact ih htail hin

theorem mem_entryTrees {entries : List (Value × Value)} {name : String} {t : Tree} :
    (name, t) ∈ entryTrees entries ↔
      ∃ entry ∈ entries, (keyText? entry.1).getD "" = name ∧ tree entry.2 = t := by
  induction entries with
  | nil => simp [entryTrees]
  | cons entry rest ih =>
      obtain ⟨key, item⟩ := entry
      rw [entryTrees, List.mem_cons, ih, List.exists_mem_cons_iff, Prod.mk.injEq]
      exact or_congr_left (and_congr eq_comm eq_comm)

end Sorting

namespace SameTree

variable {v w : Value}

theorem symm (h : SameTree v w) : SameTree w v := by
  obtain ⟨sorted, sorted', hv, hw, htree⟩ := h
  exact ⟨sorted', sorted, hw, hv, htree.symm⟩

theorem trans {u : Value} (h : SameTree v w) (h' : SameTree w u) : SameTree v u := by
  obtain ⟨sorted, middle, hv, hw, htree⟩ := h
  obtain ⟨middle', sorted', hw', hu, htree'⟩ := h'
  -- the value in the middle is sorted in one way only
  have hmiddle : middle' = middle := Except.ok.inj (hw'.symm.trans hw)
  rw [hmiddle] at htree'
  exact ⟨sorted, sorted', hv, hu, htree.trans htree'⟩

/-- Texts that show one tree are one text. -/
theorem text_inj {x y : String} (h : SameTree (.str x) (.str y)) : x = y := by
  obtain ⟨sorted, sorted', hx, hy, htree⟩ := h
  rw [← Except.ok.inj hx, ← Except.ok.inj hy] at htree
  exact Tree.text.inj htree

/-- Values with one canonical text show one tree. -/
theorem of_canonical {text : String} (hv : canonical v = .ok text) (hw : canonical w = .ok text) :
    SameTree v w := by
  unfold canonical at hv hw
  cases hsorted : sortKeys v with
  | error fault =>
      rw [hsorted] at hv
      cases hv
  | ok sorted =>
      cases hsorted' : sortKeys w with
      | error fault =>
          rw [hsorted'] at hw
          cases hw
      | ok sorted' =>
          rw [hsorted] at hv
          rw [hsorted'] at hw
          exact ⟨sorted, sorted', hsorted, hsorted', tree_eq_of_render hv hw⟩

/-- Values that show one tree have one canonical text, if they have any. -/
theorem text_eq (h : SameTree v w) {text text' : String} (hv : canonical v = .ok text)
    (hw : canonical w = .ok text') : text = text' := by
  obtain ⟨sorted, sorted', hsorted, hsorted', htree⟩ := h
  unfold canonical at hv hw
  rw [hsorted] at hv
  rw [hsorted'] at hw
  refine String.toList_inj.mp ?_
  rw [toList_of_render hv, toList_of_render hw, htree]

/-- Only a list shows the tree of a list. -/
theorem exists_list {items : List Value} (h : SameTree (.list items) w) :
    ∃ items', w = .list items' := by
  obtain ⟨sorted, sorted', hsorted, hsorted', htree⟩ := h
  obtain ⟨others, -, rfl⟩ := sortKeys_list hsorted
  cases sorted' with
  | list others' => exact list_of_sortKeys hsorted'
  | _ => exact absurd htree (by simp [tree])

theorem forall_of_itemTrees {items items' others others' : List Value}
    (h : sortItems items = .ok others) (h' : sortItems items' = .ok others')
    (htrees : itemTrees others = itemTrees others') : List.Forall₂ SameTree items items' := by
  induction items generalizing items' others others' with
  | nil =>
      rw [← Except.ok.inj h] at htrees
      cases items' with
      | nil => exact .nil
      | cons item' rest' =>
          obtain ⟨first', tail', -, -, rfl⟩ := sortItems_cons h'
          cases htrees
  | cons item rest ih =>
      obtain ⟨first, tail, hfirst, htail, rfl⟩ := sortItems_cons h
      cases items' with
      | nil =>
          rw [← Except.ok.inj h'] at htrees
          cases htrees
      | cons item' rest' =>
          obtain ⟨first', tail', hfirst', htail', rfl⟩ := sortItems_cons h'
          rw [itemTrees, itemTrees] at htrees
          obtain ⟨hhead, hrest⟩ := List.cons.inj htrees
          exact .cons ⟨first, first', hfirst, hfirst', hhead⟩ (ih htail htail' hrest)

/-- The items of lists that show one tree show the same trees, one by one. -/
theorem items {items items' : List Value} (h : SameTree (.list items) (.list items')) :
    List.Forall₂ SameTree items items' := by
  obtain ⟨sorted, sorted', hsorted, hsorted', htree⟩ := h
  obtain ⟨others, hothers, rfl⟩ := sortKeys_list hsorted
  obtain ⟨others', hothers', rfl⟩ := sortKeys_list hsorted'
  rw [tree, tree, Tree.list.injEq] at htree
  exact forall_of_itemTrees hothers hothers' htree

/-- What stands under a name in one of two mappings that show one tree has its like in the other. -/
theorem entry {entries entries' : List (Value × Value)}
    (h : SameTree (.map entries) (.map entries')) {name : String} {item : Value}
    (hitem : (.str name, item) ∈ entries) :
    ∃ entry' ∈ entries', (keyText? entry'.1).getD "" = name ∧ SameTree item entry'.2 := by
  obtain ⟨sorted, sorted', hsorted, hsorted', htree⟩ := h
  obtain ⟨fields, others, hfields, hperm, rfl⟩ := sortKeys_map hsorted
  obtain ⟨fields', others', hfields', hperm', rfl⟩ := sortKeys_map hsorted'
  rw [tree, tree, Tree.map.injEq] at htree
  obtain ⟨first, hfirst⟩ := sortKeys_of_mem hfields hitem
  have hmem : (Value.str name, first) ∈ fields :=
    (mem_sortFields hfields).mpr ⟨_, hitem, rfl, hfirst⟩
  have hshown : (name, tree first) ∈ entryTrees others' :=
    htree ▸ mem_entryTrees.mpr ⟨_, hperm.mem_iff.mp hmem, rfl, rfl⟩
  obtain ⟨field', hfield', hname, hsame⟩ := mem_entryTrees.mp hshown
  obtain ⟨entry', hentry', hkey, hsort⟩ :=
    (mem_sortFields hfields').mp (hperm'.mem_iff.mpr hfield')
  refine ⟨entry', hentry', hkey ▸ hname, first, field'.2, hfirst, hsort, hsame.symm⟩

end SameTree

end Json

end SchemaGraph
