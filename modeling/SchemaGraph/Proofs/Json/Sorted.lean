import SchemaGraph.Proofs.Json.SameTree

/-!
# Values alike have one canonical text

Sorting the keys of a value of JSON leaves nothing of the order in which they were written.  The
keys of a mapping are different texts, so their order is strict, and two writings of one mapping
are sorted to the same entries.
-/

namespace SchemaGraph

namespace Json

open Value

section Entries

/-- The name of an entry whose key is a text. -/
def entryName (entry : Value × Value) : String := (keyText? entry.1).getD ""

variable {entries entries' : List (Value × Value)}
  (htext : ∀ entry ∈ entries, ∃ key, entry.1 = .str key)
include htext

theorem keyLe_entryName {a b : Value × Value} (ha : a ∈ entries) (hb : b ∈ entries) :
    keyLe a.1 b.1 = decide (entryName a ≤ entryName b) := by
  obtain ⟨s, hs⟩ := htext a ha
  obtain ⟨t, ht⟩ := htext b hb
  unfold entryName
  rw [hs, ht]
  rfl

/-- Entries are sorted by their names. -/
theorem mergeSort_entryName :
    (entries.mergeSort fun a b => keyLe a.1 b.1) =
      entries.mergeSort fun a b => decide (entryName a ≤ entryName b) := by
  have hsort := List.map_mergeSort (r := fun a b : Value × Value => keyLe a.1 b.1)
    (s := fun a b => decide (entryName a ≤ entryName b)) (f := id) (l := entries)
    fun a ha b hb => keyLe_entryName htext ha hb
  rwa [List.map_id, List.map_id] at hsort

/-- Entries under one name are one entry. -/
theorem entry_eq_of_name (hkeyed : Table.Keyed entries) {a b : Value × Value} (ha : a ∈ entries)
    (hb : b ∈ entries) (hname : entryName a = entryName b) : a = b := by
  obtain ⟨s, hs⟩ := htext a ha
  obtain ⟨t, ht⟩ := htext b hb
  have hst : s = t := by
    unfold entryName at hname
    rw [hs, ht] at hname
    exact hname
  obtain ⟨c, hc, hfound⟩ := Table.entry_of_mem hkeyed ha
  obtain ⟨c', hc', hfound'⟩ := Table.entry_of_mem hkeyed hb
  have hsame : c = c' := by
    rw [hs] at hc
    rw [ht, ← hst] at hc'
    exact Option.some.inj (hc.symm.trans hc')
  rw [hsame, hfound'] at hfound
  exact (Option.some.inj hfound).symm

/-- Rearranged entries are sorted to the same. -/
theorem sortEntries_perm (hkeyed : Table.Keyed entries) (hperm : List.Perm entries entries') :
    sortEntries entries = sortEntries entries' := by
  have htext' : ∀ entry ∈ entries', ∃ key, entry.1 = .str key :=
    fun entry hentry => htext entry (hperm.mem_iff.mpr hentry)
  have hsorted : ∀ l : List (Value × Value),
      (l.mergeSort fun a b => decide (entryName a ≤ entryName b)).Pairwise
        fun a b => entryName a ≤ entryName b := by
    intro l
    have h : (l.mergeSort fun a b => decide (entryName a ≤ entryName b)).Pairwise
        fun a b => decide (entryName a ≤ entryName b) = true := List.pairwise_mergeSort
      (fun a b c hab hbc => by simpa using String.le_trans (by simpa using hab) (by simpa using hbc))
      (fun a b => by simpa using String.le_total (entryName a) (entryName b)) l
    simpa using h
  unfold sortEntries
  -- a mapping with fewer than two entries is left as it is, whatever its key
  rw [← hperm.length_eq, comparableKeys_texts htext, comparableKeys_texts htext']
  split
  · rename_i hshort
    match entries, hshort with
    | [], _ => rw [hperm.symm.eq_nil]
    | [entry], _ => rw [List.perm_singleton.mp hperm.symm]
  · rw [if_pos rfl, if_pos rfl, mergeSort_entryName htext, mergeSort_entryName htext']
    refine congrArg Except.ok (List.Perm.eq_of_pairwise ?_ (hsorted entries) (hsorted entries') ?_)
    · -- two sorted writings agree since the order is antisymmetric on the keys of one mapping
      intro a b ha hb hab hba
      have hin : a ∈ entries := (List.mergeSort_perm _ _).mem_iff.mp ha
      have hin' : b ∈ entries := hperm.mem_iff.mpr ((List.mergeSort_perm _ _).mem_iff.mp hb)
      exact entry_eq_of_name htext hkeyed hin hin' (String.le_antisymm hab hba)
    · exact ((List.mergeSort_perm _ _).trans hperm).trans (List.mergeSort_perm _ _).symm

end Entries

section Values

theorem sortFields_cons {key item : Value} {rest fields : List (Value × Value)} :
    sortFields ((key, item) :: rest) = .ok fields ↔
      ∃ first others, sortKeys item = .ok first ∧ sortFields rest = .ok others ∧
        fields = (key, first) :: others := by
  rw [sortFields, bind_eq_ok]
  constructor
  · rintro ⟨first, hfirst, h⟩
    obtain ⟨others, hothers, h⟩ := bind_eq_ok.mp h
    exact ⟨first, others, hfirst, hothers, (Except.ok.inj h).symm⟩
  · rintro ⟨first, others, hfirst, hothers, rfl⟩
    exact ⟨first, hfirst, bind_eq_ok.mpr ⟨others, hothers, rfl⟩⟩

/-- Sorting inside the values goes along with rearranging the entries. -/
theorem sortFields_perm {entries entries' fields : List (Value × Value)}
    (hperm : List.Perm entries entries') (h : sortFields entries = .ok fields) :
    ∃ fields', sortFields entries' = .ok fields' ∧ List.Perm fields fields' := by
  induction hperm generalizing fields with
  | nil => exact ⟨fields, h, .rfl⟩
  | cons entry hrest ih =>
      obtain ⟨first, others, hfirst, hothers, rfl⟩ := sortFields_cons.mp h
      obtain ⟨others', hothers', hperm⟩ := ih hothers
      exact ⟨_, sortFields_cons.mpr ⟨first, others', hfirst, hothers', rfl⟩, hperm.cons _⟩
  | swap entry entry' rest =>
      obtain ⟨first, others, hfirst, hothers, rfl⟩ := sortFields_cons.mp h
      obtain ⟨second, more, hsecond, hmore, rfl⟩ := sortFields_cons.mp hothers
      refine ⟨_, sortFields_cons.mpr ⟨second, _, hsecond,
        sortFields_cons.mpr ⟨first, more, hfirst, hmore, rfl⟩, rfl⟩, .swap _ _ _⟩
  | trans _ _ ih ih' =>
      obtain ⟨middle, hmiddle, hperm⟩ := ih h
      obtain ⟨last, hlast, hperm'⟩ := ih' hmiddle
      exact ⟨last, hlast, hperm.trans hperm'⟩

/-- Whether one value is sorted to whatever another one is sorted to. -/
def SortsAs (v w : Value) : Prop := ∀ sorted, sortKeys v = .ok sorted → sortKeys w = .ok sorted

theorem sortItems_related {items items' others : List Value}
    (hitems : List.Forall₂ SortsAs items items') (h : sortItems items = .ok others) :
    sortItems items' = .ok others := by
  induction hitems generalizing others with
  | nil => exact h
  | @cons item item' rest rest' hitem hrest ih =>
      obtain ⟨first, tail, hfirst, htail, rfl⟩ := sortItems_cons h
      rw [sortItems]
      exact bind_eq_ok.mpr ⟨first, hitem first hfirst, bind_eq_ok.mpr ⟨tail, ih htail, rfl⟩⟩

theorem sortFields_related {entries entries' fields : List (Value × Value)}
    (hentries : List.Forall₂ (Table.EntryRel SortsAs) entries entries')
    (h : sortFields entries = .ok fields) : sortFields entries' = .ok fields := by
  induction hentries generalizing fields with
  | nil => exact h
  | @cons entry entry' rest rest' hentry hrest ih =>
      obtain ⟨key, item⟩ := entry
      obtain ⟨key', item'⟩ := entry'
      obtain ⟨rfl, hitem⟩ : key = key' ∧ SortsAs item item' := hentry
      obtain ⟨first, others, hfirst, hothers, rfl⟩ := sortFields_cons.mp h
      exact sortFields_cons.mpr ⟨first, others, hitem first hfirst, ih hothers, rfl⟩

/-- Relations between members, where one of the lists is known. -/
theorem forall₂_of_mem {α β : Type} {R S : α → β → Prop} {l : List α} {m : List β}
    (h : List.Forall₂ R l m) (himp : ∀ a ∈ l, ∀ b, R a b → S a b) : List.Forall₂ S l m := by
  induction h with
  | nil => exact .nil
  | @cons a b l m hab _ ih =>
      exact .cons (himp a List.mem_cons_self b hab)
        (ih fun a' ha' => himp a' (List.mem_cons_of_mem _ ha'))

/-- Values alike are the same once their keys are sorted. -/
theorem sortKeys_alike {v w : Value} (h : Alike v w) (hv : v.isJson = true) : SortsAs v w := by
  induction v using nested generalizing w with
  | hscalar v hscalar =>
      rw [(alike_scalar_iff hscalar w).mp h]
      exact fun _ hsorted => hsorted
  | hlist items ih =>
      intro sorted hsorted
      obtain ⟨items', rfl, hitems⟩ := (alike_list_iff _ _).mp h
      obtain ⟨others, hothers, rfl⟩ := sortKeys_list hsorted
      have hrelated := forall₂_of_mem hitems fun item hitem item' halike =>
        ih item hitem halike ((itemsJson_iff items).mp hv item hitem)
      rw [sortKeys, sortItems_related hrelated hothers]
      rfl
  | hmap entries ih =>
      intro sorted hsorted
      obtain ⟨entries', arranged, rfl, hforall, hperm⟩ := (alike_map_iff _ _).mp h
      obtain ⟨hkeyed, hjson⟩ := (entriesJson_iff entries).mp hv
      rw [sortKeys] at hsorted
      obtain ⟨fields, hfields, hsorted⟩ := bind_eq_ok.mp hsorted
      obtain ⟨others, hothers, hsorted⟩ := bind_eq_ok.mp hsorted
      have hrelated := forall₂_of_mem hforall fun entry hentry entry' hsame =>
        And.intro hsame.1 (ih entry hentry hsame.2 (hjson entry hentry).2)
      -- first inside the entries, whose order is kept, and then the entries themselves
      obtain ⟨fields', hfields', hmoved⟩ :=
        sortFields_perm hperm (sortFields_related hrelated hfields)
      have hkeys := forall₂_sortFields hfields
      have htext : ∀ field ∈ fields, ∃ key, field.1 = .str key := by
        intro field hfield
        obtain ⟨entry, hentry, hkey, -⟩ := (mem_sortFields hfields).mp hfield
        obtain ⟨key, hstr⟩ := (hjson entry hentry).1
        exact ⟨key, hkey.symm.trans hstr⟩
      rw [sortKeys]
      refine bind_eq_ok.mpr ⟨fields', hfields', bind_eq_ok.mpr ⟨others, ?_, hsorted⟩⟩
      rw [← sortEntries_perm htext (Table.keyed_of_forall hkeys hkeyed) hmoved]
      exact hothers

/-- Values of JSON have one canonical text exactly if they are alike. -/
theorem canonical_eq_iff {v w : Value} {text text' : String} (hv : v.isJson = true)
    (hw : w.isJson = true) (htext : canonical v = .ok text) (htext' : canonical w = .ok text') :
    text = text' ↔ Alike v w := by
  constructor
  · rintro rfl
    exact alike_of_canonical htext htext' hv hw
  · intro h
    obtain ⟨sorted, hsorted, hrender⟩ := canonical_ok htext
    obtain ⟨sorted', hsorted', hrender'⟩ := canonical_ok htext'
    rw [sortKeys_alike h hv sorted hsorted] at hsorted'
    rw [← Except.ok.inj hsorted'] at hrender'
    exact Except.ok.inj (hrender.symm.trans hrender')

end Values

end Json

end SchemaGraph
