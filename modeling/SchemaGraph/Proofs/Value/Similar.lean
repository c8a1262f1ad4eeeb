import Mathlib.Data.List.Forall2
import SchemaGraph.Proofs.Value.Table

/-!
# Tables that agree up to order

Two keyed tables are similar when they have the same keys, and related items under them.  Similar
tables are rearrangements of each other, and stay similar when related items are written to both.
-/

namespace SchemaGraph

namespace Table

variable {α β γ : Type} {R : α → β → Prop}

/-- Entries with one key and related items. -/
def EntryRel (R : α → β → Prop) (entry : Value × α) (entry' : Value × β) : Prop :=
  entry.1 = entry'.1 ∧ R entry.2 entry'.2

/-- Tables with the same keys and related items under them. -/
def Similar (R : α → β → Prop) (table : Table α) (table' : Table β) : Prop :=
  ∀ a, Option.Rel (EntryRel R) (slot? table a) (slot? table' a)

theorem Similar.none_iff {table : Table α} {table' : Table β} (h : Similar R table table')
    (a : Atom) : slot? table a = none ↔ slot? table' a = none := by
  have hrel := h a
  cases hold : slot? table a with
  | none =>
      rw [hold] at hrel
      cases hnew : slot? table' a with
      | none => simp
      | some entry' => rw [hnew] at hrel; exact absurd hrel (by simp)
  | some entry =>
      rw [hold] at hrel
      cases hnew : slot? table' a with
      | none => rw [hnew] at hrel; exact absurd hrel (by simp)
      | some entry' => simp

theorem Similar.some_of_some {table : Table α} {table' : Table β} (h : Similar R table table')
    {a : Atom} {entry : Value × α} (hentry : slot? table a = some entry) :
    ∃ entry', slot? table' a = some entry' ∧ entry.1 = entry'.1 ∧ R entry.2 entry'.2 := by
  have hrel := h a
  rw [hentry] at hrel
  cases hnew : slot? table' a with
  | none => rw [hnew] at hrel; exact absurd hrel (by simp)
  | some entry' =>
      rw [hnew] at hrel
      have hentries : EntryRel R entry entry' := by simpa using hrel
      exact ⟨entry', rfl, hentries.1, hentries.2⟩

theorem similar_of_some {table : Table α} {table' : Table β}
    (hforward : ∀ a entry, slot? table a = some entry →
      ∃ entry', slot? table' a = some entry' ∧ entry.1 = entry'.1 ∧ R entry.2 entry'.2)
    (hback : ∀ a, slot? table a = none → slot? table' a = none) : Similar R table table' := by
  intro a
  cases hold : slot? table a with
  | none =>
      rw [hback a hold]
      exact Option.Rel.none
  | some entry =>
      obtain ⟨entry', hnew, hkey, hitem⟩ := hforward a entry hold
      rw [hnew]
      exact Option.Rel.some ⟨hkey, hitem⟩

theorem similar_self {R : α → α → Prop} {table : Table α}
    (h : ∀ entry ∈ table, R entry.2 entry.2) : Similar R table table := by
  refine similar_of_some ?_ fun _ hnone => hnone
  intro a entry hentry
  exact ⟨entry, hentry, rfl, h entry (mem_of_entry hentry)⟩

theorem Similar.symm {R' : β → α → Prop} {table : Table α} {table' : Table β}
    (h : Similar R table table')
    (himp : ∀ entry ∈ table, ∀ entry' ∈ table', R entry.2 entry'.2 → R' entry'.2 entry.2) :
    Similar R' table' table := by
  refine similar_of_some ?_ fun a => (h.none_iff a).mpr
  intro a entry' hentry'
  cases hold : slot? table a with
  | none =>
      rw [(h.none_iff a).mp hold] at hentry'
      exact absurd hentry' (by simp)
  | some entry =>
      obtain ⟨found, hfound, hkey, hitem⟩ := h.some_of_some hold
      rw [hfound, Option.some.injEq] at hentry'
      subst hentry'
      exact ⟨entry, rfl, hkey.symm,
        himp entry (mem_of_entry hold) found (mem_of_entry hfound) hitem⟩

theorem Similar.isEmpty_eq {table : Table α} {table' : Table β} (hkeyed : Keyed table)
    (hkeyed' : Keyed table') (h : Similar R table table') : table.isEmpty = table'.isEmpty := by
  cases table with
  | nil =>
      cases table' with
      | nil => rfl
      | cons entry' rest' =>
          obtain ⟨⟨a, ha, -⟩, -⟩ := hkeyed'
          have hnone := (h.none_iff a).mp rfl
          rw [entry_cons_eq ha] at hnone
          exact absurd hnone (by simp)
  | cons entry rest =>
      cases table' with
      | nil =>
          obtain ⟨⟨a, ha, -⟩, -⟩ := hkeyed
          have hnone := (h.none_iff a).mpr rfl
          rw [entry_cons_eq ha] at hnone
          exact absurd hnone (by simp)
      | cons entry' rest' => rfl

section Writing

variable {table entries : Table α} {table' entries' : Table β}

theorem Similar.put (h : Similar R table table') (hkeyed : Keyed table) (hkeyed' : Keyed table')
    {key : Value} {a : Atom} (hkey : key.atom? = some a) {item : α} {item' : β}
    (hitem : R item item') : Similar R (table.put key item) (table'.put key item') := by
  intro b
  rw [entry_put hkeyed hkey, entry_put hkeyed' hkey]
  by_cases hb : b = a
  · rw [if_pos hb, if_pos hb]
    have hrel := h a
    cases hold : slot? table a with
    | none =>
        rw [(h.none_iff a).mp hold]
        exact Option.Rel.some ⟨rfl, hitem⟩
    | some entry =>
        obtain ⟨entry', hentry', hkeys, -⟩ := h.some_of_some hold
        rw [hentry']
        exact Option.Rel.some ⟨hkeys, hitem⟩
  · rw [if_neg hb, if_neg hb]
    exact h b

theorem Similar.putNew (h : Similar R table table') (hkeyed : Keyed table)
    (hkeyed' : Keyed table') {key : Value} {a : Atom} (hkey : key.atom? = some a) {item : α}
    {item' : β} (hitem : R item item') :
    Similar R (table.putNew key item) (table'.putNew key item') := by
  rw [putNew_eq hkeyed hkey, putNew_eq hkeyed' hkey]
  cases hold : slot? table a with
  | none =>
      rw [(h.none_iff a).mp hold]
      exact h.put hkeyed hkeyed' hkey hitem
  | some entry =>
      obtain ⟨entry', hentry', -, -⟩ := h.some_of_some hold
      rw [hentry']
      exact h

theorem Similar.putAll (h : Similar R table table') (hnew : Similar R entries entries')
    (hkeyed : Keyed table) (hkeyed' : Keyed table') (hentries : Keyed entries)
    (hentries' : Keyed entries') :
    Similar R (Table.putAll table entries) (Table.putAll table' entries') := by
  intro b
  rw [entry_putAll hkeyed hentries, entry_putAll hkeyed' hentries']
  cases hold : slot? entries b with
  | none =>
      rw [(hnew.none_iff b).mp hold]
      exact h b
  | some entry =>
      obtain ⟨entry', hentry', hkey, hitem⟩ := hnew.some_of_some hold
      rw [hentry']
      cases hthere : slot? table b with
      | none =>
          rw [(h.none_iff b).mp hthere]
          exact Option.Rel.some ⟨hkey, hitem⟩
      | some there =>
          obtain ⟨there', hthere', hkeys, -⟩ := h.some_of_some hthere
          rw [hthere']
          exact Option.Rel.some ⟨hkeys, hitem⟩

theorem Similar.putAllNew (h : Similar R table table') (hnew : Similar R entries entries')
    (hkeyed : Keyed table) (hkeyed' : Keyed table') (hentries : Keyed entries)
    (hentries' : Keyed entries') :
    Similar R (Table.putAllNew table entries) (Table.putAllNew table' entries') := by
  intro b
  rw [entry_putAllNew hkeyed hentries, entry_putAllNew hkeyed' hentries']
  cases hthere : slot? table b with
  | none =>
      rw [(h.none_iff b).mp hthere]
      exact hnew b
  | some there =>
      obtain ⟨there', hthere', hkey, hitem⟩ := h.some_of_some hthere
      rw [hthere']
      exact Option.Rel.some ⟨hkey, hitem⟩

end Writing

section Rearranging

theorem entry_map {table : Table α} {table' : Table β}
    (h : List.Forall₂ (EntryRel R) table table') (a : Atom) :
    Option.Rel (EntryRel R) (slot? table a) (slot? table' a) := by
  induction h with
  | nil => exact Option.Rel.none
  | @cons entry entry' rest rest' hentry hrest ih =>
      by_cases ha : entry.1.atom? = some a
      · rw [entry_cons_eq ha, entry_cons_eq (hentry.1 ▸ ha)]
        exact Option.Rel.some hentry
      · rw [entry_cons_ne ha, entry_cons_ne (hentry.1 ▸ ha)]
        exact ih

theorem keyed_of_forall {table : Table α} {table' : Table β}
    (h : List.Forall₂ (EntryRel R) table table') (hkeyed : Keyed table) : Keyed table' := by
  induction h with
  | nil => trivial
  | @cons entry entry' rest rest' hentry hrest ih =>
      obtain ⟨⟨a, ha, hfresh⟩, htail⟩ := hkeyed
      refine ⟨⟨a, hentry.1 ▸ ha, ?_⟩, ih htail⟩
      have hrel := entry_map hrest a
      rw [hfresh] at hrel
      cases hnew : slot? rest' a with
      | none => rfl
      | some found => rw [hnew] at hrel; exact absurd hrel (by simp)

/-- Rearranging a keyed table changes no entry. -/
theorem entry_perm {table table' : Table α} (h : List.Perm table table') (hkeyed : Keyed table) :
    Keyed table' ∧ ∀ a, slot? table a = slot? table' a := by
  induction h with
  | nil => exact ⟨trivial, fun _ => rfl⟩
  | @cons entry rest rest' hrest ih =>
      obtain ⟨⟨a, ha, hfresh⟩, htail⟩ := hkeyed
      obtain ⟨hkeyed', hsame⟩ := ih htail
      refine ⟨⟨⟨a, ha, by rw [← hsame]; exact hfresh⟩, hkeyed'⟩, ?_⟩
      intro b
      by_cases hb : entry.1.atom? = some b
      · rw [entry_cons_eq hb, entry_cons_eq hb]
      · rw [entry_cons_ne hb, entry_cons_ne hb, hsame]
  | swap entry entry' rest =>
      obtain ⟨⟨a, ha, hfresh⟩, ⟨b, hb, hfresh'⟩, htail⟩ := hkeyed
      -- the two keys differ, so it does not matter which of them comes first
      have hab : a ≠ b := by
        intro heq
        rw [heq, entry_cons_eq hb] at hfresh
        exact absurd hfresh (by simp)
      have hane : entry'.1.atom? ≠ some b := by rw [ha]; simpa using hab
      have hbne : entry.1.atom? ≠ some a := by rw [hb]; simpa using hab.symm
      rw [entry_cons_ne hbne] at hfresh
      refine ⟨⟨⟨b, hb, by rw [entry_cons_ne hane]; exact hfresh'⟩, ⟨a, ha, hfresh⟩, htail⟩, ?_⟩
      intro c
      by_cases hc : entry'.1.atom? = some c
      · have hca : c = a := by rw [ha, Option.some.injEq] at hc; exact hc.symm
        subst hca
        rw [entry_cons_eq hc, entry_cons_ne hbne, entry_cons_eq hc]
      · rw [entry_cons_ne hc]
        by_cases hc' : entry.1.atom? = some c
        · rw [entry_cons_eq hc', entry_cons_eq hc']
        · rw [entry_cons_ne hc', entry_cons_ne hc', entry_cons_ne hc]
  | trans _ _ ih ih' =>
      obtain ⟨hmid, hsame⟩ := ih hkeyed
      obtain ⟨hlast, hsame'⟩ := ih' hmid
      exact ⟨hlast, fun a => (hsame a).trans (hsame' a)⟩

/-- Take an entry out of a keyed table. -/
theorem entry_split {table : Table α} {a : Atom} {entry : Value × α}
    (h : slot? table a = some entry) : ∃ front back, table = front ++ entry :: back :=
  List.append_of_mem (mem_of_entry h)

/-- Similar tables are rearrangements of each other, with related items. -/
theorem Similar.exists_perm {table : Table α} {table' : Table β} (h : Similar R table table')
    (hkeyed : Keyed table) (hkeyed' : Keyed table') :
    ∃ arranged, List.Forall₂ (EntryRel R) table arranged ∧ List.Perm arranged table' := by
  induction table generalizing table' with
  | nil =>
      have hempty := h.isEmpty_eq hkeyed hkeyed'
      obtain rfl : table' = [] := List.isEmpty_iff.mp hempty.symm
      exact ⟨[], List.Forall₂.nil, List.Perm.nil⟩
  | cons entry rest ih =>
      obtain ⟨⟨a, ha, hfresh⟩, hrest⟩ := hkeyed
      obtain ⟨entry', hentry', hkey, hitem⟩ := h.some_of_some (entry_cons_eq ha rest)
      -- the other table is rearranged so that the entry under the same key comes first
      obtain ⟨front, back, rfl⟩ := entry_split hentry'
      have hmoved : List.Perm (front ++ entry' :: back) (entry' :: (front ++ back)) :=
        List.perm_middle
      obtain ⟨⟨⟨b, hb, hfresh'⟩, hkeyedRest⟩, hsame⟩ := entry_perm hmoved hkeyed'
      have hba : b = a := by
        rw [← hkey, ha, Option.some.injEq] at hb
        exact hb.symm
      subst hba
      have hsimilar : Similar R rest (front ++ back) := by
        intro c
        by_cases hc : c = b
        · rw [hc, hfresh, hfresh']
          exact Option.Rel.none
        · have hne : entry.1.atom? ≠ some c := by
            rw [ha]
            simpa using fun heq => hc heq.symm
          have hrel := h c
          rw [entry_cons_ne hne, hsame, entry_cons_ne (by rw [← hkey]; exact hne)] at hrel
          exact hrel
      obtain ⟨arranged, hforall, hperm⟩ := ih hsimilar hrest hkeyedRest
      exact ⟨entry' :: arranged, List.Forall₂.cons ⟨hkey, hitem⟩ hforall,
        (hperm.cons entry').trans hmoved.symm⟩

end Rearranging

end Table

end SchemaGraph
