import Mathlib.Data.Option.Basic
import SchemaGraph.Proofs.Value.Atom

/-!
# Tables without regard to order

Where the keys of a table stand for different things, the table is a finite map on what its keys
stand for.  Looking up, writing and merging are described by that map, so that tables with the same
entries in different orders behave alike.
-/

namespace SchemaGraph

namespace Table

variable {α β γ : Type}

/-- The entry whose key stands for something given. -/
def slot? (table : Table α) (a : Atom) : Option (Value × α) :=
  table.find? fun entry => decide (entry.1.atom? = some a)

/-- Whether the keys of a table stand for something, and for different things. -/
def Keyed : Table α → Prop
  | [] => True
  | entry :: rest => (∃ a, entry.1.atom? = some a ∧ slot? rest a = none) ∧ Keyed rest

@[simp] theorem entry_nil (a : Atom) : slot? ([] : Table α) a = none := rfl

theorem entry_cons_eq {entry : Value × α} {a : Atom} (h : entry.1.atom? = some a)
    (rest : Table α) : slot? (entry :: rest) a = some entry := by
  unfold slot?
  rw [List.find?_cons_of_pos]
  simpa using h

theorem entry_cons_ne {entry : Value × α} {a : Atom} (h : entry.1.atom? ≠ some a)
    (rest : Table α) : slot? (entry :: rest) a = slot? rest a := by
  unfold slot?
  rw [List.find?_cons_of_neg]
  simpa using h

theorem atom_of_entry {table : Table α} {a : Atom} {entry : Value × α}
    (h : slot? table a = some entry) : entry.1.atom? = some a := by
  simpa using List.find?_some h

theorem mem_of_entry {table : Table α} {a : Atom} {entry : Value × α}
    (h : slot? table a = some entry) : entry ∈ table :=
  List.mem_of_find?_eq_some h

/-- Every entry of a keyed table is found. -/
theorem entry_of_mem {table : Table α} (hkeyed : Keyed table) {entry : Value × α}
    (hentry : entry ∈ table) :
    ∃ a, entry.1.atom? = some a ∧ slot? table a = some entry := by
  induction table with
  | nil => exact absurd hentry (by simp)
  | cons first rest ih =>
      obtain ⟨⟨b, hb, hfresh⟩, hrest⟩ := hkeyed
      rcases List.mem_cons.mp hentry with rfl | hin
      · exact ⟨b, hb, entry_cons_eq hb rest⟩
      · obtain ⟨a, ha, hfound⟩ := ih hrest hin
        refine ⟨a, ha, ?_⟩
        rw [entry_cons_ne _ rest, hfound]
        intro heq
        rw [heq, Option.some.injEq] at hb
        rw [← hb, hfound] at hfresh
        exact absurd hfresh (by simp)

theorem get_eq_entry {table : Table α} (hkeyed : Keyed table) {key : Value} {a : Atom}
    (hkey : key.atom? = some a) : table.get? key = (slot? table a).map (·.2) := by
  induction table with
  | nil => rfl
  | cons first rest ih =>
      obtain ⟨⟨b, hb, -⟩, hrest⟩ := hkeyed
      have hsame := Value.same_iff_atom hb hkey
      unfold get? at ih ⊢
      by_cases hab : b = a
      · have hpos : first.1.same key = true := hsame.mpr hab
        rw [entry_cons_eq (by rw [hb, hab])]
        simp [hpos]
      · have hneg : first.1.same key ≠ true := fun h => hab (hsame.mp h)
        rw [entry_cons_ne, ← ih hrest]
        · simp [hneg]
        · rw [hb]
          simpa using hab

theorem isText_iff {key : Value} {s : String} :
    key.isText s = true ↔ key.atom? = some (.text s) := by
  cases key with
  | str t => simp [Value.isText]
  | double x => simp [Value.isText, Value.atom?]
  | _ => simp [Value.isText, Value.atom?]

theorem at_eq_entry (table : Table α) (key : String) :
    table.at? key = (slot? table (.text key)).map (·.2) := by
  unfold at? slot?
  congr 2
  funext entry
  rw [Bool.eq_iff_iff, isText_iff]
  simp

/-- The key of the entry for a text is the text. -/
theorem key_of_text {table : Table α} {s : String} {entry : Value × α}
    (h : slot? table (.text s) = some entry) : entry.1 = .str s := by
  have hatom := atom_of_entry h
  cases hkey : entry.1 with
  | str t =>
      rw [hkey, Value.atom_str, Option.some.injEq, Atom.text.injEq] at hatom
      rw [hatom]
  | double x => rw [hkey] at hatom; simp [Value.atom?] at hatom
  | _ => rw [hkey] at hatom; simp [Value.atom?] at hatom

theorem has_eq_entry (table : Table α) (key : String) :
    table.has key = (slot? table (.text key)).isSome := by
  unfold has
  rw [at_eq_entry]
  cases slot? table (.text key) <;> rfl

section Writing

/-- The entry that writing to a key leaves: a key that is present stays as it is. -/
def written (old : Option (Value × α)) (key : Value) (item : α) : Value × α :=
  match old with
  | some entry => (entry.1, item)
  | none => (key, item)

theorem entry_put {table : Table α} (hkeyed : Keyed table) {key : Value} {a : Atom}
    (hkey : key.atom? = some a) (item : α) (b : Atom) :
    slot? (table.put key item) b =
      if b = a then some (written (slot? table a) key item) else slot? table b := by
  induction table with
  | nil =>
      unfold put
      by_cases hab : b = a
      · rw [if_pos hab, hab, entry_cons_eq hkey]
        rfl
      · rw [if_neg hab, entry_cons_ne]
        rw [hkey]
        simpa using fun h => hab h.symm
  | cons first rest ih =>
      obtain ⟨k, old⟩ := first
      obtain ⟨⟨c, hc, hfresh⟩, hrest⟩ := hkeyed
      have hsame := Value.same_iff_atom hc hkey
      dsimp only at hc
      unfold put
      by_cases hca : c = a
      · -- the item is replaced, under the key that was written first
        subst hca
        rw [if_pos (hsame.mpr rfl), entry_cons_eq (show (k, old).1.atom? = some c from hc)]
        by_cases hb : b = c
        · rw [if_pos hb, hb, entry_cons_eq (show (k, item).1.atom? = some c from hc)]
          rfl
        · have hne : (some c : Option Atom) ≠ some b := by simpa using fun h => hb h.symm
          rw [if_neg hb, entry_cons_ne (by rw [hc]; exact hne),
            entry_cons_ne (by rw [hc]; exact hne)]
      · rw [if_neg (by rw [hsame]; exact hca)]
        have hne : (some c : Option Atom) ≠ some a := by simpa using hca
        rw [entry_cons_ne (a := a) (by rw [hc]; exact hne)]
        by_cases hb : b = c
        · rw [hb, entry_cons_eq hc, if_neg hca, entry_cons_eq hc]
        · have hne' : (some c : Option Atom) ≠ some b := by simpa using fun h => hb h.symm
          rw [entry_cons_ne (by rw [hc]; exact hne'), ih hrest,
            entry_cons_ne (by rw [hc]; exact hne')]

theorem keyed_put {table : Table α} (hkeyed : Keyed table) {key : Value} {a : Atom}
    (hkey : key.atom? = some a) (item : α) : Keyed (table.put key item) := by
  induction table with
  | nil => exact ⟨⟨a, hkey, rfl⟩, trivial⟩
  | cons first rest ih =>
      obtain ⟨k, old⟩ := first
      obtain ⟨⟨c, hc, hfresh⟩, hrest⟩ := hkeyed
      have hsame := Value.same_iff_atom hc hkey
      unfold put
      by_cases hca : c = a
      · rw [if_pos (hsame.mpr hca)]
        exact ⟨⟨c, hc, hfresh⟩, hrest⟩
      · rw [if_neg (by rw [hsame]; exact hca)]
        refine ⟨⟨c, hc, ?_⟩, ih hrest⟩
        rw [entry_put hrest hkey, if_neg hca]
        exact hfresh

theorem putNew_eq {table : Table α} (hkeyed : Keyed table) {key : Value} {a : Atom}
    (hkey : key.atom? = some a) (item : α) :
    table.putNew key item =
      if (slot? table a).isSome then table else table.put key item := by
  unfold putNew
  rw [get_eq_entry hkeyed hkey]
  cases slot? table a <;> rfl

theorem keyed_putNew {table : Table α} (hkeyed : Keyed table) {key : Value} {a : Atom}
    (hkey : key.atom? = some a) (item : α) : Keyed (table.putNew key item) := by
  rw [putNew_eq hkeyed hkey]
  split
  · exact hkeyed
  · exact keyed_put hkeyed hkey item

theorem entry_putNew {table : Table α} (hkeyed : Keyed table) {key : Value} {a : Atom}
    (hkey : key.atom? = some a) (item : α) (b : Atom) :
    slot? (table.putNew key item) b =
      (slot? table b).or (if b = a then some (key, item) else none) := by
  rw [putNew_eq hkeyed hkey]
  cases hold : slot? table a with
  | some entry =>
      rw [Option.isSome_some, if_pos rfl]
      by_cases hb : b = a
      · rw [hb, hold]
        rfl
      · rw [if_neg hb, Option.or_none]
  | none =>
      rw [Option.isSome_none, if_neg (by simp), entry_put hkeyed hkey, hold]
      by_cases hb : b = a
      · rw [if_pos hb, if_pos hb, hb, hold]
        rfl
      · rw [if_neg hb, if_neg hb, Option.or_none]

/-- Write all entries of a list. -/
def putAll (table entries : Table α) : Table α :=
  entries.foldl (fun (t : Table α) entry => t.put entry.1 entry.2) table

/-- Write all entries of a list whose keys are not present. -/
def putAllNew (table entries : Table α) : Table α :=
  entries.foldl (fun (t : Table α) entry => t.putNew entry.1 entry.2) table

theorem putAll_cons (table : Table α) (entry : Value × α) (entries : Table α) :
    putAll table (entry :: entries) = putAll (table.put entry.1 entry.2) entries :=
  rfl

theorem putAllNew_cons (table : Table α) (entry : Value × α) (entries : Table α) :
    putAllNew table (entry :: entries) = putAllNew (table.putNew entry.1 entry.2) entries :=
  rfl

section Entries

variable {P : Value → Prop} {Q : α → Prop} {table entries : Table α}
  (htable : ∀ entry ∈ table, P entry.1 ∧ Q entry.2)
include htable

/-- What holds of all keys and items of a table holds of them after one more entry was written, if it
holds of the key and the item that were written. -/
theorem forall_put {key : Value} {item : α} (hkey : P key) (hitem : Q item) :
    ∀ entry ∈ table.put key item, P entry.1 ∧ Q entry.2 := by
  induction table with
  | nil => exact List.forall_mem_singleton.mpr ⟨hkey, hitem⟩
  | cons first rest ih =>
      obtain ⟨k, old⟩ := first
      obtain ⟨hfirst, hrest⟩ := List.forall_mem_cons.mp htable
      rw [put]
      split
      · exact List.forall_mem_cons.mpr ⟨⟨hfirst.1, hitem⟩, hrest⟩
      · exact List.forall_mem_cons.mpr ⟨hfirst, ih hrest⟩

theorem forall_putNew {key : Value} {item : α} (hkey : P key) (hitem : Q item) :
    ∀ entry ∈ table.putNew key item, P entry.1 ∧ Q entry.2 := by
  unfold putNew
  split
  · exact htable
  · exact forall_put htable hkey hitem

theorem forall_putAll (hentries : ∀ entry ∈ entries, P entry.1 ∧ Q entry.2) :
    ∀ entry ∈ putAll table entries, P entry.1 ∧ Q entry.2 := by
  induction entries generalizing table with
  | nil => exact htable
  | cons first rest ih =>
      obtain ⟨⟨hkey, hitem⟩, hrest⟩ := List.forall_mem_cons.mp hentries
      exact ih (forall_put htable hkey hitem) hrest

theorem forall_putAllNew (hentries : ∀ entry ∈ entries, P entry.1 ∧ Q entry.2) :
    ∀ entry ∈ putAllNew table entries, P entry.1 ∧ Q entry.2 := by
  induction entries generalizing table with
  | nil => exact htable
  | cons first rest ih =>
      obtain ⟨⟨hkey, hitem⟩, hrest⟩ := List.forall_mem_cons.mp hentries
      exact ih (forall_putNew htable hkey hitem) hrest

end Entries

theorem keyed_putAll {table entries : Table α} (htable : Keyed table) (hentries : Keyed entries) :
    Keyed (putAll table entries) := by
  induction entries generalizing table with
  | nil => exact htable
  | cons entry rest ih =>
      obtain ⟨⟨a, ha, -⟩, hrest⟩ := hentries
      rw [putAll_cons]
      exact ih (keyed_put htable ha entry.2) hrest

theorem keyed_putAllNew {table entries : Table α} (htable : Keyed table)
    (hentries : Keyed entries) : Keyed (putAllNew table entries) := by
  induction entries generalizing table with
  | nil => exact htable
  | cons entry rest ih =>
      obtain ⟨⟨a, ha, -⟩, hrest⟩ := hentries
      rw [putAllNew_cons]
      exact ih (keyed_putNew htable ha entry.2) hrest

/-- Written entries win over those that were there, under the keys that were there. -/
theorem entry_putAll {table entries : Table α} (htable : Keyed table) (hentries : Keyed entries)
    (b : Atom) :
    slot? (putAll table entries) b =
      match slot? entries b with
      | some entry => some (written (slot? table b) entry.1 entry.2)
      | none => slot? table b := by
  induction entries generalizing table with
  | nil => rfl
  | cons entry rest ih =>
      obtain ⟨⟨a, ha, hfresh⟩, hrest⟩ := hentries
      rw [putAll_cons, ih (keyed_put htable ha entry.2) hrest, entry_put htable ha]
      by_cases hb : b = a
      · subst hb
        rw [hfresh, if_pos rfl, entry_cons_eq ha]
      · have hne : entry.1.atom? ≠ some b := by
          rw [ha]
          simpa using fun h => hb h.symm
        rw [if_neg hb, entry_cons_ne hne]

/-- Entries that were there win over new ones. -/
theorem entry_putAllNew {table entries : Table α} (htable : Keyed table)
    (hentries : Keyed entries) (b : Atom) :
    slot? (putAllNew table entries) b = (slot? table b).or (slot? entries b) := by
  induction entries generalizing table with
  | nil => simp [putAllNew]
  | cons entry rest ih =>
      obtain ⟨⟨a, ha, hfresh⟩, hrest⟩ := hentries
      rw [putAllNew_cons, ih (keyed_putNew htable ha entry.2) hrest, entry_putNew htable ha]
      by_cases hb : b = a
      · subst hb
        rw [hfresh, if_pos rfl, entry_cons_eq ha, Option.or_none]
      · have hne : entry.1.atom? ≠ some b := by
          rw [ha]
          simpa using fun h => hb h.symm
        rw [if_neg hb, entry_cons_ne hne, Option.or_none]

/-- A new key goes to the end. -/
theorem put_new {table : Table α} (hkeyed : Keyed table) {key : Value} {a : Atom}
    (hkey : key.atom? = some a) (hnew : slot? table a = none) (item : α) :
    table.put key item = table ++ [(key, item)] := by
  induction table with
  | nil => rfl
  | cons first rest ih =>
      obtain ⟨⟨b, hb, -⟩, hrest⟩ := hkeyed
      have hne : b ≠ a := by
        rintro rfl
        rw [entry_cons_eq hb] at hnew
        cases hnew
      rw [entry_cons_ne (by rw [hb]; simpa using hne)] at hnew
      rw [put, if_neg (by rw [Value.same_iff_atom hb hkey]; exact hne), ih hrest hnew,
        List.cons_append]

/-- New keys go to the end, in their order. -/
theorem putAll_new {table entries : Table α} (hkeyed : Keyed table) (hentries : Keyed entries)
    (hnew : ∀ entry ∈ entries, ∀ a, entry.1.atom? = some a → slot? table a = none) :
    putAll table entries = table ++ entries := by
  induction entries generalizing table with
  | nil => simp [putAll]
  | cons entry rest ih =>
      obtain ⟨⟨a, ha, hfresh⟩, hrest⟩ := hentries
      have hput := put_new hkeyed ha (hnew entry List.mem_cons_self a ha) entry.2
      rw [putAll_cons, ih (keyed_put hkeyed ha entry.2) hrest, hput, List.append_assoc]
      · rfl
      · intro other hother b hb
        have hne : b ≠ a := by
          rintro rfl
          obtain ⟨c, hc, hfound⟩ := entry_of_mem hrest hother
          rw [Option.some.inj (hb.symm.trans hc), hfound] at hfresh
          cases hfresh
        rw [entry_put hkeyed ha, if_neg hne]
        exact hnew other (List.mem_cons_of_mem _ hother) b hb

end Writing

end Table

end SchemaGraph
