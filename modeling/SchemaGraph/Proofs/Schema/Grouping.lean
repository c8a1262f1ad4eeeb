import SchemaGraph.Proofs.Schema.Gathered
import SchemaGraph.Proofs.Value.Grouped

/-!
# Members merged in groups

Where all properties that members offer have a type, no two members conflict exactly if the types of
each property mean the same throughout.  That does not depend on how the members are grouped, and
neither does the object that they are merged to: a run of members can be merged first, and the
result take their place (`absorbAll_group`).

A property without a type agrees with every other one and hides a conflict between the declarations
on its two sides; so grouping may hide a conflict or bring it out.
-/

namespace SchemaGraph

theorem Value.orElse_assoc (first second third : Value) :
    (first.orElse second).orElse third = first.orElse (second.orElse third) := by
  unfold orElse
  cases hfirst : first.truthy <;> simp [hfirst]

namespace Node

/-- Whether every property that a schema offers has a type. -/
def Typed (n : Node) : Prop := ∀ entry ∈ n.offered, entry.2.declaredType ≠ .null

theorem typed_iff_all {n : Node} :
    n.Typed ↔ (n.offered.all fun entry => !entry.2.declaredType.isNull) = true := by
  unfold Typed
  rw [List.all_eq_true]
  refine forall₂_congr fun entry _ => ?_
  cases entry.2.declaredType <;> simp [Value.isNull]

instance (n : Node) : Decidable n.Typed := decidable_of_iff _ typed_iff_all.symm

/-- Whether the names and types that a schema offers are as they are read: names can be keys, and
the keys inside a type are distinct. -/
structure Proper (n : Node) : Prop where
  names : ∀ entry ∈ n.offered, entry.1.hashable = true
  types : ∀ entry ∈ n.offered, entry.2.declaredType.Proper
  required : ∀ name ∈ n.brought.required, name.Proper

end Node

namespace Merged

open Node

section Types

/-- What entries say of the types of properties. -/
def typings (entries : Table Node) : List (Option Scalar × Value.Meaning) :=
  entries.map fun entry => (entry.1.scalar?, entry.2.declaredType.meaning)

/-- Whether entries say one thing only of the type of each property. -/
def Coherent (entries : Table Node) : Prop :=
  ∀ a m m', (a, m) ∈ typings entries → (a, m') ∈ typings entries → m = m'

/-- Entries that say something of the type of a property. -/
structure Clear (entries : Table Node) : Prop where
  names : ∀ entry ∈ entries, entry.1.hashable = true
  types : ∀ entry ∈ entries, entry.2.declaredType.Proper
  given : ∀ entry ∈ entries, entry.2.declaredType ≠ .null

theorem Clear.of_subset {entries others : Table Node} (h : Clear entries)
    (hsub : others ⊆ entries) : Clear others where
  names := fun entry hentry => h.names entry (hsub hentry)
  types := fun entry hentry => h.types entry (hsub hentry)
  given := fun entry hentry => h.given entry (hsub hentry)

theorem Clear.keys {entries : Table Node} (h : Clear entries) :
    ∀ key ∈ Table.keys entries, key.hashable = true := by
  intro key hkey
  obtain ⟨entry, hentry, rfl⟩ := List.mem_map.mp hkey
  exact h.names entry hentry

theorem clear_flatMap {nodes : List Node} (hproper : ∀ n ∈ nodes, n.Proper)
    (htyped : ∀ n ∈ nodes, n.Typed) : Clear (nodes.flatMap offered) := by
  refine ⟨?_, ?_, ?_⟩ <;> intro entry hentry <;> obtain ⟨n, hn, hin⟩ := List.mem_flatMap.mp hentry
  · exact (hproper n hn).names entry hin
  · exact (hproper n hn).types entry hin
  · exact htyped n hn entry hin

theorem mem_typings_append {entries others : Table Node} {typing : Option Scalar × Value.Meaning} :
    typing ∈ typings (entries ++ others) ↔ typing ∈ typings entries ∨ typing ∈ typings others := by
  unfold typings
  rw [List.map_append, List.mem_append]

/-- To be coherent depends on what is said only, not on how often and where. -/
theorem coherent_congr {entries others : Table Node}
    (h : ∀ typing, typing ∈ typings entries ↔ typing ∈ typings others) :
    Coherent entries ↔ Coherent others := by
  unfold Coherent
  simp only [h]

theorem Coherent.left {entries others : Table Node} (h : Coherent (entries ++ others)) :
    Coherent entries := fun a m m' hm hm' =>
  h a m m' (mem_typings_append.mpr (.inl hm)) (mem_typings_append.mpr (.inl hm'))

theorem Coherent.right {entries others : Table Node} (h : Coherent (entries ++ others)) :
    Coherent others := fun a m m' hm hm' =>
  h a m m' (mem_typings_append.mpr (.inr hm)) (mem_typings_append.mpr (.inr hm'))

/-- Declarations that have a type agree exactly if their types mean the same. -/
theorem conflict_eq_false_iff {existing declared : Node} (hexisting : existing.declaredType ≠ .null)
    (hdeclared : declared.declaredType ≠ .null) (hproper : existing.declaredType.Proper)
    (hproper' : declared.declaredType.Proper) :
    conflict existing declared = false ↔
      existing.declaredType.meaning = declared.declaredType.meaning := by
  have hnull : ∀ v : Value, v ≠ .null → v.isNull = false := by
    intro v hv
    cases v with
    | null => exact absurd rfl hv
    | _ => rfl
  unfold conflict
  rw [hnull _ hexisting, hnull _ hdeclared, ← Value.same_iff_meaning hproper hproper']
  simp

/-- One property is declared if it agrees with what stands under its name. -/
theorem declare_single {table : Table Node} {name : Value} {declared : Node} :
    (∃ next, declare table [(name, declared)] = .ok next) ↔
      ∀ existing, table.get? name = some existing → conflict existing declared = false := by
  unfold declare
  cases table.get? name with
  | none => simp [declare]
  | some existing =>
      cases hconflict : conflict existing declared <;> simp [declare, hconflict]

/-- The last entry under a name is one of those with a key that stands for the same thing. -/
theorem typing_of_last {entries : Table Node} {name : Value} {n : Node}
    (hname : name.hashable = true) (h : Table.last? entries name = some n) :
    (name.scalar?, n.declaredType.meaning) ∈ typings entries := by
  obtain ⟨entry, hentry, rfl⟩ := Option.map_eq_some_iff.mp h
  have hin := List.mem_filter.mp (List.mem_of_getLast? hentry)
  refine List.mem_map.mpr ⟨entry, hin.1, ?_⟩
  rw [(Value.same_iff_scalar hname).mp hin.2]

/-- What stands for the same thing as a key has a last entry. -/
theorem exists_last {entries : Table Node} {name : Value} {m : Value.Meaning}
    (hname : name.hashable = true) (h : (name.scalar?, m) ∈ typings entries) :
    ∃ n, Table.last? entries name = some n := by
  obtain ⟨entry, hentry, heq⟩ := List.mem_map.mp h
  rw [← Option.isSome_iff_exists, Table.last_isSome, Table.get_isSome]
  refine List.any_eq_true.mpr ⟨entry.1, List.mem_map_of_mem hentry, ?_⟩
  exact (Value.same_iff_scalar hname).mpr (congrArg Prod.fst heq)

theorem get_of_declare {entries table : Table Node} (h : declare [] entries = .ok table) {name : Value}
    (hname : name.hashable = true) : table.get? name = Table.last? entries name := by
  rw [putAll_of_declare h, Table.get_putAll hname]
  exact Option.or_none

/-- A declaration is coherent with entries that all say of its type what it says. -/
theorem coherent_concat {entries : Table Node} {name : Value} {declared : Node} :
    Coherent (entries ++ [(name, declared)]) ↔ Coherent entries ∧
      ∀ m, (name.scalar?, m) ∈ typings entries → m = declared.declaredType.meaning := by
  have hnew : ∀ typing, typing ∈ typings [(name, declared)] ↔
      typing = (name.scalar?, declared.declaredType.meaning) := fun typing => by simp [typings]
  constructor
  · intro hcoherent
    refine ⟨hcoherent.left, fun m hm => hcoherent _ _ _ (mem_typings_append.mpr (.inl hm)) ?_⟩
    exact mem_typings_append.mpr (.inr ((hnew _).mpr rfl))
  · rintro ⟨hcoherent, hall⟩ a m m' hm hm'
    rw [mem_typings_append, hnew, Prod.mk.injEq] at hm hm'
    rcases hm with hin | ⟨rfl, rfl⟩ <;> rcases hm' with hin' | ⟨hname, rfl⟩
    · exact hcoherent a m m' hin hin'
    · exact hall m (hname ▸ hin)
    · exact (hall m' hin').symm
    · rfl

/-- Where entries are coherent, a declaration that agrees with the last one under its name agrees with
all of them. -/
theorem last_agrees_iff {entries : Table Node} (h : Clear entries) (hcoherent : Coherent entries)
    {name : Value} (hname : name.hashable = true) {declared : Node}
    (hgiven : declared.declaredType ≠ .null) (hproper : declared.declaredType.Proper) :
    (∀ n, Table.last? entries name = some n → conflict n declared = false) ↔
      ∀ m, (name.scalar?, m) ∈ typings entries → m = declared.declaredType.meaning := by
  have hagree : ∀ n, Table.last? entries name = some n →
      (conflict n declared = false ↔
        n.declaredType.meaning = declared.declaredType.meaning) := by
    intro n hn
    obtain ⟨entry, hentry, rfl⟩ := Option.map_eq_some_iff.mp hn
    have hin := (List.mem_filter.mp (List.mem_of_getLast? hentry)).1
    exact conflict_eq_false_iff (h.given entry hin) hgiven (h.types entry hin) hproper
  constructor
  · intro hall m hm
    obtain ⟨n, hn⟩ := exists_last hname hm
    rw [← (hagree n hn).mp (hall n hn)]
    exact hcoherent _ _ _ hm (typing_of_last hname hn)
  · intro hall n hn
    exact (hagree n hn).mpr (hall _ (typing_of_last hname hn))

/-- Entries with types are declared exactly if they are coherent. -/
theorem declare_ok_iff {entries : Table Node} (h : Clear entries) :
    (∃ table, declare [] entries = .ok table) ↔ Coherent entries := by
  induction entries using List.reverseRecOn with
  | nil => exact iff_of_true ⟨[], rfl⟩ fun _ _ _ hm => nomatch hm
  | append_singleton entries entry ih =>
      obtain ⟨name, declared⟩ := entry
      have hin : (name, declared) ∈ entries ++ [(name, declared)] := by simp
      have hclear : Clear entries := h.of_subset (List.subset_append_left _ _)
      have hlast : Coherent entries → _ := fun hcoherent =>
        last_agrees_iff hclear hcoherent (h.names _ hin) (h.given _ hin) (h.types _ hin)
      rw [coherent_concat]
      constructor
      · rintro ⟨table, htable⟩
        rw [declare_append, bind_eq_ok] at htable
        obtain ⟨next, hnext, htable⟩ := htable
        have hcoherent := (ih hclear).mp ⟨next, hnext⟩
        refine ⟨hcoherent, (hlast hcoherent).mp ?_⟩
        have hsingle := declare_single.mp ⟨table, htable⟩
        rwa [get_of_declare hnext (h.names _ hin)] at hsingle
      · rintro ⟨hcoherent, hall⟩
        obtain ⟨next, hnext⟩ := (ih hclear).mpr hcoherent
        have hagree := (hlast hcoherent).mpr hall
        rw [← get_of_declare hnext (h.names _ hin)] at hagree
        obtain ⟨table, htable⟩ := declare_single.mpr hagree
        exact ⟨table, by rw [declare_append, hnext]; exact htable⟩

/-- Entries that are written to an empty table: what stands under a key is the last one. -/
theorem mem_putAll_nil {entries : Table Node} (h : Clear entries) {entry : Value × Node}
    (hentry : entry ∈ Table.putAll [] entries) :
    entry.1.hashable = true ∧ Table.last? entries entry.1 = some entry.2 := by
  have hdistinct : Value.Distinct (Table.keys (Table.putAll [] entries)) :=
    Table.distinct_putAll Value.distinct_nil h.keys
  have hname := hdistinct.1 entry.1 (List.mem_map_of_mem hentry)
  refine ⟨hname, ?_⟩
  have hfound := Table.get_of_mem hdistinct hentry
  rw [Table.get_putAll hname] at hfound
  exact Option.or_none.symm.trans hfound

theorem clear_putAll {entries : Table Node} (h : Clear entries) :
    Clear (Table.putAll [] entries) := by
  have hitem : ∀ entry ∈ Table.putAll [] entries, ∃ given ∈ entries, given.2 = entry.2 := by
    intro entry hentry
    obtain ⟨given, hgiven, heq⟩ := Option.map_eq_some_iff.mp (mem_putAll_nil h hentry).2
    exact ⟨given, (List.mem_filter.mp (List.mem_of_getLast? hgiven)).1, heq⟩
  refine ⟨fun entry hentry => (mem_putAll_nil h hentry).1, ?_, ?_⟩ <;> intro entry hentry <;>
    obtain ⟨given, hgiven, heq⟩ := hitem entry hentry <;> rw [← heq]
  · exact h.types given hgiven
  · exact h.given given hgiven

/-- Coherent entries say of the types what they say when they are written to a table. -/
theorem mem_typings_putAll {entries : Table Node} (h : Clear entries) (hcoherent : Coherent entries)
    (typing : Option Scalar × Value.Meaning) :
    typing ∈ typings (Table.putAll [] entries) ↔ typing ∈ typings entries := by
  constructor
  · intro hin
    obtain ⟨entry, hentry, rfl⟩ := List.mem_map.mp hin
    obtain ⟨hname, hlast⟩ := mem_putAll_nil h hentry
    exact typing_of_last hname hlast
  · intro hin
    obtain ⟨entry, hentry, rfl⟩ := List.mem_map.mp hin
    have hname := h.names entry hentry
    obtain ⟨n, hn⟩ := exists_last hname hin
    rw [hcoherent _ _ _ hin (typing_of_last hname hn)]
    have hget : (Table.putAll [] entries).get? entry.1 = some n := by
      rw [Table.get_putAll hname, hn]
      rfl
    obtain ⟨other, hother, rfl⟩ := Option.map_eq_some_iff.mp hget
    refine List.mem_map.mpr ⟨other, List.mem_of_find?_eq_some hother, ?_⟩
    have hkey : other.1.same entry.1 = true := by simpa using List.find?_some hother
    rw [(Value.same_iff_scalar hname).mp hkey]

end Types

section Joining

/-- What is merged of no members and no declarations. -/
def blank : Merged :=
  start { path := "", metadata := [], title := .null, description := .null }
    { kind := .allOf
      rawMembers := .null
      members := []
      discriminator := none
      properties := []
      required := [] }

/-- Whether the names of a merged object are as they are read. -/
structure Proper (m : Merged) : Prop where
  names : Value.Distinct (Table.keys m.shape.properties)
  required : ∀ name ∈ m.shape.required, name.Proper

theorem proper_blank : blank.Proper :=
  ⟨Value.distinct_nil, fun _ hname => nomatch hname⟩

theorem keys_brought {n : Node} (h : n.Proper) :
    ∀ key ∈ Table.keys n.brought.properties, key.hashable = true := by
  intro key hkey
  obtain ⟨entry, hentry, rfl⟩ := List.mem_map.mp hkey
  exact h.names entry (brought_properties n ▸ hentry)

theorem Proper.joined {m : Merged} (h : m.Proper) {n : Node} (hn : n.Proper) : (m.joined n).Proper :=
  ⟨Table.distinct_putAll h.names (keys_brought hn), Value.extendUnique_proper h.required hn.required⟩

theorem firstAdditional_assoc (first second third : Additional Node) :
    firstAdditional (firstAdditional first second) third =
      firstAdditional first (firstAdditional second third) := by
  have hgiven : ∀ additional : Additional Node, additional = .value .null ∨
      ∀ new, firstAdditional additional new = additional := by
    intro additional
    unfold firstAdditional
    split
    · exact Or.inl rfl
    · exact Or.inr fun _ => rfl
  rcases hgiven first with rfl | hfirst
  · rfl
  · rw [hfirst, hfirst, hfirst]

/-- A member joins a merged object as it joins a group that then joins the object. -/
theorem joined_joined {m group : Merged} {n : Node} (hm : m.Proper) (hgroup : group.Proper)
    (hn : n.Proper) : (m.joined group.node).joined n = m.joined (group.joined n).node := by
  have hproperties : Table.putAll m.shape.properties
      (Table.putAll group.shape.properties n.brought.properties) =
      Table.putAll (Table.putAll m.shape.properties group.shape.properties) n.brought.properties :=
    Table.putAll_putAll hm.names hgroup.names (keys_brought hn)
  have hrequired : Value.extendUnique m.shape.required
      (Value.extendUnique group.shape.required n.brought.required) =
      Value.extendUnique (Value.extendUnique m.shape.required group.shape.required)
        n.brought.required :=
    Value.extendUnique_extendUnique hm.required hgroup.required hn.required
  have hdiscriminator : ((m.shape.discriminator <|> group.shape.discriminator) <|>
      n.brought.discriminator) =
      (m.shape.discriminator <|> (group.shape.discriminator <|> n.brought.discriminator)) := by
    cases m.shape.discriminator <;> rfl
  have hbrought : ∀ last : Merged, last.node.brought = last.shape := fun _ => rfl
  have hinfo : ∀ last : Merged, last.node.info = last.info := fun _ => rfl
  unfold joined
  rw [hbrought, hbrought, hinfo, hinfo]
  dsimp only
  rw [Value.orElse_assoc, Value.orElse_assoc, ← hproperties, ← hrequired, firstAdditional_assoc,
    hdiscriminator, Bool.or_assoc]

theorem joined_foldl {m group : Merged} {members : List Node} (hm : m.Proper) (hgroup : group.Proper)
    (hmembers : ∀ n ∈ members, n.Proper) :
    members.foldl joined (m.joined group.node) = m.joined (members.foldl joined group).node := by
  induction members generalizing group with
  | nil => rfl
  | cons n rest ih =>
      have hn := hmembers n List.mem_cons_self
      rw [List.foldl_cons, List.foldl_cons, joined_joined hm hgroup hn]
      exact ih (hgroup.joined hn) fun other hother => hmembers other (List.mem_cons_of_mem _ hother)

/-- What is merged of nothing brings nothing, not even a title that hides a later one. -/
theorem joined_blank (m : Merged) (n : Node) :
    (m.joined blank.node).joined n = m.joined n := by
  have hshape : (m.joined blank.node).shape = m.shape := by
    have hdiscriminator : (m.shape.discriminator <|> none) = m.shape.discriminator := by
      cases m.shape.discriminator <;> rfl
    change { m.shape with
      additional := firstAdditional m.shape.additional (.value .null)
      discriminator := m.shape.discriminator <|> none
      nullable := m.shape.nullable || false } = m.shape
    rw [firstAdditional_null, Bool.or_false, hdiscriminator]
  have htitle : ∀ v w : Value, (v.orElse .null).orElse w = v.orElse w := fun v w => by
    rw [Value.orElse_assoc]
    rfl
  have hinfo : (m.joined blank.node).info =
      { m.info with
        title := m.info.title.orElse .null
        description := m.info.description.orElse .null } := rfl
  unfold joined at hshape hinfo ⊢
  rw [hshape, hinfo]
  dsimp only
  rw [htitle, htitle]

/-- Members join a merged object one after the other as they join it in a group. -/
theorem foldl_joined_group {m : Merged} {run : List Node} (hrun : run ≠ []) (hm : m.Proper)
    (hproper : ∀ n ∈ run, n.Proper) :
    m.joined (run.foldl joined blank).node = run.foldl joined m := by
  cases run with
  | nil => exact absurd rfl hrun
  | cons n rest =>
      rw [← joined_foldl hm proper_blank hproper, List.foldl_cons, joined_blank]
      rfl

theorem proper_foldl {m : Merged} {members : List Node} (hm : m.Proper)
    (hmembers : ∀ n ∈ members, n.Proper) : (members.foldl joined m).Proper := by
  induction members generalizing m with
  | nil => exact hm
  | cons n rest ih =>
      exact ih (hm.joined (hmembers n List.mem_cons_self)) fun other hother =>
        hmembers other (List.mem_cons_of_mem _ hother)

theorem offered_group (run : List Node) :
    (run.foldl joined blank).node.offered = Table.putAll [] (run.flatMap offered) := by
  change (run.foldl joined blank).shape.properties = _
  rw [properties_foldl_joined]
  simp only [brought_properties]
  rfl

/-- Members whose properties have a type are merged if what they say of the types is coherent. -/
theorem absorbAll_blank_iff {members : List Node} (hproper : ∀ n ∈ members, n.Proper)
    (htyped : ∀ n ∈ members, n.Typed) {last : Merged} :
    blank.absorbAll members = .ok last ↔
      Coherent (members.flatMap offered) ∧ members.foldl joined blank = last := by
  rw [← declare_ok_iff (clear_flatMap hproper htyped), absorbAll_eq, bind_eq_ok, ← exists_and_right]
  refine exists_congr fun table => and_congr_right fun _ => ?_
  exact ⟨Except.ok.inj, congrArg Except.ok⟩

/-- What members with typed properties are merged to has typed properties. -/
theorem typed_group {run : List Node} (hproper : ∀ n ∈ run, n.Proper) (htyped : ∀ n ∈ run, n.Typed) :
    (run.foldl joined blank).node.Proper ∧ (run.foldl joined blank).node.Typed := by
  have hclear := clear_putAll (clear_flatMap hproper htyped)
  rw [← offered_group] at hclear
  exact ⟨⟨hclear.names, hclear.types, (proper_foldl proper_blank hproper).required⟩, hclear.given⟩

/-- A run of members can be merged first, and what it is merged to takes their place. -/
theorem absorbAll_group {front run back : List Node} (hrun : run ≠ [])
    (hproper : ∀ n ∈ front ++ run ++ back, n.Proper)
    (htyped : ∀ n ∈ front ++ run ++ back, n.Typed) {last : Merged} :
    blank.absorbAll (front ++ run ++ back) = .ok last ↔
      ∃ inner, blank.absorbAll run = .ok inner ∧
        blank.absorbAll (front ++ inner.node :: back) = .ok last := by
  have hsub : ∀ n ∈ run, n ∈ front ++ run ++ back := fun n hn => by simp [hn]
  have hrunProper : ∀ n ∈ run, n.Proper := fun n hn => hproper n (hsub n hn)
  have hrunTyped : ∀ n ∈ run, n.Typed := fun n hn => htyped n (hsub n hn)
  have hclear := clear_flatMap hrunProper hrunTyped
  obtain ⟨hgroupProper, hgroupTyped⟩ := typed_group hrunProper hrunTyped
  have hgrouped : ∀ n ∈ front ++ (run.foldl joined blank).node :: back, n.Proper ∧ n.Typed := by
    intro n hn
    rcases List.mem_append.mp hn with hin | hin
    · have hall : n ∈ front ++ run ++ back := by simp [hin]
      exact ⟨hproper n hall, htyped n hall⟩
    · rcases List.mem_cons.mp hin with rfl | hback
      · exact ⟨hgroupProper, hgroupTyped⟩
      · have hall : n ∈ front ++ run ++ back := by simp [hback]
        exact ⟨hproper n hall, htyped n hall⟩
  have hgroupedProper := fun n hn => (hgrouped n hn).1
  have hgroupedTyped := fun n hn => (hgrouped n hn).2
  have hlast : (front ++ (run.foldl joined blank).node :: back).foldl joined blank =
      (front ++ run ++ back).foldl joined blank := by
    have hfront : (front.foldl joined blank).Proper :=
      proper_foldl proper_blank fun n hn => hproper n (by simp [hn])
    rw [List.foldl_append, List.foldl_cons, foldl_joined_group hrun hfront hrunProper,
      List.foldl_append, List.foldl_append]
  -- the run says of the types what the object it is merged to says
  have hcoherent : Coherent (run.flatMap offered) →
      (Coherent ((front ++ (run.foldl joined blank).node :: back).flatMap offered) ↔
        Coherent ((front ++ run ++ back).flatMap offered)) := by
    intro hinner
    refine coherent_congr fun typing => ?_
    rw [List.flatMap_append, List.flatMap_cons, List.flatMap_append, List.flatMap_append,
      offered_group]
    simp only [mem_typings_append, mem_typings_putAll hclear hinner, or_assoc]
  rw [absorbAll_blank_iff hproper htyped]
  constructor
  · rintro ⟨hall, rfl⟩
    have hinner : Coherent (run.flatMap offered) := by
      rw [List.flatMap_append, List.flatMap_append] at hall
      exact hall.left.right
    refine ⟨_, (absorbAll_blank_iff hrunProper hrunTyped).mpr ⟨hinner, rfl⟩, ?_⟩
    exact (absorbAll_blank_iff hgroupedProper hgroupedTyped).mpr ⟨(hcoherent hinner).mpr hall, hlast⟩
  · rintro ⟨inner, hinner, hmerged⟩
    obtain ⟨hrunCoherent, rfl⟩ := (absorbAll_blank_iff hrunProper hrunTyped).mp hinner
    obtain ⟨hall, rfl⟩ := (absorbAll_blank_iff hgroupedProper hgroupedTyped).mp hmerged
    exact ⟨(hcoherent hrunCoherent).mp hall, hlast.symm⟩

end Joining

end Merged

end SchemaGraph
