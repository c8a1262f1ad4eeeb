import SchemaGraph.Proofs.Resolve.Congruence

/-!
# Conflicting types in an `allOf`

An `allOf` compares each property that a member offers with what stands under its name, and then
puts it there.  So what stands under a name is the last declaration, and a conflict is reported
exactly if two declarations of one property have different types and no member between them declares
the property.

A declaration without a type agrees with the one before it and the one after it.  It thereby hides a
conflict between the two.  Where all declarations name a type, a conflict is reported exactly if any
two of them differ, wherever they stand.
-/

namespace SchemaGraph

namespace Table

variable {α : Type}

/-- The item whose key stands for something given. -/
def item? (table : Table α) (a : Atom) : Option α := (slot? table a).map (·.2)

/-- What tables say under a key, in the order of the tables. -/
def declarations (tables : List (Table α)) (a : Atom) : List α :=
  tables.filterMap fun table => table.item? a

/-- Write the entries of several tables, one table after the other. -/
def putEach (table : Table α) (others : List (Table α)) : Table α := others.foldl putAll table

theorem putEach_cons (table other : Table α) (others : List (Table α)) :
    putEach table (other :: others) = putEach (putAll table other) others :=
  rfl

theorem item_putAll {table entries : Table α} (htable : Keyed table) (hentries : Keyed entries)
    (a : Atom) : (putAll table entries).item? a = (entries.item? a).or (table.item? a) := by
  unfold item?
  rw [entry_putAll htable hentries]
  cases slot? entries a with
  | none => rfl
  | some entry => cases slot? table a <;> rfl

/-- Neighbours among the declarations are related if the first two are, and the others are when the
second was written over the first. -/
theorem isChain_declarations {R : α → α → Prop} {table other : Table α} (htable : Keyed table)
    (hother : Keyed other) (rest : List (Table α)) (a : Atom) :
    (declarations (table :: other :: rest) a).IsChain R ↔
      (∀ x y, table.item? a = some x → other.item? a = some y → R x y) ∧
        (declarations (putAll table other :: rest) a).IsChain R := by
  unfold declarations
  rw [List.filterMap_cons, List.filterMap_cons, List.filterMap_cons, item_putAll htable hother]
  -- the second declaration takes the place of the first, so the first meets no other one
  cases other.item? a with
  | none => cases table.item? a <;> simp
  | some y => cases table.item? a <;> simp

end Table

/-- What a resolved member has to offer to an `allOf`: the properties of an object. -/
def Node.offered : Node → Table Node
  | .object _ shape => shape.properties
  | _ => []

theorem Node.offered_other {n : Node} (h : ∀ info shape, n ≠ .object info shape) :
    n.offered = [] := by
  cases n with
  | object info shape => exact absurd rfl (h info shape)
  | _ => rfl

namespace Merged

/-- Two declarations of a property that no member stands between have types that agree. -/
def Consistent (tables : List (Table Node)) : Prop :=
  ∀ a, (Table.declarations tables a).IsChain fun existing declared =>
    conflict existing declared = false

theorem consistent_single (table : Table Node) : Consistent [table] := by
  intro a
  unfold Table.declarations
  cases h : table.item? a <;> simp [h]

theorem clashless_iff {table entries : Table Node} :
    Clashless table entries ↔ ∀ a existing declared, table.item? a = some existing →
      entries.item? a = some declared → conflict existing declared = false := by
  unfold Clashless Table.item?
  constructor
  · intro h a existing declared hexisting hdeclared
    obtain ⟨entry, hentry, rfl⟩ := Option.map_eq_some_iff.mp hexisting
    obtain ⟨entry', hentry', rfl⟩ := Option.map_eq_some_iff.mp hdeclared
    exact h a entry entry' hentry hentry'
  · intro h a entry entry' hentry hentry'
    exact h a entry.2 entry'.2 (by rw [hentry]; rfl) (by rw [hentry']; rfl)

theorem consistent_cons_cons {table other : Table Node} (htable : Table.Keyed table)
    (hother : Table.Keyed other) (rest : List (Table Node)) :
    Consistent (table :: other :: rest) ↔
      Clashless table other ∧ Consistent (Table.putAll table other :: rest) := by
  unfold Consistent
  rw [clashless_iff, ← forall_and]
  exact forall_congr' fun a => Table.isChain_declarations htable hother rest a

section Absorbing

variable {m : Merged}

theorem putAll_of_declare {table entries result : Table Node}
    (h : declare table entries = .ok result) : result = Table.putAll table entries := by
  induction entries generalizing table with
  | nil => exact (Except.ok.inj h).symm
  | cons entry rest ih =>
      rw [declare] at h
      split at h
      · split at h
        · cases h
        · exact ih h
      · exact ih h

theorem properties_of_absorb {member : Node} {next : Merged} (h : m.absorb member = .ok next) :
    next.shape.properties = Table.putAll m.shape.properties member.offered := by
  cases member with
  | object info shape =>
      obtain ⟨properties, hproperties, hnext⟩ := bind_eq_ok.mp h
      rw [← Except.ok.inj hnext]
      exact putAll_of_declare hproperties
  | _ =>
      rw [← Except.ok.inj h]
      rfl

/-- Merging a member succeeds if what it offers clashes with nothing, and else reports a
conflict. -/
theorem absorb_cases {member : Node} (hm : Table.Keyed m.shape.properties)
    (hmember : Table.Keyed member.offered) :
    ((∃ next, m.absorb member = .ok next) ∧ Clashless m.shape.properties member.offered) ∨
    ((∃ name, m.absorb member = .error (.conflictingTypes name)) ∧
      ¬Clashless m.shape.properties member.offered) := by
  cases member with
  | object info shape =>
      unfold absorb
      rcases declare_cases hm hmember with ⟨hok, hclash⟩ | ⟨⟨name, herror⟩, hclash⟩
      · exact Or.inl ⟨⟨_, bind_eq_ok.mpr ⟨_, hok, rfl⟩⟩, hclash⟩
      · refine Or.inr ⟨⟨name, ?_⟩, hclash⟩
        rw [Node.offered] at herror
        dsimp only
        rw [herror]
        rfl
  | _ => exact Or.inl ⟨⟨_, rfl⟩, clashless_nil _⟩

/-- Merge resolved members one after the other. -/
def absorbAll (m : Merged) (members : List Node) : Except Failure Merged :=
  members.foldlM absorb m

theorem absorbAll_cons (m : Merged) (member : Node) (rest : List Node) :
    m.absorbAll (member :: rest) = m.absorb member >>= fun next => next.absorbAll rest :=
  List.foldlM_cons

/-- The properties of all members are written, those of later members over those of earlier ones. -/
theorem properties_of_absorbAll {members : List Node} {last : Merged}
    (h : m.absorbAll members = .ok last) :
    last.shape.properties = Table.putEach m.shape.properties (members.map Node.offered) := by
  induction members generalizing m with
  | nil =>
      rw [← Except.ok.inj h]
      rfl
  | cons member rest ih =>
      rw [absorbAll_cons, bind_eq_ok] at h
      obtain ⟨next, hnext, h⟩ := h
      rw [List.map_cons, Table.putEach_cons, ← properties_of_absorb hnext]
      exact ih h

/-- Merging members succeeds if all neighbouring declarations agree, and else reports a conflict. -/
theorem absorbAll_cases {members : List Node} (hm : Table.Keyed m.shape.properties)
    (hmembers : ∀ member ∈ members, Table.Keyed member.offered) :
    ((∃ last, m.absorbAll members = .ok last) ∧
      Consistent (m.shape.properties :: members.map Node.offered)) ∨
    ((∃ name, m.absorbAll members = .error (.conflictingTypes name)) ∧
      ¬Consistent (m.shape.properties :: members.map Node.offered)) := by
  induction members generalizing m with
  | nil => exact Or.inl ⟨⟨m, rfl⟩, consistent_single _⟩
  | cons member rest ih =>
      have hmember := hmembers member List.mem_cons_self
      rw [absorbAll_cons, List.map_cons, consistent_cons_cons hm hmember]
      rcases absorb_cases hm hmember with ⟨⟨next, hnext⟩, hclash⟩ | ⟨⟨name, herror⟩, hclash⟩
      · -- what stands after the first member is compared with what the others offer
        have hproperties := properties_of_absorb hnext
        have hkeyed : Table.Keyed next.shape.properties := by
          rw [hproperties]
          exact Table.keyed_putAll hm hmember
        have hrest := ih hkeyed fun member hin => hmembers member (List.mem_cons_of_mem _ hin)
        rw [hproperties] at hrest
        rw [hnext, and_iff_right hclash]
        exact hrest
      · refine Or.inr ⟨⟨name, ?_⟩, fun h => hclash h.1⟩
        rw [herror]
        rfl

end Absorbing

section Types

/-- Whether a declaration names a type. -/
def Named (declared : Node) : Prop := ∃ name, declared.declaredType = .str name

theorem conflict_of_named {existing declared : Node} (h : Named existing) (h' : Named declared) :
    conflict existing declared = false ↔ existing.declaredType = declared.declaredType := by
  obtain ⟨name, hname⟩ := h
  obtain ⟨name', hname'⟩ := h'
  unfold conflict
  rw [hname, hname']
  simp [Value.isNull, Value.same]

/-- Declarations of which no two have different types are consistent. -/
theorem consistent_of_pairwise {tables : List (Table Node)}
    (h : ∀ a, (Table.declarations tables a).Pairwise fun existing declared =>
      conflict existing declared = false) : Consistent tables :=
  fun a => (h a).isChain

/-- Where all declarations name a type, no two of them differ if those next to each other agree. -/
theorem consistent_iff_pairwise {tables : List (Table Node)}
    (hnamed : ∀ a, ∀ declared ∈ Table.declarations tables a, Named declared) :
    Consistent tables ↔ ∀ a, (Table.declarations tables a).Pairwise fun existing declared =>
      conflict existing declared = false := by
  refine ⟨fun h a => ?_, consistent_of_pairwise⟩
  have hsame : ∀ existing ∈ Table.declarations tables a, ∀ declared ∈ Table.declarations tables a,
      (conflict existing declared = false ↔ existing.declaredType = declared.declaredType) :=
    fun existing hexisting declared hdeclared =>
      conflict_of_named (hnamed a existing hexisting) (hnamed a declared hdeclared)
  -- to have one type is transitive, as to agree is not
  have hchain : (Table.declarations tables a).IsChain fun existing declared =>
      existing.declaredType = declared.declaredType :=
    (List.IsChain.iff_of_mem_imp fun x y hx hy => hsame x hx y hy).mp (h a)
  have : Trans (fun n n' : Node => n.declaredType = n'.declaredType)
      (fun n n' : Node => n.declaredType = n'.declaredType)
      (fun n n' : Node => n.declaredType = n'.declaredType) := ⟨Eq.trans⟩
  refine (List.isChain_iff_pairwise.mp hchain).imp_of_mem fun hx hy heq => ?_
  exact (hsame _ hx _ hy).mpr heq

/-- Where declarations are not consistent, two neighbours have different types. -/
theorem not_consistent_iff {tables : List (Table Node)} :
    ¬Consistent tables ↔ ∃ a before existing declared later,
      Table.declarations tables a = before ++ existing :: declared :: later ∧
        conflict existing declared = true := by
  unfold Consistent
  rw [not_forall]
  refine exists_congr fun a => ?_
  rw [List.isChain_iff_forall_rel_of_append_cons_cons]
  constructor
  · intro h
    push Not at h
    obtain ⟨existing, declared, before, later, heq, hconflict⟩ := h
    exact ⟨before, existing, declared, later, heq, by simpa using hconflict⟩
  · rintro ⟨before, existing, declared, later, heq, hconflict⟩ h
    rw [h heq] at hconflict
    exact absurd hconflict (by simp)

end Types

end Merged

namespace Node

variable {follow : Value → Except Failure Node}

/-- Members that are settled to some schemas, one by one. -/
def SettleTo (follow : Value → Except Failure Node) (members resolved : List Node) : Prop :=
  List.Forall₂ (fun member n => settled follow member = .ok n) members resolved

theorem SettleTo.of_mem {members resolved : List Node} (h : SettleTo follow members resolved)
    {n : Node} (hn : n ∈ resolved) : ∃ member ∈ members, settled follow member = .ok n := by
  induction h with
  | nil => exact nomatch hn
  | @cons member first rest others hmember hrest ih =>
      rcases List.mem_cons.mp hn with rfl | hin
      · exact ⟨member, List.mem_cons_self, hmember⟩
      · obtain ⟨member', hmember', hsettled⟩ := ih hin
        exact ⟨member', List.mem_cons_of_mem _ hmember', hsettled⟩

theorem settledInto_eq {members resolved : List Node} (h : SettleTo follow members resolved)
    (m : Merged) : settledInto follow m members = m.absorbAll resolved := by
  induction h generalizing m with
  | nil => rfl
  | cons hmember hrest ih =>
      rw [settledInto, hmember, Merged.absorbAll_cons]
      change (m.absorb _ >>= fun next => settledInto follow next _) = _
      congr 1
      funext next
      exact ih next

/-- Settling an `allOf` whose members settle succeeds if all neighbouring declarations agree, and
else reports a conflict. -/
theorem settled_allOf_cases {info : NodeInfo} {shape : CompositionShape Node}
    {resolved : List Node} (hneat : (composition info shape).Neat) (hkind : shape.kind = .allOf)
    (hdefect : memberDefect? shape.rawMembers = none)
    (hmembers : SettleTo follow shape.members resolved)
    (hkeyed : ∀ n ∈ resolved, Table.Keyed n.offered) :
    ((∃ n, settled follow (.composition info shape) = .ok n) ∧
      Merged.Consistent (shape.properties :: resolved.map offered)) ∨
    ((∃ name, settled follow (.composition info shape) = .error (.conflictingTypes name)) ∧
      ¬Merged.Consistent (shape.properties :: resolved.map offered)) := by
  obtain ⟨key, hkey⟩ := identity_ok hneat
  -- a neat composition has an identity, so only merging can fail
  have hsettled : settled follow (.composition info shape) =
      (Merged.start info shape).absorbAll resolved >>= fun last => .ok last.node := by
    rw [settled_composition, hdefect, hkey, ← settledInto_eq hmembers]
    change settledKind follow info shape = _
    unfold settledKind
    rw [hkind]
    rfl
  rw [hsettled]
  have hproperties : Table.Keyed (Merged.start info shape).shape.properties :=
    hneat.composition_parts.properties.1
  rcases Merged.absorbAll_cases hproperties hkeyed with
    ⟨⟨last, hlast⟩, hconsistent⟩ | ⟨⟨name, herror⟩, hconsistent⟩
  · exact Or.inl ⟨⟨last.node, bind_eq_ok.mpr ⟨last, hlast, rfl⟩⟩, hconsistent⟩
  · refine Or.inr ⟨⟨name, ?_⟩, hconsistent⟩
    rw [herror]
    rfl

/-- Members of which each settles are settled together. -/
theorem exists_settleTo {members : List Node}
    (h : ∀ member ∈ members, ∃ n, settled follow member = .ok n) :
    ∃ resolved, SettleTo follow members resolved := by
  induction members with
  | nil => exact ⟨[], .nil⟩
  | cons member rest ih =>
      obtain ⟨n, hn⟩ := h member List.mem_cons_self
      obtain ⟨resolved, hresolved⟩ := ih fun m hm => h m (List.mem_cons_of_mem _ hm)
      exact ⟨n :: resolved, .cons hn hresolved⟩

/-- A settled `allOf` offers the last declaration of each property. -/
theorem offered_of_allOf {info : NodeInfo} {shape : CompositionShape Node} {n : Node}
    (h : settled follow (.composition info shape) = .ok n) (hkind : shape.kind = .allOf) :
    ∃ resolved, SettleTo follow shape.members resolved ∧
      n.offered = Table.putEach shape.properties (resolved.map offered) := by
  obtain ⟨resolved, hresolved⟩ := exists_settleTo (members_of_settled h)
  have hsettled := settledKind_of_settled h
  unfold settledKind at hsettled
  rw [hkind] at hsettled
  dsimp only at hsettled
  rw [settledInto_eq hresolved, bind_eq_ok] at hsettled
  obtain ⟨last, hlast, hn⟩ := hsettled
  refine ⟨resolved, hresolved, ?_⟩
  rw [← Except.ok.inj hn]
  exact Merged.properties_of_absorbAll hlast

end Node

end SchemaGraph
