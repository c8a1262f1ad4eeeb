import SchemaGraph.Proofs.Schema.LikeShapes

/-!
# Declaring properties

Properties of a member are declared over those that are there, unless one of them clashes with a
property of another type.  Whether there is a clash, and what stands there afterwards, does not
depend on the order in which the properties are declared.
-/

namespace SchemaGraph

namespace Merged

open Node

/-- No property is declared with two different types. -/
def Clashless (table entries : Table Node) : Prop :=
  ∀ a existing declared, Table.slot? table a = some existing →
    Table.slot? entries a = some declared → conflict existing.2 declared.2 = false

theorem clashless_nil (table : Table Node) : Clashless table [] :=
  fun _ _ _ _ h => absurd h (by simp)

theorem clashless_cons_iff {table rest : Table Node} {name : Value} (declared : Node) {a : Atom}
    (htable : Table.Keyed table) (hname : name.atom? = some a)
    (hfresh : Table.slot? rest a = none) :
    Clashless table ((name, declared) :: rest) ↔
      (∀ existing, Table.slot? table a = some existing → conflict existing.2 declared = false) ∧
        Clashless (table.put name declared) rest := by
  have hput := Table.entry_put htable hname declared
  constructor
  · intro h
    refine ⟨fun existing hexisting => h a existing _ hexisting (Table.entry_cons_eq hname rest), ?_⟩
    intro b existing given hexisting hgiven
    have hne : b ≠ a := by
      rintro rfl
      rw [hfresh] at hgiven
      exact absurd hgiven (by simp)
    rw [hput, if_neg hne] at hexisting
    refine h b existing given hexisting ?_
    rw [Table.entry_cons_ne]
    · exact hgiven
    · simpa [hname] using fun heq => hne heq.symm
  · rintro ⟨hhead, htail⟩ b existing given hexisting hgiven
    by_cases hb : b = a
    · subst hb
      rw [Table.entry_cons_eq hname, Option.some.injEq] at hgiven
      rw [← hgiven]
      exact hhead existing hexisting
    · rw [Table.entry_cons_ne (by simpa [hname] using fun heq => hb heq.symm)] at hgiven
      exact htail b existing given (by rw [hput, if_neg hb]; exact hexisting) hgiven

/-- Declaring writes all properties if none of them clashes, and fails if one does. -/
theorem declare_cases {table entries : Table Node} (htable : Table.Keyed table)
    (hentries : Table.Keyed entries) :
    (declare table entries = .ok (Table.putAll table entries) ∧ Clashless table entries) ∨
      ((∃ name, declare table entries = .error (.conflictingTypes name)) ∧
        ¬Clashless table entries) := by
  induction entries generalizing table with
  | nil => exact Or.inl ⟨rfl, clashless_nil table⟩
  | cons entry rest ih =>
      obtain ⟨name, declared⟩ := entry
      obtain ⟨⟨a, hname, hfresh⟩, hrest⟩ := hentries
      have hiff := clashless_cons_iff declared htable hname hfresh
      have htail := ih (Table.keyed_put htable hname declared) hrest
      rw [declare, Table.get_eq_entry htable hname, Table.putAll_cons]
      cases hthere : Table.slot? table a with
      | none =>
          have hhead : ∀ existing, Table.slot? table a = some existing →
              conflict existing.2 declared = false := by
            intro existing h
            rw [hthere] at h
            cases h
          rw [hiff, and_iff_right hhead]
          exact htail
      | some existing =>
          dsimp only [Option.map_some]
          -- the first property that clashes ends the declaring
          cases hconflict : conflict existing.2 declared with
          | true =>
              refine Or.inr ⟨⟨name, rfl⟩, ?_⟩
              rw [hiff]
              rintro ⟨hhead, -⟩
              rw [hhead existing hthere] at hconflict
              exact absurd hconflict (by simp)
          | false =>
              have hhead : ∀ given, Table.slot? table a = some given →
                  conflict given.2 declared = false := by
                intro given h
                rw [hthere, Option.some.injEq] at h
                rw [← h]
                exact hconflict
              rw [hiff, and_iff_right hhead]
              exact htail

theorem conflict_congr {existing existing' declared declared' : Node}
    (hexisting : existing.Alike existing') (hdeclared : declared.Alike declared')
    (h₁ : existing.Labelled) (h₁' : existing'.Labelled) (h₂ : declared.Labelled)
    (h₂' : declared'.Labelled) : conflict existing declared = conflict existing' declared' := by
  have htype := hexisting.declaredType h₁ h₁'
  have htype' := hdeclared.declaredType h₂ h₂'
  unfold conflict
  rw [Value.alike_isNull htype, Value.alike_isNull htype',
    Value.same_congr htype htype' (isJson_declaredTypeOf h₁) (isJson_declaredTypeOf h₂)]

theorem clashless_of_similar {table table' entries entries' : Table Node}
    (htable : NeatProperties table) (htable' : NeatProperties table')
    (hentries : NeatProperties entries) (hentries' : NeatProperties entries')
    (hsimilar : Table.Similar Node.Alike table table')
    (hsimilar' : Table.Similar Node.Alike entries entries') (h : Clashless table entries) :
    Clashless table' entries' := by
  intro a existing' declared' hexisting' hdeclared'
  obtain ⟨existing, hexisting, -, halike⟩ :=
    (hsimilar.symm fun _ _ _ _ h => h.symm).some_of_some hexisting'
  obtain ⟨declared, hdeclared, -, halike'⟩ :=
    (hsimilar'.symm fun _ _ _ _ h => h.symm).some_of_some hdeclared'
  rw [conflict_congr halike halike' (htable'.2 _ (Table.mem_of_entry hexisting'))
    (htable.2 _ (Table.mem_of_entry hexisting)) (hentries'.2 _ (Table.mem_of_entry hdeclared'))
    (hentries.2 _ (Table.mem_of_entry hdeclared))]
  exact h a existing declared hexisting hdeclared

/-- What stands in a table after entries were written to it. -/
theorem mem_putAll {table entries : Table Node} (htable : Table.Keyed table)
    (hentries : Table.Keyed entries) {entry : Value × Node}
    (h : entry ∈ Table.putAll table entries) :
    (∃ given ∈ table, given.2 = entry.2) ∨ ∃ given ∈ entries, given.2 = entry.2 := by
  obtain ⟨a, -, hfound⟩ := Table.entry_of_mem (Table.keyed_putAll htable hentries) h
  rw [Table.entry_putAll htable hentries] at hfound
  cases hgiven : Table.slot? entries a with
  | none =>
      rw [hgiven] at hfound
      exact Or.inl ⟨entry, Table.mem_of_entry hfound, rfl⟩
  | some given =>
      rw [hgiven] at hfound
      refine Or.inr ⟨given, Table.mem_of_entry hgiven, ?_⟩
      rw [← Option.some.inj hfound]
      cases Table.slot? table a <;> rfl

theorem neatProperties_putAll {table entries : Table Node} (htable : NeatProperties table)
    (hentries : NeatProperties entries) : NeatProperties (Table.putAll table entries) := by
  refine ⟨Table.keyed_putAll htable.1 hentries.1, ?_⟩
  intro entry hentry
  rcases mem_putAll htable.1 hentries.1 hentry with ⟨given, hgiven, heq⟩ | ⟨given, hgiven, heq⟩
  · rw [← heq]
    exact htable.2 given hgiven
  · rw [← heq]
    exact hentries.2 given hgiven

theorem neatProperties_putAllNew {table entries : Table Node} (htable : NeatProperties table)
    (hentries : NeatProperties entries) : NeatProperties (Table.putAllNew table entries) := by
  refine ⟨Table.keyed_putAllNew htable.1 hentries.1, ?_⟩
  intro entry hentry
  obtain ⟨a, -, hfound⟩ :=
    Table.entry_of_mem (Table.keyed_putAllNew htable.1 hentries.1) hentry
  rw [Table.entry_putAllNew htable.1 hentries.1, Option.or_eq_some_iff] at hfound
  rcases hfound with hold | ⟨-, hnew⟩
  · exact htable.2 entry (Table.mem_of_entry hold)
  · exact hentries.2 entry (Table.mem_of_entry hnew)

/-- Declaring like properties over like properties ends alike. -/
theorem declare_congr {table table' entries entries' : Table Node}
    (htable : NeatProperties table) (htable' : NeatProperties table')
    (hentries : NeatProperties entries) (hentries' : NeatProperties entries')
    (hsimilar : Table.Similar Node.Alike table table')
    (hsimilar' : Table.Similar Node.Alike entries entries') :
    Agree (fun result result' => NeatProperties result ∧ NeatProperties result' ∧
        Table.Similar Node.Alike result result')
      (declare table entries) (declare table' entries') := by
  have hforward := clashless_of_similar htable htable' hentries hentries' hsimilar hsimilar'
  have hback := clashless_of_similar htable' htable hentries' hentries
    (hsimilar.symm fun _ _ _ _ h => h.symm) (hsimilar'.symm fun _ _ _ _ h => h.symm)
  rcases declare_cases htable.1 hentries.1 with ⟨hok, hclash⟩ | ⟨⟨name, herror⟩, hclash⟩
  · rcases declare_cases htable'.1 hentries'.1 with ⟨hok', -⟩ | ⟨-, hclash'⟩
    · rw [hok, hok']
      exact .ok ⟨neatProperties_putAll htable hentries, neatProperties_putAll htable' hentries',
        hsimilar.putAll hsimilar' htable.1 htable'.1 hentries.1 hentries'.1⟩
    · exact absurd (hforward hclash) hclash'
  · rcases declare_cases htable'.1 hentries'.1 with ⟨-, hclash'⟩ | ⟨⟨name', herror'⟩, -⟩
    · exact absurd (hback hclash') hclash
    · rw [herror, herror']
      exact .error rfl

end Merged

end SchemaGraph
