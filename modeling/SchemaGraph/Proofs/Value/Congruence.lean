import SchemaGraph.Proofs.Value.Alike

/-!
# Questions that do not see the order of keys

Whether a value counts as given, what stands at a key and which values are the same: the answers
are equal for values that are alike.
-/

namespace SchemaGraph

namespace Value

section Shape

variable {v w : Value}

/-- Values alike are of one kind, and either both or neither of them counts as given. -/
theorem alike_cases (h : Alike v w) :
    (v.isScalar = true ∧ w = v) ∨
      (∃ items items', v = .list items ∧ w = .list items' ∧ List.Forall₂ Alike items items') ∨
        ∃ entries entries' arranged, v = .map entries ∧ w = .map entries' ∧
          List.Forall₂ (Table.EntryRel Alike) entries arranged ∧ List.Perm arranged entries' := by
  cases hv : v.isScalar with
  | true => exact Or.inl ⟨rfl, (alike_scalar_iff hv w).mp h⟩
  | false =>
      cases v with
      | list items =>
          obtain ⟨items', rfl, hitems⟩ := (alike_list_iff _ _).mp h
          exact Or.inr (Or.inl ⟨items, items', rfl, rfl, hitems⟩)
      | map entries =>
          obtain ⟨entries', arranged, rfl, hforall, hperm⟩ := (alike_map_iff _ _).mp h
          exact Or.inr (Or.inr ⟨entries, entries', arranged, rfl, rfl, hforall, hperm⟩)
      | _ => exact absurd hv (by simp [isScalar])

theorem isEmpty_eq_of_length {α β : Type} {l : List α} {m : List β} (h : l.length = m.length) :
    l.isEmpty = m.isEmpty := by
  cases l <;> cases m <;> simp_all

theorem alike_truthy (h : Alike v w) : v.truthy = w.truthy := by
  rcases alike_cases h with ⟨-, rfl⟩ | ⟨items, items', rfl, rfl, hitems⟩ |
    ⟨entries, entries', arranged, rfl, rfl, hforall, hperm⟩
  · rfl
  · simp only [truthy, isEmpty_eq_of_length hitems.length_eq]
  · simp only [truthy, isEmpty_eq_of_length (hforall.length_eq.trans hperm.length_eq)]

theorem alike_isNull (h : Alike v w) : v.isNull = w.isNull := by
  rcases alike_cases h with ⟨-, rfl⟩ | ⟨items, items', rfl, rfl, -⟩ |
    ⟨entries, entries', arranged, rfl, rfl, -, -⟩
  · rfl
  · rfl
  · rfl

theorem alike_hashable (h : Alike v w) : v.hashable = w.hashable := by
  rcases alike_cases h with ⟨-, rfl⟩ | ⟨items, items', rfl, rfl, -⟩ |
    ⟨entries, entries', arranged, rfl, rfl, -, -⟩
  · rfl
  · rfl
  · rfl

/-- A value that may be a key has no parts, and so equals every value alike. -/
theorem eq_of_alike_hashable (hv : v.hashable = true) (h : Alike v w) : w = v := by
  rcases alike_cases h with ⟨-, heq⟩ | ⟨items, items', rfl, rfl, -⟩ |
    ⟨entries, entries', arranged, rfl, rfl, -, -⟩
  · exact heq
  · exact absurd hv (by simp [hashable])
  · exact absurd hv (by simp [hashable])

theorem alike_orElse {v' w' : Value} (h : Alike v w) (h' : Alike v' w') :
    Alike (v.orElse v') (w.orElse w') := by
  unfold orElse
  rw [alike_truthy h]
  split
  · exact h
  · exact h'

end Shape

section Json

/-- The keys of a mapping of JSON stand for different things. -/
theorem keyed_of_entriesJson {entries : List (Value × Value)} (h : entriesJson entries = true) :
    Table.Keyed entries := by
  induction entries with
  | nil => trivial
  | cons entry rest ih =>
      obtain ⟨key, item, rfl, hfresh, -, hrest⟩ := entriesJson_cons h
      rw [Table.has_eq_entry, Option.isSome_eq_false_iff, Option.isNone_iff_eq_none] at hfresh
      exact ⟨⟨.text key, rfl, hfresh⟩, ih hrest⟩

/-- What stands under a key of a mapping of JSON is found there. -/
theorem at_of_mem {entries : List (Value × Value)} (h : entriesJson entries = true) {key : String}
    {v : Value} (hin : (.str key, v) ∈ entries) : Table.at? entries key = some v := by
  obtain ⟨a, ha, hfound⟩ := Table.entry_of_mem (keyed_of_entriesJson h) hin
  rw [atom_str, Option.some.injEq] at ha
  rw [Table.at_eq_entry, ha, hfound]
  rfl

theorem entriesJson_iff (entries : List (Value × Value)) :
    entriesJson entries = true ↔
      Table.Keyed entries ∧ ∀ entry ∈ entries, (∃ key, entry.1 = .str key) ∧ entry.2.isJson = true := by
  constructor
  · intro h
    exact ⟨keyed_of_entriesJson h, fun entry hentry => isJson_of_mem_entries h hentry⟩
  · rintro ⟨hkeyed, hall⟩
    induction entries with
    | nil => rfl
    | cons entry rest ih =>
        obtain ⟨k, item⟩ := entry
        obtain ⟨⟨a, ha, hfresh⟩, hrest⟩ := hkeyed
        obtain ⟨⟨key, rfl⟩, hitem⟩ := hall _ List.mem_cons_self
        have hkey : a = .text key := (Option.some.inj ha).symm
        subst hkey
        simp only [entriesJson, Bool.and_eq_true, Bool.not_eq_true', Table.has_eq_entry, hfresh]
        exact ⟨⟨rfl, hitem⟩, ih hrest fun entry hentry => hall entry (List.mem_cons_of_mem _ hentry)⟩

theorem itemsJson_iff (items : List Value) :
    itemsJson items = true ↔ ∀ item ∈ items, item.isJson = true := by
  induction items with
  | nil => simp [itemsJson]
  | cons item rest ih => simp [itemsJson, ih]

/-- A value alike to one of JSON is one of JSON. -/
theorem isJson_of_alike {v w : Value} (h : Alike v w) (hv : v.isJson = true) :
    w.isJson = true := by
  induction v using nested generalizing w with
  | hscalar v hscalar =>
      rw [(alike_scalar_iff hscalar w).mp h]
      exact hv
  | hlist items ih =>
      obtain ⟨items', rfl, hitems⟩ := (alike_list_iff _ _).mp h
      have hjson := (itemsJson_iff items).mp hv
      refine (itemsJson_iff items').mpr ?_
      intro item' hitem'
      obtain ⟨index, hindex, rfl⟩ := List.mem_iff_getElem.mp hitem'
      have hlength := hitems.length_eq
      have hitem := hitems.get (by omega) hindex
      exact ih _ (List.getElem_mem _) hitem (hjson _ (List.getElem_mem _))
  | hmap entries ih =>
      obtain ⟨entries', arranged, rfl, hforall, hperm⟩ := (alike_map_iff _ _).mp h
      obtain ⟨hkeyed, hall⟩ := (entriesJson_iff entries).mp hv
      have hkeyed' := (Table.entry_perm hperm (Table.keyed_of_forall hforall hkeyed)).1
      refine (entriesJson_iff entries').mpr ⟨hkeyed', ?_⟩
      intro entry' hentry'
      obtain ⟨index, hindex, rfl⟩ := List.mem_iff_getElem.mp (hperm.symm.subset hentry')
      have hlength := hforall.length_eq
      obtain ⟨hkey, hitem⟩ := hforall.get (by omega) hindex
      have hmem : entries[index] ∈ entries := List.getElem_mem _
      obtain ⟨⟨key, hstr⟩, hjson⟩ := hall _ hmem
      exact ⟨⟨key, hkey.symm.trans hstr⟩, ih _ hmem hitem hjson⟩

/-- What stands at a text key of mappings that are alike. -/
theorem alike_at {entries entries' : List (Value × Value)} (hkeyed : Table.Keyed entries)
    (h : Alike (.map entries) (.map entries')) (key : String) :
    Option.Rel Alike (Table.at? entries key) (Table.at? entries' key) := by
  obtain ⟨-, hsimilar⟩ := (alike_map_iff_similar hkeyed).mp h
  rw [Table.at_eq_entry, Table.at_eq_entry]
  cases hold : Table.slot? entries (.text key) with
  | none =>
      rw [(hsimilar.none_iff _).mp hold]
      exact Option.Rel.none
  | some entry =>
      obtain ⟨entry', hentry', -, hitem⟩ := hsimilar.some_of_some hold
      rw [hentry']
      exact Option.Rel.some hitem

end Json

section Sameness

theorem sameItems_congr {items items' others others' : List Value}
    (hsame : ∀ item ∈ items, ∀ {item' other other'}, Alike item item' → Alike other other' →
      other.isJson = true → item.same other = item'.same other')
    (hitems : List.Forall₂ Alike items items') (hothers : List.Forall₂ Alike others others')
    (hjson : itemsJson others = true) : sameItems items others = sameItems items' others' := by
  induction hitems generalizing others others' with
  | nil =>
      cases hothers with
      | nil => rfl
      | cons hother hrest => rfl
  | @cons item item' rest rest' hitem hrest ih =>
      cases hothers with
      | nil => rfl
      | @cons other other' more more' hother hmore =>
          simp only [itemsJson, Bool.and_eq_true] at hjson
          rw [sameItems, sameItems, hsame item List.mem_cons_self hitem hother hjson.1,
            ih (fun a ha => hsame a (List.mem_cons_of_mem _ ha)) hmore hjson.2]

/-- Entries of JSON are entries of another mapping when each of them is found there. -/
theorem sameEntries_iff {entries others : List (Value × Value)}
    (hentries : ∀ entry ∈ entries, ∃ key, entry.1 = .str key) :
    sameEntries entries others = true ↔
      ∀ entry ∈ entries, ∃ a other, entry.1.atom? = some a ∧
        Table.slot? others a = some other ∧ entry.2.same other.2 = true := by
  have hfind : ∀ key : String, others.find? (fun entry => same (.str key) entry.1) =
      Table.slot? others (.text key) := by
    intro key
    unfold Table.slot?
    congr 1
    funext other
    have hiff : (Value.str key).same other.1 = other.1.isText key := by
      cases other.1 with
      | str t => simp [same, isText, Bool.beq_comm]
      | _ => simp [same, isText]
    rw [hiff, Bool.eq_iff_iff, Table.isText_iff]
    simp
  induction entries with
  | nil => simp [sameEntries]
  | cons entry rest ih =>
      obtain ⟨k, item⟩ := entry
      obtain ⟨key, hkey⟩ := hentries _ List.mem_cons_self
      obtain rfl : k = .str key := hkey
      have htail := ih fun entry hentry => hentries entry (List.mem_cons_of_mem _ hentry)
      rw [sameEntries, hfind, Bool.and_eq_true]
      refine (and_congr_right fun _ => htail).trans ?_
      simp only [List.mem_cons, forall_eq_or_imp, atom_str, Option.some.injEq]
      refine and_congr_left fun _ => ?_
      cases hfound : Table.slot? others (.text key) with
      | none =>
          simp only [Bool.false_eq_true, false_iff]
          rintro ⟨a, other, rfl, hother, -⟩
          rw [hfound] at hother
          exact absurd hother (by simp)
      | some other =>
          dsimp only
          constructor
          · intro h
            exact ⟨_, other, rfl, hfound, h⟩
          · rintro ⟨a, other', rfl, hother, h⟩
            rw [hfound, Option.some.injEq] at hother
            rw [hother]
            exact h

/-- Entries that are found in a mapping are found in a similar one, where sameness of the items
carries over. -/
theorem sameEntries_similar {R S : Value → Value → Prop}
    {entries entries' others others' : List (Value × Value)}
    (hkeys : ∀ entry ∈ entries, ∃ key, entry.1 = .str key)
    (hkeys' : ∀ entry ∈ entries', ∃ key, entry.1 = .str key) (hkeyed' : Table.Keyed entries')
    (hentries : Table.Similar R entries' entries) (hothers : Table.Similar S others others')
    (hsame : ∀ entry ∈ entries, ∀ entry' ∈ entries', ∀ other ∈ others, ∀ other' ∈ others',
      R entry'.2 entry.2 → S other.2 other'.2 →
        entry.2.same other.2 = true → entry'.2.same other'.2 = true)
    (h : sameEntries entries others = true) : sameEntries entries' others' = true := by
  rw [sameEntries_iff hkeys] at h
  rw [sameEntries_iff hkeys']
  intro entry' hentry'
  -- from an entry of the second mapping to the one of the first under its key, and back
  obtain ⟨a, ha, hfound'⟩ := Table.entry_of_mem hkeyed' hentry'
  obtain ⟨entry, hfound, hkey, hitem⟩ := hentries.some_of_some hfound'
  have hentry := Table.mem_of_entry hfound
  obtain ⟨b, other, hb, hother, hsameItem⟩ := h entry hentry
  obtain rfl : b = a := by
    rw [← hkey, ha, Option.some.injEq] at hb
    exact hb.symm
  obtain ⟨other', hother', -, halike⟩ := hothers.some_of_some hother
  refine ⟨b, other', ha, hother', ?_⟩
  exact hsame entry hentry entry' hentry' other (Table.mem_of_entry hother) other'
    (Table.mem_of_entry hother') hitem halike hsameItem

/-- Being the same does not depend on the order of keys. -/
theorem same_congr {v v' w w' : Value} (hv : Alike v v') (hw : Alike w w')
    (hvjson : v.isJson = true) (hwjson : w.isJson = true) : v.same w = v'.same w' := by
  induction v using nested generalizing v' w w' with
  | hscalar v hscalar =>
      rw [(alike_scalar_iff hscalar v').mp hv]
      rcases alike_cases hw with ⟨-, rfl⟩ | ⟨items, items', rfl, rfl, -⟩ |
        ⟨entries, entries', arranged, rfl, rfl, -, -⟩
      · rfl
      · cases v with
        | list items => exact absurd hscalar (by simp [isScalar])
        | _ => rfl
      · cases v with
        | map entries => exact absurd hscalar (by simp [isScalar])
        | _ => rfl
  | hlist items ih =>
      obtain ⟨items', rfl, hitems⟩ := (alike_list_iff _ _).mp hv
      have hjson := (itemsJson_iff items).mp hvjson
      rcases alike_cases hw with ⟨hscalar, rfl⟩ | ⟨others, others', rfl, rfl, hothers⟩ |
        ⟨entries, entries', arranged, rfl, rfl, -, -⟩
      · cases w' with
        | list others => exact absurd hscalar (by simp [isScalar])
        | _ => rfl
      · exact sameItems_congr (fun item hitem _ _ _ halike hother hother' =>
          ih item hitem halike hother (hjson item hitem) hother') hitems hothers hwjson
      · rfl
  | hmap entries ih =>
      obtain ⟨entries', arranged, rfl, hforall, hperm⟩ := (alike_map_iff _ _).mp hv
      obtain ⟨hkeyed, hjson⟩ := (entriesJson_iff entries).mp hvjson
      obtain ⟨hkeyed', hsimilar⟩ := (alike_map_iff_similar hkeyed).mp hv
      have hjson' := ((entriesJson_iff entries').mp (isJson_of_alike hv hvjson)).2
      rcases alike_cases hw with ⟨hscalar, rfl⟩ | ⟨others, others', rfl, rfl, hothers⟩ |
        ⟨others, others', arranged', rfl, rfl, hforall', hperm'⟩
      · cases w' with
        | map others => exact absurd hscalar (by simp [isScalar])
        | _ => rfl
      · rfl
      · obtain ⟨hkeyedw, hjsonw⟩ := (entriesJson_iff others).mp hwjson
        obtain ⟨-, hsimilarw⟩ := (alike_map_iff_similar hkeyedw).mp hw
        -- each way needs the similarity of the first mapping read backwards
        have hback : Table.Similar (fun x y => Alike y x) entries' entries :=
          hsimilar.symm fun _ _ _ _ h => h
        have hbackw : Table.Similar (fun x y => Alike y x) others' others :=
          hsimilarw.symm fun _ _ _ _ h => h
        have hlength : entries.length = entries'.length :=
          hforall.length_eq.trans hperm.length_eq
        have hlength' : others.length = others'.length :=
          hforall'.length_eq.trans hperm'.length_eq
        simp only [same, hlength, hlength']
        congr 1
        have hsame : ∀ entry ∈ entries, ∀ entry' ∈ entries', ∀ other ∈ others, ∀ other' ∈ others',
            Alike entry.2 entry'.2 → Alike other.2 other'.2 →
              entry.2.same other.2 = entry'.2.same other'.2 :=
          fun entry hentry _ _ other hother _ _ halike halike' =>
            ih entry hentry halike halike' (hjson entry hentry).2 (hjsonw other hother).2
        have hkeys := fun entry hentry => (hjson entry hentry).1
        have hkeys' := fun entry hentry => (hjson' entry hentry).1
        rw [Bool.eq_iff_iff]
        constructor
        · refine sameEntries_similar hkeys hkeys' hkeyed' hback hsimilarw ?_
          intro entry hentry entry' hentry' other hother other' hother' halike halike'
          rw [hsame entry hentry entry' hentry' other hother other' hother' halike halike']
          exact id
        · refine sameEntries_similar hkeys' hkeys hkeyed hsimilar hbackw ?_
          intro entry' hentry' entry hentry other' hother' other hother halike halike'
          rw [hsame entry hentry entry' hentry' other hother other' hother' halike halike']
          exact id

theorem among_congr {v v' : Value} {items items' : List Value} (hv : Alike v v')
    (hitems : List.Forall₂ Alike items items') (hvjson : v.isJson = true)
    (hjson : ∀ item ∈ items, item.isJson = true) : v.among items = v'.among items' := by
  induction hitems with
  | nil => rfl
  | @cons item item' rest rest' hitem hrest ih =>
      simp only [among, List.any_cons] at ih ⊢
      rw [same_congr hitem hv (hjson item List.mem_cons_self) hvjson,
        ih fun a ha => hjson a (List.mem_cons_of_mem _ ha)]

/-- Appending values that are not yet listed does not depend on the order of keys. -/
theorem extendUnique_congr {target target' names names' : List Value}
    (htarget : List.Forall₂ Alike target target') (hnames : List.Forall₂ Alike names names')
    (hjson : ∀ item ∈ target, item.isJson = true) (hjson' : ∀ item ∈ names, item.isJson = true) :
    List.Forall₂ Alike (extendUnique target names) (extendUnique target' names') ∧
      ∀ item ∈ extendUnique target names, item.isJson = true := by
  induction hnames generalizing target target' with
  | nil => exact ⟨htarget, hjson⟩
  | @cons name name' rest rest' hname hrest ih =>
      have hnamejson := hjson' name List.mem_cons_self
      have hrestjson := fun a ha => hjson' a (List.mem_cons_of_mem name ha)
      have hamong := among_congr hname htarget hnamejson hjson
      unfold extendUnique at ih ⊢
      rw [List.foldl_cons, List.foldl_cons, ← hamong]
      cases hlisted : name.among target with
      | true => exact ih htarget hjson hrestjson
      | false =>
          refine ih (List.rel_append htarget (List.Forall₂.cons hname List.Forall₂.nil)) ?_ hrestjson
          intro item hitem
          rcases List.mem_append.mp hitem with hin | hin
          · exact hjson item hin
          · rw [List.mem_singleton.mp hin]
            exact hnamejson

end Sameness

end Value

end SchemaGraph
