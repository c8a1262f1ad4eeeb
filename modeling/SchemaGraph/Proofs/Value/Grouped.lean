import SchemaGraph.Proofs.Value.Proper

/-!
# Listing and writing in groups

Names are listed, and entries written to a table, one after the other.  It makes no difference whether
some of them are brought together first and then listed or written as one group: each name still
stands where it first occurs, and each entry is still the last one under its key.
-/

namespace SchemaGraph

namespace Value

theorem proper_of_hashable {v : Value} (h : v.hashable = true) : v.Proper := by
  cases v with
  | list items => cases h
  | map entries => cases h
  | set members => cases h
  | _ => trivial

variable {listed names others : List Value}

theorem among_iff_meaning {v : Value} {items : List Value} (hv : v.Proper)
    (hitems : ∀ item ∈ items, item.Proper) : v.among items = true ↔ v.meaning ∈ items.map meaning := by
  unfold among
  rw [List.any_eq_true, List.mem_map]
  exact exists_congr fun item => and_congr_right fun hitem => same_iff_meaning (hitems item hitem) hv

theorem extendUnique_proper (hlisted : ∀ item ∈ listed, item.Proper)
    (hnames : ∀ name ∈ names, name.Proper) : ∀ item ∈ extendUnique listed names, item.Proper := by
  induction names generalizing listed with
  | nil => exact hlisted
  | cons name rest ih =>
      rw [extendUnique_cons]
      refine ih ?_ fun other hother => hnames other (List.mem_cons_of_mem _ hother)
      intro item hitem
      split at hitem
      · exact hlisted item hitem
      · rcases List.mem_append.mp hitem with hin | hin
        · exact hlisted item hin
        · rw [List.mem_singleton.mp hin]
          exact hnames name List.mem_cons_self

/-- What is listed stays listed. -/
theorem mem_extendUnique_left {item : Value} (h : item ∈ listed) :
    item ∈ extendUnique listed names := by
  rw [extendUnique_eq]
  exact List.mem_append_left _ h

/-- What is among some names is listed after them. -/
theorem among_extendUnique {v : Value} (hv : v.Proper) (hlisted : ∀ item ∈ listed, item.Proper)
    (hnames : ∀ name ∈ names, name.Proper) (h : v.among names = true) :
    v.among (extendUnique listed names) = true := by
  induction names generalizing listed with
  | nil => cases h
  | cons name rest ih =>
      have hname := hnames name List.mem_cons_self
      have hrest : ∀ other ∈ rest, other.Proper := fun other hother =>
        hnames other (List.mem_cons_of_mem _ hother)
      have hone : ∀ other ∈ [name], other.Proper := List.forall_mem_singleton.mpr hname
      have hnext : ∀ item ∈ (if name.among listed then listed else listed ++ [name]),
          item.Proper := extendUnique_proper hlisted hone
      rw [extendUnique_cons]
      rw [among, List.any_cons, Bool.or_eq_true] at h
      rcases h with hsame | hin
      · -- the name itself is listed by now, or one that means the same
        have hmeaning := (same_iff_meaning hname hv).mp hsame
        refine (among_iff_meaning hv (extendUnique_proper hnext hrest)).mpr ?_
        rw [← hmeaning]
        suffices hlist : name.meaning ∈
            (if name.among listed then listed else listed ++ [name]).map meaning by
          obtain ⟨item, hitem, heq⟩ := List.mem_map.mp hlist
          exact heq ▸ List.mem_map_of_mem (mem_extendUnique_left hitem)
        split
        · rename_i hamong
          exact (among_iff_meaning hname hlisted).mp hamong
        · simp
      · exact ih hnext hrest hin

/-- Names that are listed as one group are listed as if one after the other. -/
theorem extendUnique_extendUnique (hlisted : ∀ item ∈ listed, item.Proper)
    (hnames : ∀ name ∈ names, name.Proper) (hothers : ∀ name ∈ others, name.Proper) :
    extendUnique listed (extendUnique names others) =
      extendUnique (extendUnique listed names) others := by
  induction others using List.reverseRecOn with
  | nil => rfl
  | append_singleton rest name ih =>
      have hrest : ∀ other ∈ rest, other.Proper := fun other hother =>
        hothers other (List.mem_append_left _ hother)
      have hname : name.Proper := hothers name (by simp)
      have hgroup := extendUnique_proper hnames hrest
      rw [extendUnique_append, extendUnique_append, ← ih hrest]
      rw [extendUnique_cons (extendUnique names rest)]
      split
      · rename_i hamong
        rw [extendUnique_cons, if_pos (among_extendUnique hname hlisted hgroup hamong)]
        rfl
      · exact extendUnique_append listed (extendUnique names rest) [name]

/-- New names that are listed where they are not yet keep the names distinct. -/
theorem distinct_extendUnique (hlisted : Distinct listed)
    (hnames : ∀ name ∈ names, name.hashable = true) : Distinct (extendUnique listed names) := by
  induction names generalizing listed with
  | nil => exact hlisted
  | cons name rest ih =>
      have hname := hnames name List.mem_cons_self
      rw [extendUnique_cons]
      refine ih ?_ fun other hother => hnames other (List.mem_cons_of_mem _ hother)
      split
      · exact hlisted
      · rename_i hnew
        refine ⟨?_, ?_⟩
        · intro key hkey
          rcases List.mem_append.mp hkey with hin | hin
          · exact hlisted.1 key hin
          · rw [List.mem_singleton.mp hin]
            exact hname
        · rw [List.map_append, List.map_singleton, ← List.concat_eq_append, List.nodup_concat]
          refine ⟨fun hin => hnew ?_, hlisted.2⟩
          obtain ⟨key, hkey, hscalar⟩ := List.mem_map.mp hin
          exact List.any_eq_true.mpr ⟨key, hkey, (same_iff_scalar hname).mpr hscalar⟩

end Value

namespace Table

open Value

variable {α : Type} {table other entries : Table α}

theorem distinct_tail {entry : Value × α} (h : Distinct (keys (entry :: table))) :
    Distinct (keys table) :=
  ⟨fun key hkey => h.1 key (List.mem_cons_of_mem _ hkey), (List.nodup_cons.mp h.2).2⟩

/-- The first key of a table is not the same as any other key. -/
theorem head_apart {entry : Value × α} (h : Distinct (keys (entry :: table))) {key : Value}
    (hkey : key ∈ keys table) : entry.1.same key = false := by
  rw [Bool.eq_false_iff]
  intro hsame
  have hscalar := (same_iff_scalar (h.1 key (List.mem_cons_of_mem _ hkey))).mp hsame
  exact (List.nodup_cons.mp h.2).1 (hscalar ▸ List.mem_map_of_mem hkey)

/-- Every entry of a table with distinct keys is found. -/
theorem get_of_mem (h : Distinct (keys table)) {entry : Value × α} (hentry : entry ∈ table) :
    table.get? entry.1 = some entry.2 := by
  induction table with
  | nil => cases hentry
  | cons first rest ih =>
      rw [get_cons]
      rcases List.mem_cons.mp hentry with rfl | hin
      · rw [if_pos ((same_iff_scalar (h.1 _ List.mem_cons_self)).mpr rfl)]
      · rw [if_neg (by rw [head_apart h (List.mem_map_of_mem hin)]; simp), ih (distinct_tail h) hin]

/-- Two tables with the same distinct keys and the same items under them are equal. -/
theorem eq_of_get {table' : Table α} (h : Distinct (keys table)) (hkeys : keys table = keys table')
    (hget : ∀ key ∈ keys table, table.get? key = table'.get? key) : table = table' := by
  have hdistinct' : Distinct (keys table') := hkeys ▸ h
  refine List.ext_getElem ?_ fun i hi hi' => ?_
  · simpa [keys] using congrArg List.length hkeys
  · have hkey : table[i].1 = table'[i].1 := by
      have hat := congrArg (fun l => l[i]?) hkeys
      simpa [keys, hi, hi'] using hat
    have hitem := hget table[i].1 (List.mem_map_of_mem (List.getElem_mem hi))
    rw [get_of_mem h (List.getElem_mem hi), hkey, get_of_mem hdistinct' (List.getElem_mem hi'),
      Option.some.injEq] at hitem
    exact Prod.ext hkey hitem

/-- Where keys are distinct, the last item under a name is the first one. -/
theorem last_of_distinct (h : Distinct (keys table)) {name : Value} (hname : name.hashable = true) :
    table.last? name = table.get? name := by
  induction table with
  | nil => rfl
  | cons entry rest ih =>
      rw [last_cons, get_cons, ih (distinct_tail h)]
      split
      · rename_i hsame
        cases hrest : get? rest name with
        | none => rfl
        | some item =>
            -- another key would be the same as the first one
            have hamong : (get? rest name).isSome = true := by rw [hrest]; rfl
            rw [get_isSome] at hamong
            obtain ⟨key, hkey, hother⟩ := List.any_eq_true.mp hamong
            have happart := head_apart h hkey
            rw [same_of_name hname hsame hother] at happart
            cases happart
      · exact Option.or_none

theorem distinct_putAll (htable : Distinct (keys table))
    (hentries : ∀ key ∈ keys entries, key.hashable = true) : Distinct (keys (putAll table entries)) := by
  rw [keys_putAll]
  exact distinct_extendUnique htable hentries

/-- Entries that are written as one group are written as if one after the other. -/
theorem putAll_putAll (htable : Distinct (keys table)) (hother : Distinct (keys other))
    (hentries : ∀ key ∈ keys entries, key.hashable = true) :
    putAll table (putAll other entries) = putAll (putAll table other) entries := by
  have hgroup := distinct_putAll hother hentries
  have hproper : ∀ {names : List Value}, (∀ name ∈ names, name.hashable = true) →
      ∀ name ∈ names, name.Proper := fun h name hname => proper_of_hashable (h name hname)
  refine eq_of_get (distinct_putAll htable hgroup.1) ?_ fun key hkey => ?_
  · rw [keys_putAll, keys_putAll, keys_putAll, keys_putAll,
      extendUnique_extendUnique (hproper htable.1) (hproper hother.1) (hproper hentries)]
  · have hname := (distinct_putAll htable hgroup.1).1 key hkey
    rw [get_putAll hname, get_putAll hname, get_putAll hname, last_of_distinct hgroup hname,
      get_putAll hname, last_of_distinct hother hname, Option.or_assoc]

end Table

end SchemaGraph
