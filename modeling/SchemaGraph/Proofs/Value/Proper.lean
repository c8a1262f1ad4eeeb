import SchemaGraph.Proofs.Value.Alike
import SchemaGraph.Proofs.Value.Names

/-!
# Proper values

In a proper value the keys of every mapping are scalars that stand for different things, and so are
the members of every set; every value that was read or handed over is proper.  What a proper value
means does not depend on the order of its keys and members, and two proper values are the same
exactly when they mean the same.  So to be the same is an equivalence between them.
-/

namespace SchemaGraph

namespace Value

/-- Scalars that stand for different things. -/
def Distinct (keys : List Value) : Prop :=
  (∀ key ∈ keys, key.hashable = true) ∧ (keys.map scalar?).Nodup

theorem distinct_nil : Distinct [] := ⟨fun _ hkey => absurd hkey List.not_mem_nil, List.nodup_nil⟩

mutual

/-- Whether keys and members are scalars that stand for different things, all through a value. -/
def Proper : Value → Prop
  | .list items => ItemsProper items
  | .map entries => Distinct (entries.map (·.1)) ∧ EntriesProper entries
  | .set members => Distinct members
  | _ => True

/-- Whether the items of a list are proper. -/
def ItemsProper : List Value → Prop
  | [] => True
  | item :: rest => Proper item ∧ ItemsProper rest

/-- Whether the values of a mapping are proper. -/
def EntriesProper : List (Value × Value) → Prop
  | [] => True
  | (_, item) :: rest => Proper item ∧ EntriesProper rest

end

theorem itemsProper_iff (items : List Value) : ItemsProper items ↔ ∀ item ∈ items, item.Proper := by
  induction items with
  | nil => simp [ItemsProper]
  | cons item rest ih => simp [ItemsProper, ih]

theorem entriesProper_iff (entries : List (Value × Value)) :
    EntriesProper entries ↔ ∀ entry ∈ entries, entry.2.Proper := by
  induction entries with
  | nil => simp [EntriesProper]
  | cons entry rest ih => simp [EntriesProper, ih]

/-- What a value means: a mapping gives a meaning to some scalars, and a set has some of them. -/
inductive Meaning where
  | scalar (a : Option Scalar)
  | list (items : List Meaning)
  | map (given : Scalar → Option Meaning)
  | set (has : Scalar → Bool)

mutual

/-- What a value means. -/
def meaning : Value → Meaning
  | .list items => .list (itemsMeaning items)
  | .map entries => .map (entriesMeaning entries)
  | .set members => .set fun a => members.any fun member => member.scalar? == some a
  | .null => .scalar (scalar? .null)
  | .bool b => .scalar (scalar? (.bool b))
  | .int n => .scalar (scalar? (.int n))
  | .double x => .scalar (scalar? (.double x))
  | .str s => .scalar (scalar? (.str s))
  | .date day => .scalar (scalar? (.date day))
  | .moment time => .scalar (scalar? (.moment time))
  | .bytes octets => .scalar (scalar? (.bytes octets))

/-- What the items of a list mean. -/
def itemsMeaning : List Value → List Meaning
  | [] => []
  | item :: rest => meaning item :: itemsMeaning rest

/-- What the entries of a mapping mean: the first one under a key counts. -/
def entriesMeaning : List (Value × Value) → Scalar → Option Meaning
  | [], _ => none
  | (key, item) :: rest, a =>
    if key.scalar? = some a then some (meaning item) else entriesMeaning rest a

end

theorem meaning_of_hashable {v : Value} (h : v.hashable = true) : v.meaning = .scalar v.scalar? := by
  cases v with
  | list items => cases h
  | map entries => cases h
  | set members => cases h
  | _ => rfl

/-- Of two lists without repetition, one that is as long as the other and lies in it has the same
members. -/
theorem mem_iff_of_nodup {α : Type} {l l' : List α} (h : l.Nodup) (h' : l'.Nodup) :
    l.length = l'.length ∧ l ⊆ l' ↔ ∀ a, a ∈ l ↔ a ∈ l' := by
  constructor
  · rintro ⟨hlength, hsub⟩ a
    exact ((List.subperm_of_subset h hsub).perm_of_length_le hlength.ge).mem_iff
  · intro hmem
    exact ⟨((List.perm_ext_iff_of_nodup h h').mpr hmem).length_eq, fun a ha => (hmem a).mp ha⟩

section Sets

theorem sameMembers_iff {members others : List Value} (hothers : Distinct others) :
    sameMembers members others = true ↔ members.map scalar? ⊆ others.map scalar? := by
  induction members with
  | nil => simp [sameMembers]
  | cons member rest ih =>
      rw [sameMembers, Bool.and_eq_true, ih, List.map_cons, List.cons_subset]
      refine and_congr_left fun _ => ?_
      rw [List.any_eq_true, List.mem_map]
      refine exists_congr fun other => and_congr_right fun hother => ?_
      rw [same_iff_scalar (hothers.1 other hother)]
      exact eq_comm

theorem same_set_iff {members others : List Value} (h : Distinct members)
    (hothers : Distinct others) :
    (Value.set members).same (.set others) = true ↔
      (Value.set members).meaning = (Value.set others).meaning := by
  have hmem : ∀ keys : List Value, Distinct keys → ∀ v, v ∈ keys.map scalar? ↔
      ∃ a, v = some a ∧ (keys.any fun key => key.scalar? == some a) = true := by
    intro keys hkeys v
    rw [List.mem_map]
    constructor
    · rintro ⟨key, hkey, rfl⟩
      obtain ⟨a, ha⟩ := scalar_of_hashable (hkeys.1 key hkey)
      exact ⟨a, ha, List.any_eq_true.mpr ⟨key, hkey, by simp [ha]⟩⟩
    · rintro ⟨a, rfl, hany⟩
      obtain ⟨key, hkey, ha⟩ := List.any_eq_true.mp hany
      exact ⟨key, hkey, by simpa using ha⟩
  have hlength : ∀ keys : List Value, (keys.map scalar?).length = keys.length :=
    fun keys => List.length_map scalar?
  rw [same, Bool.and_eq_true, beq_iff_eq, sameMembers_iff hothers, ← hlength members,
    ← hlength others, mem_iff_of_nodup h.2 hothers.2, meaning, meaning, Meaning.set.injEq]
  constructor
  · intro hsame
    funext a
    have ha := hsame (some a)
    rw [hmem members h, hmem others hothers] at ha
    rw [Bool.eq_iff_iff]
    simpa using ha
  · intro heq v
    rw [hmem members h, hmem others hothers]
    exact exists_congr fun a => and_congr_right fun _ => by rw [congrFun heq a]

end Sets

section Mappings

variable {entries others : List (Value × Value)}

/-- What a mapping means at a key is what the entry there means. -/
theorem entriesMeaning_eq (h : Distinct (entries.map (·.1))) {key : Value} {a : Scalar}
    (ha : key.scalar? = some a) :
    entriesMeaning entries a =
      (entries.find? fun entry => key.same entry.1).map fun entry => entry.2.meaning := by
  induction entries with
  | nil => rfl
  | cons entry rest ih =>
      obtain ⟨k, item⟩ := entry
      have hk : k.hashable = true := h.1 k List.mem_cons_self
      have hrest : Distinct (rest.map (·.1)) :=
        ⟨fun other hother => h.1 other (List.mem_cons_of_mem _ hother), (List.nodup_cons.mp h.2).2⟩
      have hiff : k.scalar? = some a ↔ key.same k = true := by
        rw [same_iff_scalar hk, ha]
        exact eq_comm
      rw [entriesMeaning, List.find?_cons, ih hrest]
      by_cases hsame : key.same k = true
      · rw [if_pos (hiff.mpr hsame), hsame]
        rfl
      · rw [if_neg fun heq => hsame (hiff.mp heq), Bool.not_eq_true _ |>.mp hsame]

/-- A mapping gives a meaning to what its keys stand for. -/
theorem entriesMeaning_eq_some (h : Distinct (entries.map (·.1))) {a : Scalar} {m : Meaning} :
    entriesMeaning entries a = some m ↔
      ∃ entry ∈ entries, entry.1.scalar? = some a ∧ entry.2.meaning = m := by
  induction entries with
  | nil => simp [entriesMeaning]
  | cons entry rest ih =>
      obtain ⟨k, item⟩ := entry
      have hnodup := List.nodup_cons.mp h.2
      have hrest : Distinct (rest.map (·.1)) :=
        ⟨fun other hother => h.1 other (List.mem_cons_of_mem _ hother), hnodup.2⟩
      rw [entriesMeaning, List.exists_mem_cons_iff]
      by_cases hk : k.scalar? = some a
      · rw [if_pos hk, Option.some.injEq]
        refine ⟨fun hm => Or.inl ⟨hk, hm⟩, ?_⟩
        rintro (⟨-, hm⟩ | ⟨entry, hentry, ha, -⟩)
        · exact hm
        · refine absurd ?_ hnodup.1
          rw [List.map_map]
          exact List.mem_map.mpr ⟨entry, hentry, ha.trans hk.symm⟩
      · rw [if_neg hk, ih hrest]
        refine ⟨Or.inr, ?_⟩
        rintro (⟨ha, -⟩ | hfound)
        · exact absurd ha hk
        · exact hfound

/-- What the keys of a mapping stand for is what it gives a meaning to. -/
theorem mem_keys (h : Distinct (entries.map (·.1))) (v : Option Scalar) :
    v ∈ (entries.map (·.1)).map scalar? ↔
      ∃ a, v = some a ∧ (entriesMeaning entries a).isSome = true := by
  rw [List.map_map, List.mem_map]
  constructor
  · rintro ⟨entry, hentry, rfl⟩
    obtain ⟨a, ha⟩ := scalar_of_hashable (h.1 _ (List.mem_map_of_mem hentry))
    refine ⟨a, ha, Option.isSome_iff_exists.mpr ⟨entry.2.meaning, ?_⟩⟩
    exact (entriesMeaning_eq_some h).mpr ⟨entry, hentry, ha, rfl⟩
  · rintro ⟨a, rfl, hsome⟩
    obtain ⟨m, hm⟩ := Option.isSome_iff_exists.mp hsome
    obtain ⟨entry, hentry, ha, -⟩ := (entriesMeaning_eq_some h).mp hm
    exact ⟨entry, hentry, ha⟩

theorem sameEntries_iff_meaning (hentries : ∀ entry ∈ entries, entry.1.hashable = true)
    (hothers : Distinct (others.map (·.1)))
    (hsame : ∀ entry ∈ entries, ∀ other ∈ others,
      (entry.2.same other.2 = true ↔ entry.2.meaning = other.2.meaning)) :
    sameEntries entries others = true ↔
      ∀ entry ∈ entries, ∀ a, entry.1.scalar? = some a →
        entriesMeaning others a = some entry.2.meaning := by
  induction entries with
  | nil => simp [sameEntries]
  | cons entry rest ih =>
      obtain ⟨key, item⟩ := entry
      obtain ⟨a, ha⟩ := scalar_of_hashable (hentries _ List.mem_cons_self)
      have htail := ih (fun entry hentry => hentries entry (List.mem_cons_of_mem _ hentry))
        fun entry hentry => hsame entry (List.mem_cons_of_mem _ hentry)
      rw [sameEntries, Bool.and_eq_true, htail, List.forall_mem_cons]
      refine and_congr_left fun _ => ?_
      change _ ↔ ∀ b, key.scalar? = some b → entriesMeaning others b = some item.meaning
      have hone : (∀ b, key.scalar? = some b → entriesMeaning others b = some item.meaning) ↔
          entriesMeaning others a = some item.meaning :=
        ⟨fun h => h a ha, fun h b hb => Option.some.inj (ha.symm.trans hb) ▸ h⟩
      rw [hone, entriesMeaning_eq hothers ha]
      cases hfound : others.find? fun entry => key.same entry.1 with
      | none => simp
      | some other =>
          dsimp only
          rw [hsame _ List.mem_cons_self other (List.mem_of_find?_eq_some hfound),
            Option.map_some, Option.some.injEq]
          exact eq_comm

theorem same_map_iff (h : Distinct (entries.map (·.1))) (hothers : Distinct (others.map (·.1)))
    (hsame : ∀ entry ∈ entries, ∀ other ∈ others,
      (entry.2.same other.2 = true ↔ entry.2.meaning = other.2.meaning)) :
    (Value.map entries).same (.map others) = true ↔
      (Value.map entries).meaning = (Value.map others).meaning := by
  have hhashable : ∀ entry ∈ entries, entry.1.hashable = true := fun entry hentry =>
    h.1 _ (List.mem_map_of_mem hentry)
  rw [same, Bool.and_eq_true, beq_iff_eq, sameEntries_iff_meaning hhashable hothers hsame, meaning,
    meaning, Meaning.map.injEq]
  constructor
  · rintro ⟨hlength, hgiven⟩
    -- every entry is found among the others, which are as many, so every other one is such an entry
    have hkeys := (mem_iff_of_nodup h.2 hothers.2).mp ⟨by simpa using hlength, fun v hv => ?_⟩
    · funext a
      rw [Option.ext_iff]
      intro m
      constructor
      · rw [entriesMeaning_eq_some h]
        rintro ⟨entry, hentry, ha, rfl⟩
        exact hgiven entry hentry a ha
      · intro hm
        obtain ⟨other, hother, ha, -⟩ := (entriesMeaning_eq_some hothers).mp hm
        have hin : other.1.scalar? ∈ (others.map (·.1)).map scalar? :=
          List.mem_map_of_mem (List.mem_map_of_mem hother)
        obtain ⟨key, hkey, hscalar⟩ := List.mem_map.mp ((hkeys _).mpr hin)
        obtain ⟨entry, hentry, rfl⟩ := List.mem_map.mp hkey
        have hfound := hgiven entry hentry a (hscalar.trans ha)
        refine (entriesMeaning_eq_some h).mpr ⟨entry, hentry, hscalar.trans ha, ?_⟩
        exact Option.some.inj (hfound.symm.trans hm)
    · obtain ⟨key, hkey, rfl⟩ := List.mem_map.mp hv
      obtain ⟨entry, hentry, rfl⟩ := List.mem_map.mp hkey
      obtain ⟨a, ha⟩ := scalar_of_hashable (hhashable entry hentry)
      obtain ⟨other, hother, hscalar, -⟩ :=
        (entriesMeaning_eq_some hothers).mp (hgiven entry hentry a ha)
      rw [ha, ← hscalar]
      exact List.mem_map_of_mem (List.mem_map_of_mem hother)
  · intro heq
    have hgiven : ∀ entry ∈ entries, ∀ a, entry.1.scalar? = some a →
        entriesMeaning others a = some entry.2.meaning := by
      intro entry hentry a ha
      rw [← heq]
      exact (entriesMeaning_eq_some h).mpr ⟨entry, hentry, ha, rfl⟩
    refine ⟨?_, hgiven⟩
    have hkeys : ∀ v, v ∈ (entries.map (·.1)).map scalar? ↔ v ∈ (others.map (·.1)).map scalar? := by
      intro v
      rw [mem_keys h, mem_keys hothers, heq]
    simpa using ((mem_iff_of_nodup h.2 hothers.2).mpr hkeys).1

end Mappings

/-- Only scalars mean what a scalar means. -/
theorem meaning_eq_scalar {v : Value} {a : Option Scalar} (h : v.meaning = .scalar a) :
    v.hashable = true ∧ v.scalar? = a := by
  cases v with
  | list items => rw [meaning] at h; cases h
  | map entries => rw [meaning] at h; cases h
  | set members => rw [meaning] at h; cases h
  | _ => exact ⟨rfl, Meaning.scalar.inj h⟩

theorem same_iff_meaning_of_hashable {v w : Value} (hw : w.hashable = true) :
    v.same w = true ↔ v.meaning = w.meaning := by
  rw [same_iff_scalar hw, meaning_of_hashable hw]
  refine ⟨fun h => ?_, fun h => (meaning_eq_scalar h).2⟩
  have hv : v.hashable = true := by
    obtain ⟨a, ha⟩ := scalar_of_hashable hw
    rw [ha] at h
    cases v with
    | list items => cases h
    | map entries => cases h
    | set members => cases h
    | _ => rfl
  rw [meaning_of_hashable hv, h]

/-- A scalar is the same only as a scalar. -/
theorem hashable_of_same {v w : Value} (hv : v.hashable = true) (h : v.same w = true) :
    w.hashable = true := by
  cases w with
  | list items => cases v <;> first | cases h | cases hv
  | map entries => cases v <;> first | cases h | cases hv
  | set members => cases v <;> first | cases h | cases hv
  | _ => rfl

theorem sameItems_iff_meaning {items others : List Value}
    (hsame : ∀ item ∈ items, ∀ other ∈ others,
      (item.same other = true ↔ item.meaning = other.meaning)) :
    sameItems items others = true ↔ itemsMeaning items = itemsMeaning others := by
  induction items generalizing others with
  | nil => cases others <;> simp [sameItems, itemsMeaning]
  | cons item rest ih =>
      cases others with
      | nil => simp [sameItems, itemsMeaning]
      | cons other tail =>
          rw [sameItems, itemsMeaning, itemsMeaning, Bool.and_eq_true, List.cons.injEq,
            hsame item List.mem_cons_self other List.mem_cons_self,
            ih fun v hv w hw => hsame v (List.mem_cons_of_mem _ hv) w (List.mem_cons_of_mem _ hw)]

/-- Proper values are the same exactly when they mean the same. -/
theorem same_iff_meaning {v w : Value} (hv : v.Proper) (hw : w.Proper) :
    v.same w = true ↔ v.meaning = w.meaning := by
  induction v using nested generalizing w with
  | hscalar v hscalar =>
      cases v with
      | set members =>
          cases w with
          | set others => rw [Proper] at hv hw; exact same_set_iff hv hw
          | _ => simp [same, meaning]
      | list items => cases hscalar
      | map entries => cases hscalar
      | _ =>
          -- a value that is no scalar neither is the same as one nor means the same
          by_cases hhashable : w.hashable = true
          · exact same_iff_meaning_of_hashable hhashable
          · refine iff_of_false (fun h => hhashable (hashable_of_same rfl h)) fun h => hhashable ?_
            exact (meaning_eq_scalar (h.symm.trans (meaning_of_hashable rfl))).1
  | hlist items ih =>
      cases w with
      | list others =>
          rw [Proper, itemsProper_iff] at hv hw
          rw [same, meaning, meaning, Meaning.list.injEq]
          exact sameItems_iff_meaning fun item hitem other hother =>
            ih item hitem (hv item hitem) (hw other hother)
      | _ => simp [same, meaning]
  | hmap entries ih =>
      cases w with
      | map others =>
          rw [Proper, entriesProper_iff] at hv hw
          exact same_map_iff hv.1 hw.1 fun entry hentry other hother =>
            ih entry hentry (hv.2 entry hentry) (hw.2 other hother)
      | _ => simp [same, meaning]

end Value

end SchemaGraph
