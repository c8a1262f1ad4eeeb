import Mathlib.Data.List.Perm.Basic
import SchemaGraph.Proofs.Value.Similar

/-!
# Values up to the order of keys

Two values are alike when they are equal but for the order in which the keys of their mappings
stand, at any depth.  Being alike is an equivalence, and what is asked of values in resolving does
not tell alike ones apart.
-/

namespace SchemaGraph

namespace Value

/-- Whether a value has no parts that could stand in another order. -/
def isScalar : Value → Bool
  | .list _ | .map _ => false
  | _ => true

mutual

/-- Equal up to the order of keys. -/
def Alike : Value → Value → Prop
  | .list items, w => ∃ items', w = .list items' ∧ AlikeItems items items'
  | .map entries, w => ∃ entries', w = .map entries' ∧ AlikeEntries entries entries'
  | v, w => w = v

/-- Items alike at every position. -/
def AlikeItems : List Value → List Value → Prop
  | [], items' => items' = []
  | item :: rest, items' =>
      ∃ item' rest', items' = item' :: rest' ∧ Alike item item' ∧ AlikeItems rest rest'

/-- Entries with the same keys and values alike under them, in any order. -/
def AlikeEntries : List (Value × Value) → List (Value × Value) → Prop
  | [], entries' => entries' = []
  | (key, item) :: rest, entries' =>
      ∃ front item' back, entries' = front ++ (key, item') :: back ∧ Alike item item' ∧
        AlikeEntries rest (front ++ back)

end

theorem alikeItems_iff (items items' : List Value) :
    AlikeItems items items' ↔ List.Forall₂ Alike items items' := by
  induction items generalizing items' with
  | nil => simp [AlikeItems]
  | cons item rest ih =>
      rw [AlikeItems, List.forall₂_cons_left_iff]
      constructor
      · rintro ⟨item', rest', rfl, hitem, hrest⟩
        exact ⟨item', rest', hitem, (ih rest').mp hrest, rfl⟩
      · rintro ⟨item', rest', hitem, hrest, rfl⟩
        exact ⟨item', rest', rfl, hitem, (ih rest').mpr hrest⟩

/-- Entries are alike when one list is a rearrangement of the other, with alike values. -/
theorem alikeEntries_iff (entries entries' : List (Value × Value)) :
    AlikeEntries entries entries' ↔
      ∃ arranged, List.Forall₂ (Table.EntryRel Alike) entries arranged ∧
        List.Perm arranged entries' := by
  induction entries generalizing entries' with
  | nil =>
      rw [AlikeEntries]
      constructor
      · rintro rfl
        exact ⟨[], List.Forall₂.nil, List.Perm.nil⟩
      · rintro ⟨arranged, hforall, hperm⟩
        rw [List.forall₂_nil_left_iff.mp hforall] at hperm
        exact hperm.symm.eq_nil
  | cons entry rest ih =>
      obtain ⟨key, item⟩ := entry
      rw [AlikeEntries]
      constructor
      · rintro ⟨front, item', back, rfl, hitem, hrest⟩
        obtain ⟨arranged, hforall, hperm⟩ := (ih (front ++ back)).mp hrest
        exact ⟨(key, item') :: arranged, List.Forall₂.cons ⟨rfl, hitem⟩ hforall,
          (hperm.cons (key, item')).trans List.perm_middle.symm⟩
      · rintro ⟨arranged, hforall, hperm⟩
        obtain ⟨⟨key', item'⟩, others, ⟨hkey, hitem⟩, hothers, rfl⟩ :=
          List.forall₂_cons_left_iff.mp hforall
        obtain rfl : key = key' := hkey
        obtain ⟨front, back, rfl⟩ :=
          List.append_of_mem (hperm.subset List.mem_cons_self)
        refine ⟨front, item', back, rfl, hitem, (ih (front ++ back)).mpr ⟨others, hothers, ?_⟩⟩
        exact (hperm.trans List.perm_middle).cons_inv

theorem alike_list_iff (items : List Value) (w : Value) :
    Alike (.list items) w ↔ ∃ items', w = .list items' ∧ List.Forall₂ Alike items items' := by
  rw [Alike]
  simp only [alikeItems_iff]

theorem alike_map_iff (entries : List (Value × Value)) (w : Value) :
    Alike (.map entries) w ↔
      ∃ entries' arranged, w = .map entries' ∧
        List.Forall₂ (Table.EntryRel Alike) entries arranged ∧ List.Perm arranged entries' := by
  rw [Alike]
  simp only [alikeEntries_iff]
  constructor
  · rintro ⟨entries', rfl, arranged, hforall, hperm⟩
    exact ⟨entries', arranged, rfl, hforall, hperm⟩
  · rintro ⟨entries', arranged, rfl, hforall, hperm⟩
    exact ⟨entries', rfl, arranged, hforall, hperm⟩

theorem alike_scalar_iff {v : Value} (h : v.isScalar = true) (w : Value) : Alike v w ↔ w = v := by
  cases v with
  | list items => exact absurd h (by simp [isScalar])
  | map entries => exact absurd h (by simp [isScalar])
  | _ => rfl

mutual

/-- What holds of a value if it holds of its parts holds of every value. -/
theorem nested {P : Value → Prop} (hscalar : ∀ v : Value, v.isScalar = true → P v)
    (hlist : ∀ items, (∀ item ∈ items, P item) → P (.list items))
    (hmap : ∀ entries, (∀ entry ∈ entries, P entry.2) → P (.map entries)) : ∀ v : Value, P v
  | .null => hscalar _ rfl
  | .bool _ => hscalar _ rfl
  | .int _ => hscalar _ rfl
  | .double _ => hscalar _ rfl
  | .str _ => hscalar _ rfl
  | .list items => hlist items (nestedItems hscalar hlist hmap items)
  | .map entries => hmap entries (nestedEntries hscalar hlist hmap entries)
  | .date _ => hscalar _ rfl
  | .moment _ => hscalar _ rfl
  | .bytes _ => hscalar _ rfl
  | .set _ => hscalar _ rfl

theorem nestedItems {P : Value → Prop} (hscalar : ∀ v : Value, v.isScalar = true → P v)
    (hlist : ∀ items, (∀ item ∈ items, P item) → P (.list items))
    (hmap : ∀ entries, (∀ entry ∈ entries, P entry.2) → P (.map entries)) :
    ∀ items : List Value, ∀ item ∈ items, P item
  | [], _, h => absurd h (by simp)
  | first :: rest, item, h => by
      rcases List.mem_cons.mp h with heq | hin
      · rw [heq]
        exact nested hscalar hlist hmap first
      · exact nestedItems hscalar hlist hmap rest item hin

theorem nestedEntries {P : Value → Prop} (hscalar : ∀ v : Value, v.isScalar = true → P v)
    (hlist : ∀ items, (∀ item ∈ items, P item) → P (.list items))
    (hmap : ∀ entries, (∀ entry ∈ entries, P entry.2) → P (.map entries)) :
    ∀ entries : List (Value × Value), ∀ entry ∈ entries, P entry.2
  | [], _, h => absurd h (by simp)
  | (_, first) :: rest, entry, h => by
      rcases List.mem_cons.mp h with heq | hin
      · rw [heq]
        exact nested hscalar hlist hmap first
      · exact nestedEntries hscalar hlist hmap rest entry hin

end

section Equivalence

theorem forall₂_flip {α β : Type} {R : α → β → Prop} {S : β → α → Prop} {l : List α} {m : List β}
    (h : List.Forall₂ R l m) (himp : ∀ a ∈ l, ∀ b, R a b → S b a) : List.Forall₂ S m l := by
  induction h with
  | nil => exact List.Forall₂.nil
  | @cons a b l m hab htail ih =>
      exact List.Forall₂.cons (himp a List.mem_cons_self b hab)
        (ih fun a' ha' => himp a' (List.mem_cons_of_mem _ ha'))

theorem forall₂_comp {α β γ : Type} {R : α → β → Prop} {S : β → γ → Prop} {T : α → γ → Prop}
    {l : List α} {m : List β} {n : List γ} (h : List.Forall₂ R l m) (h' : List.Forall₂ S m n)
    (himp : ∀ a ∈ l, ∀ b c, R a b → S b c → T a c) : List.Forall₂ T l n := by
  induction h generalizing n with
  | nil =>
      rw [List.forall₂_nil_left_iff.mp h']
      exact List.Forall₂.nil
  | @cons a b l m hab htail ih =>
      obtain ⟨c, n, hbc, hrest, rfl⟩ := List.forall₂_cons_left_iff.mp h'
      exact List.Forall₂.cons (himp a List.mem_cons_self b c hab hbc)
        (ih hrest fun a' ha' => himp a' (List.mem_cons_of_mem _ ha'))

theorem alike_refl (v : Value) : Alike v v := by
  induction v using nested with
  | hscalar v h => exact (alike_scalar_iff h v).mpr rfl
  | hlist items ih => exact (alike_list_iff _ _).mpr ⟨items, rfl, List.forall₂_same.mpr ih⟩
  | hmap entries ih =>
      refine (alike_map_iff _ _).mpr ⟨entries, entries, rfl, List.forall₂_same.mpr ?_, .rfl⟩
      exact fun entry hentry => ⟨rfl, ih entry hentry⟩

theorem alike_symm {v w : Value} (h : Alike v w) : Alike w v := by
  induction v using nested generalizing w with
  | hscalar v hv =>
      rw [(alike_scalar_iff hv w).mp h]
      exact alike_refl v
  | hlist items ih =>
      obtain ⟨items', rfl, hitems⟩ := (alike_list_iff _ _).mp h
      exact (alike_list_iff _ _).mpr ⟨items, rfl, forall₂_flip hitems fun a ha b hab => ih a ha hab⟩
  | hmap entries ih =>
      obtain ⟨entries', arranged, rfl, hforall, hperm⟩ := (alike_map_iff _ _).mp h
      have hback : List.Forall₂ (Table.EntryRel Alike) arranged entries :=
        forall₂_flip hforall fun a ha b hab => ⟨hab.1.symm, ih a ha hab.2⟩
      obtain ⟨arranged', hforall', hperm'⟩ := List.perm_comp_forall₂ hperm.symm hback
      exact (alike_map_iff _ _).mpr ⟨entries, arranged', rfl, hforall', hperm'⟩

theorem alike_trans {u v w : Value} (h : Alike u v) (h' : Alike v w) : Alike u w := by
  induction u using nested generalizing v w with
  | hscalar u hu =>
      rw [(alike_scalar_iff hu v).mp h] at h'
      exact h'
  | hlist items ih =>
      obtain ⟨items', rfl, hitems⟩ := (alike_list_iff _ _).mp h
      obtain ⟨items'', rfl, hitems'⟩ := (alike_list_iff _ _).mp h'
      exact (alike_list_iff _ _).mpr
        ⟨items'', rfl, forall₂_comp hitems hitems' fun a ha b c hab hbc => ih a ha hab hbc⟩
  | hmap entries ih =>
      obtain ⟨entries', arranged, rfl, hforall, hperm⟩ := (alike_map_iff _ _).mp h
      obtain ⟨entries'', arranged', rfl, hforall', hperm'⟩ := (alike_map_iff _ _).mp h'
      obtain ⟨arranged'', hforall'', hperm''⟩ := List.perm_comp_forall₂ hperm hforall'
      refine (alike_map_iff _ _).mpr ⟨entries'', arranged'', rfl, ?_, hperm''.trans hperm'⟩
      exact forall₂_comp hforall hforall'' fun a ha b c hab hbc =>
        ⟨hab.1.trans hbc.1, ih a ha hab.2 hbc.2⟩

end Equivalence

/-- Mappings with keys for different things are alike when their entries are. -/
theorem alike_map_iff_similar {entries entries' : List (Value × Value)}
    (hkeyed : Table.Keyed entries) :
    Alike (.map entries) (.map entries') ↔
      Table.Keyed entries' ∧ Table.Similar Alike entries entries' := by
  constructor
  · intro h
    obtain ⟨entries'', arranged, heq, hforall, hperm⟩ := (alike_map_iff _ _).mp h
    obtain rfl := Value.map.inj heq
    obtain ⟨hkeyed', hsame⟩ := Table.entry_perm hperm (Table.keyed_of_forall hforall hkeyed)
    refine ⟨hkeyed', ?_⟩
    intro a
    rw [← hsame]
    exact Table.entry_map hforall a
  · rintro ⟨hkeyed', hsimilar⟩
    obtain ⟨arranged, hforall, hperm⟩ := hsimilar.exists_perm hkeyed hkeyed'
    exact (alike_map_iff _ _).mpr ⟨entries', arranged, rfl, hforall, hperm⟩

end Value

end SchemaGraph
