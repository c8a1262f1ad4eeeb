import SchemaGraph.Value
import SchemaGraph.Proofs.Number.Exact

/-!
# What a key stands for

A key stands for a text, a rational or nothing.  Keys that stand for something are the same exactly
when they stand for the same thing, whatever the form of a number; so sameness of keys is an
equivalence.
-/

namespace SchemaGraph

/-!
### Values of JSON

A value of JSON has texts as keys, each once in its mapping, and finite numbers; it holds no dates,
octets or sets.
-/

namespace Value

mutual

/-- Whether a value is one of JSON. -/
def isJson : Value → Bool
  | .null | .bool _ | .int _ | .str _ => true
  | .double x => x.isMachine
  | .list items => itemsJson items
  | .map entries => entriesJson entries
  | .date _ | .moment _ | .bytes _ | .set _ => false

/-- Whether the items of a list are values of JSON. -/
def itemsJson : List Value → Bool
  | [] => true
  | item :: rest => isJson item && itemsJson rest

/-- Whether entries have different texts as keys and values of JSON under them. -/
def entriesJson : List (Value × Value) → Bool
  | [] => true
  | (.str key, item) :: rest => !Table.has rest key && isJson item && entriesJson rest
  | _ :: _ => false

end

theorem isJson_of_mem_items {items : List Value} (h : itemsJson items = true) {item : Value}
    (hitem : item ∈ items) : item.isJson = true := by
  induction items with
  | nil => exact absurd hitem (by simp)
  | cons first rest ih =>
      simp only [itemsJson, Bool.and_eq_true] at h
      rcases List.mem_cons.mp hitem with rfl | hin
      · exact h.1
      · exact ih h.2 hin

/-- The parts of entries of JSON: a text as key that does not come again, and a value. -/
theorem entriesJson_cons {entry : Value × Value} {rest : List (Value × Value)}
    (h : entriesJson (entry :: rest) = true) :
    ∃ key item, entry = (.str key, item) ∧ Table.has rest key = false ∧ item.isJson = true ∧
      entriesJson rest = true := by
  obtain ⟨k, item⟩ := entry
  cases k with
  | str key =>
      simp only [entriesJson, Bool.and_eq_true, Bool.not_eq_true'] at h
      exact ⟨key, item, rfl, h.1.1, h.1.2, h.2⟩
  | null => exact absurd h (by simp [entriesJson])
  | bool b => exact absurd h (by simp [entriesJson])
  | int n => exact absurd h (by simp [entriesJson])
  | double x => exact absurd h (by simp [entriesJson])
  | list items => exact absurd h (by simp [entriesJson])
  | map entries => exact absurd h (by simp [entriesJson])
  | date day => exact absurd h (by simp [entriesJson])
  | moment time => exact absurd h (by simp [entriesJson])
  | bytes octets => exact absurd h (by simp [entriesJson])
  | set members => exact absurd h (by simp [entriesJson])

theorem isJson_of_mem_entries {entries : List (Value × Value)} (h : entriesJson entries = true)
    {entry : Value × Value} (hentry : entry ∈ entries) :
    (∃ key, entry.1 = .str key) ∧ entry.2.isJson = true := by
  induction entries with
  | nil => exact absurd hentry (by simp)
  | cons first rest ih =>
      obtain ⟨key, item, rfl, -, hitem, hrest⟩ := entriesJson_cons h
      rcases List.mem_cons.mp hentry with rfl | hin
      · exact ⟨⟨key, rfl⟩, hitem⟩
      · exact ih hrest hin

end Value

/-! ### Keys -/

/-- What a key stands for. -/
inductive Atom where
  | null
  | number (q : ℚ)
  | text (s : String)
  deriving DecidableEq

namespace Value

/-- What a value stands for as a key; values that have parts, and infinite numbers, stand for
nothing. -/
def atom? : Value → Option Atom
  | .null => some .null
  | .bool b => some (.number (if b then 1 else 0))
  | .int n => some (.number n)
  | .double x => if x.isFinite then some (.number x.value) else none
  | .str s => some (.text s)
  | _ => none

@[simp] theorem atom_str (s : String) : (Value.str s).atom? = some (.text s) := rfl

/-- A number or a truth value that stands for a rational. -/
theorem number_of_atom {v : Value} {q : ℚ} (h : v.atom? = some (.number q)) :
    ∃ n, v.number? = some n ∧ n.isFinite = true ∧ n.value = q := by
  cases v with
  | null => exact absurd h (by simp [atom?])
  | bool b =>
      simp only [atom?, Option.some.injEq, Atom.number.injEq] at h
      refine ⟨_, rfl, rfl, ?_⟩
      rw [← h]
      cases b <;> simp [Number.value]
  | int n =>
      simp only [atom?, Option.some.injEq, Atom.number.injEq] at h
      exact ⟨_, rfl, rfl, h⟩
  | double x =>
      cases hx : x.isFinite with
      | true =>
          simp only [atom?, hx, if_true, Option.some.injEq, Atom.number.injEq] at h
          exact ⟨_, rfl, hx, h⟩
      | false => exact absurd h (by simp [atom?, hx])
  | str s => exact absurd h (by simp [atom?])
  | list items => exact absurd h (by simp [atom?])
  | map entries => exact absurd h (by simp [atom?])
  | date d => exact absurd h (by simp [atom?])
  | moment t => exact absurd h (by simp [atom?])
  | bytes octets => exact absurd h (by simp [atom?])
  | set members => exact absurd h (by simp [atom?])

/-- Numbers and truth values are the same as values when they are the same as numbers. -/
theorem same_of_numbers {v w : Value} {m n : Number} (hv : v.number? = some m)
    (hw : w.number? = some n) (hm : m.isFinite = true) (hn : n.isFinite = true) :
    v.same w = m.same n := by
  have hself : ∀ x : Binary64, x.isFinite = true → Number.same (.double x) (.double x) = true := by
    intro x hx
    rw [Number.same_iff_value (x := .double x) (y := .double x) hx hx]
  cases v with
  | bool a =>
      obtain rfl := Option.some.inj hv
      cases w with
      | bool b =>
          obtain rfl := Option.some.inj hw
          cases a <;> cases b <;> rfl
      | int k =>
          obtain rfl := Option.some.inj hw
          rw [Number.same_int]
          rfl
      | double y =>
          obtain rfl := Option.some.inj hw
          rfl
      | _ => exact absurd hw (by simp [number?])
  | int k =>
      obtain rfl := Option.some.inj hv
      cases w with
      | bool b =>
          obtain rfl := Option.some.inj hw
          rw [Number.same_int]
          rfl
      | int l =>
          obtain rfl := Option.some.inj hw
          rw [Number.same_int]
          rfl
      | double y =>
          obtain rfl := Option.some.inj hw
          rfl
      | _ => exact absurd hw (by simp [number?])
  | double x =>
      obtain rfl := Option.some.inj hv
      cases w with
      | bool b =>
          obtain rfl := Option.some.inj hw
          rfl
      | int l =>
          obtain rfl := Option.some.inj hw
          rfl
      | double y =>
          obtain rfl := Option.some.inj hw
          simp only [same]
          -- as values they are also the same when they are identical, which adds nothing here
          by_cases heq : x = y
          · subst heq
            simp [hself x hm]
          · simp [heq]
      | _ => exact absurd hw (by simp [number?])
  | _ => exact absurd hv (by simp [number?])

/-- Keys that stand for something are the same exactly when they stand for the same thing. -/
theorem same_iff_atom {v w : Value} {a b : Atom} (hv : v.atom? = some a) (hw : w.atom? = some b) :
    v.same w = true ↔ a = b := by
  cases a with
  | null =>
      have hnull : v = .null := by
        cases v <;> simp_all [atom?]
      subst hnull
      cases w with
      | null =>
          rw [← Option.some.inj hw]
          exact ⟨fun _ => rfl, fun _ => rfl⟩
      | double y =>
          simp only [atom?, Option.ite_none_right_eq_some, Option.some.injEq] at hw
          rw [← hw.2]
          simp [same]
      | _ => simp_all [atom?, same] <;> simp [← hw]
  | text s =>
      have htext : v = .str s := by
        cases v <;> simp_all [atom?]
      subst htext
      cases w with
      | str t =>
          rw [← Option.some.inj hw]
          simp [same]
      | double y =>
          simp only [atom?, Option.ite_none_right_eq_some, Option.some.injEq] at hw
          rw [← hw.2]
          simp [same]
      | _ => simp_all [atom?, same] <;> simp [← hw]
  | number p =>
      obtain ⟨m, hm, hmfin, rfl⟩ := number_of_atom hv
      cases b with
      | number q =>
          obtain ⟨n, hn, hnfin, rfl⟩ := number_of_atom hw
          rw [same_of_numbers hm hn hmfin hnfin, Number.same_iff_value hmfin hnfin]
          simp
      | null =>
          have hnull : w = .null := by
            cases w <;> simp_all [atom?]
          subst hnull
          cases v <;> simp_all [number?, same]
      | text t =>
          have htext : w = .str t := by
            cases w <;> simp_all [atom?]
          subst htext
          cases v <;> simp_all [number?, same]

end Value

end SchemaGraph
