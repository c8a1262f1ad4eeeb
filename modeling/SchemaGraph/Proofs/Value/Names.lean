import SchemaGraph.Proofs.Schema.Order

/-!
# Names

A value that may be a key is a scalar.  Two scalars are the same exactly when they stand for the same
thing, where an infinite number, a day or octets stand for themselves.  So to be the same as a name
does not depend on which of several keys that are the same stands in a table, and what a table says
under a name can be read off the entries that were written to it: the last one if entries are written
over those that are there, the first one if they are not.

Names are listed in the order in which they first occur.
-/

namespace SchemaGraph

/-- What a scalar stands for. -/
inductive Scalar where
  | atom (a : Atom)
  | infinite (negative : Bool)
  | nan
  | date (day : Date)
  | moment (time : Moment)
  | bytes (octets : List UInt8)
  deriving DecidableEq

namespace Value

/-- What a value stands for if it is a scalar. -/
def scalar? : Value → Option Scalar
  | .double (.infinite negative) => some (.infinite negative)
  | .double .nan => some .nan
  | .date day => some (.date day)
  | .moment time => some (.moment time)
  | .bytes octets => some (.bytes octets)
  | v => v.atom?.map .atom

theorem scalar_of_atom {v : Value} {a : Atom} (h : v.atom? = some a) :
    v.scalar? = some (.atom a) := by
  cases v with
  | double x =>
      cases x with
      | finite negative significand exponent => rw [scalar?, h]; rfl; all_goals simp
      | infinite negative => cases h
      | nan => cases h
  | date day => cases h
  | moment time => cases h
  | bytes octets => cases h
  | _ => simp [scalar?, h]

/-- A key is a scalar. -/
theorem scalar_of_hashable {v : Value} (h : v.hashable = true) : ∃ a, v.scalar? = some a := by
  cases v with
  | double x => cases x <;> exact ⟨_, rfl⟩
  | list items => cases h
  | map entries => cases h
  | set members => cases h
  | _ => exact ⟨_, rfl⟩

/-- A scalar that stands for itself is the same only as itself. -/
theorem same_iff_eq {v w : Value} (hatom : w.atom? = none) (hw : w.hashable = true) :
    v.same w = true ↔ v = w := by
  cases w with
  | double y =>
      cases y with
      | finite negative significand exponent => cases hatom
      | infinite b =>
          cases v with
          | double x =>
              cases x with
              | infinite c =>
                  cases b <;> cases c <;>
                    simp [same, Number.same, Number.compare?, Binary64.compare?]
              | _ => cases b <;> simp [same, Number.same, Number.compare?, Binary64.compare?]
          | _ => cases b <;> simp [same, Number.same, Number.compare?, Binary64.compareInt?]
      | nan =>
          cases v with
          | double x =>
              cases x <;> simp [same, Number.same, Number.compare?, Binary64.compare?]
          | _ => simp [same, Number.same, Number.compare?, Binary64.compareInt?]
  | date day => cases v <;> simp [same]
  | moment time => cases v <;> simp [same]
  | bytes octets => cases v <;> simp [same]
  | list items => cases hw
  | map entries => cases hw
  | set members => cases hw
  | _ => cases hatom

/-- What stands for itself or for nothing is not the same as what stands for something else. -/
theorem not_same_of_atom {v w : Value} {a : Atom} (hv : v.atom? = none) (hw : w.atom? = some a) :
    v.same w = false := by
  cases v with
  | double x =>
      cases x with
      | finite negative significand exponent => cases hv
      | infinite b =>
          cases w with
          | double y =>
              cases y with
              | finite negative significand exponent => cases b <;> rfl
              | _ => cases hw
          | _ => cases b <;> rfl
      | nan =>
          cases w with
          | double y =>
              cases y with
              | finite negative significand exponent => rfl
              | _ => cases hw
          | _ => rfl
  | null => cases hv
  | bool c => cases hv
  | int n => cases hv
  | str s => cases hv
  | _ => cases w <;> first | rfl | cases hw

theorem atom_of_scalar {v : Value} {a : Atom} (h : v.scalar? = some (.atom a)) :
    v.atom? = some a := by
  cases hatom : v.atom? with
  | some b => rw [Scalar.atom.inj (Option.some.inj ((scalar_of_atom hatom).symm.trans h))]
  | none =>
      cases v with
      | double x => cases x <;> simp_all [scalar?, atom?]
      | _ => simp_all [scalar?, atom?]

/-- What stands for itself is told by what it stands for. -/
theorem eq_of_scalar {v w : Value} (hatom : w.atom? = none) (hw : w.hashable = true)
    (h : v.scalar? = w.scalar?) : v = w := by
  cases w with
  | double y =>
      cases y with
      | finite negative significand exponent => cases hatom
      | infinite b =>
          cases v with
          | double x => cases x <;> simp_all [scalar?]
          | _ => simp_all [scalar?, atom?]
      | nan =>
          cases v with
          | double x => cases x <;> simp_all [scalar?]
          | _ => simp_all [scalar?, atom?]
  | list items => cases hw
  | map entries => cases hw
  | set members => cases hw
  | null => cases hatom
  | bool b => cases hatom
  | int n => cases hatom
  | str s => cases hatom
  | _ =>
      cases v with
      | double x => cases x <;> simp_all [scalar?]
      | _ => simp_all [scalar?, atom?]

/-- A value is the same as a scalar exactly when it is a scalar that stands for the same thing. -/
theorem same_iff_scalar {v w : Value} (hw : w.hashable = true) :
    v.same w = true ↔ v.scalar? = w.scalar? := by
  cases hatom : w.atom? with
  | none =>
      rw [same_iff_eq hatom hw]
      exact ⟨congrArg scalar?, eq_of_scalar hatom hw⟩
  | some b =>
      rw [scalar_of_atom hatom]
      cases hatom' : v.atom? with
      | some b' =>
          rw [same_iff_atom hatom' hatom, scalar_of_atom hatom']
          simp
      | none =>
          rw [not_same_of_atom hatom' hatom]
          refine iff_of_false Bool.false_ne_true fun hv => ?_
          rw [atom_of_scalar hv] at hatom'
          cases hatom'

/-- Values that are the same stand for the same thing. -/
theorem scalar_of_same {v w : Value} (h : v.same w = true) : v.scalar? = w.scalar? := by
  cases hw : w.hashable with
  | true => exact (same_iff_scalar hw).mp h
  | false =>
      -- only a value that is no scalar is the same as one that is none
      cases w with
      | list items => cases v <;> first | rfl | cases h
      | map entries => cases v <;> first | rfl | cases h
      | set members => cases v <;> first | rfl | cases h
      | _ => cases hw

/-- Keys that are the same are the same as the same names. -/
theorem same_swap {k key name : Value} (hname : name.hashable = true) (h : k.same key = true) :
    k.same name = key.same name := by
  rw [Bool.eq_iff_iff, same_iff_scalar hname, same_iff_scalar hname, scalar_of_same h]

/-- Keys that are the same as one name are the same. -/
theorem same_of_name {k key name : Value} (hname : name.hashable = true)
    (h : k.same name = true) (hkey : key.same name = true) : k.same key = true := by
  obtain ⟨a, ha⟩ := scalar_of_hashable hname
  have hscalar := (same_iff_scalar hname).mp hkey
  have hhashable : key.hashable = true := by
    cases key with
    | list items => rw [ha] at hscalar; cases hscalar
    | map entries => rw [ha] at hscalar; cases hscalar
    | set members => rw [ha] at hscalar; cases hscalar
    | _ => rfl
  rw [same_iff_scalar hhashable, hscalar, (same_iff_scalar hname).mp h]

/-- The names of a list that are not listed yet, each where it first occurs. -/
def unlisted (listed : List Value) : List Value → List Value
  | [] => []
  | name :: rest =>
    if name.among listed then unlisted listed rest else name :: unlisted (listed ++ [name]) rest

theorem extendUnique_cons (listed : List Value) (name : Value) (rest : List Value) :
    extendUnique listed (name :: rest) =
      extendUnique (if name.among listed then listed else listed ++ [name]) rest :=
  rfl

theorem extendUnique_append (listed names others : List Value) :
    extendUnique listed (names ++ others) = extendUnique (extendUnique listed names) others :=
  List.foldl_append

/-- A list is extended by the names that are not listed yet. -/
theorem extendUnique_eq (listed names : List Value) :
    extendUnique listed names = listed ++ unlisted listed names := by
  induction names generalizing listed with
  | nil => exact (List.append_nil _).symm
  | cons name rest ih =>
      rw [extendUnique_cons, ih, unlisted]
      split
      · rfl
      · rw [List.append_assoc, List.singleton_append]

end Value

namespace Table

variable {α : Type}

/-- The item of the last entry whose key is the same as a name. -/
def last? (entries : Table α) (name : Value) : Option α :=
  (entries.filter fun entry => entry.1.same name).getLast?.map (·.2)

theorem last_cons (entry : Value × α) (entries : Table α) (name : Value) :
    last? (entry :: entries) name =
      (last? entries name).or (if entry.1.same name then some entry.2 else none) := by
  unfold last?
  rw [List.filter_cons]
  split
  · rw [List.getLast?_cons]
    cases (entries.filter fun entry => entry.1.same name).getLast? <;> rfl
  · rw [Option.or_none]

theorem last_isSome (entries : Table α) (name : Value) :
    (last? entries name).isSome = (entries.get? name).isSome := by
  induction entries with
  | nil => rfl
  | cons entry rest ih =>
      rw [last_cons, Option.isSome_or, ih]
      unfold get?
      rw [List.find?_cons]
      cases entry.1.same name <;> simp

theorem get_cons (entry : Value × α) (table : Table α) (name : Value) :
    get? (entry :: table) name = if entry.1.same name then some entry.2 else table.get? name := by
  unfold get?
  rw [List.find?_cons]
  split <;> simp_all

theorem get_append (table entries : Table α) (name : Value) :
    get? (table ++ entries) name = (table.get? name).or (get? entries name) := by
  induction table with
  | nil => rfl
  | cons entry rest ih =>
      rw [List.cons_append, get_cons, get_cons, ih]
      split <;> rfl

/-- A key that is not there goes to the end. -/
theorem put_of_get_none {table : Table α} {key : Value} (h : table.get? key = none) (item : α) :
    table.put key item = table ++ [(key, item)] := by
  induction table with
  | nil => rfl
  | cons entry rest ih =>
      obtain ⟨k, old⟩ := entry
      rw [get_cons] at h
      rw [put]
      split
      · rename_i hsame
        rw [if_pos hsame] at h
        cases h
      · rename_i hother
        rw [if_neg hother] at h
        rw [ih h, List.cons_append]

section Written

variable {name : Value} (hname : name.hashable = true)
include hname

theorem get_put (table : Table α) (key : Value) (item : α) :
    (table.put key item).get? name = if key.same name then some item else table.get? name := by
  induction table with
  | nil => exact get_cons (key, item) [] name
  | cons entry rest ih =>
      obtain ⟨k, old⟩ := entry
      unfold put
      split
      · rename_i hsame
        rw [get_cons, get_cons, Value.same_swap hname hsame]
        split <;> rfl
      · rename_i hother
        rw [get_cons, get_cons, ih]
        by_cases hkey : key.same name = true
        · rw [if_pos hkey, if_pos hkey, if_neg fun hk => hother (Value.same_of_name hname hk hkey)]
        · rw [if_neg hkey, if_neg hkey]

/-- A table has an item under a name if it has one under a key that is the same. -/
theorem get_isSome_swap (table : Table α) {key : Value} (hkey : key.same name = true) :
    (table.get? name).isSome = (table.get? key).isSome := by
  rw [get_isSome, get_isSome, Value.among, Value.among]
  congr 1
  funext k
  rw [Bool.eq_iff_iff]
  refine ⟨fun h => Value.same_of_name hname h hkey, fun h => ?_⟩
  rw [Value.same_swap hname h, hkey]

theorem get_putNew (table : Table α) (key : Value) (item : α) :
    (table.putNew key item).get? name =
      (table.get? name).or (if key.same name then some item else none) := by
  unfold putNew
  by_cases hkey : key.same name = true
  · have hswap := get_isSome_swap hname table hkey
    rw [if_pos hkey]
    cases hget : table.get? key with
    | some old =>
        rw [hget, Option.isSome_some, Option.isSome_iff_exists] at hswap
        obtain ⟨item', hitem'⟩ := hswap
        rw [hitem']
        rfl
    | none =>
        rw [hget, Option.isSome_none, Option.isSome_eq_false_iff, Option.isNone_iff_eq_none] at hswap
        dsimp only
        rw [get_put hname, if_pos hkey, hswap, Option.none_or]
  · rw [if_neg hkey, Option.or_none]
    cases table.get? key with
    | some old => rfl
    | none =>
        dsimp only
        rw [get_put hname, if_neg hkey]

/-- The first item that was written under a name stands there, if any was. -/
theorem get_putAllNew (table entries : Table α) :
    (putAllNew table entries).get? name = (table.get? name).or (get? entries name) := by
  induction entries generalizing table with
  | nil => exact (Option.or_none).symm
  | cons entry rest ih =>
      rw [putAllNew_cons, ih, get_putNew hname, get_cons, Option.or_assoc]
      congr 1
      split <;> rfl

/-- The last item that was written under a name stands there, if any was. -/
theorem get_putAll (table entries : Table α) :
    (putAll table entries).get? name = (last? entries name).or (table.get? name) := by
  induction entries generalizing table with
  | nil => rfl
  | cons entry rest ih =>
      rw [putAll_cons, ih, get_put hname, last_cons]
      cases last? rest name with
      | some item => rfl
      | none => split <;> rfl

end Written

end Table

end SchemaGraph
