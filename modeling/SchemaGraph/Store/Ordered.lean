/-!
# Entries in order of writing

A list of keys with their items, in the order in which the keys were first written.  Writing to a
key that is present changes its item and not its place.
-/

namespace SchemaGraph.Ordered

variable {κ α : Type} [BEq κ]

/-- The item at a key. -/
def get? (key : κ) (entries : List (κ × α)) : Option α :=
  (entries.find? fun entry => entry.1 == key).map (·.2)

/-- Whether a key is present. -/
def contains (key : κ) (entries : List (κ × α)) : Bool := entries.any fun entry => entry.1 == key

/-- Write an item: a new key goes to the end. -/
def write (key : κ) (item : α) : List (κ × α) → List (κ × α)
  | [] => [(key, item)]
  | (k, old) :: rest => if k == key then (k, item) :: rest else (k, old) :: write key item rest

/-- Remove a key. -/
def erase (key : κ) (entries : List (κ × α)) : List (κ × α) :=
  entries.filter fun entry => !(entry.1 == key)

/-- Writing adds at most one entry. -/
theorem length_write (key : κ) (item : α) (entries : List (κ × α)) :
    (write key item entries).length =
      if contains key entries then entries.length else entries.length + 1 := by
  induction entries with
  | nil => rfl
  | cons entry rest ih =>
    obtain ⟨k, old⟩ := entry
    by_cases h : k == key
    · simp [write, contains, h]
    · by_cases hrest : contains key rest
      · simp only [contains] at hrest ih
        simp [write, contains, h, ih, hrest]
      · simp only [contains] at hrest ih
        simp [write, contains, h, ih, hrest]

end SchemaGraph.Ordered
