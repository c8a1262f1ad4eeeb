import SchemaGraph.Failure
import SchemaGraph.Store.Ordered

/-!
# Bounded caches

A cache keeps its entries in the order in which their keys were first written, and drops the oldest
ones when it grows past its bound.  The bound is a setting and is taken as it was written: one that
is no number is noticed only when the cache compares its size with it, after the entry was written.

An operation that drops entries gives the number that it reports as evicted.  After a new bound this
is the number of entries in excess of it, which may be more than the cache held.
-/

namespace SchemaGraph

/-- A cache of values of type `α` under keys of type `κ`. -/
structure BoundedCache (κ α : Type) where
  name : String
  maxSize : Value
  /-- A disabled cache holds on to its entries but neither shows nor takes any. -/
  enabled : Bool
  /-- The entries, oldest first. -/
  entries : List (κ × α)

namespace BoundedCache

variable {κ α : Type}

/-- An empty cache. -/
def empty (name : String) (maxSize : Value) (enabled : Bool) : BoundedCache κ α :=
  ⟨name, maxSize, enabled, []⟩

/-- The number of entries. -/
def size (c : BoundedCache κ α) : Nat := c.entries.length

/-- The keys from oldest to newest. -/
def keys (c : BoundedCache κ α) : List κ := c.entries.map (·.1)

/-- Whether the cache shows an entry at a key. -/
def contains [BEq κ] (c : BoundedCache κ α) (key : κ) : Bool :=
  c.enabled && Ordered.contains key c.entries

/-- The entry that the cache shows at a key. -/
def get? [BEq κ] (c : BoundedCache κ α) (key : κ) : Option α :=
  if c.enabled then Ordered.get? key c.entries else none

/-- The cache without its oldest entries. -/
def dropOldest (c : BoundedCache κ α) (count : Nat) : BoundedCache κ α :=
  { c with entries := c.entries.drop count }

/-- The cache without entries. -/
def clear (c : BoundedCache κ α) : BoundedCache κ α := { c with entries := [] }

/-- The number of entries to drop from a cache that may have grown past its bound: none within the
bound, else a tenth of the entries, and at least one. -/
def overflow (c : BoundedCache κ α) : Except Fault Nat := do
  let bound ← c.maxSize.number
  return if Number.le (.int c.size) bound then 0 else max 1 (c.size / 10)

/-- Drop the oldest entries of a cache that has grown past its bound. -/
def evictIfFull (c : BoundedCache κ α) : BoundedCache κ α × Except Fault Nat :=
  match c.overflow with
  | .ok count => (c.dropOldest count, .ok count)
  | .error fault => (c, .error fault)

/-- Write an entry and drop the oldest ones if it was one too many. -/
def set [BEq κ] (c : BoundedCache κ α) (key : κ) (item : α) :
    BoundedCache κ α × Except Fault Nat :=
  if c.enabled then
    ({ c with entries := Ordered.write key item c.entries } : BoundedCache κ α).evictIfFull
  else (c, .ok 0)

/-- No store holds more entries than this: each takes more than the sixteen bytes of its key and its
item, out of a memory whose addresses have at most 56 bits. -/
def sizeLimit : Nat := 0x10000000000000

/-- The number of entries in a share of the cache, which must lie between nothing and all of it. -/
def share (c : BoundedCache κ α) (fraction : Value) : Except Failure Nat := do
  let f ← orFail fraction.number
  if Number.le (.int 0) f && Number.le f (.int 1) then
    match ← orFail (Number.mul (.int (min c.size sizeLimit : Nat)) f) with
    | .int n => return n.toNat
    | .double x => return (x.floor?.getD 0).toNat
  else throw (.refused (.evictionFraction fraction))

/-- Drop the oldest entries up to a share of the cache. -/
def evictFraction (c : BoundedCache κ α) (fraction : Value) :
    BoundedCache κ α × Except Failure Nat :=
  match c.share fraction with
  | .ok count => (c.dropOldest count, .ok count)
  | .error failure => (c, .error failure)

/-- The number of entries in excess of a bound. -/
def excess (c : BoundedCache κ α) (bound : Value) : Except Fault Nat := do
  match ← Number.sub (.int c.size) (← bound.number) with
  | .int n => return n.toNat
  | .double x =>
    if Number.le (.double x) (.int 0) then return 0 else throw .typeMismatch

/-- Set a new bound and drop the oldest entries that no longer fit. -/
def shrinkTo (c : BoundedCache κ α) (bound : Value) : BoundedCache κ α × Except Fault Nat :=
  let c := { c with maxSize := bound }
  match c.excess bound with
  | .ok count => (c.dropOldest count, .ok count)
  | .error fault => (c, .error fault)

end BoundedCache

end SchemaGraph
