import SchemaGraph.Json.Writer

/-!
# Canonical JSON

Two values that differ only in the order in which mappings were written have one canonical text:
the compact text with the entries of every mapping sorted by key.  Keys that are texts are sorted by
code points, keys that are numbers by value; a mapping with keys of both kinds has no order.
-/

namespace SchemaGraph

namespace Json

/-- Whether a key does not come after another of its kind. -/
def keyLe (a b : Value) : Bool :=
  match a, b with
  | .str s, .str t => decide (s ≤ t)
  | _, _ =>
    match a.number?, b.number? with
    | some x, some y => x.le y
    | _, _ => true

/-- Whether all keys are of one kind that has an order. -/
def comparableKeys (keys : List Value) : Bool :=
  keys.all (fun k => match k with | .str _ => true | _ => false) ||
    keys.all fun k => k.number?.isSome

/-- The entries of a mapping in the order of their keys. -/
def sortEntries (entries : List (Value × Value)) : Except Fault (List (Value × Value)) :=
  if entries.length ≤ 1 then .ok entries
  else if comparableKeys (entries.map (·.1)) then
    .ok (entries.mergeSort fun a b => keyLe a.1 b.1)
  else .error .typeMismatch

mutual

/-- Sort the entries of every mapping inside a value. -/
def sortKeys : Value → Except Fault Value
  | .list items => do return .list (← sortItems items)
  | .map entries => do return .map (← sortEntries (← sortFields entries))
  | v => .ok v

/-- Sort inside the items of a list. -/
def sortItems : List Value → Except Fault (List Value)
  | [] => .ok []
  | item :: rest => do return (← sortKeys item) :: (← sortItems rest)

/-- Sort inside the values of a mapping, leaving its entries where they are. -/
def sortFields : List (Value × Value) → Except Fault (List (Value × Value))
  | [] => .ok []
  | (key, item) :: rest => do return (key, ← sortKeys item) :: (← sortFields rest)

end

/-- The text that all writings of one value share. -/
def canonical (v : Value) : Except Fault String := do render compact (← sortKeys v)

end Json

end SchemaGraph
