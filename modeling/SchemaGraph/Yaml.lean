import SchemaGraph.Yaml.Scalar
import SchemaGraph.Yaml.Tree

/-!
# Reading YAML

The value of a YAML text.  The entries of a mapping under the key `<<` are merged in: they stand in
front, and the mapping's own entries override them.

When several nodes of a document have no value, the fault of the one nearest to the root is
reported, and of those at one depth the first.  A *verdict* therefore carries the depth of its fault.
-/

namespace SchemaGraph.Yaml

/-- A result, or a fault with its depth below the node at hand. -/
abbrev Verdict (α : Type) := Except (Nat × Fault) α

namespace Verdict

/-- A fault of the node at hand. -/
def ofExcept {α : Type} : Except Fault α → Verdict α
  | .ok a => .ok a
  | .error fault => .error (0, fault)

/-- The verdict on a node as part of the node around it. -/
def deeper {α : Type} : Verdict α → Verdict α
  | .ok a => .ok a
  | .error (depth, fault) => .error (depth + 1, fault)

/-- Two verdicts together; of two faults the one nearer to the root counts. -/
def both {α β γ : Type} (f : α → β → γ) : Verdict α → Verdict β → Verdict γ
  | .ok a, .ok b => .ok (f a b)
  | .error e, .ok _ => .error e
  | .ok _, .error e => .error e
  | .error e, .error e' => .error (if e'.1 < e.1 then e' else e)

/-- All verdicts of a list together. -/
def all {α : Type} (verdicts : List (Verdict α)) : Verdict (List α) :=
  verdicts.foldr (both List.cons) (.ok [])

end Verdict

/-- A key and its value. -/
structure Entry where
  key : Verdict Value
  value : Verdict Value

/-- What the node around a node may use of it. -/
structure Built where
  value : Verdict Value
  /-- The text of a scalar, or of the scalar that a mapping stands for. -/
  text : Except Fault String
  /-- The entries of a mapping as they are written. -/
  own : Option (List Entry)
  /-- The entries of a mapping with all merges carried out. -/
  entries : Except Fault (List Entry)
  /-- The entries that the node gives when it is merged into another. -/
  merged : Except Fault (List Entry)

namespace Built

/-- A key of a mapping: it must be a value that never changes. -/
def keyOf (key : Verdict Value) : Verdict Value :=
  match key with
  | .ok v => if v.hashable then .ok v else .error (0, .malformedYaml)
  | .error (0, fault) => .error (0, fault)
  | .error _ => .error (0, .malformedYaml)

/-- The mapping of some entries. -/
def table (entries : List Entry) : Verdict (Table Value) :=
  (Verdict.all (entries.map fun entry =>
    Verdict.both Prod.mk (keyOf entry.key) entry.value)).map Table.ofList

/-- A node that has the verdict of a tag that does not fit it. -/
def refused : Verdict Value := .error (0, .malformedYaml)

/-- The value of a node whose tag asks for a text. -/
def ofText (text : Except Fault String) (read : String → Except Fault Value) : Verdict Value :=
  Verdict.ofExcept (text >>= read)

/-- The value of a list with one mapping of one entry for each pair. -/
def pairs (items : List Built) : Verdict Value :=
  let pair (item : Built) : Verdict Value :=
    match item.own with
    | some [entry] => Verdict.both (fun k v => Value.list [k, v]) entry.key entry.value
    | _ => .error (0, .malformedYaml)
  (Verdict.all (items.map pair)).map .list

/-- The value of a node with a tag, from its text, its items and its entries, as far as it has
them. -/
def valueOf (tag : Tag) (text : Except Fault String) (items : Option (List Built))
    (entries : Except Fault (List Entry)) : Verdict Value :=
  let content (read : List Built → Verdict Value) : Verdict Value :=
    match items with
    | some items => (read items).deeper
    | none => .error (1, .malformedYaml)
  let mapping : Verdict (Table Value) := (Verdict.ofExcept entries >>= table).deeper
  match tag with
  | .null => ofText text fun _ => .ok .null
  | .bool => ofText text Scalar.bool
  | .int => ofText text Scalar.int
  | .float => ofText text Scalar.float
  | .timestamp => ofText text Scalar.timestamp
  | .str => ofText text fun s => .ok (.str s)
  | .binary => ofText text Scalar.binary
  | .seq => content fun items => (Verdict.all (items.map (·.value))).map .list
  | .omap | .pairs => content pairs
  | .map => mapping.map .map
  | .set => mapping.map fun table => .set table.keys
  | .merge | .value | .unknown => refused

/-- A scalar. -/
def scalar (tag : Tag) (text : String) : Built :=
  { value := valueOf tag (.ok text) none (.error .malformedYaml)
    text := .ok text
    own := none
    entries := .error .malformedYaml
    merged := .error .malformedYaml }

/-- A sequence.  When it is merged into a mapping, its items must be mappings, and the first item
overrides the ones after it. -/
def sequence (tag : Tag) (items : List Built) : Built :=
  { value := valueOf tag (.error .malformedYaml) (some items) (.error .malformedYaml)
    text := .error .malformedYaml
    own := none
    entries := .error .malformedYaml
    merged := do return (← items.mapM (·.entries)).reverse.flatten }

/-- The tag of a node. -/
def tagOf : Tree → Tag
  | .scalar tag _ | .sequence tag _ | .mapping tag _ => tag

/-- The entries that are merged in, followed by the own entries. -/
def merge (entries : List (Tag × Built × Built)) : Except Fault (List Entry) := do
  let merged ← (entries.filter (·.1 == .merge)).mapM fun entry => entry.2.2.merged
  let own := (entries.filter (·.1 != .merge)).map fun (tag, key, value) =>
    if tag == .value then ⟨ofText key.text fun s => .ok (.str s), value.value⟩
    else Entry.mk key.value value.value
  return merged.flatten ++ own

/-- A mapping.  It stands for a scalar if one of its keys is tagged so. -/
def mapping (tag : Tag) (entries : List (Tag × Built × Built)) : Built :=
  let text := match entries.find? (·.1 == .value) with
    | some entry => entry.2.2.text
    | none => .error .malformedYaml
  let merged := merge entries
  { value := valueOf tag text none merged
    text := text
    own := some (entries.map fun entry => ⟨entry.2.1.value, entry.2.2.value⟩)
    entries := merged
    merged := merged }

end Built

namespace Tree

mutual

/-- What a node stands for. -/
def build : Tree → Built
  | .scalar tag text => Built.scalar tag text
  | .sequence tag items => Built.sequence tag (buildItems items)
  | .mapping tag entries => Built.mapping tag (buildEntries entries)

/-- What the items of a sequence stand for. -/
def buildItems : List Tree → List Built
  | [] => []
  | item :: rest => build item :: buildItems rest

/-- What the keys and values of a mapping stand for, with the tags of the keys. -/
def buildEntries : List (Tree × Tree) → List (Tag × Built × Built)
  | [] => []
  | (key, value) :: rest => (Built.tagOf key, build key, build value) :: buildEntries rest

end

/-- The value of a document. -/
def value (tree : Tree) : Except Fault Value :=
  match tree.build.value with
  | .ok v => .ok v
  | .error (_, fault) => .error fault

end Tree

/-- Read a YAML text with at most one document; an empty text is null. -/
def parse (text : String) : Except Fault Value := do
  match ← Tree.ofText text with
  | none => return .null
  | some tree => tree.value

end SchemaGraph.Yaml
