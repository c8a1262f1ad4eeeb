import SchemaGraph.Number

/-!
# Values of a document

A document is written without types: its values are scalars, lists and mappings nested in each
other.  A mapping keeps its entries in the order of writing, and a key stands in it once.  Two
values are *the same* when they are equal as data: numbers by their value whatever their form, a
truth value as the number zero or one, mappings and sets without regard to order.  Every scalar is
the same as itself, also one that is no number.
-/

namespace SchemaGraph

/-- A day of the calendar. -/
structure Date where
  year : Nat
  month : Nat
  day : Nat
  deriving DecidableEq, Repr, Inhabited

/-- A day with a time, and the minutes by which the clock is ahead of universal time if known. -/
structure Moment where
  date : Date
  hour : Nat
  minute : Nat
  second : Nat
  microsecond : Nat
  offset : Option Int
  deriving DecidableEq, Repr, Inhabited

/-- A value of a document. -/
inductive Value where
  | null
  | bool (b : Bool)
  | int (n : Int)
  | double (x : Binary64)
  | str (s : String)
  | list (items : List Value)
  | map (entries : List (Value × Value))
  | date (day : Date)
  | moment (time : Moment)
  | bytes (octets : List UInt8)
  | set (members : List Value)
  deriving Inhabited

namespace Value

/-- The number that a value stands for, if it is a number or a truth value. -/
def number? : Value → Option Number
  | .bool b => some (.int (if b then 1 else 0))
  | .int n => some (.int n)
  | .double x => some (.double x)
  | _ => none

/-- The number that a value must stand for. -/
def number (v : Value) : Except Fault Number :=
  match v.number? with
  | some n => .ok n
  | none => .error .typeMismatch

mutual

/-- Whether two values are equal as data. -/
def same : Value → Value → Bool
  | .null, .null => true
  | .bool a, .bool b => a == b
  | .bool a, .int n => (if a then 1 else 0) == n
  | .bool a, .double x => Number.same (.int (if a then 1 else 0)) (.double x)
  | .int n, .bool b => n == if b then 1 else 0
  | .int n, .int m => n == m
  | .int n, .double x => Number.same (.int n) (.double x)
  | .double x, .bool b => Number.same (.double x) (.int (if b then 1 else 0))
  | .double x, .int n => Number.same (.double x) (.int n)
  | .double x, .double y => x == y || Number.same (.double x) (.double y)
  | .str s, .str t => s == t
  | .list xs, .list ys => sameItems xs ys
  | .map es, .map fs => es.length == fs.length && sameEntries es fs
  | .date d, .date e => d == e
  | .moment s, .moment t => s == t
  | .bytes bs, .bytes cs => bs == cs
  | .set xs, .set ys => xs.length == ys.length && sameMembers xs ys
  | _, _ => false
termination_by structural v => v

/-- Whether two lists hold the same values at the same positions. -/
def sameItems : List Value → List Value → Bool
  | [], [] => true
  | x :: xs, y :: ys => same x y && sameItems xs ys
  | _, _ => false
termination_by structural xs => xs

/-- Whether every entry of the first mapping is an entry of the second. -/
def sameEntries : List (Value × Value) → List (Value × Value) → Bool
  | [], _ => true
  | (k, v) :: rest, others =>
    (match others.find? (fun entry => same k entry.1) with
      | some entry => same v entry.2
      | none => false) && sameEntries rest others
termination_by structural entries => entries

/-- Whether every member of the first set is a member of the second. -/
def sameMembers : List Value → List Value → Bool
  | [], _ => true
  | x :: xs, ys => ys.any (fun y => same x y) && sameMembers xs ys
termination_by structural xs => xs

end

/-- Whether a value counts as given: everything but null, false, zero and what is empty. -/
def truthy : Value → Bool
  | .null => false
  | .bool b => b
  | .int n => n != 0
  | .double x => !x.isZero
  | .str s => !s.isEmpty
  | .list items => !items.isEmpty
  | .map entries => !entries.isEmpty
  | .bytes octets => !octets.isEmpty
  | .set members => !members.isEmpty
  | .date _ | .moment _ => true

/-- Whether a value may be a key: only values that never change. -/
def hashable : Value → Bool
  | .list _ | .map _ | .set _ => false
  | _ => true

/-- The first value if it counts as given, else the second. -/
def orElse (v other : Value) : Value := if v.truthy then v else other

/-- The second value if the first counts as given, else the first. -/
def andThen (v other : Value) : Value := if v.truthy then other else v

/-- The name of a value's kind. -/
def kindName : Value → String
  | .null => "NoneType"
  | .bool _ => "bool"
  | .int _ => "int"
  | .double _ => "float"
  | .str _ => "str"
  | .list _ => "list"
  | .map _ => "dict"
  | .date _ => "date"
  | .moment _ => "datetime"
  | .bytes _ => "bytes"
  | .set _ => "set"

/-- Whether a value is a mapping. -/
def isMap : Value → Bool
  | .map _ => true
  | _ => false

/-- Whether a value is null. -/
def isNull : Value → Bool
  | .null => true
  | _ => false

/-- Whether a value is the given text. -/
def isText (text : String) : Value → Bool
  | .str s => s == text
  | _ => false

/-- The values that a value runs through: the items of a list, the characters of a text, the keys
of a mapping. -/
def iterate : Value → Except Fault (List Value)
  | .list items => .ok items
  | .str s => .ok (s.toList.map fun c => .str (String.singleton c))
  | .map entries => .ok (entries.map (·.1))
  | .bytes octets => .ok (octets.map fun b => .int b.toNat)
  | .set members => .ok members
  | _ => .error .typeMismatch

/-- Whether a list holds a value, up to sameness. -/
def among (v : Value) (items : List Value) : Bool := items.any fun item => item.same v

/-- Append the values that are not yet listed, each once. -/
def extendUnique (target names : List Value) : List Value :=
  names.foldl (fun listed name => if name.among listed then listed else listed ++ [name]) target

end Value

/-- Entries in the order in which their keys were first written. -/
abbrev Table (α : Type) := List (Value × α)

namespace Table

variable {α : Type}

/-- The entry at a key. -/
def get? (table : Table α) (key : Value) : Option α :=
  (List.find? (fun entry => entry.1.same key) table).map (·.2)

/-- The entry at a key that is a text. -/
def at? (table : Table α) (key : String) : Option α :=
  (List.find? (fun entry => entry.1.isText key) table).map (·.2)

/-- Whether a key that is a text is present. -/
def has (table : Table α) (key : String) : Bool := (table.at? key).isSome

/-- Write an entry: a new key goes to the end, a present one keeps its position. -/
def put (table : Table α) (key : Value) (item : α) : Table α :=
  match table with
  | [] => [(key, item)]
  | (k, old) :: rest =>
    if k.same key then (k, item) :: rest else (k, old) :: put rest key item

/-- Write an entry unless its key is present. -/
def putNew (table : Table α) (key : Value) (item : α) : Table α :=
  match table.get? key with
  | some _ => table
  | none => table.put key item

/-- Write all entries of a list, in order. -/
def ofList (entries : List (Value × α)) : Table α :=
  entries.foldl (fun table entry => put table entry.1 entry.2) []

/-- The keys, in order. -/
def keys (table : Table α) : List Value := table.map (·.1)

end Table

namespace Value

/-- The entry of a mapping at a text key; a value that is not a mapping has none. -/
def at? (v : Value) (key : String) : Option Value :=
  match v with
  | .map entries => Table.at? entries key
  | _ => none

/-- A mapping whose keys are texts. -/
def record (fields : List (String × Value)) : Value :=
  .map (fields.map fun field => (.str field.1, field.2))

/-- A list of texts. -/
def texts (items : List String) : Value := .list (items.map .str)

/-- The value of a number. -/
def ofNumber : Number → Value
  | .int n => .int n
  | .double x => .double x

/-- The value of a natural number. -/
def ofNat (n : Nat) : Value := .int n

end Value

end SchemaGraph
