import SchemaGraph.Fault
import SchemaGraph.Number.Shortest

/-!
# Numbers of a document

A number read from a document is an integer of any size or a double.  The two are compared
exactly; an operation that meets a double is carried out on doubles.
-/

namespace SchemaGraph

/-- An integer or a double. -/
inductive Number where
  | int (n : Int)
  | double (x : Binary64)
  deriving DecidableEq, Repr

namespace Number

instance : Inhabited Number := ⟨.int 0⟩

/-- The order of two numbers; a `nan` is comparable with nothing. -/
def compare? : Number → Number → Option Ordering
  | .int a, .int b => some (compare a b)
  | .int a, .double y => (y.compareInt? a).map Ordering.swap
  | .double x, .int b => x.compareInt? b
  | .double x, .double y => x.compare? y

/-- Numeric equality, across integers and doubles. -/
def same (x y : Number) : Bool := compare? x y == some .eq

/-- Strictly smaller. -/
def lt (x y : Number) : Bool := compare? x y == some .lt

/-- Smaller or equal. -/
def le (x y : Number) : Bool :=
  match compare? x y with
  | some .lt | some .eq => true
  | _ => false

@[simp] theorem lt_int (a b : Int) : lt (.int a) (.int b) = decide (a < b) := by
  unfold lt compare?
  by_cases h : a < b
  · simp [h, compare, compareOfLessAndEq]
  · by_cases h' : a = b
    · simp [h', compare, compareOfLessAndEq]
    · simp [h, h', compare, compareOfLessAndEq]

@[simp] theorem le_int (a b : Int) : le (.int a) (.int b) = decide (a ≤ b) := by
  unfold le compare?
  by_cases h : a < b
  · simp [h, compare, compareOfLessAndEq, Int.le_of_lt h]
  · by_cases h' : a = b
    · simp [h', compare, compareOfLessAndEq]
    · have h'' : ¬ a ≤ b := by omega
      simp [h, h', h'', compare, compareOfLessAndEq]

@[simp] theorem same_int (a b : Int) : same (.int a) (.int b) = decide (a = b) := by
  unfold same compare?
  by_cases h : a < b
  · have h' : a ≠ b := by omega
    simp [h, h', compare, compareOfLessAndEq]
  · by_cases h' : a = b
    · simp [h', compare, compareOfLessAndEq]
    · simp [h, h', compare, compareOfLessAndEq]

/-- The nearest double, unless the number is an integer beyond the range of doubles. -/
def toDouble : Number → Except Fault Binary64
  | .double x => .ok x
  | .int n =>
    match Binary64.ofInt n with
    | .infinite _ => .error .overflow
    | x => .ok x

/-- Apply an operation on doubles to two numbers. -/
def onDoubles (f : Binary64 → Binary64 → Binary64) (x y : Number) : Except Fault Number := do
  return .double (f (← x.toDouble) (← y.toDouble))

/-- The sum. -/
def add : Number → Number → Except Fault Number
  | .int a, .int b => .ok (.int (a + b))
  | x, y => onDoubles Binary64.add x y

/-- The difference. -/
def sub : Number → Number → Except Fault Number
  | .int a, .int b => .ok (.int (a - b))
  | x, y => onDoubles Binary64.sub x y

/-- The product. -/
def mul : Number → Number → Except Fault Number
  | .int a, .int b => .ok (.int (a * b))
  | x, y => onDoubles Binary64.mul x y

/-- Both zeroes, and nothing else. -/
def isZero : Number → Bool
  | .int n => n == 0
  | .double x => x.isZero

/-- The quotient, always a double; two integers are divided exactly and rounded once. -/
def div (x y : Number) : Except Fault Binary64 :=
  if y.isZero then .error .divisionByZero
  else match x, y with
    | .int a, .int b =>
      match Binary64.ofFraction (decide (a < 0) != decide (b < 0)) a.natAbs b.natAbs with
      | .infinite _ => .error .overflow
      | q => .ok q
    | _, _ => do return (← x.toDouble).div (← y.toDouble)

/-- The larger of two numbers; the first if they are equal. -/
def larger (x y : Number) : Number := if lt x y then y else x

/-- Decimal text. -/
def text : Number → String
  | .int n => toString n
  | .double x => x.text

end Number

end SchemaGraph
