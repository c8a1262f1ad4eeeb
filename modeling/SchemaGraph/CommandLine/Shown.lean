import SchemaGraph.CommandLine.Switches
import SchemaGraph.Value.Display
import SchemaGraph.World

/-!
# Showing a command line

The command line that leads to given values of the parameters: first the words, then the switches,
each in the order in which the command declares them.  A value that does not count as given, or is
the default, is left out.  A path that exists is shown by its name alone.
-/

namespace SchemaGraph.CommandLine

/-- The name of the program. -/
def programName : String := "openapi_schema_resolver"

/-- The text of a value. -/
def showValue (world : World) : Value → String
  | .str text =>
    let path := Path.read text
    let found := !text.toList.contains (Char.ofNat 0) && world.pathExists path
    if found then path.name else text
  | v => v.display

/-- The parts that show a switch. -/
def showSwitch (world : World) (s : Switch) (v : Value) : Except Fault (List String) := do
  let spelling := s.spellings.headD ("--" ++ s.name)
  if !s.takesValue then return [spelling]
  else if s.repeats then
    return (← v.iterate).flatMap fun item => [spelling, showValue world item]
  else return [spelling, showValue world v]

/-- Whether a value is the default of a switch. -/
def isDefault (s : Switch) (v : Value) : Bool :=
  match s.default with
  | some d => v.same d
  | none => false

/-- The words that are given. -/
def shownWords (world : World) (values : Table Value) : List Parameter → List String
  | [] => []
  | .word name :: rest =>
    match values.at? name with
    | some v =>
      if v.truthy then showValue world v :: shownWords world values rest
      else shownWords world values rest
    | none => shownWords world values rest
  | .switch _ :: rest => shownWords world values rest

/-- The switches that are given and are not the default. -/
def shownSwitches (world : World) (values : Table Value) :
    List Parameter → Except Fault (List String)
  | [] => .ok []
  | .word _ :: rest => shownSwitches world values rest
  | .switch s :: rest =>
    match values.at? s.name with
    | some v =>
      if v.truthy && !isDefault s v then do
        let shown ← showSwitch world s v
        return shown ++ (← shownSwitches world values rest)
      else shownSwitches world values rest
    | none => shownSwitches world values rest

/-- The command line that leads to the given values. -/
def shown (world : World) (parameters : List Parameter) (values : Table Value) :
    Except Fault String := do
  let switches ← shownSwitches world values parameters
  return " ".intercalate (programName :: shownWords world values parameters ++ switches)

end SchemaGraph.CommandLine
