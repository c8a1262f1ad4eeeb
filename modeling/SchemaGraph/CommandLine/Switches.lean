import SchemaGraph.Text.Pieces
import SchemaGraph.Value

/-!
# Command line syntax

A command line is a list of words and switches in any order.  A switch is spelled with two hyphens
and a name, or with one hyphen and a letter; its value follows as the next word, after an equals
sign, or directly after the letter.  Letters of switches without values may be joined.  After two
hyphens alone all is words.
-/

namespace SchemaGraph.CommandLine

/-- A switch of a command. -/
structure Switch where
  /-- The name under which its value is kept. -/
  name : String
  /-- How it may be written; the first spelling is used to show it. -/
  spellings : List String
  takesValue : Bool
  /-- Whether all values are kept, and not the last one alone. -/
  repeats : Bool
  default : Option Value

/-- A word or a switch that a command knows. -/
inductive Parameter where
  | word (name : String)
  | switch (s : Switch)

/-- What is written on a command line: switches with their values, and words. -/
structure Written where
  switches : List (String × Option String)
  words : List String
  deriving Inhabited

/-- Whether a spelling has more than a hyphen and a letter. -/
def isLong (spelling : String) : Bool := 2 < spelling.length

/-- The switch with a spelling. -/
def find? (switches : List Switch) (spelling : String) : Option Switch :=
  switches.find? fun s => s.spellings.contains spelling

/-- A switch with the value that is attached to it, or else with the next word. -/
def valued (s : Switch) (attached : Option String) (rest : List String) :
    Option ((String × Option String) × List String) :=
  match attached, rest with
  | some v, _ => some ((s.name, some v), rest)
  | none, v :: rest => some ((s.name, some v), rest)
  | none, [] => none

/-- Read joined letters, and the value of the last one. -/
def readLetters (switches : List Switch) (rest : List String) :
    List Char → Option (List (String × Option String) × List String)
  | [] => some ([], rest)
  | letter :: more => do
    let s ← find? switches (String.ofList ['-', letter])
    if s.takesValue then
      let attached := if more.isEmpty then none else some (String.ofList more)
      let (entry, rest) ← valued s attached rest
      return ([entry], rest)
    else
      let (entries, rest) ← readLetters switches rest more
      return ((s.name, none) :: entries, rest)

/-- Read one switch and its value. -/
def readSwitch (switches : List Switch) (written : String) (rest : List String) :
    Option (List (String × Option String) × List String) :=
  let (name, attached) := match Pieces.splitFirst '=' written.toList with
    | (name, value) => (String.ofList name, value.map String.ofList)
  match (if isLong name then find? switches name else none) with
  | some s =>
    if s.takesValue then do
      let (entry, rest) ← valued s attached rest
      return ([entry], rest)
    else if attached.isSome then none
    else some ([(s.name, none)], rest)
  | none =>
    if (written.toList.take 2) == ['-', '-'] then none
    else readLetters switches rest (written.toList.drop 1)

/-- Read a command line; every step takes at least one of its parts. -/
def readParts (switches : List Switch) : Nat → List String → Option Written
  | 0, _ => some ⟨[], []⟩
  | _, [] => some ⟨[], []⟩
  | budget + 1, part :: rest =>
    if part = "--" then some ⟨[], rest⟩
    else if part.toList.head? = some '-' ∧ 1 < part.length then do
      let (entries, rest) ← readSwitch switches part rest
      let written ← readParts switches budget rest
      return { written with switches := entries ++ written.switches }
    else do
      let written ← readParts switches budget rest
      return { written with words := part :: written.words }

/-- Read a command line. -/
def readAll (switches : List Switch) (parts : List String) : Option Written :=
  readParts switches parts.length parts

namespace Written

/-- Whether a switch is given. -/
def has (w : Written) (name : String) : Bool := w.switches.any fun entry => entry.1 == name

/-- All values of a switch. -/
def valuesOf (w : Written) (name : String) : List String :=
  w.switches.filterMap fun entry => if entry.1 == name then entry.2 else none

/-- The last value of a switch. -/
def value? (w : Written) (name : String) : Option String := (w.valuesOf name).getLast?

end Written

end SchemaGraph.CommandLine
