import SchemaGraph.CommandLine

/-!
# The program

The command in the real world.  A run is computed for the files that are known; when it fails for
want of a file that exists, the file is read and the run is computed again.  Requests are not sent:
every one of them counts as lost.
-/

namespace SchemaGraph.Main

/-- A fault in words. -/
def explain : Fault → String
  | .typeMismatch => "a value of the wrong type"
  | .missingMember => "a value without the needed member"
  | .invalidValue => "a value out of range"
  | .missingKey => "a missing key"
  | .missingIndex => "a missing position"
  | .divisionByZero => "division by zero"
  | .overflow => "a number too large"
  | .emptyQueue => "nothing left to drop"
  | .undecodableText => "octets that encode no text"
  | .unencodableText => "text that cannot be encoded"
  | .unreadableFile => "an unreadable file"
  | .noSuchFile => "no such file"
  | .isDirectory => "a directory in place of a file"
  | .notDirectory => "a file in place of a directory"
  | .malformedJson => "not JSON"
  | .malformedYaml => "not YAML"
  | .deadSegment segment => "nothing at " ++ segment
  | .httpStatus status => "status " ++ toString status
  | .tooManyRedirects => "too many redirects"
  | .invalidUrl => "not a URL"
  | .transport kind => kind
  | .budgetExhausted => "too many references"

/-- A file with its octets, if they can be read. -/
def readEntry (path : String) : IO FileEntry := do
  try
    return .file (← IO.FS.readBinFile path).toList
  catch _ => return .unreadable

/-- What stands at a path. -/
def lookUp (path : String) : IO (Option FileEntry) := do
  try
    let place ← IO.FS.realPath path
    if ← place.isDir then return some .directory
    if ← place.pathExists then return some (← readEntry place.toString)
    return none
  catch _ => return none

/-- Resident and virtual memory, as far as the system tells. -/
def memoryInUse : IO (Number × Number) := do
  try
    let text ← IO.FS.readFile "/proc/self/statm"
    match (Pieces.cut ' ' text.toList).map Json.natOfDigits with
    | all :: resident :: _ => return (.int (4096 * resident), .int (4096 * all))
    | _ => return (.int 1, .int 1)
  catch _ => return (.int 1, .int 1)

/-- The file that a failure misses. -/
def missing? : Failure → Option String
  | .externalFailed _ cause => missing? cause
  | .unavailable (.noFile path) => some path
  | .fileNotFound path => some path
  | _ => none

/-- Run the command line, reading files as they are missed. -/
partial def attempt (world : World) (memory : Number × Number) (parts : List String) :
    IO CommandLine.Run := do
  let run := CommandLine.run world memory parts
  match run.ending with
  | .failed failure =>
    match missing? failure with
    | some path =>
      let place := Path.read path
      if world.files.any fun file => file.1 == place then return run
      match ← lookUp path with
      | some entry => attempt { world with files := (place, entry) :: world.files } memory parts
      | none => return run
    | none => return run
  | _ => return run

/-- The world with what the words of a command line name, and the directories around it. -/
def knownWorld (parts : List String) : IO World := do
  let directory := Path.read (← IO.currentDir).toString
  let places := parts.flatMap fun part =>
    let place := (directory.append (Path.read part)).normalize
    [place, place.parent]
  let files ← places.filterMapM fun place => do
    return (← lookUp place.text).map fun entry => (place, entry)
  return { workingDirectory := directory
           files := files
           reply := fun _ _ => (.int 0, .lost "no network")
           followsRedirects := true }

end SchemaGraph.Main

open SchemaGraph in
/-- Run the command; the exit code is 2 for a command line that cannot be read and 1 for a
failure. -/
def main (parts : List String) : IO UInt32 := do
  let world ← Main.knownWorld parts
  let run ← Main.attempt world (← Main.memoryInUse) parts
  for event in run.trace.reverse do
    match event with
    | .warned warning => IO.eprintln ("WARNING " ++ warning.message Main.explain)
    | _ => pure ()
  if let some (path, text) := run.written then IO.FS.writeFile path text
  match run.ending with
  | .misused =>
    IO.eprintln CommandLine.usage
    return 2
  | .failed failure =>
    IO.eprintln ("Error: " ++ failure.message Main.explain)
    return 1
  | .finished output =>
    IO.print output
    return 0
