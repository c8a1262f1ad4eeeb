import SchemaGraph.CommandLine.Shown
import SchemaGraph.Engine

/-!
# The command

The command reads a document, resolves its schemas and writes them to a file, as JSON, beside the
command line that led to them.  Nothing is written unless all schemas are resolved.
-/

namespace SchemaGraph.CommandLine

open Resolving

/-- The parameters of the command. -/
def parameters : List Parameter := [
  .switch ⟨"config", ["--config", "-c"], true, false, none⟩,
  .switch ⟨"schema_names", ["--schema", "-s"], true, true, none⟩,
  .switch ⟨"streaming", ["--streaming"], false, false, some (.bool false)⟩,
  .switch ⟨"metrics", ["--metrics"], false, false, some (.bool false)⟩,
  .switch ⟨"verbose", ["--verbose", "-v"], false, false, some (.bool false)⟩,
  .word "path",
  .word "output"]

/-- The switches of the command, with the one that asks for help. -/
def switches : List Switch :=
  (parameters.filterMap fun p => match p with
    | .switch s => some s
    | .word _ => none) ++ [⟨"help", ["--help"], false, false, none⟩]

/-- How the command is used. -/
def usage : String := "\n".intercalate [
  "Usage: openapi-schema-resolver [OPTIONS] [PATH] [OUTPUT]", "",
  "Options:",
  "  -c, --config PATH",
  "  -s, --schema TEXT  Resolve only these component schemas",
  "  --streaming        Enumerate large schema registries in batches",
  "  --metrics          Print a performance report after resolution",
  "  -v, --verbose",
  "  --help             Show this message and exit.", ""]

/-- What the command is asked to do; paths are absolute. -/
structure Call where
  config : Option String
  schemaNames : List String
  streaming : Bool
  metrics : Bool
  verbose : Bool
  path : Option String
  output : Option String

namespace Call

/-- A path as a value. -/
def pathValue : Option String → Value
  | some path => .str path
  | none => .null

/-- The values of the parameters. -/
def values (c : Call) : Table Value := [
  (.str "config", pathValue c.config),
  (.str "schema_names", .texts c.schemaNames),
  (.str "streaming", .bool c.streaming),
  (.str "metrics", .bool c.metrics),
  (.str "verbose", .bool c.verbose),
  (.str "path", pathValue c.path),
  (.str "output", pathValue c.output)]

end Call

/-- What a command line asks for. -/
inductive Asked where
  | help
  | call (c : Call)

/-- The absolute form of a path that is given, if it may stand there. -/
def placeOf (world : World) (mustExist : Bool) : Option String → Option (Option String)
  | none => some none
  | some text =>
    let place := world.resolve (Path.read text)
    if mustExist && !world.pathExists place then none else some (some place.text)

/-- Read a command line.  What it reads must exist, and there are at most two words. -/
def readCall (world : World) (parts : List String) : Option Asked := do
  let written ← readAll switches parts
  if written.has "help" then return .help
  let config ← placeOf world true (written.value? "config")
  let path ← placeOf world true written.words.head?
  let output ← placeOf world false (written.words.drop 1).head?
  if 2 < written.words.length then none
  return .call {
    config := config
    schemaNames := written.valuesOf "schema_names"
    streaming := written.has "streaming"
    metrics := written.has "metrics"
    verbose := written.has "verbose"
    path := path
    output := output }

/-- How the command ends. -/
inductive Ending where
  /-- The command line cannot be read. -/
  | misused
  | failed (failure : Failure)
  | finished (output : String)

/-- The end of a run: how it ended, what was written, and what was pointed out. -/
structure Run where
  ending : Ending
  written : Option (String × String)
  trace : List Event

/-- The settings of a call: those of the file, and over them those of the command line. -/
def configOf (world : World) (c : Call) : Except Failure Config := do
  let config ← match c.config with
    | none => pure {}
    | some path => orFail do
      Config.ofValue (← Json.parse (← world.read (Path.read path)))
  let config :=
    if c.streaming then
      { config with memory := { config.memory with streamingMode := .bool true } }
    else config
  return if c.metrics then { config with metrics := { config.metrics with enabled := .bool true } }
    else config

/-- Resolve the schemas of a document, or those that are named. -/
def schemasOf (document : Document) (names : List String) : Resolving (Table Node) :=
  if names.isEmpty then Engine.resolvedSchemas (.document document)
  else names.foldlM (fun (table : Table Node) name => do
    let target := Value.str (Reference.localRegistry ++ name)
    let node ← Engine.reference (.document document) (.value target) (.list [])
    return table.put (.str name) node) []

/-- Load a document and resolve its schemas. -/
def resolvedDocument (c : Call) : Resolving (Table Node) := do
  match c.path with
  | none => fault .typeMismatch
  | some path =>
    let document ← Document.load path
    Engine.startTracking
    let result ← attempt (schemasOf document c.schemaNames)
    Engine.endTracking
    lift result

/-- The text of the file that is written. -/
def outputText (world : World) (c : Call) (schemas : Table Node) : Except Failure Json.Emission := do
  let line ← orFail (shown world parameters c.values)
  let written := schemas.map fun entry => (entry.1, entry.2.write)
  let text := Json.emit Json.indented 0
    (Value.record [("x-generated-by", .str line), ("schemas", .map written)])
  return text.andThen fun _ => .ofText "\n"

/-- Whether a file can be written at a path. -/
def writable (world : World) (path : Path) : Except Fault Unit :=
  match world.find path with
  | .ok .directory => .error .isDirectory
  | .ok _ => .ok ()
  | .error _ =>
    match world.find path.parent with
    | .ok .directory => .ok ()
    | .ok _ => .error .notDirectory
    | .error fault => .error fault

/-- The file to write: its path, its text, and the fault that cut the text short, if any. -/
def fileOf (world : World) (c : Call) (schemas : Table Node) :
    Except Failure (String × Json.Emission) := do
  let text ← outputText world c schemas
  match c.output with
  | none => throw (.fault .typeMismatch)
  | some path =>
    orFail (writable world (Path.read path))
    return (path, text)

/-- Run a call. -/
def runCall (world : World) (memory : Number × Number) (c : Call) : Run :=
  match configOf world c with
  | .error failure => ⟨.failed failure, none, []⟩
  | .ok config =>
    let (result, session) := (resolvedDocument c world).run (Session.start config memory 1)
    let stopped (failure : Failure) (written : Option (String × String)) : Run :=
      ⟨.failed failure, written, session.trace⟩
    match result with
    | .error failure => stopped failure none
    | .ok schemas =>
      match fileOf world c schemas with
      | .error failure => stopped failure none
      | .ok (path, emission) =>
        let written := some (path, emission.text)
        match emission.fault with
        | some fault => stopped (.fault fault) written
        | none =>
          if c.metrics then
            let (report, session) := (Engine.reportText world).run session
            match report with
            | .ok text => ⟨.finished (text ++ "\n"), written, session.trace⟩
            | .error failure => stopped failure written
          else ⟨.finished "", written, session.trace⟩

/-- Run a command line. -/
def run (world : World) (memory : Number × Number) (parts : List String) : Run :=
  match readCall world parts with
  | none => ⟨.misused, none, []⟩
  | some .help => ⟨.finished usage, none, []⟩
  | some (.call c) => runCall world memory c

end SchemaGraph.CommandLine
