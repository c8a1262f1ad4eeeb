import SchemaGraph.Document.Load
import SchemaGraph.Enumerate
import SchemaGraph.Metrics.Report

/-!
# The engine

The operations of a session.  They take documents that were loaded as well as plain mappings, which
become documents at their first use and stay the same document as long as they are remembered.
-/

namespace SchemaGraph.Engine

open Resolving

/-- What an operation is asked about: a document, or a mapping, which is known by a name. -/
inductive Subject where
  | document (document : Document)
  | mapping (name : String) (raw : Value)

/-- The document of a subject.  A mapping that is not remembered becomes a new document. -/
def Subject.open : Subject → Resolving Document
  | .document d => return d
  | .mapping name raw => do
    match (← get).caches.documents.get? name with
    | some d => return d
    | none =>
      let d ← Document.create raw ""
      let (documents, result) := (← get).caches.documents.set name d
      modify fun s => { s with caches := { s.caches with documents := documents } }
      let _ ← check result
      return d

/-- A reference as it may be given: as a value or as a schema that is a reference. -/
inductive Asked where
  | value (v : Value)
  | node (target : Value)

/-- The reference itself; a mapping must hold it. -/
def Asked.target : Asked → Except Failure Value
  | .node target => .ok target
  | .value (.map entries) =>
    match Table.at? entries "$ref" with
    | some target => .ok target
    | none => .error .noReferenceKey
  | .value v => .ok v

/-- Whether something is a reference. -/
def Asked.isReference : Asked → Bool
  | .node _ => true
  | .value (.map entries) => Table.has entries "$ref"
  | .value _ => false

/-- The references of a path, each once.  Values that are no texts name nothing, but every value must
be one that never changes. -/
def visitedPath (visited : Value) : Except Fault (List String) := do
  let items ← visited.iterate
  if items.all (·.hashable) then
    return items.foldl (fun path item =>
      match item with
      | .str text => if path.contains text then path else path ++ [text]
      | _ => path) []
  else throw .typeMismatch

/-- Resolve a reference of a document. -/
def reference (subject : Subject) (asked : Asked) (visited : Value) : Resolving Node :=
  timed .schemaResolution do
    let document ← subject.open
    let target ← lift asked.target
    let path ← check (visitedPath visited)
    resolveReference document path target

/-- Resolve a schema. -/
def schema (subject : Subject) (node : Node) : Resolving Node :=
  timed .schemaResolution do resolveNode (← subject.open) node

/-- Read a schema from a value and resolve it. -/
def rawSchema (subject : Subject) (raw : Value) : Resolving Node :=
  timed .schemaResolution do
    let document ← subject.open
    resolveNode document (← lift (Node.parse "" raw "#"))

/-- Resolve several references at once, each of them by a task of its own.  One that fails does not stop
the others: its failure is its result. -/
def references (subject : Subject) (asked : List Asked) :
    Resolving (Table (Except Failure Node)) := do
  let document ← subject.open
  let targets ← lift (asked.mapM Asked.target)
  let results ← gather (resolveReference document []) targets
  results.forM fun (target, result) =>
    match result with
    | .ok _ => pure ()
    | .error failure => warn (.resolveFailed target failure)
  if targets.all (·.hashable) then return Table.ofList results else fault .typeMismatch

/-- All schemas of a document. -/
def schemas (subject : Subject) : Resolving (Table Node) :=
  timed .schemaResolution do allSchemas (← subject.open)

/-- All schemas of a document, each of them resolved. -/
def resolvedSchemas (subject : Subject) : Resolving (Table Node) := do
  let declared ← schemas subject
  declared.mapM fun (name, node) => do return (name, ← schema subject node)

/-- The names of the schemas of a document, batch by batch. -/
def batches (subject : Subject) : Resolving (List (List Value)) := do
  let batches ← schemaBatches (← subject.open)
  return batches.map Table.keys

/-- Change the settings of the caches; null leaves a setting as it is. -/
def configureCaching (enabled maxSize : Value) : Resolving Unit := do
  let (caches, evictions, result) := (← get).caches.configure enabled maxSize
  modify fun s => { s with caches := caches }.countEvictions evictions
  lift result

/-- Change the settings of memory cleanup; null leaves a setting as it is. -/
def configureMemory (enabled threshold streaming : Value) : Resolving Unit := do
  if !enabled.isNull then
    modify fun s => { s with memorySettings := { s.memorySettings with enabled := enabled } }
  if !threshold.isNull then
    if Number.lt (← check threshold.number) (.int 0) then
      throw (.refused (.memoryThreshold threshold))
    modify fun s =>
      { s with memorySettings := { s.memorySettings with memoryThreshold := threshold } }
  if !streaming.isNull then
    modify fun s => { s with memorySettings := { s.memorySettings with streamingMode := streaming } }

/-- Turn the metrics on or off; what was recorded is forgotten. -/
def configureMetrics (enabled : Value) : Resolving Unit :=
  modify fun s =>
    { s with
      metricsSettings := { s.metricsSettings with enabled := enabled }
      tracker := .start enabled.truthy }

/-- Empty all caches. -/
def clearCaches : Resolving Unit :=
  modify fun s => { s with caches := s.caches.clearAll, external := [] }

/-- Memory in use, and what bears on it. -/
def memoryStats (s : Session) : Value :=
  Value.record [("heap_used", .ofNumber s.memory.1), ("heap_total", .ofNumber s.memory.2),
    ("processed_schemas", .ofNat s.processed), ("cache_size", .ofNat s.caches.totalSize),
    ("memory_optimized", s.memorySettings.enabled),
    ("streaming_mode", s.memorySettings.streamingMode)]

/-- The documents from outside that are kept. -/
def externalStats (s : Session) : Value :=
  Value.record [("size", .ofNat s.external.length),
    ("max_size", s.externalSettings.maxCacheSize),
    ("locations", .texts (s.external.map (·.1)))]

/-- Record the sizes of the caches. -/
def refreshSizes : Resolving Unit := do
  let caches := (← get).caches
  [caches.schemas, caches.compositions, caches.references].forM fun cache =>
    track (·.recordSize cache.name (.ofNat cache.size) cache.maxSize)

/-- Start to measure a whole run. -/
def startTracking : Resolving Unit :=
  modify fun s => { s with tracker := s.tracker.startTracking s.clock s.memory.1 }

/-- Measure a whole run up to here. -/
def endTracking : Resolving Unit := do
  refreshSizes
  modify fun s => { s with tracker := s.tracker.endTracking s.clock s.memory.1 }

/-- The metrics, if they are enabled. -/
def metrics : Resolving Metrics := do
  let tracker := (← get).tracker
  if tracker.enabled then return tracker.metrics else throw .metricsDisabled

/-- The report on the session. -/
def report : Resolving Report := do
  refreshSizes
  let s ← get
  check (Report.ofTracker s.tracker s.memory.1)

/-- The report as a value, if metrics are enabled. -/
def exportMetrics : Resolving Value := do
  let _ ← metrics
  return (← report).record

/-- The report as a text. -/
def reportText : Resolving String := do
  if (← get).tracker.enabled then return (← report).text
  else return "Performance metrics are not enabled."

end SchemaGraph.Engine
