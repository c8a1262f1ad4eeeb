import SchemaGraph.Metrics
import SchemaGraph.Number.Fixed

/-!
# Performance reports

The records of a tracker together with the rates that follow from them.  A report has two forms: a
value for programs and a text for readers.
-/

namespace SchemaGraph

/-- A performance report. -/
structure Report where
  metrics : Metrics
  caches : List (String × CacheCounters)
  overall : CacheCounters
  snapshots : List Number
  peakMegabytes : Binary64
  currentMegabytes : Binary64
  /-- Processed schemas per second of the whole run; zero unless the run took time. -/
  schemasPerSecond : Binary64
  /-- The share of the peak memory that is no longer in use; one if nothing can be said. -/
  memoryEfficiency : Binary64

namespace Report

/-- An amount of memory in bytes, in megabytes. -/
def megabytes (bytes : Number) : Except Fault Binary64 := do
  return (← Number.div bytes (.int 1024)).div (Binary64.ofInt 1024)

/-- One minus the last reading over the greatest one. -/
def efficiency (snapshots : List Number) : Except Fault Binary64 :=
  match snapshots with
  | first :: second :: rest => do
    let greatest := (second :: rest).foldl Number.larger first
    let last := (second :: rest).getLast?.getD first
    return (Binary64.ofInt 1).sub (← Number.div last greatest)
  | _ => .ok (Binary64.ofInt 1)

/-- The report of a tracker while the given memory is in use. -/
def ofTracker (t : Tracker) (resident : Number) : Except Fault Report := do
  let overall ← t.overall
  let seconds := t.metrics.totalProcessingTime.div (Binary64.ofInt 1000)
  let peak ← megabytes t.metrics.peakMemoryUsage
  let current ← megabytes resident
  let rate :=
    if Number.lt (.int 0) (.double seconds) then
      (Binary64.ofInt t.metrics.schemasProcessed).div seconds
    else Binary64.zero false
  return { metrics := t.metrics
           caches := t.caches
           overall := overall
           snapshots := t.snapshots
           peakMegabytes := peak
           currentMegabytes := current
           schemasPerSecond := rate
           memoryEfficiency := ← efficiency t.snapshots }

/-- The report as a value. -/
def record (r : Report) : Value :=
  Value.record [
    ("summary", Value.record
      (r.metrics.fields ++ [("average_schema_processing_time", .double r.metrics.average)])),
    ("cache", Value.record
      (r.caches.map (fun entry => (entry.1, entry.2.record)) ++ [("overall", r.overall.record)])),
    ("memory", Value.record [
      ("snapshots", .list (r.snapshots.map .ofNumber)),
      ("peak_usage_mb", .double r.peakMegabytes),
      ("current_usage_mb", .double r.currentMegabytes),
      ("cleanup_count", .ofNat r.metrics.memoryCleanupCount)]),
    ("efficiency", Value.record [
      ("schemas_per_second", .double r.schemasPerSecond),
      ("cache_efficiency", .double r.overall.hitRate),
      ("memory_efficiency", .double r.memoryEfficiency)])]

/-- A share in percent. -/
def percent (share : Binary64) : String := (share.mul (Binary64.ofInt 100)).fixed 1

/-- A number with two places. -/
def twoPlaces (x : Binary64) : String := x.fixed 2

/-- The share of the whole run that a time takes; zero if the run took no time. -/
def shareOfTotal (r : Report) (time : Binary64) : String :=
  let total := r.metrics.totalProcessingTime
  if total.isZero then percent (Binary64.zero false) else percent (time.div total)

/-- The line of one cache. -/
def cacheLine (entry : String × CacheCounters) : String :=
  let (name, c) := entry
  s!"  {name.capitalize} Cache: {percent c.hitRate}% hit rate ({c.hits}/{c.requests})"

/-- The line of one operation. -/
def timeLine (r : Report) (label : String) (time : Binary64) : String :=
  s!"  {label}: {twoPlaces time}ms ({r.shareOfTotal time}%)"

/-- The lines of the report. -/
def lines (r : Report) : List String :=
  ["=== PERFORMANCE REPORT ===", "",
    "SUMMARY",
    s!"  Total Processing Time: {twoPlaces r.metrics.totalProcessingTime}ms",
    s!"  Schemas Processed: {r.metrics.schemasProcessed}",
    s!"  Average Schema Time: {twoPlaces r.metrics.average}ms", "",
    "EFFICIENCY",
    s!"  Schemas/Second: {twoPlaces r.schemasPerSecond}",
    s!"  Cache Efficiency: {percent r.overall.hitRate}%",
    s!"  Memory Efficiency: {percent r.memoryEfficiency}%", "",
    "CACHE PERFORMANCE",
    s!"  Overall Hit Rate: {percent r.overall.hitRate}%",
    s!"  Total Requests: {r.overall.requests}",
    s!"  Cache Hits: {r.overall.hits}",
    s!"  Cache Misses: {r.overall.misses}",
    s!"  Evictions: {r.overall.evictions.text}", ""] ++
  r.caches.map cacheLine ++
  ["",
    "MEMORY USAGE",
    s!"  Peak Memory: {twoPlaces r.peakMegabytes} MB",
    s!"  Current Memory: {twoPlaces r.currentMegabytes} MB",
    s!"  Memory Cleanups: {r.metrics.memoryCleanupCount}", "",
    "TIMING BREAKDOWN",
    r.timeLine "Schema Resolution" r.metrics.schemaResolutionTime,
    r.timeLine "Cache Operations" r.metrics.cacheOperationTime,
    r.timeLine "Memory Cleanup" r.metrics.memoryCleanupTime,
    r.timeLine "Streaming Enumeration" r.metrics.streamingTime, "",
    "========================"]

/-- The report as a text. -/
def text (r : Report) : String := "\n".intercalate r.lines

end Report

end SchemaGraph
