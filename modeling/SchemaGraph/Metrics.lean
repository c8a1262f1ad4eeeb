import SchemaGraph.Failure
import SchemaGraph.Store.Caches

/-!
# Performance metrics

How long operations took, how often the caches answered, how many schemas were processed and how
much memory was in use.  Times are doubles: a duration is the difference of two readings of a clock
in seconds, times one thousand.  A tracker that is not enabled records nothing.
-/

namespace SchemaGraph

/-- An operation whose time is added up. -/
inductive Operation where
  | schemaResolution
  | cacheOperation
  | memoryCleanup
  | streamingEnumeration
  /-- The whole run; each time replaces the one before. -/
  | totalProcessing
  deriving DecidableEq, Repr

namespace Operation

/-- The name of an operation. -/
def name : Operation → String
  | .schemaResolution => "schemaResolution"
  | .cacheOperation => "cacheOperation"
  | .memoryCleanup => "memoryCleanup"
  | .streamingEnumeration => "streamingEnumeration"
  | .totalProcessing => "totalProcessing"

/-- All operations. -/
def all : List Operation :=
  [.schemaResolution, .cacheOperation, .memoryCleanup, .streamingEnumeration, .totalProcessing]

/-- The operation with a name; operations with other names are timed but not recorded. -/
def ofName? (name : String) : Option Operation := all.find? fun operation => operation.name == name

end Operation

/-- Times in milliseconds, and counts. -/
structure Metrics where
  totalProcessingTime : Binary64 := Binary64.zero false
  schemaResolutionTime : Binary64 := Binary64.zero false
  cacheOperationTime : Binary64 := Binary64.zero false
  memoryCleanupTime : Binary64 := Binary64.zero false
  streamingTime : Binary64 := Binary64.zero false
  schemasProcessed : Nat := 0
  peakMemoryUsage : Number := .int 0
  memoryCleanupCount : Nat := 0

namespace Metrics

/-- Add the duration of an operation. -/
def record (m : Metrics) (operation : Operation) (duration : Binary64) : Metrics :=
  match operation with
  | .schemaResolution => { m with schemaResolutionTime := m.schemaResolutionTime.add duration }
  | .cacheOperation => { m with cacheOperationTime := m.cacheOperationTime.add duration }
  | .memoryCleanup =>
    { m with
      memoryCleanupTime := m.memoryCleanupTime.add duration
      memoryCleanupCount := m.memoryCleanupCount + 1 }
  | .streamingEnumeration => { m with streamingTime := m.streamingTime.add duration }
  | .totalProcessing => { m with totalProcessingTime := duration }

/-- The time of resolution per processed schema; zero if none was processed. -/
def average (m : Metrics) : Binary64 :=
  if m.schemasProcessed = 0 then Binary64.zero false
  else m.schemaResolutionTime.div (Binary64.ofInt m.schemasProcessed)

/-- The metrics under their names. -/
def fields (m : Metrics) : List (String × Value) :=
  [("total_processing_time", .double m.totalProcessingTime),
    ("schema_resolution_time", .double m.schemaResolutionTime),
    ("cache_operation_time", .double m.cacheOperationTime),
    ("memory_cleanup_time", .double m.memoryCleanupTime),
    ("streaming_time", .double m.streamingTime),
    ("schemas_processed", .ofNat m.schemasProcessed),
    ("peak_memory_usage", .ofNumber m.peakMemoryUsage),
    ("memory_cleanup_count", .ofNat m.memoryCleanupCount)]

end Metrics

/-- What is counted for one cache.  Size and bound are those that were last reported. -/
structure CacheCounters where
  hits : Nat := 0
  misses : Nat := 0
  evictions : Number := .int 0
  size : Value := .int 0
  maxSize : Value := .int 0

namespace CacheCounters

/-- The number of times that the cache was asked. -/
def requests (c : CacheCounters) : Nat := c.hits + c.misses

/-- The share of requests that were answered; zero if there were none. -/
def hitRate (c : CacheCounters) : Binary64 :=
  if c.requests = 0 then Binary64.zero false
  else Binary64.ofFraction false c.hits c.requests

/-- The counters under their names. -/
def record (c : CacheCounters) : Value :=
  Value.record [("hits", .ofNat c.hits), ("misses", .ofNat c.misses),
    ("evictions", .ofNumber c.evictions), ("size", c.size), ("max_size", c.maxSize),
    ("total_requests", .ofNat c.requests), ("hit_rate", .double c.hitRate)]

end CacheCounters

/-- What has been recorded so far. -/
structure Tracker where
  enabled : Bool
  metrics : Metrics := {}
  /-- The counters of the caches under their names. -/
  caches : List (String × CacheCounters) := Caches.names.map fun name => (name, {})
  /-- Readings of the memory in use. -/
  snapshots : List Number := []
  /-- The times at which running timers were started. -/
  timers : List (String × Binary64) := []

namespace Tracker

/-- A tracker that has recorded nothing. -/
def start (enabled : Bool) : Tracker := { enabled := enabled }

/-- The tracker without its records. -/
def reset (t : Tracker) : Tracker := start t.enabled

/-- The milliseconds between two readings of the clock. -/
def duration (started now : Binary64) : Binary64 :=
  (now.sub started).mul (Binary64.ofInt 1000)

/-- Record the duration of an operation. -/
def recordDuration (t : Tracker) (operation : String) (duration : Binary64) : Tracker :=
  match Operation.ofName? operation with
  | some operation => { t with metrics := t.metrics.record operation duration }
  | none => t

/-- Record an operation that ran from one reading of the clock to another. -/
def track (t : Tracker) (operation : Operation) (started now : Binary64) : Tracker :=
  if t.enabled then { t with metrics := t.metrics.record operation (duration started now) } else t

/-- Start a timer; one that is running is set back. -/
def startTimer (t : Tracker) (operation : String) (now : Binary64) : Tracker :=
  if t.enabled then { t with timers := Ordered.write operation now t.timers } else t

/-- Stop a timer and record its duration, which is returned. -/
def endTimer (t : Tracker) (operation : String) (now : Binary64) :
    Tracker × Except Failure Binary64 :=
  if !t.enabled then (t, .ok (Binary64.zero false))
  else match Ordered.get? operation t.timers with
    | none => (t, .error (.refused (.timerNotStarted operation)))
    | some started =>
      let t := { t with timers := Ordered.erase operation t.timers }
      let duration := duration started now
      (t.recordDuration operation duration, .ok duration)

/-- Change the counters of a cache. -/
def updateCache (t : Tracker) (cache : String) (change : CacheCounters → CacheCounters) :
    Except Fault Tracker :=
  if !t.enabled then .ok t
  else match Ordered.get? cache t.caches with
    | none => .error .missingKey
    | some counters => .ok { t with caches := Ordered.write cache (change counters) t.caches }

/-- Record that a cache had an entry. -/
def recordHit (t : Tracker) (cache : String) : Except Fault Tracker :=
  t.updateCache cache fun c => { c with hits := c.hits + 1 }

/-- Record that a cache did not have an entry. -/
def recordMiss (t : Tracker) (cache : String) : Except Fault Tracker :=
  t.updateCache cache fun c => { c with misses := c.misses + 1 }

/-- Record the size of a cache and its bound. -/
def recordSize (t : Tracker) (cache : String) (size maxSize : Value) : Except Fault Tracker :=
  t.updateCache cache fun c => { c with size := size, maxSize := maxSize }

/-- Record evicted entries; caches without counters are left out. -/
def recordEviction (t : Tracker) (cache : String) (count : Value) : Except Fault Tracker :=
  match Ordered.get? cache t.caches with
  | none => .ok t
  | some counters =>
    if !t.enabled then .ok t
    else do
      let evictions ← counters.evictions.add (← count.number)
      t.updateCache cache fun c => { c with evictions := evictions }

/-- Record a processed schema. -/
def recordProcessed (t : Tracker) : Tracker :=
  if t.enabled then
    { t with metrics := { t.metrics with schemasProcessed := t.metrics.schemasProcessed + 1 } }
  else t

/-- Record a reading of the memory in use. -/
def snapshot (t : Tracker) (resident : Number) : Tracker :=
  if t.enabled then
    { t with
      snapshots := t.snapshots ++ [resident]
      metrics :=
        { t.metrics with peakMemoryUsage := t.metrics.peakMemoryUsage.larger resident } }
  else t

/-- Start to measure a whole run. -/
def startTracking (t : Tracker) (now : Binary64) (resident : Number) : Tracker :=
  (t.startTimer Operation.totalProcessing.name now).snapshot resident

/-- Measure a whole run up to here, if its start was measured. -/
def endTracking (t : Tracker) (now : Binary64) (resident : Number) : Tracker :=
  let t :=
    if Ordered.contains Operation.totalProcessing.name t.timers then
      (t.endTimer Operation.totalProcessing.name now).1
    else t
  t.snapshot resident

/-- The sum of two values that must be numbers. -/
def addValues (a b : Value) : Except Fault Value := do
  return .ofNumber (← Number.add (← a.number) (← b.number))

/-- The counters of all caches together. -/
def overall (t : Tracker) : Except Fault CacheCounters :=
  t.caches.foldlM (fun total entry => do
    let c := entry.2
    return { hits := total.hits + c.hits
             misses := total.misses + c.misses
             evictions := ← total.evictions.add c.evictions
             size := ← addValues total.size c.size
             maxSize := ← addValues total.maxSize c.maxSize }) {}

end Tracker

end SchemaGraph
