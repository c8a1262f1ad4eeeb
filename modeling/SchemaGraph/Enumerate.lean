import SchemaGraph.Metrics.Report
import SchemaGraph.Resolve

/-!
# Enumeration

All schemas of a registry in their order, as they are declared; only an entry that is itself a
reference is followed.  A large registry may be enumerated in batches, with a chance to free memory
between two of them.
-/

namespace SchemaGraph

open Resolving

/-- A registry with more schemas than this may be enumerated in batches of this size. -/
def batchSize : Nat := 50

/-- The share of every cache that is dropped to free memory. -/
def cleanupShare : Value := .double (Binary64.ofFraction false 1 2)

/-- Whether memory is to be freed: whenever it is asked for, or at a threshold. -/
def needsCleanup (force : Bool) (resident : Number) (threshold : Value) : Except Fault Bool := do
  if force then return true
  return !Number.lt resident (← threshold.number)

/-- Free memory if cleanup is enabled and memory is short; the number of dropped entries. -/
def cleanup (force : Bool) : Resolving Nat := do
  let s ← get
  if !s.memorySettings.enabled.truthy then return 0
  let resident := s.memory.1
  if !(← check (needsCleanup force resident s.memorySettings.memoryThreshold)) then return 0
  let evicted ← timed .memoryCleanup do
    let (caches, evictions, result) := (← get).caches.evictShare cleanupShare
    modify fun s => { s with caches := caches }.countEvictions evictions
    lift result
  modify fun s => { s with tracker := s.tracker.snapshot s.memory.1 }
  let used ← check (Report.megabytes resident)
  let threshold ← check (do Report.megabytes (← s.memorySettings.memoryThreshold.number))
  warn (.memoryCleanup evicted used threshold)
  return evicted

/-- The schema under a name of the registry. -/
def schemaAt (document : Document) (name raw : Value) : Resolving Node := do
  let key := cacheKey document name.display
  match (← get).caches.schemas.get? key with
  | some node =>
    track (·.recordHit "schema")
    return node
  | none =>
    track (·.recordMiss "schema")
    let pointer := Reference.localRegistry ++ name.display
    let node ← match ← lift (Node.parse "" raw pointer) with
      | .ref _ target => resolveReference document [pointer] target
      | node => pure node
    keepSchema key node
    return node

/-- The schemas of some entries of the registry; entries that are no mappings are left out. -/
def enumerate (document : Document) : List (Value × Value) → Resolving (Table Node)
  | [] => return []
  | (name, raw) :: rest => do
    if !raw.isMap then
      warn (.skippedSchema name raw.kindName)
      enumerate document rest
    else
      let node ← schemaAt document name raw
      modify fun s =>
        { s with processed := s.processed + 1, tracker := s.tracker.recordProcessed }
      return (name, node) :: (← enumerate document rest)

/-- Entries in groups of a size; the last group may be smaller. -/
def groups {α : Type} (size : Nat) : Nat → List α → List (List α)
  | 0, _ => []
  | count + 1, entries =>
    if entries.isEmpty then [] else entries.take size :: groups size count (entries.drop size)

/-- The schemas of groups of entries, with a chance to free memory between two groups. -/
def enumerateGroups (document : Document) :
    List (List (Value × Value)) → Resolving (List (Table Node))
  | [] => return []
  | [last] => do return [← enumerate document last]
  | group :: rest => do
    let batch ← enumerate document group
    let _ ← cleanup false
    return batch :: (← enumerateGroups document rest)

/-- The schemas of the registry in batches. -/
def schemaBatches (document : Document) : Resolving (List (Table Node)) := do
  let entries ← check document.registry
  let streaming := (← get).memorySettings.streamingMode.truthy
  if entries.isEmpty then return []
  else if streaming && batchSize < entries.length then
    timed .streamingEnumeration
      (enumerateGroups document (groups batchSize entries.length entries))
  else return [← enumerate document entries]

/-- The schemas of the registry. -/
def allSchemas (document : Document) : Resolving (Table Node) := do
  return (← schemaBatches document).flatten

end SchemaGraph
