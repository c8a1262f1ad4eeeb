import SchemaGraph.Failure
import SchemaGraph.Number.Fixed

/-!
# Warnings

Matters that do not stop a resolution but are pointed out.
-/

namespace SchemaGraph

/-- A warning. -/
inductive Warning where
  /-- A path of a document does not start with a slash. -/
  | oddPath (path : Value)
  /-- An entry of a registry is no mapping. -/
  | skippedSchema (name : Value) (kind : String)
  /-- An attempt to fetch a document failed. -/
  | fetchFailed (url : String) (attempt attempts : Nat) (fault : Fault)
  /-- One of several references could not be resolved. -/
  | resolveFailed (reference : Value) (failure : Failure)
  /-- Entries were dropped because memory was short. -/
  | memoryCleanup (evicted : Nat) (resident threshold : Binary64)

namespace Warning

/-- The text of a warning. -/
def message (describe : Fault → String) : Warning → String
  | .oddPath path => s!"Path '{path.display}' does not start with '/'"
  | .skippedSchema name kind =>
    s!"Skipping schema '{name.display}': expected an object, got {kind}"
  | .fetchFailed url attempt attempts fault =>
    s!"Fetching {url} failed (attempt {attempt}/{attempts}): {describe fault}"
  | .resolveFailed reference failure =>
    s!"Failed to resolve {reference.display}: {failure.message describe}"
  | .memoryCleanup evicted resident threshold =>
    s!"Memory cleanup evicted {evicted} cache entries (rss={resident.fixed 1} MB, " ++
      s!"threshold={threshold.fixed 1} MB)"

end Warning

end SchemaGraph
