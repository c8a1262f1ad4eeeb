import SchemaGraph.External
import SchemaGraph.Schema.Merge

/-!
# Resolution

To *settle* a schema is to follow it if it is a reference and to merge it if it is a composition;
every other schema is settled as it is.  Settling goes down into the members of compositions, and
leaves the following of references to a function that it is given.  To *follow* a reference is to
find its target, in the registry of the document or in another document, and to settle that.

The references that are being followed form a path.  A reference that is already on its path is a
cycle.  Along a path every reference that was found in the document itself occurs once, and the
references into other documents are limited; so the length of all paths has a bound, which is the
budget of `follow`.
-/

namespace SchemaGraph

open Resolving

namespace Resolving

/-- The keys of the documents of an engine. -/
def cacheKey (document : Document) (subject : String) : CacheKey := ⟨document.id, subject⟩

/-- Look up a resolved schema in a cache and record whether it was there. -/
def recallNode (name : String)
    (cache : Caches CacheKey String Node Failure Document → BoundedCache CacheKey Node)
    (key : CacheKey) : Resolving (Option Node) := do
  let found ← timed .cacheOperation do return (cache (← get).caches).get? key
  match found with
  | some node =>
    track (·.recordHit name)
    return some node
  | none =>
    track (·.recordMiss name)
    return none

/-- Change a cache by an operation that may evict entries, which are counted under its name. -/
def evicting {ε : Type} (fail : ε → Failure) (name : String)
    (change : Caches CacheKey String Node Failure Document →
      Caches CacheKey String Node Failure Document × Except ε Nat) : Resolving Unit := do
  let (caches, result) := change (← get).caches
  modify fun s => { s with caches := caches }
  match result with
  | .ok count => modify fun s => s.countEvictions (Caches.report name count)
  | .error e => throw (fail e)

/-- Record the size of a cache. -/
def trackSize (name : String)
    (cache : Caches CacheKey String Node Failure Document → BoundedCache CacheKey Node) :
    Resolving Unit := do
  let caches := (← get).caches
  track (·.recordSize name (.ofNat (cache caches).size) caches.settings.maxSize)

/-- Write a resolved reference into its cache. -/
def keepReference (key : CacheKey) (node : Node) : Resolving Unit := do
  timed .cacheOperation do
    evicting .fault "reference" fun c =>
      let (references, count) := c.references.set key node
      ({ c with references := references }, count)
  trackSize "reference" (·.references)

/-- Write a resolved composition into its cache. -/
def keepComposition (key : CacheKey) (node : Node) : Resolving Unit := do
  timed .cacheOperation do
    evicting .fault "composition" fun c =>
      let (compositions, count) := c.compositions.set key node
      ({ c with compositions := compositions }, count)
  trackSize "composition" (·.compositions)

/-- Write an enumerated schema into its cache. -/
def keepSchema (key : CacheKey) (node : Node) : Resolving Unit := do
  evicting .fault "schema" fun c =>
    let (schemas, count) := c.schemas.set key node
    ({ c with schemas := schemas }, count)
  trackSize "schema" (·.schemas)

end Resolving

namespace Node

mutual

/-- Settle a schema that belongs to a document; references are followed by `follow`. -/
def settle (follow : Value → Resolving Node) (document : Document) : Node → Resolving Node
  | .ref _ target => follow target
  | .composition info ⟨kind, rawMembers, members, discriminator, properties, required⟩ => do
    let shape : CompositionShape Node :=
      ⟨kind, rawMembers, members, discriminator, properties, required⟩
    match memberDefect? rawMembers with
    | some defect => throw (.badMembers kind defect)
    | none =>
      let key := cacheKey document (← check (identity (.composition info shape)))
      match ← recallNode "composition" (·.compositions) key with
      | some node => return node
      | none =>
        let resolved ← match kind with
          | .allOf => do
            let merged ← settleInto follow document (Merged.start info shape) members
            pure merged.node
          | .oneOf =>
            match discriminator with
            | none => throw .missingDiscriminator
            | some d => do
              let variants ← settleVariants follow document .oneOf 1 members
              check (resolvedOneOf info shape d variants)
          | .anyOf => do
            let variants ← settleVariants follow document .anyOf 1 members
            pure (resolvedAnyOf info shape variants)
        keepComposition key resolved
        return resolved
  | node => return node

/-- Settle members one after the other and merge each of them. -/
def settleInto (follow : Value → Resolving Node) (document : Document) (merged : Merged) :
    List Node → Resolving Merged
  | [] => return merged
  | member :: rest => do
    let resolved ← settle follow document member
    settleInto follow document (← lift (merged.absorb resolved)) rest

/-- Settle members one after the other and name each of them. -/
def settleVariants (follow : Value → Resolving Node) (document : Document)
    (kind : CompositionKind) (number : Nat) : List Node → Resolving (List (Variant Node))
  | [] => return []
  | member :: rest => do
    let resolved ← settle follow document member
    let variant : Variant Node := ⟨variantName kind member resolved number, resolved⟩
    return variant :: (← settleVariants follow document kind (number + 1) rest)

end

end Node

namespace Document

/-- Whether a location leads outside of a document. -/
def isOutside (d : Document) (location : String) : Except Fault Bool :=
  if location = "" then .ok false
  else if Location.isUrl location then .ok true
  else do return (← Location.join d.source location) != d.source

/-- The number of references on a path that lead outside of a document. -/
def outsideCount (d : Document) (path : List String) : Except Fault Nat := do
  let outside ← path.filterM fun reference =>
    match Reference.read? reference with
    | some parsed => d.isOutside parsed.location
    | none => .ok false
  return outside.length

/-- The target of a reference in the registry of the document. -/
def localTarget (d : Document) (reference : String) (segments : List String) :
    Except Failure Node := do
  match Pointer.walk (.map (← orFail d.registry)) segments with
  | .ok target => Node.parse "" target reference
  | .error (.deadSegment _) => throw (.referenceNotFound reference)
  | .error f => throw (.fault f)

end Document

/-- The target of a reference in another document.  A failure is remembered, if failures are. -/
def outsideTarget (document : Document) (reference : String) (path : List String) :
    Resolving Node := do
  let depth ← check (document.outsideCount path)
  match ← attempt (External.resolve (.str reference) document.source (.ofNat depth)) with
  | .ok node => return node
  | .error cause =>
    let failure := Failure.externalFailed reference cause
    let (caches, result) :=
      (← get).caches.rememberFailure (cacheKey document reference) failure
    modify fun s => { s with caches := caches }
    check result
    throw failure

/-- The text of a reference that is well formed. -/
def Reference.given (target : Value) : Except Failure String :=
  match target with
  | .str text =>
    if text = "" then .error (.noReference target)
    else if (Reference.read? text).isSome then .ok text
    else .error (.malformedReference text)
  | _ => .error (.noReference target)

/-- The schema that a reference names, in the registry of the document or in another document. -/
def Document.target (document : Document) (reference : String) (path : List String) :
    Resolving Node :=
  match Reference.read? reference with
  | none => throw (.malformedReference reference)
  | some parsed => do
    if ← check (document.isOutside parsed.location) then outsideTarget document reference path
    else lift (document.localTarget reference parsed.segments)

/-- Follow a reference; `path` holds the references that are being followed. -/
def follow (document : Document) : Nat → List String → Value → Resolving Node
  | 0, _, _ => fault .budgetExhausted
  | budget + 1, path, target => do
    let reference ← lift (Reference.given target)
    if path.contains reference then throw (.circularReference reference)
    else
      let key := cacheKey document reference
      match ← recallNode "reference" (·.references) key with
      | some node => return node
      | none =>
        match (← get).caches.failure? key with
        | some failure => throw failure
        | none =>
          let node ← document.target reference path
          let resolved ← node.settle (follow document budget (reference :: path)) document
          keepReference key resolved
          return resolved

namespace Value

mutual

/-- The number of references that are written in a value. -/
def referenceCount : Value → Nat
  | .list items => itemReferences items
  | .map entries => entryReferences entries
  | _ => 0

/-- The number of references in a list of values. -/
def itemReferences : List Value → Nat
  | [] => 0
  | item :: rest => referenceCount item + itemReferences rest

/-- The number of references in the entries of a mapping. -/
def entryReferences : List (Value × Value) → Nat
  | [] => 0
  | (key, item) :: rest =>
    (if key.isText "$ref" then 1 else 0) + referenceCount item + entryReferences rest

end

end Value

/-- How many references into other documents can be followed on one path. -/
def outsideBudget (maxDepth : Value) : Nat :=
  match maxDepth.number? with
  | some (.int n) => (n + 1).toNat
  | some (.double x) =>
    match x.floor? with
    | some n => (n + 1).toNat
    | none => 1000000
  | none => 0

/-- A bound on the length of all paths of references: the references of the document, those into
other documents, the first one and one that fails. -/
def pathBudget (document : Document) (maxDepth : Value) : Nat :=
  document.raw.referenceCount + outsideBudget maxDepth + 2

/-- Resolve a reference, while the references of a path are already being followed. -/
def resolveReference (document : Document) (path : List String) (reference : Value) :
    Resolving Node := do
  let budget := pathBudget document (← get).externalSettings.maxDepth
  follow document budget path reference

/-- Resolve a schema of a document. -/
def resolveNode (document : Document) (node : Node) : Resolving Node := do
  let budget := pathBudget document (← get).externalSettings.maxDepth
  node.settle (follow document budget []) document

end SchemaGraph
