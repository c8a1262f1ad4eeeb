import SchemaGraph.Config
import SchemaGraph.Store.Bounded

/-!
# The caches of an engine

Three caches hold resolved schemas: of whole registries, of compositions and of references.  Failed
references have a store of their own, so that a failure is never taken for a schema.  A fifth store
keeps the documents made from plain mappings; it is always enabled, so that a mapping keeps its
identity.

The three caches report what they evict, each under its name.
-/

namespace SchemaGraph

/-- A report of evicted entries: the name of the cache and their number. -/
structure Eviction where
  cache : String
  count : Nat
  deriving DecidableEq, Repr

/-- The caches: resolved schemas of type `ν` and failures of type `φ` under keys of type `κ`,
documents of type `δ` under keys of type `ι`. -/
structure Caches (κ ι ν φ δ : Type) where
  settings : CacheSettings
  schemas : BoundedCache κ ν
  compositions : BoundedCache κ ν
  references : BoundedCache κ ν
  failures : BoundedCache κ φ
  documents : BoundedCache ι δ

namespace Caches

variable {κ ι ν φ δ : Type}

/-- The names of the caches that report evictions. -/
def names : List String := ["schema", "composition", "reference"]

/-- Empty caches with the given settings. -/
def empty (settings : CacheSettings) : Caches κ ι ν φ δ :=
  let enabled := settings.enabled.truthy
  { settings := settings
    schemas := .empty "schema" settings.maxSize enabled
    compositions := .empty "composition" settings.maxSize enabled
    references := .empty "reference" settings.maxSize enabled
    failures := .empty "failure" settings.maxSize enabled
    documents := .empty "document" settings.maxSize true }

/-- The report of one cache, if it evicted anything. -/
def report (name : String) (count : Nat) : List Eviction :=
  if count = 0 then [] else [⟨name, count⟩]

/-- Give every cache a new bound, one after the other, until one of them refuses it. -/
def shrinkAll (c : Caches κ ι ν φ δ) (bound : Value) :
    Caches κ ι ν φ δ × List Eviction × Except Fault Unit :=
  let c := { c with settings := { c.settings with maxSize := bound } }
  let (schemas, r) := c.schemas.shrinkTo bound
  let c := { c with schemas := schemas }
  match r with
  | .error fault => (c, [], .error fault)
  | .ok count =>
    let evicted := report "schema" count
    let (compositions, r) := c.compositions.shrinkTo bound
    let c := { c with compositions := compositions }
    match r with
    | .error fault => (c, evicted, .error fault)
    | .ok count =>
      let evicted := evicted ++ report "composition" count
      let (references, r) := c.references.shrinkTo bound
      let c := { c with references := references }
      match r with
      | .error fault => (c, evicted, .error fault)
      | .ok count =>
        let evicted := evicted ++ report "reference" count
        let (failures, r) := c.failures.shrinkTo bound
        let c := { c with failures := failures }
        match r with
        | .error fault => (c, evicted, .error fault)
        | .ok _ =>
          let (documents, r) := c.documents.shrinkTo bound
          ({ c with documents := documents }, evicted, r.map fun _ => ())

/-- Turn all caches but the documents on or off. -/
def setEnabled (c : Caches κ ι ν φ δ) (flag : Value) : Caches κ ι ν φ δ :=
  let enabled := flag.truthy
  { c with
    settings := { c.settings with enabled := flag }
    schemas := { c.schemas with enabled := enabled }
    compositions := { c.compositions with enabled := enabled }
    references := { c.references with enabled := enabled }
    failures := { c.failures with enabled := enabled } }

/-- Change settings; null leaves a setting as it is.  A bound below one is refused before anything
has changed. -/
def configure (c : Caches κ ι ν φ δ) (enabled maxSize : Value) :
    Caches κ ι ν φ δ × List Eviction × Except Failure Unit :=
  let switch (c : Caches κ ι ν φ δ) : Caches κ ι ν φ δ :=
    if enabled.isNull then c else c.setEnabled enabled
  if maxSize.isNull then (switch c, [], .ok ())
  else match maxSize.number with
    | .error fault => (c, [], .error (.fault fault))
    | .ok bound =>
      if Number.lt bound (.int 1) then (c, [], .error (.refused (.cacheBound maxSize)))
      else match c.shrinkAll maxSize with
        | (c, evicted, .ok ()) => (switch c, evicted, .ok ())
        | (c, evicted, .error fault) => (c, evicted, .error (.fault fault))

/-- Whether failures are remembered: the first setting that says no, or the last one. -/
def cacheExternalFailures (c : Caches κ ι ν φ δ) : Value :=
  c.settings.enabled.andThen c.settings.cacheExternalFailures

/-- Remember a failure, if failures are remembered. -/
def rememberFailure [BEq κ] (c : Caches κ ι ν φ δ) (key : κ) (failure : φ) :
    Caches κ ι ν φ δ × Except Fault Unit :=
  if c.cacheExternalFailures.truthy then
    let (failures, r) := c.failures.set key failure
    ({ c with failures := failures }, r.map fun _ => ())
  else (c, .ok ())

/-- A remembered failure. -/
def failure? [BEq κ] (c : Caches κ ι ν φ δ) (key : κ) : Option φ :=
  if c.cacheExternalFailures.truthy then c.failures.get? key else none

/-- The caches without entries. -/
def clearAll (c : Caches κ ι ν φ δ) : Caches κ ι ν φ δ :=
  { c with
    schemas := c.schemas.clear
    compositions := c.compositions.clear
    references := c.references.clear
    failures := c.failures.clear
    documents := c.documents.clear }

/-- Drop the oldest entries of the three caches of schemas, up to a share of each. -/
def evictShare (c : Caches κ ι ν φ δ) (fraction : Value) :
    Caches κ ι ν φ δ × List Eviction × Except Failure Nat :=
  match c.schemas.evictFraction fraction, c.compositions.evictFraction fraction,
    c.references.evictFraction fraction with
  | (schemas, .ok m), (compositions, .ok n), (references, .ok k) =>
    ({ c with schemas := schemas, compositions := compositions, references := references },
      report "schema" m ++ report "composition" n ++ report "reference" k, .ok (m + n + k))
  | (_, .error failure), _, _ => (c, [], .error failure)
  | _, (_, .error failure), _ => (c, [], .error failure)
  | _, _, (_, .error failure) => (c, [], .error failure)

/-- The number of schemas in the three caches. -/
def totalSize (c : Caches κ ι ν φ δ) : Nat :=
  c.schemas.size + c.compositions.size + c.references.size

/-- Sizes and settings. -/
def stats (c : Caches κ ι ν φ δ) : Value :=
  Value.record [("schemas", .ofNat c.schemas.size), ("compositions", .ofNat c.compositions.size),
    ("references", .ofNat c.references.size), ("max_size", c.settings.maxSize),
    ("enabled", c.settings.enabled)]

end Caches

end SchemaGraph
