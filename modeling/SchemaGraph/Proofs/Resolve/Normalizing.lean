import SchemaGraph.Proofs.Resolve.Establishing
import SchemaGraph.Proofs.Schema.Normal

/-!
# Resolving to normal form

A session is in normal form if its caches of references and of compositions hold schemas in normal
form, and its cache of declared schemas holds no references.  Resolving a regular schema or a
reference in such a session gives a schema in normal form and leaves such a session, whatever world
it runs in: a target is read, so it is regular, what settling builds from it is in normal form, and
nothing else is written.
-/

namespace SchemaGraph

open Resolving

/-- Whatever value a schema is read from, it comes from a source. -/
theorem Node.readFrom_sourced : ReadFrom (fun _ => True) Sourced where
  entry := fun _ _ => trivial
  item := fun _ _ => trivial
  null := trivial
  blank := trivial
  parse := fun _ h => sourced_parse h

/-- What a reference names was read. -/
theorem yields_sourced_target {keeps : Session → Prop} (hin : Inward keeps) {d : Document}
    {x : String}
    (hfailure : ∀ s cause, keeps s → keeps (s.keptFailure (cacheKey d x) (.externalFailed x cause)))
    (path : List String) : Yields keeps Node.Sourced (d.target x path) :=
  yields_target Node.readFrom_sourced (fun location => (External.keeping_load hin location).yields)
    trivial hfailure path

theorem Node.establishes_normal : Establishes Regular Normal Merged.Variantless where
  leaf := fun h => h.normal_of_isLeaf
  members := fun h => h.members
  start := fun _ => Merged.variantless_start _ _
  absorb := fun hm _ h => hm.absorb h
  node := fun hm => hm.normal
  oneOf := fun _ => normal_resolvedOneOf
  anyOf := fun _ => normal_resolvedAnyOf

/-- A session whose caches hold schemas in normal form, and whose declared schemas were read or are in
normal form, and are no references. -/
structure Session.InNormalForm (s : Session) : Prop where
  references : ∀ key n, (key, n) ∈ s.caches.references.entries → n.Normal
  compositions : ∀ key n, (key, n) ∈ s.caches.compositions.entries → n.Normal
  schemas : ∀ key n, (key, n) ∈ s.caches.schemas.entries → n.Known ∧ n.isRef = false

namespace Session

theorem mem_entries_set {c : BoundedCache CacheKey Node} {key : CacheKey} {n : Node}
    {good : Node → Prop} (h : ∀ key n, (key, n) ∈ c.entries → good n) (hn : good n) :
    ∀ key' n', (key', n') ∈ (c.set key n).1.entries → good n' := by
  obtain ⟨entries, result, heq, hentries, -, -⟩ := c.set_cases key n
  rw [heq]
  intro key' n' hin
  rcases hentries (key', n') hin with hnew | hold
  · obtain ⟨rfl, rfl⟩ := Prod.mk.inj hnew
    exact hn
  · exact h key' n' hold

theorem unrecorded_inNormalForm : Unrecorded InNormalForm where
  inward := fun _ _ _ _ _ hs => ⟨hs.references, hs.compositions, hs.schemas⟩
  records := fun _ hs => ⟨hs.references, hs.compositions, hs.schemas⟩

namespace InNormalForm

variable {s : Session} (h : s.InNormalForm) {n : Node}
include h

theorem keptReference (key : CacheKey) (hn : n.Normal) : (s.keptReference key n).InNormalForm :=
  ⟨mem_entries_set h.references hn, h.compositions, h.schemas⟩

theorem keptComposition (key : CacheKey) (hn : n.Normal) :
    (s.keptComposition key n).InNormalForm :=
  ⟨h.references, mem_entries_set h.compositions hn, h.schemas⟩

theorem keptSchema (key : CacheKey) (hn : n.Known) (href : n.isRef = false) :
    (s.keptSchema key n).InNormalForm :=
  ⟨h.references, h.compositions, mem_entries_set h.schemas ⟨hn, href⟩⟩

theorem keptFailure (key : CacheKey) (failure : Failure) :
    (s.keptFailure key failure).InNormalForm := by
  have hcaches : (s.caches.rememberFailure key failure).1.references = s.caches.references ∧
      (s.caches.rememberFailure key failure).1.compositions = s.caches.compositions ∧
        (s.caches.rememberFailure key failure).1.schemas = s.caches.schemas := by
    unfold Caches.rememberFailure
    split <;> exact ⟨rfl, rfl, rfl⟩
  obtain ⟨hreferences, hcompositions, hschemas⟩ := hcaches
  unfold Session.keptFailure
  refine ⟨?_, ?_, ?_⟩
  · rw [hreferences]
    exact h.references
  · rw [hcompositions]
    exact h.compositions
  · rw [hschemas]
    exact h.schemas

end InNormalForm

end Session

theorem Session.holding_inNormalForm : Holding Session.InNormalForm Node.Normal where
  toUntracked := Session.unrecorded_inNormalForm.toUntracked
  reference := fun hs hn => hs.references _ _ (BoundedCache.mem_of_get hn)
  composition := fun hs hn => hs.compositions _ _ (BoundedCache.mem_of_get hn)
  keptReference := fun key _ hs => hs.keptReference key
  keptComposition := fun key _ hs => hs.keptComposition key
  keptFailure := fun key failure hs => hs.keptFailure key failure

section Resolution

variable (d : Document)

theorem yields_regular_target (x : String) (path : List String) :
    Yields Session.InNormalForm Node.Regular (d.target x path) :=
  (yields_sourced_target Session.unrecorded_inNormalForm.inward
    (fun _ _ hs => hs.keptFailure _ _) path).mono fun _ hn => hn.regular

/-- Following a reference gives a schema in normal form. -/
theorem yields_resolveReference (path : List String) (target : Value) :
    Yields Session.InNormalForm Node.Normal (resolveReference d path target) :=
  Node.establishes_normal.yields_resolveReference Session.holding_inNormalForm
    (yields_regular_target d) path target

/-- So does resolving a regular schema. -/
theorem yields_resolveNode {n : Node} (hn : n.Regular) :
    Yields Session.InNormalForm Node.Normal (resolveNode d n) :=
  Node.establishes_normal.yields_resolveNode Session.holding_inNormalForm
    (yields_regular_target d) hn

/-- Resolving a schema in normal form gives it back. -/
theorem resolveNode_normal {n : Node} (hn : n.Normal) : resolveNode d n = pure n := by
  unfold resolveNode
  funext world
  funext s
  have hsettle := Node.settle_leaf (follow d (pathBudget d s.externalSettings.maxDepth) []) d
    hn.isLeaf
  exact congrFun (congrFun hsettle world) s

end Resolution

end SchemaGraph
