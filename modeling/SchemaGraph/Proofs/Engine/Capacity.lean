import SchemaGraph.Proofs.Engine.History
import SchemaGraph.Proofs.Engine.Tasks
import SchemaGraph.Proofs.Store.Capacity

/-!
# Stores within their bounds

The caches of an engine stay within the bound that their settings give, and the documents that are kept
from outside within theirs, whatever the engine is asked for and in between the steps of what it does.
-/

namespace SchemaGraph

open Resolving

/-- Whether the documents kept from outside are within the bound that the settings give, an integer that
is not negative. -/
structure External.Within (settings : ExternalSettings) (kept : List (String × Loaded))
    (bound : Int) : Prop where
  nonnegative : 0 ≤ bound
  maxCacheSize : settings.maxCacheSize.number? = some (.int bound)
  size : (kept.length : Int) ≤ bound

namespace Session

/-- Whether all stores are within their bounds. -/
structure InBounds (s : Session) : Prop where
  caches : ∃ bound, s.caches.Within bound
  outside : ∃ bound, External.Within s.externalSettings s.external bound

theorem inBounds_start {config : Config} {bound outsideBound : Int}
    (hcache : config.cache.maxSize.number? = some (.int bound)) (hbound : 1 ≤ bound)
    (hexternal : config.external.maxCacheSize.number? = some (.int outsideBound))
    (houtside : 0 ≤ outsideBound) (memory : Number × Number) (nextId : Nat) :
    (Session.start config memory nextId).InBounds :=
  ⟨⟨bound, Caches.within_empty hcache hbound⟩, outsideBound, houtside, hexternal, houtside⟩

namespace InBounds

variable {s : Session} (h : s.InBounds)
include h

/-- Caches that stay within a bound. -/
theorem of_caches {caches : Caches CacheKey String Node Failure Document}
    (hcaches : ∀ bound, s.caches.Within bound → ∃ bound, caches.Within bound) :
    { s with caches := caches }.InBounds := by
  obtain ⟨⟨bound, hwithin⟩, houtside⟩ := h
  exact ⟨hcaches bound hwithin, houtside⟩

/-- Fewer documents kept from outside. -/
theorem of_external {external : List (String × Loaded)}
    (hlength : ∀ bound : Int, s.externalSettings.maxCacheSize.number? = some (.int bound) →
      0 ≤ bound → (s.external.length : Int) ≤ bound → (external.length : Int) ≤ bound) :
    { s with external := external }.InBounds := by
  obtain ⟨⟨bound, hwithin⟩, outsideBound, houtside⟩ := h
  refine ⟨⟨bound, hwithin⟩, outsideBound, houtside.nonnegative, houtside.maxCacheSize, ?_⟩
  exact hlength outsideBound houtside.maxCacheSize houtside.nonnegative houtside.size

theorem sameStores {t : Session} (hsame : s.SameStores t) : t.InBounds := by
  refine ⟨?_, ?_⟩
  · rw [hsame.caches]
    exact h.caches
  · rw [hsame.externalSettings, hsame.external]
    exact h.outside

end InBounds

theorem untracked_inBounds : Untracked InBounds where
  records := fun _ hs => ⟨hs.caches, hs.outside⟩

theorem aside_inBounds : Aside InBounds := fun _ _ hsame hs => hs.sameStores hsame

theorem aloof_inBounds : Aloof InBounds := fun _ _ _ _ hs => ⟨hs.caches, hs.outside⟩

end Session

namespace External

theorem keeping_recallDocument_inBounds (location : String) :
    Keeping Session.InBounds (recallDocument location) := by
  unfold recallDocument
  refine keeping_get.bind fun s => ?_
  split
  · exact keeping_pure _
  · split
    · exact keeping_pure _
    · refine (keeping_check _).bind fun stale => ?_
      split
      · refine (keeping_modify fun t ht => ht.of_external fun bound _ _ hlength => ?_).bind fun _ =>
          keeping_pure _
        have herased : (Ordered.erase location t.external).length ≤ t.external.length :=
          List.length_filter_le _ _
        omega
      · exact keeping_pure _

/-- Keeping one more document drops as many as do not fit. -/
theorem keeping_keep_inBounds (location : String) (raw : Value) :
    Keeping Session.InBounds (keep location raw) := by
  unfold keep
  refine keeping_get_bind fun world s hs => ?_
  split
  · obtain ⟨bound, hnonnegative, hsettings, -⟩ := hs.outside
    dsimp only
    have hnumber := Value.number_eq_ok.mpr hsettings
    have hkept : ∀ external : List (String × Loaded), (external.length : Int) ≤ bound →
        { s with external := external }.InBounds := by
      intro external hlength
      refine hs.of_external fun bound' hbound' _ _ => ?_
      obtain rfl : bound = bound' := by
        rw [hsettings] at hbound'
        exact Number.int.inj (Option.some.inj hbound')
      exact hlength
    change Ensures _ world s fun _ t => t.InBounds
    rw [hnumber, ensures_set_bind, ensures_check_ok_bind rfl]
    split
    · -- The documents that are left fit, by the choice of the number that is dropped.
      rename_i dropped hfitting
      have hin := List.mem_of_mem_head? hfitting
      obtain ⟨-, hfits⟩ := List.mem_filter.mp hin
      refine hkept _ ?_
      rw [List.length_drop]
      simpa using hfits
    · exact hkept [] hnonnegative
  · exact hs

theorem keeping_load_inBounds (location : String) : Keeping Session.InBounds (load location) :=
  keeping_load_of Session.aloof_inBounds.distant.timeless
    (keeping_fetch Session.aloof_inBounds.distant.remote) keeping_recallDocument_inBounds
    keeping_keep_inBounds location

end External

namespace Session

theorem lasting_inBounds (d : Document) : Lasting d InBounds where
  toUntracked := untracked_inBounds
  outside := External.keeping_resolve_of External.keeping_load_inBounds
  composition := fun _ n hs => hs.of_caches fun bound hwithin =>
    ⟨bound, { hwithin with compositions := hwithin.compositions.set hwithin.positive _ n }⟩
  reference := fun _ n hs => hs.of_caches fun bound hwithin =>
    ⟨bound, { hwithin with references := hwithin.references.set hwithin.positive _ n }⟩
  schema := fun _ n hs => hs.of_caches fun bound hwithin =>
    ⟨bound, { hwithin with schemas := hwithin.schemas.set hwithin.positive _ n }⟩
  failure := fun _ failure hs => hs.of_caches fun bound hwithin =>
    ⟨bound, hwithin.rememberFailure _ failure⟩

theorem durable_inBounds : Durable InBounds where
  toUntracked := untracked_inBounds
  aside := aside_inBounds
  loading := External.keeping_load_inBounds
  following := fun d path target => (lasting_inBounds d).keeping_resolveReference path target
  settling := fun d n => (lasting_inBounds d).keeping_resolveNode n
  schema := fun d name n hs => (lasting_inBounds d).schema name n hs
  document := fun name d hs => hs.of_caches fun bound hwithin =>
    ⟨bound, { hwithin with documents := hwithin.documents.set hwithin.positive name d }⟩
  dropped := fun hs => hs.of_caches fun bound hwithin => ⟨bound, hwithin.evictShare cleanupShare⟩
  cleared := by
    intro s hs
    -- First the caches are emptied, then the documents from outside.
    have hemptied : { s with caches := s.caches.clearAll }.InBounds :=
      hs.of_caches fun bound hwithin => ⟨bound, hwithin.clearAll⟩
    exact hemptied.of_external fun bound _ hbound _ => hbound

end Session

namespace Engine

/-- Whether a request that sets the bound of the caches gives no double for it.  A cache that holds more
entries than a double allows refuses it, but only after the bound was set. -/
def Request.CountsEntries : Request → Prop
  | .configureCaching _ maxSize => ∀ x, maxSize.number? ≠ some (.double x)
  | _ => True

theorem keeping_request_inBounds {r : Request} (hr : r.CountsEntries) :
    Keeping Session.InBounds r.run := by
  refine Session.durable_inBounds.keeping_request fun enabled maxSize heq => ?_
  subst heq
  refine Session.untracked_inBounds.keeping_configureCaching fun s hs => ?_
  exact hs.of_caches fun bound hwithin => hwithin.configure hr

/-- Throughout every life of an engine, all stores are within the bounds that the settings give: after
every request, and where the tasks of a request start and end, whatever turns they take. -/
theorem stores_stay_in_bounds (config : Config) (resident virtual : UInt64) (nextId : Nat)
    {bound outsideBound : Int} (hcache : config.cache.maxSize.number? = some (.int bound))
    (hbound : 1 ≤ bound)
    (hexternal : config.external.maxCacheSize.number? = some (.int outsideBound))
    (houtside : 0 ≤ outsideBound) {life : List (World × Request)}
    (hlife : ∀ step ∈ life, step.2.CountsEntries) :
    let s := lived life (new config resident virtual nextId)
    s.InBounds ∧
      ∀ (world : World) (r : Request), r.CountsEntries → ∀ task scene t,
        Task.Reaches world (.request r) s task scene t →
          t.InBounds ∧ (task.after scene t).InBounds := by
  intro s
  have hs : s.InBounds :=
    keeps_lived (fun step hstep => keeping_request_inBounds (hlife step hstep))
      (Session.inBounds_start hcache hbound hexternal houtside _ nextId)
  refine ⟨hs, fun world r hr task scene t hreaches => ?_⟩
  have hthroughout := Session.durable_inBounds.throughout Session.lasting_inBounds
  exact (hthroughout.kept_reached (keeping_request_inBounds hr) hreaches hs).2

/-- A life in which a reference is resolved, schemas are enumerated and the caches get a new bound. -/
def resizedLife : List (World × Request) :=
  [(emptyWorld, askAlias), (emptyWorld, .batches aliasSubject),
    (emptyWorld, .configureCaching (.bool true) (.int 1))]

theorem countsEntries_resized : ∀ step ∈ resizedLife, step.2.CountsEntries := by
  intro step hstep
  rcases hstep with _ | ⟨_, _ | ⟨_, _ | ⟨_, hstep⟩⟩⟩
  · trivial
  · trivial
  · intro x hx
    cases hx
  · cases hstep

theorem stores_stay_in_bounds_resized :
    let s := lived resizedLife (new {} 0 0 1)
    s.InBounds ∧ (Task.after emptyWorld s (.follow aliasDocument
      (pathBudget aliasDocument s.externalSettings.maxDepth) []
        (.str "#/components/schemas/Alias"))).InBounds := by
  intro s
  have hcache : ({} : Config).cache.maxSize.number? = some (.int 1000) := rfl
  have hexternal : ({} : Config).external.maxCacheSize.number? = some (.int 100) := rfl
  obtain ⟨hs, hmoments⟩ := stores_stay_in_bounds {} 0 0 1 hcache (by decide) hexternal (by decide)
    countsEntries_resized
  refine ⟨hs, ?_⟩
  have hreference : Task.Starts emptyWorld (.request (.reference (.document aliasDocument)
      (.value (.str "#/components/schemas/Alias")) (.list []))) s
      (.reference aliasDocument [] (.str "#/components/schemas/Alias")) s := .reference rfl rfl rfl
  have hfollow : Task.Starts emptyWorld
      (.reference aliasDocument [] (.str "#/components/schemas/Alias")) s
      (.follow aliasDocument (pathBudget aliasDocument s.externalSettings.maxDepth) []
        (.str "#/components/schemas/Alias")) s := .follow _ _ _ _
  have hcounts : (Request.reference (.document aliasDocument)
      (.value (.str "#/components/schemas/Alias")) (.list [])).CountsEntries := trivial
  exact (hmoments emptyWorld _ hcounts _ _ _ (hreference.reaches.starts hfollow)).2

end Engine

end SchemaGraph
