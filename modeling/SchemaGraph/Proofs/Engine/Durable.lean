import SchemaGraph.Proofs.Engine.Aside
import SchemaGraph.Proofs.Engine.Subjects

/-!
# What every request keeps

A property of sessions is durable if all that requests are made of keeps it: resolving, loading, looking
outside, the writing of enumerated schemas and of documents, the freeing of memory and the emptying of
the caches.  It does not look at the records and at what stands beside the caches.  Then every request
keeps it that does not change the settings of the caches, and every other request if changing these
settings does.
-/

namespace SchemaGraph

open Resolving

/-- The session with empty caches. -/
def Session.cleared (s : Session) : Session :=
  { s with caches := s.caches.clearAll, external := [] }

/-- A property of sessions that is kept by all that does not resolve. -/
structure Standing (keeps : Session → Prop) : Prop extends Untracked keeps where
  aside : Aside keeps
  loading : ∀ location, Keeping keeps (External.load location)
  dropped : ∀ {s : Session}, keeps s → keeps (s.dropped cleanupShare)
  cleared : ∀ {s : Session}, keeps s → keeps s.cleared

/-- A property of sessions that is kept by all that requests are made of. -/
structure Durable (keeps : Session → Prop) : Prop extends Standing keeps where
  following : ∀ d path target, Keeping keeps (resolveReference d path target)
  settling : ∀ d n, Keeping keeps (resolveNode d n)
  schema : ∀ {s : Session} d name n, keeps s → keeps (s.keptSchema (cacheKey d name) n)
  document : ∀ {s : Session} name d, keeps s → keeps (s.keptDocument name d)

namespace Aside

variable {keeps : Session → Prop} (h : Aside keeps)
include h

/-- One more enumerated schema. -/
theorem keeps_processed (huntracked : Untracked keeps) {s : Session} (hs : keeps s) :
    keeps { s with processed := s.processed + 1, tracker := s.tracker.recordProcessed } :=
  huntracked.records (s := { s with processed := s.processed + 1 })
    (fun hready => hready.of_same s.tracker.same_recordProcessed)
    (h s _ ⟨rfl, rfl, rfl, rfl, rfl, id, le_refl _⟩ hs)

end Aside

/-- What is made of a result does not matter. -/
theorem keeping_answer {α : Type} {keeps : Session → Prop} {act : Resolving α}
    (hact : Keeping keeps act) (answer : α → Engine.Answer) :
    Keeping keeps (act >>= fun a => pure (answer a)) :=
  hact.bind fun _ => keeping_pure _

namespace Standing

open Engine

variable {keeps : Session → Prop} (h : Standing keeps)
include h

theorem keeping_freeing (force : Bool) : Keeping keeps (cleanup force) :=
  h.toUntracked.keeping_cleanup (fun _ _ _ => h.aside.keeping_warn _) (fun _ => h.dropped) force

theorem keeping_configureMetrics (enabled : Value) : Keeping keeps (configureMetrics enabled) := by
  unfold configureMetrics
  refine keeping_modify fun s hs => ?_
  have haside : keeps { s with metricsSettings := { s.metricsSettings with enabled := enabled } } :=
    h.aside s _ ⟨rfl, rfl, rfl, rfl, rfl, id, le_refl _⟩ hs
  exact h.records (u := .start enabled.truthy) (fun _ => Tracker.ready_start _) haside

theorem keeping_refreshSizes : Keeping keeps refreshSizes :=
  Engine.keeping_refreshSizes fun _ _ _ => h.keeping_track ⟨_, _, fun _ => rfl⟩

/-- Every request that resolves nothing keeps what stands, if it is kept where the request changes the
settings of the caches. -/
theorem keeping_request {r : Engine.Request} (hnone : r.subject? = none)
    (hconfigure : ∀ enabled maxSize, r = .configureCaching enabled maxSize →
      Keeping keeps (configureCaching enabled maxSize)) : Keeping keeps r.run := by
  cases r with
  | configureCaching enabled maxSize => exact keeping_answer (hconfigure _ _ rfl) _
  | configureMemory enabled threshold streaming =>
      exact keeping_answer (h.aside.keeping_configureMemory enabled threshold streaming) _
  | configureMetrics enabled => exact keeping_answer (h.keeping_configureMetrics enabled) _
  | cleanup force => exact keeping_answer (h.keeping_freeing force) _
  | clearCaches => exact keeping_answer (keeping_modify fun s hs => h.cleared hs) _
  | pass seconds resident virtual => exact keeping_answer (h.aside.keeping_pass seconds _) _
  | load path => exact keeping_answer (h.aside.keeping_load path) _
  | outsideDocument location => exact keeping_answer (h.loading location) _
  | outsideSchema reference base depth =>
      exact keeping_answer (External.keeping_resolve_of h.loading reference base depth) _
  | startTracking =>
      refine keeping_answer (h.keeping_record fun s hs => ?_) _
      exact hs.of_same (s.tracker.same_startTracking s.clock s.memory.1)
  | endTracking =>
      refine keeping_answer (Keeping.bind h.keeping_refreshSizes fun _ => ?_) _
      refine h.keeping_record fun s hs => ?_
      exact hs.of_same (s.tracker.same_endTracking s.clock s.memory.1)
  | report =>
      refine keeping_answer (Keeping.bind h.keeping_refreshSizes fun _ => ?_) _
      exact keeping_get.bind fun s => keeping_check _
  | resetProcessed =>
      refine keeping_answer (h.aside.keeping_aside fun s => ?_) _
      exact ⟨rfl, rfl, rfl, rfl, rfl, id, le_refl _⟩
  | _ => cases hnone

end Standing

namespace Durable

open Engine

variable {keeps : Session → Prop} (h : Durable keeps)
include h

theorem keeping_open (subject : Subject) : Keeping keeps subject.open :=
  h.aside.keeping_open h.document subject

/-- What is durable is kept by resolving in every document. -/
theorem resolved (d : Document) : Resolved (fun _ => True) d keeps where
  toUntracked := h.toUntracked
  warn := h.aside.keeping_warn
  processed := h.aside.keeps_processed h.toUntracked
  dropped := h.dropped
  following := h.following d
  schema := h.schema d
  turned := h.aside.turned
  settling := fun n _ => h.settling d n

theorem opens (subject : Subject) : Opens (fun _ => True) (fun _ => Keeping keeps) subject where
  toSequential := sequential_keeping keeps
  timed := h.keeping_timed
  opening := fun hnext => (h.keeping_open subject).bind fun d => hnext d keeps (h.resolved d)

theorem keeping_resolvedSchemas (subject : Subject) :
    Keeping keeps (Engine.resolvedSchemas subject) :=
  (h.opens subject).schemas.bind fun _ =>
    (h.opens subject).eachSchema fun _ _ => trivial

/-- Every request keeps what is durable, if it is kept where the request changes the settings of the
caches. -/
theorem keeping_request {r : Engine.Request} (hconfigure : ∀ enabled maxSize,
    r = .configureCaching enabled maxSize → Keeping keeps (configureCaching enabled maxSize)) :
    Keeping keeps r.run := by
  cases hsubject : r.subject? with
  | none => exact h.toStanding.keeping_request hsubject hconfigure
  | some subject =>
      cases r with
      | reference subject asked visited =>
          exact keeping_answer ((h.opens subject).reference asked visited) _
      | schema subject raw =>
          exact keeping_answer ((h.opens subject).rawSchema fun _ _ => trivial) _
      | references subject asked =>
          exact keeping_answer ((h.opens subject).references asked) _
      | schemas subject => exact keeping_answer (h.opens subject).schemas _
      | node subject n => exact keeping_answer ((h.opens subject).schema trivial) _
      | resolvedSchemas subject => exact keeping_answer (h.keeping_resolvedSchemas subject) _
      | batches subject => exact keeping_answer (h.opens subject).batches fun _ => .done
      | _ => cases hsubject

end Durable

end SchemaGraph
