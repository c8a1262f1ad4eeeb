import SchemaGraph.Proofs.Engine.Requests
import SchemaGraph.Proofs.Resolve.Steady

/-!
# What stands aside

What stands beside the stores and the records of a session are the settings of memory cleanup and of
metrics, the time, the memory in use and what was done outside but for the requests.  Loading documents,
changing the settings of memory cleanup and the passing of time change nothing else, and opening a
subject writes at most one document.

Freeing memory and changing the settings of the caches change the caches and then the records, in which
they count what was evicted.  The measuring of a whole run changes nothing else of the records than the
times and what was in use.
-/

namespace SchemaGraph

open Resolving

namespace Tracker

theorem same_snapshot (t : Tracker) (resident : Number) :
    (t.snapshot resident).enabled = t.enabled ∧ (t.snapshot resident).caches = t.caches := by
  unfold snapshot
  split <;> exact ⟨rfl, rfl⟩

theorem same_recordProcessed (t : Tracker) :
    t.recordProcessed.enabled = t.enabled ∧ t.recordProcessed.caches = t.caches := by
  unfold recordProcessed
  split <;> exact ⟨rfl, rfl⟩

theorem same_startTracking (t : Tracker) (now : Binary64) (resident : Number) :
    (t.startTracking now resident).enabled = t.enabled ∧
      (t.startTracking now resident).caches = t.caches := by
  have hstarted : (t.startTimer Operation.totalProcessing.name now).enabled = t.enabled ∧
      (t.startTimer Operation.totalProcessing.name now).caches = t.caches := by
    unfold startTimer
    split <;> exact ⟨rfl, rfl⟩
  obtain ⟨henabled, hcaches⟩ :=
    (t.startTimer Operation.totalProcessing.name now).same_snapshot resident
  exact ⟨henabled.trans hstarted.1, hcaches.trans hstarted.2⟩

theorem same_endTimer (t : Tracker) (operation : String) (now : Binary64) :
    (t.endTimer operation now).1.enabled = t.enabled ∧
      (t.endTimer operation now).1.caches = t.caches := by
  unfold endTimer
  split
  · exact ⟨rfl, rfl⟩
  · split
    · exact ⟨rfl, rfl⟩
    · dsimp only
      unfold recordDuration
      split <;> exact ⟨rfl, rfl⟩

theorem same_endTracking (t : Tracker) (now : Binary64) (resident : Number) :
    (t.endTracking now resident).enabled = t.enabled ∧
      (t.endTracking now resident).caches = t.caches := by
  unfold endTracking
  dsimp only
  split
  · obtain ⟨henabled, hcaches⟩ :=
      (t.endTimer Operation.totalProcessing.name now).1.same_snapshot resident
    have hended := t.same_endTimer Operation.totalProcessing.name now
    exact ⟨henabled.trans hended.1, hcaches.trans hended.2⟩
  · exact t.same_snapshot resident

end Tracker

/-- Records of the same caches know the same caches by name. -/
theorem Tracker.Ready.of_same {t u : Tracker} (h : t.Ready)
    (hsame : u.enabled = t.enabled ∧ u.caches = t.caches) : u.Ready := by
  unfold Ready
  rw [hsame.2]
  exact h

namespace Session

/-- The session with a document under the name of a mapping. -/
def keptDocument (s : Session) (name : String) (d : Document) : Session :=
  { s with caches := { s.caches with documents := (s.caches.documents.set name d).1 } }

end Session

/-- Sessions that differ at most in what stands beside their stores and records; the later one may have
given numbers to documents. -/
structure Session.SameStores (s t : Session) : Prop where
  caches : t.caches = s.caches
  external : t.external = s.external
  externalSettings : t.externalSettings = s.externalSettings
  tracker : t.tracker = s.tracker
  requests : t.requests = s.requests
  shared : s.Shared → t.Shared
  nextId : s.nextId ≤ t.nextId

/-- A property of sessions that does not look at what stands beside the stores, the records and the
requests, and that lasts while documents get numbers and tasks take turns. -/
def Aside (keeps : Session → Prop) : Prop := ∀ s t : Session, s.SameStores t → keeps s → keeps t

/-- Pointing odd paths out keeps what warnings keep. -/
theorem Document.keeping_oddPaths {keeps : Session → Prop}
    (hwarn : ∀ warning, Keeping keeps (warn warning)) (oddPaths : List Value) :
    Keeping keeps (oddPaths.forM fun path => warn (.oddPath path)) := by
  induction oddPaths with
  | nil => exact keeping_pure _
  | cons first rest ih =>
      rw [List.forM]
      exact (hwarn _).bind fun _ => ih

/-- Loading a document keeps what notes that are no requests, and the numbering of documents, keep. -/
theorem Document.keeping_load {keeps : Session → Prop}
    (hnote : ∀ event : Event, event.request? = none → Keeping keeps (emit event))
    (hcreate : ∀ raw source, Keeping keeps (create raw source)) (path : String) :
    Keeping keeps (load path) := by
  unfold load
  refine keeping_read.bind fun world => Keeping.guard (keeping_fault _) ?_
  refine Keeping.guard (keeping_throw _) ?_
  dsimp only
  split
  · exact keeping_throw _
  · refine (hnote _ rfl).bind fun _ => ?_
    refine (keeping_check _).bind fun text => (keeping_lift _).bind fun raw => ?_
    split
    · exact keeping_throw _
    · exact (keeping_oddPaths (fun _ => hnote _ rfl) _).bind fun _ => hcreate raw _

namespace Aside

variable {keeps : Session → Prop} (h : Aside keeps)
include h

/-- What is noted and is no request. -/
theorem keeping_note {event : Event} (hevent : event.request? = none) :
    Keeping keeps (emit event) :=
  keeping_modify fun s hs =>
    h s _ ⟨rfl, rfl, rfl, rfl, List.filterMap_cons_none hevent, List.mem_cons_of_mem _, le_refl _⟩ hs

/-- The turn passes to another task. -/
theorem turned (s : Session) (hs : keeps s) : keeps s.turned :=
  h s _ ⟨rfl, rfl, rfl, rfl, rfl, List.mem_cons_of_mem _, le_refl _⟩ hs

theorem keeping_warn (warning : Warning) : Keeping keeps (warn warning) := h.keeping_note rfl

theorem keeping_aside {change : Session → Session} (hchange : ∀ s : Session, s.SameStores (change s)) :
    Keeping keeps (modify change : Resolving Unit) :=
  keeping_modify fun s hs => h s _ (hchange s) hs

theorem keeping_create (raw : Value) (source : String) :
    Keeping keeps (Document.create raw source) := by
  unfold Document.create
  exact keeping_get_bind fun _ s hs => h s _ ⟨rfl, rfl, rfl, rfl, rfl, id, Nat.le_succ _⟩ hs

/-- Opening a subject keeps what the writing of documents keeps. -/
theorem keeping_open (hdocument : ∀ {s : Session} name d, keeps s → keeps (s.keptDocument name d))
    (subject : Engine.Subject) : Keeping keeps subject.open := by
  cases subject with
  | document d => exact keeping_pure d
  | mapping name raw =>
      unfold Engine.Subject.open
      refine keeping_get.bind fun s => ?_
      split
      · exact keeping_pure _
      · refine (h.keeping_create raw "").bind fun d => keeping_get_bind fun world t ht => ?_
        dsimp only
        rw [bind_apply]
        exact ((keeping_check _).bind fun _ => keeping_pure d) world _ (hdocument name d ht)

theorem keeping_load (path : String) : Keeping keeps (Document.load path) :=
  Document.keeping_load (fun _ hevent => h.keeping_note hevent) h.keeping_create path

theorem keeping_configureMemory (enabled threshold streaming : Value) :
    Keeping keeps (Engine.configureMemory enabled threshold streaming) := by
  have hsettings : ∀ change : Session → MemorySettings,
      Keeping keeps (modify fun s => { s with memorySettings := change s }) :=
    fun change => h.keeping_aside fun s => ⟨rfl, rfl, rfl, rfl, rfl, id, le_refl _⟩
  have hstreaming : Keeping keeps (if !streaming.isNull then
      modify fun s => { s with memorySettings := { s.memorySettings with streamingMode := streaming } }
      else pure ()) := by
    split
    · exact hsettings _
    · exact keeping_pure _
  unfold Engine.configureMemory
  dsimp only
  refine Keeping.guard (hsettings _) ?_
  split
  · refine (keeping_check _).bind fun bound => Keeping.guard (keeping_throw _) ?_
    exact (hsettings _).bind fun _ => hstreaming
  · exact hstreaming

theorem keeping_pass (seconds : Number) (memory : Number × Number) :
    Keeping keeps (modify fun s => { s.elapse seconds with memory := memory }) := by
  refine h.keeping_aside fun s => ?_
  unfold Session.elapse
  split <;> exact ⟨rfl, rfl, rfl, rfl, rfl, id, le_refl _⟩

end Aside

namespace Untracked

variable {keeps : Session → Prop} (h : Untracked keeps)
include h

/-- Changing the settings of the caches keeps what does not look at the records and is kept where the
caches take the settings. -/
theorem keeping_configureCaching {enabled maxSize : Value} (hconfigured : ∀ s : Session, keeps s →
      keeps { s with caches := (s.caches.configure enabled maxSize).1 }) :
    Keeping keeps (Engine.configureCaching enabled maxSize) := by
  unfold Engine.configureCaching
  refine keeping_get_bind fun world s hs => ?_
  dsimp only
  rw [bind_apply]
  exact keeping_lift _ world _ (h.keeps_countEvictions (hconfigured s hs) _)

end Untracked

/-- Recording the sizes of the caches, if recording one size does so. -/
theorem Engine.keeping_refreshSizes {keeps : Session → Prop}
    (hsize : ∀ name size maxSize, Keeping keeps (track (·.recordSize name size maxSize))) :
    Keeping keeps refreshSizes := by
  unfold refreshSizes
  refine keeping_get.bind fun s => ?_
  exact (hsize _ _ _).bind fun _ => (hsize _ _ _).bind fun _ => (hsize _ _ _).bind fun _ =>
    keeping_pure _

end SchemaGraph
