import SchemaGraph.Resolve
import SchemaGraph.Proofs.Runs
import SchemaGraph.Proofs.Store.Bounded

/-!
# Caches and records during a run

Looking up an entry changes the records only, and writing one changes one cache and the records.
Neither fails in a session whose bounds are numbers and whose records know all caches by name.
-/

namespace SchemaGraph

/-- Whether the records know all caches by name. -/
def Tracker.Ready (t : Tracker) : Prop :=
  ∀ name ∈ Caches.names, (Ordered.get? name t.caches).isSome

namespace Tracker

theorem ready_start (enabled : Bool) : (start enabled).Ready := by
  intro name hname
  have hall : Caches.names.all (fun name => (Ordered.get? name (start enabled).caches).isSome) =
      true := by
    cases enabled <;> decide
  exact List.all_eq_true.mp hall name hname

theorem Ready.track {t : Tracker} (h : t.Ready) (operation : Operation) (started now : Binary64) :
    (t.track operation started now).Ready := by
  unfold Tracker.track
  split
  · exact h
  · exact h

theorem updateCache_ready {t u : Tracker} (h : t.Ready) {name : String}
    {change : CacheCounters → CacheCounters} (hupdate : t.updateCache name change = .ok u) :
    u.Ready := by
  unfold updateCache at hupdate
  split at hupdate
  · rw [← Except.ok.inj hupdate]
    exact h
  · split at hupdate
    · cases hupdate
    · rw [← Except.ok.inj hupdate]
      exact fun other hother => Ordered.isSome_get_write (h other hother)

theorem updateCache_ok {t : Tracker} (h : t.Ready) {name : String} (hname : name ∈ Caches.names)
    (change : CacheCounters → CacheCounters) : ∃ u, t.updateCache name change = .ok u ∧ u.Ready := by
  have hok : ∃ u, t.updateCache name change = .ok u := by
    unfold updateCache
    split
    · exact ⟨t, rfl⟩
    · obtain ⟨counters, hcounters⟩ := Option.isSome_iff_exists.mp (h name hname)
      rw [hcounters]
      exact ⟨_, rfl⟩
  obtain ⟨u, hu⟩ := hok
  exact ⟨u, hu, updateCache_ready h hu⟩

theorem recordEviction_ready {t u : Tracker} (h : t.Ready) {name : String} {count : Value}
    (hrecord : t.recordEviction name count = .ok u) : u.Ready := by
  unfold recordEviction at hrecord
  split at hrecord
  · rw [← Except.ok.inj hrecord]
    exact h
  · split at hrecord
    · rw [← Except.ok.inj hrecord]
      exact h
    · cases hcount : count.number with
      | error fault =>
          rw [hcount] at hrecord
          cases hrecord
      | ok n =>
          rw [hcount] at hrecord
          rename_i counters _ _
          cases hadd : counters.evictions.add n with
          | error fault =>
              simp only [hadd, bind, Except.bind] at hrecord
              cases hrecord
          | ok evictions =>
              simp only [hadd, bind, Except.bind] at hrecord
              exact updateCache_ready h hrecord

end Tracker

namespace Session

/-- The session with other records. -/
def retracked (s : Session) (t : Tracker) : Session := { s with tracker := t }

/-- The session with a reference written into its cache. -/
def keptReference (s : Session) (key : CacheKey) (node : Node) : Session :=
  { s with caches := { s.caches with references := (s.caches.references.set key node).1 } }

/-- The session with a composition written into its cache. -/
def keptComposition (s : Session) (key : CacheKey) (node : Node) : Session :=
  { s with caches := { s.caches with compositions := (s.caches.compositions.set key node).1 } }

/-- The session with an enumerated schema written into its cache. -/
def keptSchema (s : Session) (key : CacheKey) (node : Node) : Session :=
  { s with caches := { s.caches with schemas := (s.caches.schemas.set key node).1 } }

/-- Records that know all caches, and caches whose bounds are numbers. -/
structure Sane (s : Session) : Prop where
  ready : s.tracker.Ready
  schemas : s.caches.schemas.IsBounded
  compositions : s.caches.compositions.IsBounded
  references : s.caches.references.IsBounded
  documents : s.caches.documents.IsBounded

theorem countEvictions_eq {s : Session} (h : s.tracker.Ready) (evictions : List Eviction) :
    ∃ t : Tracker, t.Ready ∧ s.countEvictions evictions = s.retracked t := by
  refine ⟨(s.countEvictions evictions).tracker, ?_, rfl⟩
  unfold countEvictions
  dsimp only
  generalize s.tracker = t at h ⊢
  induction evictions generalizing t with
  | nil => exact h
  | cons eviction rest ih =>
      rw [List.foldl_cons]
      cases hrecord : t.recordEviction eviction.cache (.ofNat eviction.count) with
      | ok u => exact ih u (Tracker.recordEviction_ready h hrecord)
      | error fault => exact ih t h

end Session

namespace Resolving

variable {scene : Scene} {s : Session}

/-- A change of the records of a cache that is known. -/
theorem ensures_updateCache (h : s.tracker.Ready) {name : String} (hname : name ∈ Caches.names)
    {record : Tracker → Except Fault Tracker}
    (hrecord : ∃ change, ∀ t : Tracker, record t = t.updateCache name change) :
    Ensures (track record) scene s fun result t =>
      result = .ok () ∧ ∃ u : Tracker, u.Ready ∧ t = s.retracked u := by
  obtain ⟨change, hrecord⟩ := hrecord
  obtain ⟨u, hu, hready⟩ := Tracker.updateCache_ok h hname change
  unfold track
  rw [ensures_get_bind]
  rw [hrecord, hu]
  exact ⟨rfl, u, hready, rfl⟩

/-- When an operation is over, or has stopped, at most the records are others. -/
theorem clocked_retracked (h : s.tracker.Ready) (scene : Scene) (operation : Operation)
    (started : Binary64) :
    ∃ u : Tracker, u.Ready ∧ s.clocked scene operation started = s.retracked u := by
  rcases clocked_cases s scene operation started with heq | heq
  · exact ⟨s.tracker, h, heq⟩
  · exact ⟨_, h.track operation started s.clock, heq⟩

/-- Looking up an entry gives what the cache shows and changes the records only. -/
theorem ensures_recallNode (h : s.tracker.Ready) {name : String} (hname : name ∈ Caches.names)
    (cache : Caches CacheKey String Node Failure Document → BoundedCache CacheKey Node)
    (key : CacheKey) :
    Ensures (recallNode name cache key) scene s fun result t =>
      result = .ok ((cache s.caches).get? key) ∧ ∃ u : Tracker, u.Ready ∧ t = s.retracked u := by
  unfold recallNode
  rw [ensures_bind, ensures_timed_scene, ensures_get_bind, ensures_pure]
  obtain ⟨v, hready, heq⟩ := clocked_retracked h scene .cacheOperation s.clock
  rw [heq]
  unfold After
  cases (cache s.caches).get? key with
  | some node =>
      dsimp only
      rw [ensures_bind]
      refine (ensures_updateCache (s := s.retracked _) hready hname ⟨_, fun _ => rfl⟩).mono ?_
      rintro result t ⟨rfl, u, hu, rfl⟩
      exact ⟨rfl, u, hu, rfl⟩
  | none =>
      dsimp only
      rw [ensures_bind]
      refine (ensures_updateCache (s := s.retracked _) hready hname ⟨_, fun _ => rfl⟩).mono ?_
      rintro result t ⟨rfl, u, hu, rfl⟩
      exact ⟨rfl, u, hu, rfl⟩

/-- A change of the caches that succeeds. -/
theorem ensures_evicting (h : s.tracker.Ready) {ε : Type} (fail : ε → Failure) (name : String)
    {change : Caches CacheKey String Node Failure Document →
      Caches CacheKey String Node Failure Document × Except ε Nat}
    (hok : (change s.caches).2.isOk = true) :
    Ensures (evicting fail name change) scene s fun result t =>
      result = .ok () ∧ ∃ u : Tracker, u.Ready ∧
        t = ({ s with caches := (change s.caches).1 } : Session).retracked u := by
  unfold evicting
  rw [ensures_get_bind]
  dsimp only
  rw [ensures_modify_bind]
  cases hresult : (change s.caches).2 with
  | error e =>
      rw [hresult] at hok
      cases hok
  | ok count =>
      obtain ⟨u, hu, heq⟩ := Session.countEvictions_eq
        (s := { s with caches := (change s.caches).1 }) h (Caches.report name count)
      exact ⟨rfl, u, hu, heq⟩

theorem ensures_trackSize (h : s.tracker.Ready) {name : String} (hname : name ∈ Caches.names)
    (cache : Caches CacheKey String Node Failure Document → BoundedCache CacheKey Node) :
    Ensures (trackSize name cache) scene s fun result t =>
      result = .ok () ∧ ∃ u : Tracker, u.Ready ∧ t = s.retracked u := by
  unfold trackSize
  rw [ensures_get_bind]
  exact ensures_updateCache h hname ⟨_, fun _ => rfl⟩

theorem isOk_of_set {c : BoundedCache CacheKey Node} (h : c.IsBounded) (key : CacheKey)
    (node : Node) : (c.set key node).2.isOk = true := by
  obtain ⟨entries, result, heq, -, -, hok⟩ := c.set_cases key node
  rw [heq]
  exact hok h

/-- A change of the caches that succeeds, with its time recorded. -/
theorem ensures_timed_evicting (h : s.tracker.Ready) {ε : Type} (fail : ε → Failure) (name : String)
    {change : Caches CacheKey String Node Failure Document →
      Caches CacheKey String Node Failure Document × Except ε Nat}
    (hok : (change s.caches).2.isOk = true) :
    Ensures (timed .cacheOperation (evicting fail name change)) scene s fun result t =>
      result = .ok () ∧ ∃ u : Tracker, u.Ready ∧
        t = ({ s with caches := (change s.caches).1 } : Session).retracked u := by
  rw [ensures_timed_scene]
  refine (ensures_evicting h fail name hok).mono ?_
  rintro result t ⟨rfl, u, hu, rfl⟩
  obtain ⟨v, hv, heq⟩ := clocked_retracked (s := Session.retracked _ u) hu scene .cacheOperation s.clock
  exact ⟨rfl, v, hv, heq⟩

/-- Writing a resolved reference into a cache that takes it. -/
theorem ensures_keepReference (h : s.tracker.Ready) {key : CacheKey} {node : Node}
    (hok : (s.caches.references.set key node).2.isOk = true) :
    Ensures (keepReference key node) scene s fun result t =>
      result = .ok () ∧ ∃ u : Tracker, u.Ready ∧ t = (s.keptReference key node).retracked u := by
  unfold keepReference
  refine (ensures_timed_evicting h .fault "reference" hok).bind_ok ?_
  rintro t ⟨u, hu, rfl⟩
  exact ensures_trackSize (s := (s.keptReference key node).retracked u) hu (by decide) _

/-- Writing a resolved composition into a cache that takes it. -/
theorem ensures_keepComposition (h : s.tracker.Ready) {key : CacheKey} {node : Node}
    (hok : (s.caches.compositions.set key node).2.isOk = true) :
    Ensures (keepComposition key node) scene s fun result t =>
      result = .ok () ∧ ∃ u : Tracker, u.Ready ∧ t = (s.keptComposition key node).retracked u := by
  unfold keepComposition
  refine (ensures_timed_evicting h .fault "composition" hok).bind_ok ?_
  rintro t ⟨u, hu, rfl⟩
  exact ensures_trackSize (s := (s.keptComposition key node).retracked u) hu (by decide) _

/-- Writing an enumerated schema into a cache that takes it. -/
theorem ensures_keepSchema (h : s.tracker.Ready) {key : CacheKey} {node : Node}
    (hok : (s.caches.schemas.set key node).2.isOk = true) :
    Ensures (keepSchema key node) scene s fun result t =>
      result = .ok () ∧ ∃ u : Tracker, u.Ready ∧ t = (s.keptSchema key node).retracked u := by
  unfold keepSchema
  refine (ensures_evicting h .fault "schema" hok).bind_ok ?_
  rintro t ⟨u, hu, rfl⟩
  exact ensures_trackSize (s := (s.keptSchema key node).retracked u) hu (by decide) _

end Resolving

/-- Records that know all caches, and caches that neither show nor take schemas and failures. -/
structure Session.Cold (s : Session) : Prop where
  ready : s.tracker.Ready
  references : s.caches.references.enabled = false
  compositions : s.caches.compositions.enabled = false
  failures : s.caches.cacheExternalFailures.truthy = false

namespace Session

/-- An engine with caching disabled starts cold. -/
theorem cold_start {config : Config} (hcache : config.cache.enabled.truthy = false)
    (memory : Number × Number) (nextId : Nat) : (Session.start config memory nextId).Cold := by
  refine ⟨Tracker.ready_start _, hcache, hcache, ?_⟩
  change (config.cache.enabled.andThen _).truthy = false
  unfold Value.andThen
  rw [hcache, if_neg (by simp), hcache]

namespace Cold

variable {s : Session} (h : s.Cold)
include h

theorem retracked {t : Tracker} (ht : t.Ready) : (s.retracked t).Cold :=
  ⟨ht, h.references, h.compositions, h.failures⟩

theorem keptReference (key : CacheKey) (node : Node) : s.keptReference key node = s := by
  unfold Session.keptReference
  rw [BoundedCache.set_of_disabled h.references]

theorem keptComposition (key : CacheKey) (node : Node) : s.keptComposition key node = s := by
  unfold Session.keptComposition
  rw [BoundedCache.set_of_disabled h.compositions]

theorem rememberFailure (key : CacheKey) (failure : Failure) :
    s.caches.rememberFailure key failure = (s.caches, .ok ()) := by
  unfold Caches.rememberFailure
  rw [h.failures]
  rfl

theorem failure_none (key : CacheKey) : s.caches.failure? key = none := by
  unfold Caches.failure?
  rw [h.failures]
  rfl

end Cold

end Session

namespace Resolving

variable {α : Type} {act : Resolving α} {scene : Scene} {s : Session}

/-- Whether an operation gives a result and changes the records only. -/
def Records (act : Resolving α) (scene : Scene) (s : Session) (a : α) : Prop :=
  ∃ u : Tracker, u.Ready ∧ act scene s = (.ok a, s.retracked u)

theorem records_of_ensures {a : α} (h : Ensures act scene s fun result t =>
    result = .ok a ∧ ∃ u : Tracker, u.Ready ∧ t = s.retracked u) : Records act scene s a := by
  obtain ⟨hresult, u, hu, ht⟩ := h
  exact ⟨u, hu, Prod.ext hresult ht⟩

section Cold

variable (h : s.Cold)
include h

/-- A cold session has nothing to show. -/
theorem records_recallReference (key : CacheKey) :
    Records (recallNode "reference" (·.references) key) scene s none := by
  refine records_of_ensures ((ensures_recallNode h.ready (by decide) _ key).mono ?_)
  rintro result t ⟨rfl, ht⟩
  refine ⟨congrArg Except.ok ?_, ht⟩
  exact if_neg (by rw [h.references]; simp)

theorem records_recallComposition (key : CacheKey) :
    Records (recallNode "composition" (·.compositions) key) scene s none := by
  refine records_of_ensures ((ensures_recallNode h.ready (by decide) _ key).mono ?_)
  rintro result t ⟨rfl, ht⟩
  refine ⟨congrArg Except.ok ?_, ht⟩
  exact if_neg (by rw [h.compositions]; simp)

/-- A cold session takes nothing. -/
theorem records_keepReference (key : CacheKey) (node : Node) :
    Records (keepReference key node) scene s () := by
  have hok : (s.caches.references.set key node).2.isOk = true := by
    rw [BoundedCache.set_of_disabled h.references]
    rfl
  have hkeep := @ensures_keepReference scene s h.ready key node hok
  rw [h.keptReference] at hkeep
  exact records_of_ensures hkeep

theorem records_keepComposition (key : CacheKey) (node : Node) :
    Records (keepComposition key node) scene s () := by
  have hok : (s.caches.compositions.set key node).2.isOk = true := by
    rw [BoundedCache.set_of_disabled h.compositions]
    rfl
  have hkeep := @ensures_keepComposition scene s h.ready key node hok
  rw [h.keptComposition] at hkeep
  exact records_of_ensures hkeep

end Cold

end Resolving

end SchemaGraph
