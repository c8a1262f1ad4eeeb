import SchemaGraph.Proofs.Engine.History
import SchemaGraph.Proofs.Engine.Tasks
import SchemaGraph.Proofs.Resolve.Discerning

/-!
# Remembered failures

In every life of an engine, no reference is remembered as failed for which a schema is kept.  So a
reference that is remembered as failed is not found among the resolved ones, and following it gives the
failure that is remembered, without a look outside.
-/

namespace SchemaGraph

open Resolving

namespace Session

variable {s : Session}

/-- Whether no key stands both in the store of failures and in the cache of references. -/
def TellsApart (s : Session) : Prop :=
  List.Disjoint s.caches.failures.keys s.caches.references.keys

/-- Other caches that tell failures apart and hold no new ones. -/
theorem Discerns.of_caches (h : s.Discerns)
    {caches : Caches CacheKey String Node Failure Document} (hapart : caches.Apart)
    (hfailures : caches.failures.entries ⊆ s.caches.failures.entries) :
    { s with caches := caches }.Discerns :=
  ⟨h.ready, hapart, fun entry hentry => h.failures entry (hfailures hentry)⟩

theorem keeping_follow_discerns (d : Document) (budget : Nat) (path : List String)
    (target : Value) : Keeping (UnlessShared Discerns) (follow d budget path target) := by
  intro scene s hs hfresh
  have hpath : [] ⊆ path := List.nil_subset path
  have hkept := keeping_follow_awaits d budget hpath target scene.unlessShared s
    fun hfresh => (hs hfresh).awaits d
  exact (hkept hfresh).toDiscerns

theorem keeping_settle_discerns (d : Document) (budget : Nat) (path : List String) (n : Node) :
    Keeping (UnlessShared Discerns) (n.settle (follow d budget path) d) := by
  intro scene s hs hfresh
  have hsettle : Keeping (UnlessShared (Session.Awaits d [])) (n.settle (follow d budget path) d) :=
    (composing_awaits d []).unlessShared.keeping_settle fun target _ =>
      keeping_follow_awaits d budget (List.nil_subset path) target
  exact (hsettle scene.unlessShared s (fun hfresh => (hs hfresh).awaits d) hfresh).toDiscerns

theorem durable_discerns : Durable (UnlessShared Discerns) where
  records := fun hready h hfresh => ⟨hready (h hfresh).ready, (h hfresh).apart, (h hfresh).failures⟩
  aside := by
    intro s t hsame h hfresh
    have hs := h fun hshared => hfresh (hsame.shared hshared)
    refine ⟨?_, ?_, ?_⟩
    · rw [hsame.tracker]
      exact hs.ready
    · rw [hsame.caches]
      exact hs.apart
    · rw [hsame.caches]
      exact hs.failures
  loading := by
    have hinward : Inward Discerns := fun _ _ _ _ _ h => ⟨h.ready, h.apart, h.failures⟩
    exact hinward.keeping_load_unlessShared
  following := fun d path target =>
    keeping_get.bind fun _ => keeping_follow_discerns d _ path target
  settling := fun d n => keeping_get.bind fun _ => keeping_settle_discerns d _ [] n
  schema := fun _ _ _ h hfresh =>
    have hs := h hfresh
    hs.of_caches ⟨hs.apart.references, hs.apart.failures, hs.apart.forgotten, hs.apart.disjoint⟩
      (List.Subset.refl _)
  document := fun _ _ h hfresh =>
    have hs := h hfresh
    hs.of_caches ⟨hs.apart.references, hs.apart.failures, hs.apart.forgotten, hs.apart.disjoint⟩
      (List.Subset.refl _)
  dropped := by
    intro s h hfresh
    refine (h hfresh).of_caches ((h hfresh).apart.evictShare _) ?_
    unfold Caches.evictShare
    split <;> exact List.Subset.refl _
  cleared := fun h hfresh =>
    ⟨(h hfresh).ready, (h hfresh).apart.clearAll, fun _ hentry => absurd hentry List.not_mem_nil⟩

theorem throughout_discerns : Throughout (UnlessShared Discerns) where
  toDurable := durable_discerns
  follow := keeping_follow_discerns
  settle := keeping_settle_discerns
  target := by
    intro scene d path target x s t hsought hs
    have hlookup : Keeping Shared (recallNode "reference" (·.references) (cacheKey d x)) :=
      (lasting_shared d).keeping_recallNode _ _ _
    by_cases hshared : s.Shared
    · intro hfresh
      let shared : Scene.Of Shared := { scene with resumes := scene.shared }
      have hrun : recallNode "reference" (·.references) (cacheKey d x) shared s = (.ok none, t) :=
        hsought.missed
      have ht : t.Shared := keeps_of_step hlookup hshared hrun
      exact absurd ((lasting_shared d).keeping_target x path shared t ht) hfresh
    · have hdiscerns := hs hshared
      obtain ⟨hmissed, u, hu, rfl⟩ := hsought.retracked hdiscerns.ready
      have ht : (s.retracked u).Awaits d [x] :=
        ((untracked_awaits d []).records (fun _ => hu) (hdiscerns.awaits d)).cons hsought.unfailed
      -- While caches are off, the lookup says nothing of the keys, but nothing is written then.
      have habsent : s.caches.settings.enabled.truthy = true →
          cacheKey d x ∉ s.caches.references.keys := fun henabled =>
        BoundedCache.not_mem_keys_of_miss hmissed (hdiscerns.apart.references.trans henabled)
      have htarget : Ensures (d.target x path) scene (s.retracked u) _ :=
        ensures_target_awaits scene.unlessShared ht List.not_mem_nil
          (Reference.given_text hsought.given) habsent path
      exact fun hfresh => (htarget.1 hfresh).toDiscerns

end Session

section Remembered

variable {d : Document} {x : String} {path : List String} {world : World} {s : Session}

/-- Following a reference that is remembered as failed gives the failure, and nothing but the records
changes. -/
theorem Session.Discerns.ensures_follow (h : s.Discerns)
    (hcached : s.caches.cacheExternalFailures.truthy = true)
    (hkey : cacheKey d x ∈ s.caches.failures.keys) (hx : x ∉ path) (budget : Nat) :
    ∃ cause, Ordered.get? (cacheKey d x) s.caches.failures.entries = some (.externalFailed x cause) ∧
      Ensures (follow d (budget + 1) path (.str x)) world s fun result t =>
        result = .error (.externalFailed x cause) ∧ ∃ u : Tracker, u.Ready ∧ t = s.retracked u := by
  have henabled : s.caches.settings.enabled.truthy = true := by
    rw [Caches.truthy_cacheExternalFailures, Bool.and_eq_true] at hcached
    exact hcached.1
  obtain ⟨failure, hfailure⟩ : ∃ failure,
      Ordered.get? (cacheKey d x) s.caches.failures.entries = some failure := by
    refine Option.ne_none_iff_exists'.mp fun hnone => ?_
    obtain ⟨entry, hentry, hat⟩ := List.mem_map.mp hkey
    exact Ordered.absent_of_get hnone entry.2 (hat ▸ hentry)
  obtain ⟨hgiven, cause, rfl⟩ : Reference.given (.str x) = .ok x ∧
      ∃ cause, failure = .externalFailed x cause := h.failures _ (Ordered.mem_of_get hfailure)
  refine ⟨cause, hfailure, ?_⟩
  have hremembered : s.caches.failure? (cacheKey d x) = some (.externalFailed x cause) := by
    unfold Caches.failure? BoundedCache.get?
    rw [if_pos hcached, if_pos (h.apart.failures.trans henabled)]
    exact hfailure
  -- The cache of references is asked first, so the failure counts only because no schema is kept.
  have hmiss : s.caches.references.get? (cacheKey d x) = none := by
    refine Option.eq_none_iff_forall_ne_some.mpr fun n hn => ?_
    exact h.apart.disjoint hkey (List.mem_map_of_mem (BoundedCache.mem_of_get hn))
  rw [follow, ensures_lift_ok_bind hgiven, if_neg (by simpa using hx)]
  dsimp only
  refine (ensures_recallNode h.ready (by decide) _ _).bind_ok ?_
  rintro _ ⟨u, hu, rfl⟩
  rw [hmiss]
  dsimp only
  rw [ensures_get_bind, show (s.retracked u).caches.failure? (cacheKey d x) = _ from hremembered]
  exact ⟨rfl, u, hu, rfl⟩

end Remembered

namespace Engine

open Session

/-- Sessions that differ at most in the documents made from mappings. -/
def Opened (s t : Session) : Prop :=
  ∃ documents nextId, t =
    { s with caches := { s.caches with documents := documents }, nextId := nextId }

theorem opened_of_open {subject : Subject} {world : World} {s t : Session}
    {result : Except Failure Document} (h : subject.open world s = (result, t)) : Opened s t := by
  have hself : Opened s s := ⟨s.caches.documents, s.nextId, rfl⟩
  cases subject with
  | document d =>
      obtain ⟨-, rfl⟩ := Prod.mk.inj h
      exact hself
  | mapping name raw =>
      have hcases := ensures_open_mapping_cases name raw world s
      unfold Ensures at hcases
      rw [h] at hcases
      rcases hcases with ⟨d, -, -, rfl⟩ | ⟨-, rfl, -⟩
      · exact hself
      · exact ⟨_, _, rfl⟩

theorem keeping_request_discerns (r : Request) : Keeping (UnlessShared Discerns) r.run := by
  refine durable_discerns.keeping_request fun enabled maxSize _ => ?_
  refine durable_discerns.keeping_configureCaching fun s hs hfresh => ?_
  exact (hs hfresh).of_caches ((hs hfresh).apart.configure enabled maxSize)
    (s.caches.configure_less enabled maxSize).failures.entries

/-- Unless the turn has passed from one task to another, no key stands both in the store of failures and
in the cache of references: after every request of a life, and where the tasks of a request start and
end.  While failures are remembered, resolving a reference that is remembered as failed then fails with
what is remembered.  It changes nothing but the records, once its subject was opened, for which at most a
mapping becomes a document. -/
theorem failures_apart_from_resolved (config : Config) (resident virtual : UInt64) (nextId : Nat)
    (life : List (World × Request)) :
    let s := lived life (new config resident virtual nextId)
    s.UnlessShared TellsApart ∧
      (∀ (world : World) r task scene t, Task.Reaches world (.request r) s task scene t →
        t.UnlessShared TellsApart ∧ (task.after scene t).UnlessShared TellsApart) ∧
      (¬s.Shared → s.caches.cacheExternalFailures.truthy = true →
        ∀ (world : World) subject asked visited d t x path, subject.open world s = (.ok d, t) →
          asked.target = .ok (.str x) → visitedPath visited = .ok path → x ∉ path →
          cacheKey d x ∈ s.caches.failures.keys →
          ∃ cause u,
            Ordered.get? (cacheKey d x) s.caches.failures.entries =
              some (.externalFailed x cause) ∧
            Engine.reference subject asked visited world s =
              (.error (.externalFailed x cause), t.retracked u) ∧ Opened s t) := by
  intro s
  have hs : s.UnlessShared Discerns :=
    keeps_lived (fun step _ => keeping_request_discerns step.2) fun _ => discerns_start config _ nextId
  have happart : ∀ {t : Session}, t.UnlessShared Discerns → t.UnlessShared TellsApart :=
    fun h hfresh => (h hfresh).apart.disjoint
  refine ⟨happart hs, fun world r task scene t hreaches => ?_, ?_⟩
  · obtain ⟨-, ht, hafter⟩ :=
      throughout_discerns.kept_reached (keeping_request_discerns r) hreaches hs
    exact ⟨happart ht, happart hafter⟩
  intro hfresh hcached world subject asked visited d t x path hopen hasked hvisited hx hkey
  -- Opening the subject may make a document of a mapping, which leaves the failures alone.
  have hopened := opened_of_open hopen
  obtain ⟨hcaching, hfailures⟩ : t.caches.cacheExternalFailures = s.caches.cacheExternalFailures ∧
      t.caches.failures = s.caches.failures := by
    obtain ⟨documents, later, rfl⟩ := hopened
    exact ⟨rfl, rfl⟩
  have ht : t.Discerns := by
    refine keeps_of_run (durable_discerns.keeping_open subject) hs hopen fun hshared => hfresh ?_
    obtain ⟨documents, later, rfl⟩ := hopened
    exact hshared
  rw [← hcaching] at hcached
  rw [← hfailures] at hkey ⊢
  obtain ⟨cause, hfailure, hfollow⟩ := ht.ensures_follow hcached hkey hx
    (d.raw.referenceCount + outsideBudget t.externalSettings.maxDepth + 1)
  have hopens : Ensures subject.open world s fun result v => result = .ok d ∧ v = t := by
    unfold Ensures
    rw [hopen]
    exact ⟨rfl, rfl⟩
  have hrun : Ensures (Engine.reference subject asked visited) world s fun result v =>
      result = .error (.externalFailed x cause) ∧ ∃ u : Tracker, v = t.retracked u := by
    unfold Engine.reference
    rw [ensures_timed]
    refine hopens.bind_ok ?_
    rintro _ rfl
    rw [ensures_lift_ok_bind hasked, ensures_check_ok_bind hvisited]
    unfold resolveReference
    rw [ensures_get_bind]
    refine hfollow.mono ?_
    rintro result _ ⟨rfl, u, -, rfl⟩
    exact ⟨rfl, _, rfl⟩
  obtain ⟨hresult, u, hleft⟩ := hrun
  exact ⟨cause, u, hfailure, Prod.ext hresult hleft, hopened⟩

/-- A life in which a reference fails and another one is resolved, and the caches are turned off and on
again. -/
def strayLife : List (World × Request) :=
  [.reference (.document aliasDocument) (.value (.str "other.json#/components/schemas/A")) (.list []),
    .reference (.document aliasDocument) (.value (.str "#/components/schemas/Alias")) (.list []),
    .configureCaching (.bool false) .null, .configureCaching (.bool true) (.int 5)].map
      fun a => (emptyWorld, a)

/-- An engine that remembers failures. -/
def mindfulEngine : Session := new { cache := { cacheExternalFailures := .bool true } } 0 0 1

theorem remembered_stray :
    ¬(lived strayLife mindfulEngine).Shared ∧
      (lived strayLife mindfulEngine).caches.cacheExternalFailures.truthy = true ∧
      cacheKey aliasDocument "other.json#/components/schemas/A" ∈
        (lived strayLife mindfulEngine).caches.failures.keys := by
  decide +kernel

theorem failures_apart_from_resolved_stray :
    let s := lived strayLife mindfulEngine
    s.TellsApart ∧
      ∃ cause u, Engine.reference (.document aliasDocument)
        (.value (.str "other.json#/components/schemas/A")) (.list []) emptyWorld s =
          (.error (.externalFailed "other.json#/components/schemas/A" cause), s.retracked u) := by
  intro s
  obtain ⟨hdisjoint, -, hfails⟩ := failures_apart_from_resolved
    { cache := { cacheExternalFailures := .bool true } } 0 0 1 strayLife
  obtain ⟨hfresh, hcached, hkey⟩ := remembered_stray
  have hempty : visitedPath (.list []) = .ok [] := rfl
  obtain ⟨cause, u, -, hrun, -⟩ := hfails hfresh hcached emptyWorld (.document aliasDocument)
    (.value (.str "other.json#/components/schemas/A")) (.list []) aliasDocument s _ [] rfl rfl hempty
    List.not_mem_nil hkey
  exact ⟨hdisjoint hfresh, cause, u, hrun⟩

/-- A life in which two tasks look for the same schema of another document, and only the first one has no
answer. -/
def overlappingLife : List (World × Request) :=
  [(overlappingWorld 1, .references (.document aliasDocument) askTwice)]

/-- An engine that remembers failures and sends each request once. -/
def impatientEngine : Session :=
  new { cache := { cacheExternalFailures := .bool true }, external := { retries := .int 0 } } 0 0 1

/-- Where the second task has its turn before the first one fails, what the first one remembers as failed
is kept as resolved by the second one. -/
theorem failed_and_resolved_overlapping : ¬(lived overlappingLife impatientEngine).TellsApart := by
  have hkeys : (lived overlappingLife impatientEngine).caches.failures.keys =
        [cacheKey aliasDocument "https://example.com/a.json#/components/schemas/A"] ∧
      (lived overlappingLife impatientEngine).caches.references.keys =
        [cacheKey aliasDocument "https://example.com/a.json#/components/schemas/A"] := by
    decide +kernel
  intro hdisjoint
  unfold Session.TellsApart at hdisjoint
  rw [hkeys.1, hkeys.2] at hdisjoint
  exact hdisjoint List.mem_cons_self List.mem_cons_self

end Engine

end SchemaGraph
