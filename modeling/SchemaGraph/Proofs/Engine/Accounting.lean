import SchemaGraph.Proofs.Engine.Balanced

/-!
# Every entry is accounted for

As long as an engine that counts neither turns its caches off, nor starts its metrics anew, nor clears
its caches, each of the caches that are counted holds no more than was missed and not evicted.  It
holds just as much if no resolution has failed.  One request never makes a lost miss good and loses
none unless a resolution fails, so a whole life does neither.
-/

namespace SchemaGraph

open Resolving Session

/-- Whether an event reports that a reference was not resolved. -/
def Event.isFailureReport : Event → Bool
  | .warned (.resolveFailed _ _) => true
  | _ => false

namespace Session

/-- Whether a reference, one of several that were asked for together, was reported as not
resolved. -/
def ReportsFailure (s : Session) : Prop :=
  ∃ target failure, Event.warned (.resolveFailed target failure) ∈ s.trace

/-- Whether a session still counts and makes no lost miss good, and on a condition loses none. -/
structure Accounts (condition : Prop) (s t : Session) : Prop where
  counting : t.Counting
  lost : ∀ shelf, s.lost shelf ≤ t.lost shelf
  kept : condition → ∀ shelf, t.lost shelf = s.lost shelf

variable {s t u : Session} {condition other : Prop}

theorem Even.accounts (h : s.Even t) : Accounts condition s t :=
  ⟨h.counting, fun shelf => (h.lost shelf).ge, fun _ => h.lost⟩

theorem Accounts.mono (h : Accounts condition s t) (himp : other → condition) :
    Accounts other s t :=
  ⟨h.counting, h.lost, fun hother => h.kept (himp hother)⟩

theorem Accounts.even (h : Accounts condition s t) (h' : t.Even u) : Accounts condition s u where
  counting := h'.counting
  lost := fun shelf => (h.lost shelf).trans (h'.lost shelf).ge
  kept := fun hcondition shelf => (h'.lost shelf).trans (h.kept hcondition shelf)

theorem Accounts.trans (h : Accounts condition s t) (h' : Accounts other t u) :
    Accounts (condition ∧ other) s u where
  counting := h'.counting
  lost := fun shelf => (h.lost shelf).trans (h'.lost shelf)
  kept := fun hboth shelf => (h'.kept hboth.2 shelf).trans (h.kept hboth.1 shelf)

end Session

theorem Resolving.Balances.accounts {α : Type} {work : Work} {good : α → Prop} {s t : Session}
    {result : Except Failure α} (h : Balances work good s result t) :
    Accounts (∃ a, result = .ok a) s t :=
  ⟨h.counting, h.lost, fun ⟨a, ha⟩ => (h.success a ha).2⟩

/-- After an operation that leaves as much lost as there was. -/
theorem Resolving.ensures_even_bind {α β : Type} {act : Resolving α} {next : α → Resolving β}
    {world : World} {s : Session} {condition : Except Failure β → Session → Prop}
    (h : ∀ s, Keeping (Even s) act) (hs : s.Counting)
    (hnext : ∀ a t, t.Counting →
      Ensures (next a) world t fun result u => Accounts (condition result u) t u) :
    Ensures (act >>= next) world s fun result u => Accounts (condition result u) s u := by
  refine Ensures.bind ((h s).ensures hs.even) ?_ fun failure t ht => ht.accounts
  intro a t ht
  refine (hnext a t ht.counting).mono fun result u hu => ?_
  exact (ht.accounts.trans hu).mono fun hcondition => ⟨trivial, hcondition⟩

namespace Engine

section References

/-- Whether each of several references was resolved. -/
def AllResolved (results : List (Value × Except Failure Node)) : Prop :=
  ∀ entry ∈ results, ∃ n, entry.2 = .ok n

/-- Following several references one after the other loses nothing if each of them is resolved. -/
theorem accounts_oneByOne {d : Document} {targets : List Value} {world : World}
    {results : List (Value × Except Failure Node)} {s t : Session}
    (h : OneByOne (resolveReference d []) world s targets results t) (hs : s.Counting) :
    Accounts (AllResolved results) s t := by
  induction h with
  | nil s => exact hs.even.accounts
  | @cons s t _ target rest result others hresult _ ih =>
      have hone := balanced_resolveReference idle_none d [] target world s hs (vacant_none s)
      unfold Ensures at hone
      rw [hresult] at hone
      refine (hone.accounts.trans (ih hone.counting)).mono fun hall => ?_
      exact List.forall_mem_cons.mp hall

theorem ensures_followed (d : Document) (targets : List Value) {world : World}
    (hturns : world.turns = []) {s : Session} (hs : s.Counting) :
    Ensures (gather (resolveReference d []) targets) world s fun result t =>
      Accounts (∃ results, result = .ok results ∧ AllResolved results) s t := by
  refine (ensures_gather_oneByOne (resolveReference d []) hturns targets s).mono ?_
  rintro result t ⟨results, hresult, hrun⟩
  refine (accounts_oneByOne hrun hs).mono ?_
  rintro ⟨results', hresult', hall⟩
  obtain rfl := Except.ok.inj (hresult.symm.trans hresult')
  exact hall

/-- A reference that is not resolved is reported. -/
theorem ensures_reported (results : List (Value × Except Failure Node)) (world : World)
    (s : Session) :
    Ensures (results.forM fun (target, result) =>
      match result with
      | .ok _ => pure ()
      | .error failure => warn (.resolveFailed target failure)) world s fun _ t =>
        ¬t.ReportsFailure → AllResolved results ∧ ¬s.ReportsFailure := by
  induction results generalizing s with
  | nil => exact fun hnone => ⟨fun _ hentry => absurd hentry (by simp), hnone⟩
  | cons entry rest ih =>
      obtain ⟨target, result⟩ := entry
      rw [List.forM]
      cases result with
      | ok n =>
          refine (ih s).mono fun _ t ht hnone => ⟨?_, (ht hnone).2⟩
          exact List.forall_mem_cons.mpr ⟨⟨n, rfl⟩, (ht hnone).1⟩
      | error failure =>
          dsimp only
          unfold warn emit
          rw [ensures_modify_bind]
          refine (ih _).mono fun _ t ht hnone => ?_
          exact absurd ⟨target, failure, List.mem_cons_self⟩ (ht hnone).2

theorem ensures_references (subject : Subject) (asked : List Asked) {world : World}
    (hturns : world.turns = []) {s : Session} (hs : s.Counting) :
    Ensures (Engine.references subject asked) world s fun result t =>
      Accounts ((∃ table, result = .ok table) ∧ ¬t.ReportsFailure) s t := by
  unfold Engine.references
  refine ensures_even_bind (fun r => (shelved_even r).keeping_open subject) hs fun d t ht => ?_
  refine ensures_even_bind (fun r => keeping_lift _) ht fun targets u hu => ?_
  refine Ensures.bind (ensures_followed d targets hturns hu) ?_ ?_
  · intro results v hv
    have hwarned := keeping_warnings (fun _ => External.keeping_emit (shelved_even v).inward _)
      results
    refine Ensures.bind ((hwarned.ensures hv.counting.even).and (ensures_reported results world v))
      ?_ ?_
    · rintro - x ⟨heven, hall⟩
      have hdone : Accounts (¬x.ReportsFailure) u x :=
        (hv.even heven).mono fun hnone => ⟨results, rfl, (hall hnone).1⟩
      split
      · exact hdone.mono And.right
      · exact hdone.mono And.right
    · rintro failure x ⟨heven, -⟩
      refine (hv.even heven).mono ?_
      rintro ⟨⟨table, htable⟩, -⟩
      cases htable
  · intro failure v hv
    refine hv.mono ?_
    rintro ⟨⟨table, htable⟩, -⟩
    cases htable

end References

namespace Request

/-- Whether a request neither turns the caches off, nor starts the metrics anew, nor clears the
caches; a schema that it hands in was read or is in normal form. -/
def IsAccountable : Request → Prop
  | .configureCaching enabled _ => enabled.isNull = true ∨ enabled.truthy = true
  | .configureMetrics _ => False
  | .clearCaches => False
  | .node _ n => n.Known
  | _ => True

/-- Whether a request resolves something. -/
def resolves (r : Request) : Bool := r.subject?.isSome

theorem IsAccountable.isRegular {r : Request} (h : r.IsAccountable) : r.IsRegular := by
  cases r with
  | node subject n => exact Node.Known.regular h
  | _ => trivial

end Request

section Requests

variable {world : World} {s : Session}

/-- Whether a request that resolves has an answer, and no reference was reported as not resolved. -/
def Resolved (r : Request) (result : Except Failure Answer) (t : Session) : Prop :=
  (r.resolves = true → ∃ answer, result = .ok answer) ∧ ¬t.ReportsFailure

theorem accounts_of_balanced {r : Request} (hr : r.resolves = true)
    (h : Ensures r.run world s (Balances Work.none (fun _ => True) s)) :
    Ensures r.run world s fun result t => Accounts (Resolved r result t) s t :=
  h.mono fun _ _ ht => ht.accounts.mono fun hresolved => hresolved.1 hr

theorem accounts_of_even {r : Request} (hs : s.Counting) (h : ∀ s, Keeping (Even s) r.run) :
    Ensures r.run world s fun result t => Accounts (Resolved r result t) s t :=
  ((h s).ensures hs.even).mono fun _ _ ht => ht.accounts

/-- An operation that resolves, and its answer. -/
theorem balanced_answer {α : Type} {act : Resolving α}
    (h : Balanced Work.none (fun _ => True) act) (answer : α → Answer) :
    Balanced Work.none (fun _ => True) (act >>= fun a => pure (answer a)) :=
  h.bind fun _ _ => balanced_pure trivial

/-- An operation that does not resolve, and its answer. -/
theorem keeping_answer {α : Type} {act : Resolving α} (h : ∀ s, Keeping (Even s) act)
    (s : Session) : Keeping (Even s) (act >>= fun _ => pure Answer.done) :=
  (h s).bind fun _ => keeping_pure _

/-- One request makes no lost miss good, and loses none unless a resolution fails. -/
theorem accounts_request {r : Request} (hr : r.IsAccountable) (hturns : world.turns = [])
    (hs : s.Counting) (hnormal : s.InNormalForm) :
    Ensures r.run world s fun result t => Accounts (Resolved r result t) s t := by
  -- what resolves is balanced, and what does not resolve drops no more than it counts
  cases r with
  | reference subject asked visited =>
      exact accounts_of_balanced (r := .reference subject asked visited) rfl
        (balanced_answer (balanced_reference subject asked visited) .schema world s hs
          (vacant_none s))
  | schema subject raw =>
      exact accounts_of_balanced (r := .schema subject raw) rfl
        (balanced_answer (balanced_rawSchema subject raw) .schema world s hs (vacant_none s))
  | references subject asked =>
      refine Ensures.bind (ensures_references subject asked hturns hs) ?_ ?_
      · exact fun table t ht => ht.mono fun hresolved => ⟨⟨table, rfl⟩, hresolved.2⟩
      · intro failure t ht
        refine ht.mono fun hresolved => ?_
        obtain ⟨answer, hanswer⟩ := hresolved.1 rfl
        cases hanswer
  | schemas subject =>
      exact accounts_of_balanced (r := .schemas subject) rfl
        (balanced_answer (balanced_schemas subject) .registry world s hs (vacant_none s))
  | configureCaching enabled maxSize =>
      refine accounts_of_even (r := .configureCaching enabled maxSize) hs
        (keeping_answer fun r => ?_)
      exact keeping_dropping (fun c => c.evicted_configure enabled maxSize)
        (fun c hc => hc.configure hr maxSize) r
  | configureMemory enabled threshold streaming =>
      exact accounts_of_even (r := .configureMemory enabled threshold streaming) hs
        (keeping_answer fun r => (shelved_even r).keeping_configureMemory enabled threshold streaming)
  | configureMetrics enabled => exact hr.elim
  | cleanup force =>
      exact accounts_of_even (r := .cleanup force) hs
        (keeping_answer (keeping_cleanup_even force))
  | clearCaches => exact hr.elim
  | pass seconds resident virtual =>
      exact accounts_of_even (r := .pass seconds resident virtual) hs
        (keeping_answer fun r => (shelved_even r).keeping_pass seconds _)
  | node subject n =>
      exact accounts_of_balanced (r := .node subject n) rfl
        (balanced_answer (balanced_schema subject hr) .schema world s hs (vacant_none s))
  | resolvedSchemas subject =>
      exact accounts_of_balanced (r := .resolvedSchemas subject) rfl
        (Balances.bind (ensures_resolvedSchemas subject world hs hnormal)
          fun _ _ => balanced_pure trivial)
  | batches subject =>
      exact accounts_of_balanced (r := .batches subject) rfl
        (balanced_answer (balanced_batches subject) (fun _ => .done) world s hs (vacant_none s))
  | load path =>
      exact accounts_of_even (r := .load path) hs
        (keeping_answer fun r => (shelved_even r).keeping_load path)
  | outsideDocument location =>
      exact accounts_of_even (r := .outsideDocument location) hs
        (keeping_answer fun r => External.keeping_load (shelved_even r).inward location)
  | outsideSchema reference base depth =>
      exact accounts_of_even (r := .outsideSchema reference base depth) hs
        (keeping_answer fun r =>
          External.keeping_resolve (shelved_even r).inward reference base depth)
  | startTracking =>
      refine accounts_of_even (r := .startTracking) hs (keeping_answer fun r => ?_)
      exact (shelved_even r).keeping_record fun t =>
        t.tracker.same_startTracking t.clock t.memory.1
  | endTracking =>
      refine accounts_of_even (r := .endTracking) hs (keeping_answer fun r => ?_)
      refine Keeping.bind (keeping_refreshSizes (keeping_recordSize_even r)) fun _ => ?_
      exact (shelved_even r).keeping_record fun t => t.tracker.same_endTracking t.clock t.memory.1
  | report =>
      refine accounts_of_even (r := .report) hs (keeping_answer fun r => ?_)
      refine Keeping.bind (keeping_refreshSizes (keeping_recordSize_even r)) fun _ => ?_
      exact keeping_get.bind fun t => keeping_check _
  | resetProcessed =>
      exact accounts_of_even (r := .resetProcessed) hs
        (keeping_answer fun r => (shelved_even r).keeping_modify fun t => ⟨rfl, rfl, fun _ => rfl⟩)

end Requests

/-- Whether no resolution of a life fails. -/
def Unfailing : List (World × Request) → Session → Prop
  | [], _ => True
  | (world, r) :: rest, s =>
    Resolved r (r.run world s).1 (r.run world s).2 ∧ Unfailing rest (r.run world s).2

/-- A life makes no lost miss good, and loses none unless a resolution fails. -/
theorem accounts_lived {life : List (World × Request)} {s : Session}
    (hlife : ∀ step ∈ life, step.2.IsAccountable) (hturns : ∀ step ∈ life, step.1.turns = [])
    (hs : s.Counting) (hnormal : s.InNormalForm) :
    Accounts (Unfailing life s) s (lived life s) := by
  induction life generalizing s with
  | nil => exact hs.even.accounts
  | cons step rest ih =>
      obtain ⟨world, r⟩ := step
      obtain ⟨hr, hrest⟩ := List.forall_mem_cons.mp hlife
      obtain ⟨hworld, hlater⟩ := List.forall_mem_cons.mp hturns
      have hstep : Accounts (Resolved r (r.run world s).1 (r.run world s).2) s (r.run world s).2 :=
        accounts_request hr hworld hs hnormal
      have hafter := (yields_request hr.isRegular).keeping world s hnormal
      rw [lived_cons]
      exact hstep.trans (ih hrest hlater hstep.counting hafter)

/-- Where several references are resolved one after the other, the evictions that were counted for a cache
and the entries that it holds are together no more than its misses, and just as many as long as no
resolution has failed. -/
theorem misses_account_for_entries {config : Config}
    (hcache : config.cache.enabled.truthy = true) (hmetrics : config.metrics.enabled.truthy = true)
    (resident virtual : UInt64) (nextId : Nat) {life : List (World × Request)}
    (hlife : ∀ step ∈ life, step.2.IsAccountable) (hturns : ∀ step ∈ life, step.1.turns = [])
    (shelf : Shelf) :
    let s := lived life (new config resident virtual nextId)
    ∃ counters, Ordered.get? shelf.name s.tracker.caches = some counters ∧
      ∃ evicted : Nat, counters.evictions = .int evicted ∧
        evicted + (shelf.cache s.caches).size ≤ counters.misses ∧
        (Unfailing life (new config resident virtual nextId) →
          evicted + (shelf.cache s.caches).size = counters.misses) := by
  intro s
  have hcounting : (new config resident virtual nextId).Counting :=
    counting_start hcache hmetrics _ nextId
  have hlost : (new config resident virtual nextId).lost shelf = 0 := lost_start config _ nextId shelf
  obtain ⟨hafter, hless, hsame⟩ :=
    accounts_lived hlife hturns hcounting (inNormalForm_start config _ nextId)
  obtain ⟨counters, hcounters, evicted, hevicted⟩ := hafter.tracker.counters shelf
  have hexpected : s.lost shelf = counters.misses - evicted - (shelf.cache s.caches).size := by
    unfold lost
    rw [Tracker.expected_eq hcounters hevicted]
  refine ⟨counters, hcounters, evicted, hevicted, ?_, fun hunfailing => ?_⟩
  · have hnonneg : 0 ≤ s.lost shelf := hlost ▸ hless shelf
    omega
  · have hzero : s.lost shelf = 0 := (hsame hunfailing shelf).trans hlost
    omega

theorem misses_account_for_entries_alias :
    let config : Config := { metrics := { enabled := .bool true } }
    let life : List (World × Request) :=
      [(emptyWorld, askAlias), (emptyWorld, .schemas aliasSubject),
        (emptyWorld, .node aliasSubject (.ref default (.str "#/components/schemas/Text"))),
        (emptyWorld, .configureCaching .null (.int 1)), (emptyWorld, .cleanup true)]
    let s := lived life (new config 0 0 1)
    ∃ counters, Ordered.get? Shelf.reference.name s.tracker.caches = some counters ∧
      ∃ evicted : Nat, counters.evictions = .int evicted ∧
        evicted + (Shelf.reference.cache s.caches).size ≤ counters.misses ∧
        (Unfailing life (new config 0 0 1) →
          evicted + (Shelf.reference.cache s.caches).size = counters.misses) := by
  intro config life
  have hread : (Node.ref default (.str "#/components/schemas/Text")).Known :=
    .inl (.ref fun _ hentry => absurd hentry List.not_mem_nil)
  have hlife : ∀ step ∈ life, step.2.IsAccountable := by
    simp only [life, List.forall_mem_cons]
    exact ⟨trivial, trivial, hread, .inl rfl, trivial, fun _ hstep => absurd hstep List.not_mem_nil⟩
  have hturns : ∀ step ∈ life, step.1.turns = [] := by
    simp only [life, List.forall_mem_cons]
    exact ⟨rfl, rfl, rfl, rfl, rfl, fun _ hstep => absurd hstep List.not_mem_nil⟩
  exact misses_account_for_entries rfl rfl 0 0 1 hlife hturns .reference

/-- Where two tasks look for one schema of another document at once, both miss it and both keep it. -/
theorem missed_twice_overlapping :
    let config : Config := { metrics := { enabled := .bool true } }
    let life : List (World × Request) :=
      [(overlappingWorld 0, .references (.document aliasDocument) askTwice)]
    let s := lived life (new config 0 0 1)
    Unfailing life (new config 0 0 1) ∧ (Shelf.reference.cache s.caches).size = 1 ∧
      ∃ counters, Ordered.get? Shelf.reference.name s.tracker.caches = some counters ∧
        counters.misses = 2 ∧ counters.evictions = .int 0 := by
  intro config life s
  have hread : ∀ run : Except Failure Answer × Session,
      (run.1.isOk, run.2.trace.any Event.isFailureReport, (Shelf.reference.cache run.2.caches).size,
        (Ordered.get? Shelf.reference.name run.2.tracker.caches).map
          fun counters => (counters.misses, counters.evictions)) = (true, false, 1, some (2, .int 0)) →
      ((∃ answer, run.1 = .ok answer) ∧ ¬run.2.ReportsFailure) ∧
        (Shelf.reference.cache run.2.caches).size = 1 ∧
          ∃ counters, Ordered.get? Shelf.reference.name run.2.tracker.caches = some counters ∧
            counters.misses = 2 ∧ counters.evictions = .int 0 := by
    rintro ⟨result, t⟩ hrun
    simp only [Prod.mk.injEq] at hrun
    obtain ⟨hok, hreported, hsize, hcounted⟩ := hrun
    refine ⟨⟨?_, ?_⟩, hsize, ?_⟩
    · cases result with
      | ok answer => exact ⟨answer, rfl⟩
      | error failure => cases hok
    · rintro ⟨target, failure, hin⟩
      have hany : t.trace.any Event.isFailureReport = true := List.any_eq_true.mpr ⟨_, hin, rfl⟩
      exact Bool.false_ne_true (hreported.symm.trans hany)
    · obtain ⟨counters, hcounters, heq⟩ := Option.map_eq_some_iff.mp hcounted
      exact ⟨counters, hcounters, (Prod.mk.inj heq).1, (Prod.mk.inj heq).2⟩
  obtain ⟨⟨hanswered, hunreported⟩, hcounted⟩ := hread (Request.run
    (.references (.document aliasDocument) askTwice) (overlappingWorld 0) (new config 0 0 1))
      (by decide +kernel)
  have hs : s = (Request.run (.references (.document aliasDocument) askTwice)
      (overlappingWorld 0) (new config 0 0 1)).2 := lived_cons _ _ _
  rw [hs]
  exact ⟨⟨⟨fun _ => hanswered, hunreported⟩, trivial⟩, hcounted⟩

end Engine

end SchemaGraph
