import SchemaGraph.Proofs.Engine.Aside
import SchemaGraph.Proofs.Engine.Calculated
import SchemaGraph.Proofs.Store.Bounded

/-!
# Changing how an engine works

New settings, empty caches and other records drop entries from the caches and add none, so all that
is remembered stays right.  With this every request leaves a session in which all that is remembered
is right, and so does every life.
-/

namespace SchemaGraph

open Resolving

namespace BoundedCache

variable {κ α : Type} {c c' : BoundedCache κ α}

/-- Whether a cache holds nothing more than another one, with a bound that is a number if the
other's is. -/
structure Less (c c' : BoundedCache κ α) : Prop where
  entries : c'.entries ⊆ c.entries
  isBounded : c.IsBounded → c'.IsBounded

theorem Less.refl (c : BoundedCache κ α) : c.Less c := ⟨fun _ hin => hin, id⟩

theorem Less.shrinkTo (h : c.Less c') {bound : Value} (hbound : bound.number?.isSome) :
    c.Less (c'.shrinkTo bound).1 := by
  obtain ⟨entries, result, heq, hless⟩ := c'.shrinkTo_cases bound
  rw [heq]
  exact ⟨fun _ hin => h.entries (hless hin), fun _ => hbound⟩

end BoundedCache

namespace Caches

variable {κ ι ν φ δ : Type}

/-- Whether caches hold nothing more than others. -/
structure Less (c c' : Caches κ ι ν φ δ) : Prop where
  schemas : c.schemas.Less c'.schemas
  compositions : c.compositions.Less c'.compositions
  references : c.references.Less c'.references
  failures : c.failures.Less c'.failures
  documents : c.documents.Less c'.documents

theorem less_bounding (c : Caches κ ι ν φ δ) {bound : Value} (hbound : bound.number?.isSome) :
    Bounding bound c.Less where
  bound := fun h => ⟨h.schemas, h.compositions, h.references, h.failures, h.documents⟩
  schemas := fun h => { h with schemas := h.schemas.shrinkTo hbound }
  compositions := fun h => { h with compositions := h.compositions.shrinkTo hbound }
  references := fun h => { h with references := h.references.shrinkTo hbound }
  failures := fun h => { h with failures := h.failures.shrinkTo hbound }
  documents := fun h => { h with documents := h.documents.shrinkTo hbound }

/-- New settings add nothing to the caches. -/
theorem configure_less (c : Caches κ ι ν φ δ) (enabled maxSize : Value) :
    c.Less (c.configure enabled maxSize).1 := by
  have hself : c.Less c := ⟨.refl _, .refl _, .refl _, .refl _, .refl _⟩
  refine keeps_configure (fun n hnumber => c.less_bounding ?_) (fun _ c' h => ?_) hself
  · exact Option.isSome_iff_exists.mpr ⟨n, Value.number_eq_ok.mp hnumber⟩
  · exact ⟨⟨h.schemas.entries, h.schemas.isBounded⟩,
      ⟨h.compositions.entries, h.compositions.isBounded⟩,
      ⟨h.references.entries, h.references.isBounded⟩, ⟨h.failures.entries, h.failures.isBounded⟩,
      h.documents⟩

theorem clearAll_less (c : Caches κ ι ν φ δ) : c.Less c.clearAll :=
  ⟨⟨List.nil_subset _, id⟩, ⟨List.nil_subset _, id⟩, ⟨List.nil_subset _, id⟩,
    ⟨List.nil_subset _, id⟩, ⟨List.nil_subset _, id⟩⟩

end Caches

namespace Session

variable {watch : Watch} {s t : Session}

theorem less_of_entries (hless : s.caches.Less t.caches) (hid : s.nextId ≤ t.nextId) : s.Less t where
  references := hless.references.entries
  compositions := hless.compositions.entries
  schemas := hless.schemas.entries
  failures := hless.failures.entries
  documents := hless.documents.entries
  nextId := hid

theorem within_of_less (h : s.Sane) (hless : s.caches.Less t.caches) (hid : t.nextId = s.nextId)
    (hready : t.tracker.Ready) : s.Within t :=
  ⟨less_of_entries hless hid.ge, ⟨hready, hless.schemas.isBounded h.schemas,
    hless.compositions.isBounded h.compositions, hless.references.isBounded h.references,
    hless.documents.isBounded h.documents⟩⟩

/-- A change that adds nothing to the caches keeps all that is remembered right. -/
theorem Fit.within (h : s.Fit watch) (hless : s.Sane → s.Within t)
    (hmeasured : s.Measured → t.Measured) : t.Fit watch := by
  obtain ⟨later, hlater, hsound, hmeas⟩ := h
  exact ⟨later, hlater, hsound.within (hless hsound.sane), hmeasured hmeas⟩

end Session

namespace Engine

variable {watch : Watch} {s : Session} {world : World}

theorem fit_configureCaching (hs : s.Fit watch) (enabled maxSize : Value) :
    Ensures (configureCaching enabled maxSize) world s fun _ t => t.Fit watch := by
  unfold configureCaching
  rw [ensures_get_bind]
  dsimp only
  rw [ensures_modify_bind, ensures_lift]
  refine hs.within (fun hsane => ?_) fun hmeasured => hmeasured.of_memory rfl rfl
  obtain ⟨u, hu, heq⟩ := Session.countEvictions_eq
    (s := { s with caches := (s.caches.configure enabled maxSize).1 }) hsane.ready
    (s.caches.configure enabled maxSize).2.1
  rw [heq]
  exact Session.within_of_less hsane (s.caches.configure_less enabled maxSize) rfl hu

/-- A change of the settings of memory cleanup. -/
theorem fit_memorySettings (hs : s.Fit watch) {settings : MemorySettings}
    (hthreshold : settings.memoryThreshold = s.memorySettings.memoryThreshold ∨
      ∃ t, settings.memoryThreshold.number = .ok t ∧ Number.lt t (.int 0) = false) :
    ({ s with memorySettings := settings } : Session).Fit watch := by
  refine hs.within (fun hsane => ?_) fun hmeasured => ⟨hmeasured.resident, ?_⟩
  · have hsame : s.caches.Less s.caches := ⟨.refl _, .refl _, .refl _, .refl _, .refl _⟩
    exact Session.within_of_less hsane hsame rfl hsane.ready
  · rcases hthreshold with heq | hnew
    · rw [heq]
      exact hmeasured.threshold
    · exact hnew

theorem keeping_configureMemory (enabled threshold streaming : Value) :
    Keeping (Session.Fit watch) (configureMemory enabled threshold streaming) := by
  have hstreaming : Keeping (Session.Fit watch) (if !streaming.isNull then
      modify fun s => { s with memorySettings := { s.memorySettings with streamingMode := streaming } }
      else pure ()) := by
    split
    · exact keeping_modify fun s hs => fit_memorySettings hs (Or.inl rfl)
    · exact keeping_pure _
  unfold configureMemory
  dsimp only
  refine Keeping.guard (keeping_modify fun s hs => fit_memorySettings hs (Or.inl rfl)) ?_
  split
  · cases hbound : threshold.number with
    | error f => exact keeping_throw _
    | ok bound =>
        rw [show check (Except.ok bound) = (pure bound : Resolving Number) from rfl, pure_bind]
        split
        · exact fun _ _ hs => hs
        · rename_i hless
          refine Keeping.bind (keeping_modify fun s hs => fit_memorySettings hs ?_) fun _ => hstreaming
          exact Or.inr ⟨bound, hbound, by simpa using hless⟩
  · exact hstreaming

theorem fit_configureMetrics (hs : s.Fit watch) (enabled : Value) :
    Ensures (configureMetrics enabled) world s fun _ t => t.Fit watch := by
  unfold configureMetrics
  rw [ensures_modify]
  refine hs.within (fun hsane => ?_) fun hmeasured => hmeasured.of_memory rfl rfl
  have hsame : s.caches.Less s.caches := ⟨.refl _, .refl _, .refl _, .refl _, .refl _⟩
  exact Session.within_of_less hsane hsame rfl (Tracker.ready_start _)

theorem fit_clearCaches (hs : s.Fit watch) :
    Ensures clearCaches world s fun _ t => t.Fit watch := by
  unfold clearCaches
  rw [ensures_modify]
  refine hs.within (fun hsane => ?_) fun hmeasured => hmeasured.of_memory rfl rfl
  exact Session.within_of_less hsane s.caches.clearAll_less rfl hsane.ready

theorem fit_cleanup (hs : s.Fit watch) (force : Bool) :
    Ensures (cleanup force) world s fun _ t => t.Fit watch := by
  obtain ⟨later, hlater, hsound, hmeasured⟩ := hs
  refine (frees_cleanup hsound.sane force).mono fun result t ht => ?_
  exact ⟨later, hlater, hsound.within ht.1.within,
    hmeasured.of_memory ht.1.memory ht.1.memorySettings⟩

theorem fit_pass (hs : s.Fit watch) (seconds : Number) (resident virtual : UInt64) :
    (({ s.elapse seconds with
      memory := (.int resident.toNat, .int virtual.toNat) } : Session)).Fit watch := by
  have hcaches : (s.elapse seconds).caches = s.caches ∧ (s.elapse seconds).nextId = s.nextId ∧
      (s.elapse seconds).tracker = s.tracker ∧
        (s.elapse seconds).memorySettings = s.memorySettings := by
    unfold Session.elapse
    split <;> exact ⟨rfl, rfl, rfl, rfl⟩
  obtain ⟨hcaches, hid, htracker, hsettings⟩ := hcaches
  refine hs.within (fun hsane => Session.within_of_less hsane ?_ hid (htracker ▸ hsane.ready)) ?_
  · change s.caches.Less (s.elapse seconds).caches
    rw [hcaches]
    exact ⟨.refl _, .refl _, .refl _, .refl _, .refl _⟩
  · intro hmeasured
    exact ⟨⟨resident.toNat, rfl, resident.toNat_lt⟩, hsettings ▸ hmeasured.threshold⟩

/-- Whether a request resolves in a document that is watched and refers to itself only, in one that
is not watched, or nothing. -/
def Request.Admitted (watch : Watch) (r : Request) : Prop :=
  ∀ subject, r.subject? = some subject →
    (subject.Watched watch ∧ r.IsLocal) ∨ subject.Unwatched watch

/-- What is no part of the caches of schemas does not bear on what is right there. -/
theorem inward_fit : Inward (Session.Fit watch) := fun _ _ _ _ _ hs =>
  hs.within (fun hsane => Session.within_of_caches hsane rfl (le_refl _) hsane.ready)
    fun hmeasured => hmeasured.of_memory rfl rfl

theorem untracked_fit : Untracked (Session.Fit watch) := ⟨fun hu hs => hs.retracked hu⟩

theorem keeping_create_fit (raw : Value) (source : String) :
    Keeping (Session.Fit watch) (Document.create raw source) := by
  unfold Document.create
  refine keeping_get_bind fun scene s hs => ?_
  exact hs.within (fun hsane => Session.within_of_caches hsane rfl (Nat.le_succ _) hsane.ready)
    fun hmeasured => hmeasured.of_memory rfl rfl

/-- A request that resolves nothing keeps all that is remembered right. -/
theorem fit_resolvesNothing {r : Request} (hs : s.Fit watch) (hnone : r.subject? = none) :
    Ensures r.run world s fun _ t => t.Fit watch := by
  have hanswer : ∀ {α : Type} {act : Resolving α}, (Ensures act world s fun _ t => t.Fit watch) →
      Ensures (act >>= fun _ => pure Answer.done) world s fun _ t => t.Fit watch :=
    fun hact => Ensures.bind hact (fun _ _ ht => ht) fun _ _ ht => ht
  have hsizes : Keeping (Session.Fit watch) refreshSizes :=
    keeping_refreshSizes fun _ _ _ => untracked_fit.keeping_track ⟨_, _, fun _ => rfl⟩
  cases r with
  | load path =>
      refine hanswer (Document.keeping_load (fun event _ => ?_) keeping_create_fit path world s hs)
      exact External.keeping_emit inward_fit event
  | outsideDocument location => exact hanswer (External.keeping_load inward_fit location world s hs)
  | outsideSchema target base depth =>
      exact hanswer (External.keeping_resolve inward_fit target base depth world s hs)
  | configureCaching enabled maxSize => exact hanswer (fit_configureCaching hs enabled maxSize)
  | configureMemory enabled threshold streaming =>
      exact hanswer (keeping_configureMemory enabled threshold streaming world s hs)
  | configureMetrics enabled => exact hanswer (fit_configureMetrics hs enabled)
  | cleanup force => exact hanswer (fit_cleanup hs force)
  | clearCaches => exact hanswer (fit_clearCaches hs)
  | startTracking =>
      refine hanswer (untracked_fit.keeping_record (fun t ht => ?_) world s hs)
      exact ht.of_same (t.tracker.same_startTracking t.clock t.memory.1)
  | endTracking =>
      refine hanswer ((hsizes.bind fun _ => ?_) world s hs)
      refine untracked_fit.keeping_record fun t ht => ?_
      exact ht.of_same (t.tracker.same_endTracking t.clock t.memory.1)
  | report =>
      refine hanswer ((hsizes.bind fun _ => ?_) world s hs)
      exact keeping_get.bind fun t => keeping_check _
  | resetProcessed =>
      refine hanswer (hs.within (fun hsane => ?_) fun hmeasured => hmeasured.of_memory rfl rfl)
      exact Session.within_of_caches hsane rfl (le_refl _) hsane.ready
  | pass seconds resident virtual => exact hanswer (fit_pass hs seconds resident virtual)
  | _ => cases hnone

/-- Whatever is resolved in a subject that is not watched keeps all that is remembered right. -/
theorem opens_fit {subject : Subject} (hunwatched : subject.Unwatched watch) :
    Opens (fun _ => True) (fun _ => Preserves (Session.Fit watch)) subject where
  toSequential := sequential_preserves (Session.Fit watch)
  timed := untracked_fit.preserves_timed
  opening := fun hnext _ _ hs => keeps_open hs hunwatched fun _ d hnone =>
    hnext d _ (Session.resolved_ready hnone)

/-- Resolving in a document that is not watched keeps all that is remembered right. -/
theorem fit_unwatched {r : Request} {subject : Subject} (hs : s.Fit watch)
    (hsubject : r.subject? = some subject) (hunwatched : subject.Unwatched watch) :
    Ensures r.run world s fun _ t => t.Fit watch := by
  have hopens := opens_fit hunwatched
  have hanswer : ∀ {α : Type} {act : Resolving α} (answer : α → Answer),
      Preserves (Session.Fit watch) act → Ensures (do return answer (← act)) world s
        fun _ t => t.Fit watch :=
    fun answer hact => hopens.bind hact (fun a => hopens.pure (answer a)) world s hs
  cases r with
  | reference _ asked visited =>
      obtain rfl := Option.some.inj hsubject
      exact hanswer _ (hopens.reference asked visited)
  | schema _ raw =>
      obtain rfl := Option.some.inj hsubject
      exact hanswer _ (hopens.rawSchema fun _ _ => trivial)
  | node _ n =>
      obtain rfl := Option.some.inj hsubject
      exact hanswer _ (hopens.schema trivial)
  | references _ asked =>
      obtain rfl := Option.some.inj hsubject
      exact hanswer _ (hopens.references asked)
  | schemas _ =>
      obtain rfl := Option.some.inj hsubject
      exact hanswer _ hopens.schemas
  | resolvedSchemas _ =>
      obtain rfl := Option.some.inj hsubject
      exact hanswer _ (hopens.bind hopens.schemas fun _ => hopens.eachSchema fun _ _ => trivial)
  | batches _ =>
      obtain rfl := Option.some.inj hsubject
      exact hanswer _ hopens.batches
  | _ => cases hsubject

/-- Every request leaves a session in which all that is remembered is right. -/
theorem fit_run {r : Request} (hs : s.Fit watch) (hr : r.Admitted watch) :
    Ensures r.run world s fun _ t => t.Fit watch := by
  cases hsubject : r.subject? with
  | none => exact fit_resolvesNothing hs hsubject
  | some subject =>
      rcases hr subject hsubject with ⟨hwatched, hlocal⟩ | hunwatched
      · exact (mirrors_run world hs hsubject hwatched hlocal).1
      · exact fit_unwatched hs hsubject hunwatched

end Engine

end SchemaGraph
