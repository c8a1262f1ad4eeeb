import SchemaGraph.Enumerate
import SchemaGraph.Proofs.Metrics.Figures
import SchemaGraph.Proofs.Resolve.Sound
import SchemaGraph.Proofs.Resolve.Steady
import SchemaGraph.Proofs.Store.Counted

/-!
# Freeing memory

Freeing memory between two batches drops entries from the caches and changes nothing else that is
remembered.  It never fails where the memory in use is a count of octets in 64 bits and the threshold
is a number, and no integer far below zero: memory is only freed if the threshold is not above the
memory in use, and then both can be told in megabytes.
-/

namespace SchemaGraph

open Resolving

namespace BoundedCache

variable {κ α : Type}

theorem evictFraction_cleanup (c : BoundedCache κ α) :
    ∃ entries count, c.evictFraction cleanupShare = ({ c with entries := entries }, .ok count) ∧
      entries ⊆ c.entries := by
  obtain ⟨count, hcount⟩ := c.share_ok (show cleanupShare.number? = some _ from rfl) (by decide)
    (by decide)
  unfold evictFraction
  rw [hcount]
  exact ⟨_, count, rfl, fun _ hin => List.mem_of_mem_drop hin⟩

end BoundedCache

/-- Dropping a share of the caches is sure to give the number of dropped entries. -/
theorem Caches.evictShare_cleanup {κ ι ν φ δ : Type} (c : Caches κ ι ν φ δ) :
    ∃ count, (c.evictShare cleanupShare).2.2 = .ok count := by
  obtain ⟨schemas, m, hschemas, -⟩ := c.schemas.evictFraction_cleanup
  obtain ⟨compositions, n, hcompositions, -⟩ := c.compositions.evictFraction_cleanup
  obtain ⟨references, k, hreferences, -⟩ := c.references.evictFraction_cleanup
  unfold evictShare
  rw [hschemas, hcompositions, hreferences]
  exact ⟨_, rfl⟩

namespace Session

/-- Memory in use that is a count in 64 bits, and a threshold that is a number and not negative. -/
structure Measured (s : Session) : Prop where
  resident : ∃ n : Nat, s.memory.1 = .int n ∧ n < 2 ^ 64
  threshold : ∃ t, s.memorySettings.memoryThreshold.number = .ok t ∧ Number.lt t (.int 0) = false

/-- Memory in use that is a count in 64 bits, and, if memory is freed at all, a threshold that is a
number; an integer may be below zero by 64 bits. -/
structure Gauged (s : Session) : Prop where
  resident : ∃ n : Nat, s.memory.1 = .int n ∧ n < 2 ^ 64
  threshold : s.memorySettings.enabled.truthy = true →
    ∃ t, s.memorySettings.memoryThreshold.number = .ok t ∧ ∀ n, t = .int n → -(2 ^ 64) < n

variable {s t : Session}

theorem Measured.of_memory (h : s.Measured) (hmemory : t.memory = s.memory)
    (hsettings : t.memorySettings = s.memorySettings) : t.Measured where
  resident := hmemory ▸ h.resident
  threshold := hsettings ▸ h.threshold

theorem Gauged.of_memory (h : s.Gauged) (hmemory : t.memory = s.memory)
    (hsettings : t.memorySettings = s.memorySettings) : t.Gauged where
  resident := hmemory ▸ h.resident
  threshold := hsettings ▸ h.threshold

theorem Measured.gauged (h : s.Measured) : s.Gauged where
  resident := h.resident
  threshold := by
    obtain ⟨t, ht, hnonneg⟩ := h.threshold
    refine fun _ => ⟨t, ht, fun n hn => ?_⟩
    subst hn
    rw [Number.lt_int, decide_eq_false_iff_not] at hnonneg
    omega

/-- The session with a share of its caches of schemas dropped. -/
def dropped (s : Session) (fraction : Value) : Session :=
  { s with caches := (s.caches.evictShare fraction).1 }

theorem less_refl (s : Session) : s.Less s := less_of_caches rfl (le_refl _)

theorem Less.trans {u : Session} (h : s.Less t) (h' : t.Less u) : s.Less u where
  references := List.Subset.trans h'.references h.references
  compositions := List.Subset.trans h'.compositions h.compositions
  schemas := List.Subset.trans h'.schemas h.schemas
  failures := List.Subset.trans h'.failures h.failures
  documents := List.Subset.trans h'.documents h.documents
  nextId := h.nextId.trans h'.nextId

theorem within_refl (h : s.Sane) : s.Within s := ⟨less_refl s, h⟩

theorem Within.trans {u : Session} (h : s.Within t) (h' : t.Within u) : s.Within u :=
  ⟨h.toLess.trans h'.toLess, h'.sane⟩

/-- Dropping a share of the caches leaves less in them. -/
theorem less_dropped (s : Session) : s.Less (s.dropped cleanupShare) := by
  obtain ⟨schemas, m, hschemas, hlessSchemas⟩ := s.caches.schemas.evictFraction_cleanup
  obtain ⟨compositions, n, hcompositions, hlessCompositions⟩ :=
    s.caches.compositions.evictFraction_cleanup
  obtain ⟨references, k, hreferences, hlessReferences⟩ := s.caches.references.evictFraction_cleanup
  unfold dropped Caches.evictShare
  rw [hschemas, hcompositions, hreferences]
  exact ⟨hlessReferences, hlessCompositions, hlessSchemas, fun _ hin => hin, fun _ hin => hin,
    le_refl _⟩

theorem within_dropped (h : s.Sane) : s.Within (s.dropped cleanupShare) := by
  refine ⟨less_dropped s, ?_⟩
  obtain ⟨schemas, m, hschemas, -⟩ := s.caches.schemas.evictFraction_cleanup
  obtain ⟨compositions, n, hcompositions, -⟩ := s.caches.compositions.evictFraction_cleanup
  obtain ⟨references, k, hreferences, -⟩ := s.caches.references.evictFraction_cleanup
  unfold dropped Caches.evictShare
  rw [hschemas, hcompositions, hreferences]
  exact ⟨h.ready, h.schemas, h.compositions, h.references, h.documents⟩

/-- A session that remembers nothing more than another one does, with the same memory in use. -/
structure Freed (s t : Session) : Prop where
  within : s.Within t
  memory : t.memory = s.memory
  memorySettings : t.memorySettings = s.memorySettings

theorem freed_refl (h : s.Sane) : s.Freed s := ⟨within_refl h, rfl, rfl⟩

theorem Freed.retracked (h : s.Freed t) {u : Tracker} (hu : u.Ready) : s.Freed (t.retracked u) where
  within := h.within.trans ⟨less_of_caches rfl (le_refl _), h.within.sane.retracked hu⟩
  memory := h.memory
  memorySettings := h.memorySettings

theorem Freed.dropped (h : s.Freed t) : s.Freed (t.dropped cleanupShare) where
  within := h.within.trans (within_dropped h.within.sane)
  memory := h.memory
  memorySettings := h.memorySettings

theorem untracked_freed (s : Session) : Untracked s.Freed where
  records := fun hready h => h.retracked (hready h.within.sane.ready)

theorem aloof_freed (s : Session) : Aloof s.Freed := by
  intro t clock sent trace h
  have hless := h.within
  refine ⟨⟨hless.toLess.trans (less_of_caches rfl (le_refl _)), ?_⟩, h.memory, h.memorySettings⟩
  exact ⟨hless.sane.ready, hless.sane.schemas, hless.sane.compositions, hless.sane.references,
    hless.sane.documents⟩

end Session

/-- Where memory is freed without being asked for, both numbers can be told in megabytes. -/
theorem megabytes_of_needsCleanup {s : Session} (h : s.Gauged) {threshold : Number}
    (hthreshold : s.memorySettings.memoryThreshold.number = .ok threshold)
    (hbound : ∀ n, threshold = .int n → -(2 ^ 64) < n)
    (hneeds : needsCleanup false s.memory.1 s.memorySettings.memoryThreshold = .ok true) :
    (∃ x, Report.megabytes s.memory.1 = .ok x) ∧ ∃ x, Report.megabytes threshold = .ok x := by
  obtain ⟨n, hresident, hn⟩ := h.resident
  constructor
  · refine Number.megabytes_ok 64 (by decide) fun m hm => ?_
    rw [hresident, Number.int.injEq] at hm
    omega
  · refine Number.megabytes_ok 64 (by decide) fun m hm => ?_
    have hlow := hbound m hm
    subst hm
    unfold needsCleanup at hneeds
    rw [if_neg (by decide), hthreshold, hresident] at hneeds
    change Except.ok (!Number.lt _ _) = _ at hneeds
    rw [Number.lt_int, Except.ok.injEq, Bool.not_eq_true', decide_eq_false_iff_not] at hneeds
    omega

section Freeing

variable {world : World} {s : Session}

theorem Tracker.Ready.snapshot {t : Tracker} (h : t.Ready) (resident : Number) :
    (t.snapshot resident).Ready := by
  unfold Tracker.snapshot
  split
  · exact h
  · exact h

namespace Untracked

variable {keeps : Session → Prop} (h : Untracked keeps)
include h

/-- A change of the records. -/
theorem keeping_record {record : Session → Tracker}
    (hrecord : ∀ s : Session, s.tracker.Ready → (record s).Ready) :
    Keeping keeps (modify fun s => { s with tracker := record s } : Resolving Unit) :=
  keeping_modify fun s hs => h.records (hrecord s) hs

/-- Freeing memory keeps what the dropping of a share of the caches and a warning keep. -/
theorem keeping_cleanup
    (hwarn : ∀ evicted used threshold, Keeping keeps (warn (.memoryCleanup evicted used threshold)))
    (hdropped : ∀ s : Session, keeps s → keeps (s.dropped cleanupShare)) (force : Bool) :
    Keeping keeps (cleanup force) := by
  unfold cleanup
  refine keeping_get.bind fun s => ?_
  split
  · exact keeping_pure _
  refine (keeping_check _).bind fun needed => ?_
  split
  · exact keeping_pure _
  refine Keeping.bind (h.keeping_timed _ ?_) fun evicted => ?_
  · refine keeping_get_bind fun scene t ht => ?_
    dsimp only
    rw [bind_apply]
    exact keeping_lift _ scene _ (h.keeps_countEvictions (hdropped t ht) _)
  · refine Keeping.bind (h.keeping_record fun t ht => ht.snapshot _) fun _ => ?_
    refine (keeping_check _).bind fun used => (keeping_check _).bind fun threshold => ?_
    exact (hwarn _ _ _).bind fun _ => keeping_pure _

end Untracked

/-- Resolving the schema of an entry keeps what following it and writing it keep. -/
theorem Untracked.keeping_schemaAt {d : Document} {keeps : Session → Prop} (h : Untracked keeps)
    (hfollowing : ∀ path target, Keeping keeps (resolveReference d path target))
    (hschema : ∀ s name n, keeps s → keeps (s.keptSchema (cacheKey d name) n)) (name raw : Value) :
    Keeping keeps (schemaAt d name raw) := by
  have hkeep : ∀ n : Node, Keeping keeps (do
      keepSchema (cacheKey d name.display) n
      return n) := fun n =>
    (h.keeping_keepSchema fun s => hschema s name.display n).bind fun _ => keeping_pure _
  unfold schemaAt
  refine keeping_get.bind fun s => ?_
  split
  · exact (h.keeping_track ⟨_, _, fun _ => rfl⟩).bind fun _ => keeping_pure _
  · refine (h.keeping_track ⟨_, _, fun _ => rfl⟩).bind fun _ => (keeping_lift _).bind fun n => ?_
    split
    · exact (hfollowing _ _).bind hkeep
    · exact (keeping_pure _).bind hkeep

/-- A property of sessions that is kept by all that the enumerating of a document is made of. -/
structure Enumerated (d : Document) (keeps : Session → Prop) : Prop extends Untracked keeps where
  warn : ∀ warning, Keeping keeps (warn warning)
  processed : ∀ {s : Session}, keeps s →
    keeps { s with processed := s.processed + 1, tracker := s.tracker.recordProcessed }
  dropped : ∀ {s : Session}, keeps s → keeps (s.dropped cleanupShare)
  following : ∀ path target, Keeping keeps (resolveReference d path target)
  schema : ∀ {s : Session} name n, keeps s → keeps (s.keptSchema (cacheKey d name) n)

namespace Enumerated

variable {d : Document} {keeps : Session → Prop} (h : Enumerated d keeps)
include h

theorem keeping_schemaAt (name raw : Value) : Keeping keeps (schemaAt d name raw) :=
  h.toUntracked.keeping_schemaAt h.following (fun _ name n hs => h.schema name n hs) name raw

theorem keeping_enumerate (entries : List (Value × Value)) : Keeping keeps (enumerate d entries) := by
  induction entries with
  | nil => exact keeping_pure _
  | cons entry rest ih =>
      obtain ⟨name, raw⟩ := entry
      rw [enumerate]
      split
      · exact (h.warn _).bind fun _ => ih
      · refine (h.keeping_schemaAt name raw).bind fun n => ?_
        exact Keeping.bind (keeping_modify fun s hs => h.processed hs) fun _ =>
          ih.bind fun _ => keeping_pure _

theorem keeping_cleanup (force : Bool) : Keeping keeps (cleanup force) :=
  h.toUntracked.keeping_cleanup (fun _ _ _ => h.warn _) (fun _ => h.dropped) force

theorem keeping_enumerateGroups (batches : List (List (Value × Value))) :
    Keeping keeps (enumerateGroups d batches) := by
  induction batches with
  | nil => exact keeping_pure _
  | cons group rest ih =>
      have hgroup := h.keeping_enumerate group
      cases rest with
      | nil =>
          rw [enumerateGroups]
          exact hgroup.bind fun batch => keeping_pure _
      | cons second others =>
          rw [enumerateGroups]
          · exact hgroup.bind fun batch => (h.keeping_cleanup false).bind fun _ =>
              ih.bind fun tables => keeping_pure _
          · exact List.cons_ne_nil _ _

theorem keeping_schemaBatches : Keeping keeps (schemaBatches d) := by
  unfold schemaBatches
  refine (keeping_check _).bind fun entries => keeping_get.bind fun s => ?_
  dsimp only
  split
  · exact keeping_pure _
  · split
    · exact h.keeping_timed _ (h.keeping_enumerateGroups _)
    · exact (h.keeping_enumerate entries).bind fun batch => keeping_pure _

theorem keeping_allSchemas : Keeping keeps (allSchemas d) := by
  unfold allSchemas
  exact h.keeping_schemaBatches.bind fun tables => keeping_pure _

end Enumerated

/-- Freeing memory succeeds where it was not asked for. -/
theorem cleanup_succeeds (h : s.Gauged) :
    Ensures (cleanup false) world s fun result _ => ∃ count, result = .ok count := by
  unfold cleanup
  rw [ensures_get_bind]
  split
  · exact ⟨0, rfl⟩
  rename_i henabled
  obtain ⟨threshold, hthreshold, hbound⟩ := h.threshold (by simpa using henabled)
  dsimp only
  cases hneeds : needsCleanup false s.memory.1 s.memorySettings.memoryThreshold with
  | error f =>
      unfold needsCleanup at hneeds
      rw [hthreshold] at hneeds
      cases hneeds
  | ok needed =>
      rw [ensures_check_ok_bind rfl]
      cases needed with
      | false => exact ⟨0, rfl⟩
      | true =>
          -- the sizes told in the report are those that were compared before
          obtain ⟨⟨used, hused⟩, told, htold⟩ :=
            megabytes_of_needsCleanup h hthreshold hbound hneeds
          obtain ⟨count, hcount⟩ := s.caches.evictShare_cleanup
          rw [if_neg (by decide)]
          refine Ensures.bind_ok (show Ensures _ world s fun result _ =>
            result = .ok count ∧ True from ?_) fun t _ => ?_
          · rw [ensures_timed, ensures_get_bind, ensures_modify_bind, ensures_lift]
            exact ⟨hcount, trivial⟩
          · have hmegabytes : (s.memorySettings.memoryThreshold.number >>= Report.megabytes) =
                .ok told := by
              rw [hthreshold]
              exact htold
            rw [ensures_modify_bind, ensures_check_ok_bind hused,
              ensures_check_ok_bind hmegabytes]
            exact ⟨count, rfl⟩

/-- Freeing memory keeps less in the caches, and succeeds where it was not asked for. -/
theorem frees_cleanup (h : s.Sane) (force : Bool) :
    Ensures (cleanup force) world s fun result t =>
      s.Freed t ∧ (force = false ∧ s.Measured → ∃ count, result = .ok count) := by
  constructor
  · exact s.untracked_freed.keeping_cleanup (fun _ _ _ => External.keeping_note s.aloof_freed _)
      (fun _ ht => ht.dropped) force world s (Session.freed_refl h)
  · rintro ⟨rfl, hmeasured⟩
    exact cleanup_succeeds hmeasured.gauged

end Freeing

end SchemaGraph
