import SchemaGraph.Proofs.Resolve.Enumerating

/-!
# Enumerating in batches

Enumerating the entries of a registry lists those that are mappings, in their order, points out
each other one once and counts what was listed; if an entry fails, what was counted are the mappings
before it.  A large registry is enumerated in batches, with a chance to free memory between each two.
Nothing that happens on the way, neither resolving an alias nor freeing memory, touches the count or
points out an entry, so the batches together are what enumerating all entries at once lists.

This needs nothing of the caches.  That freeing memory succeeds is a matter of the memory in use and of
the threshold only.
-/

namespace SchemaGraph

open Resolving

/-- The entries that are enumerated. -/
def mappings (entries : List (Value × Value)) : List (Value × Value) :=
  entries.filter fun entry => entry.2.isMap

/-- What is pointed out of the entries that are left out: the name, and of what kind the entry is. -/
def leftOut (entries : List (Value × Value)) : List (Value × String) :=
  (entries.filter fun entry => !entry.2.isMap).map fun entry => (entry.1, entry.2.kindName)

theorem mappings_cons_of_isMap {raw : Value} (h : raw.isMap = true) (name : Value)
    (rest : List (Value × Value)) : mappings ((name, raw) :: rest) = (name, raw) :: mappings rest :=
  List.filter_cons_of_pos (p := fun entry : Value × Value => entry.2.isMap) h

theorem mappings_cons_of_not_isMap {raw : Value} (h : raw.isMap = false) (name : Value)
    (rest : List (Value × Value)) : mappings ((name, raw) :: rest) = mappings rest :=
  List.filter_cons_of_neg (p := fun entry : Value × Value => entry.2.isMap) (by simp [h])

theorem mappings_append (entries others : List (Value × Value)) :
    mappings (entries ++ others) = mappings entries ++ mappings others :=
  List.filter_append entries others

theorem leftOut_append (entries others : List (Value × Value)) :
    leftOut (entries ++ others) = leftOut entries ++ leftOut others := by
  unfold leftOut
  rw [List.filter_append, List.map_append]

namespace Session

/-- The entries that were pointed out as left out, in their order. -/
def skipped (s : Session) : List (Value × String) := (s.trace.filterMap Event.skipped?).reverse

/-- A session after some more entries, with the same memory in use. -/
structure Advanced (s : Session) (done : List (Value × Value)) (t : Session) : Prop where
  processed : t.processed = s.processed + (mappings done).length
  skipped : t.skipped = s.skipped ++ leftOut done
  memory : t.memory = s.memory
  memorySettings : t.memorySettings = s.memorySettings

variable {s t u : Session} {done more : List (Value × Value)}

theorem Advanced.refl (s : Session) : s.Advanced [] s := ⟨rfl, (List.append_nil _).symm, rfl, rfl⟩

theorem Advanced.trans (h : s.Advanced done t) (h' : t.Advanced more u) :
    s.Advanced (done ++ more) u where
  processed := by
    rw [h'.processed, h.processed, mappings_append, List.length_append, Nat.add_assoc]
  skipped := by rw [h'.skipped, h.skipped, leftOut_append, List.append_assoc]
  memory := h'.memory.trans h.memory
  memorySettings := h'.memorySettings.trans h.memorySettings

/-- After an entry that is a mapping. -/
theorem Advanced.counted (h : s.Advanced done t) (name : Value) {raw : Value}
    (hraw : raw.isMap = true) (tracker : Tracker) :
    s.Advanced (done ++ [(name, raw)]) { t with processed := t.processed + 1, tracker := tracker } :=
  h.trans
    { processed := by simp [mappings, hraw]
      skipped := by simp [leftOut, hraw, Session.skipped]
      memory := rfl
      memorySettings := rfl }

/-- After an entry that is no mapping. -/
theorem advanced_warned {name raw : Value} (hraw : raw.isMap = false) :
    s.Advanced [(name, raw)]
      { s with trace := .warned (.skippedSchema name raw.kindName) :: s.trace } where
  processed := by simp [mappings, hraw]
  skipped := by simp [leftOut, hraw, Session.skipped, Event.skipped?]
  memory := rfl
  memorySettings := rfl

theorem untracked_advanced (s : Session) (done : List (Value × Value)) :
    Untracked (s.Advanced done) where
  records := fun _ h => ⟨h.processed, h.skipped, h.memory, h.memorySettings⟩

theorem distant_advanced (s : Session) (done : List (Value × Value)) :
    Distant (s.Advanced done) where
  elapsed := fun _ _ h => ⟨h.processed, h.skipped, h.memory, h.memorySettings⟩
  noted := by
    intro t event hevent h
    refine ⟨h.processed, ?_, h.memory, h.memorySettings⟩
    rw [← h.skipped]
    unfold Session.skipped
    rw [List.filterMap_cons_none hevent]

/-- Resolving in a document does not advance an enumeration. -/
theorem lasting_advanced (d : Document) (s : Session) (done : List (Value × Value)) :
    Lasting d (s.Advanced done) where
  toUntracked := s.untracked_advanced done
  outside := External.keeping_resolve_distant
    (fun _ _ h => ⟨h.processed, h.skipped, h.memory, h.memorySettings⟩) (s.distant_advanced done)
  composition := fun _ _ h => ⟨h.processed, h.skipped, h.memory, h.memorySettings⟩
  reference := fun _ _ h => ⟨h.processed, h.skipped, h.memory, h.memorySettings⟩
  schema := fun _ _ h => ⟨h.processed, h.skipped, h.memory, h.memorySettings⟩
  failure := fun _ _ h => ⟨h.processed, h.skipped, h.memory, h.memorySettings⟩

theorem keeping_cleanup_advanced (s : Session) (done : List (Value × Value)) (force : Bool) :
    Keeping (s.Advanced done) (cleanup force) :=
  (s.untracked_advanced done).keeping_cleanup
    (fun _ _ _ => External.keeping_noteOther (s.distant_advanced done) rfl)
    (fun _ h => ⟨h.processed, h.skipped, h.memory, h.memorySettings⟩) force

end Session

section Accounting

variable {d : Document} {world : World} {s t u : Session}
  {entries others : List (Value × Value)} {α β : Type}

/-- Whether a table lists the mappings among some entries, each with a schema that is found under its
name. -/
def Listed (d : Document) (world : World) (entries : List (Value × Value)) (table : Table Node) :
    Prop :=
  List.Forall₂ (fun entry item => item.1 = entry.1 ∧
    ∃ u v, schemaAt d entry.1 entry.2 world u = (.ok item.2, v)) (mappings entries) table

theorem listed_append {table table' : Table Node} (h : Listed d world entries table)
    (h' : Listed d world others table') : Listed d world (entries ++ others) (table ++ table') := by
  unfold Listed
  rw [mappings_append]
  exact List.rel_append h h'

theorem listed_flatten {parts : List (List (Value × Value))} {batches : List (Table Node)}
    (h : List.Forall₂ (Listed d world) parts batches) :
    Listed d world parts.flatten batches.flatten := by
  induction h with
  | nil => exact .nil
  | cons hfirst _ ih => exact listed_append hfirst ih

/-- Whether a run failed at one of some entries, after all entries before it. -/
def FailedAt (d : Document) (world : World) (s : Session) (entries : List (Value × Value))
    (failure : Failure) (t : Session) : Prop :=
  ∃ before name raw after, entries = before ++ (name, raw) :: after ∧ raw.isMap = true ∧
    (∃ u v, s.Advanced before u ∧ schemaAt d name raw world u = (.error failure, v)) ∧
    s.Advanced before t

namespace FailedAt

variable {failure : Failure}

/-- Where some entries were enumerated before. -/
theorem after (hdone : s.Advanced entries t) (h : FailedAt d world t others failure u) :
    FailedAt d world s (entries ++ others) failure u := by
  obtain ⟨before, name, raw, after, rfl, hraw, ⟨v, w, hv, hrun⟩, hbefore⟩ := h
  refine ⟨entries ++ before, name, raw, after, ?_, hraw, ⟨v, w, hdone.trans hv, hrun⟩,
    hdone.trans hbefore⟩
  rw [List.append_assoc]

theorem append (h : FailedAt d world s entries failure t) (others : List (Value × Value)) :
    FailedAt d world s (entries ++ others) failure t := by
  obtain ⟨before, name, raw, after, rfl, hraw, hrun, hbefore⟩ := h
  refine ⟨before, name, raw, after ++ others, ?_, hraw, hrun, hbefore⟩
  rw [List.append_assoc, List.cons_append]

end FailedAt

/-- What a run leaves that enumerates some entries: a result of a kind after all entries, or the
failure of one of them. -/
def Accounted (d : Document) (world : World) (s : Session) (good : α → Prop)
    (entries : List (Value × Value)) : Except Failure α → Session → Prop
  | .ok a, t => good a ∧ s.Advanced entries t
  | .error failure, t => FailedAt d world s entries failure t

/-- Where some entries were enumerated before. -/
theorem Accounted.after {good : α → Prop} {result : Except Failure α} (hdone : s.Advanced entries t)
    (h : Accounted d world t good others result u) :
    Accounted d world s good (entries ++ others) result u := by
  cases result with
  | ok a => exact ⟨h.1, hdone.trans h.2⟩
  | error failure => exact FailedAt.after hdone h

theorem Accounted.imp {good good' : α → Prop} {result : Except Failure α}
    (h : Accounted d world s good entries result t) (himp : ∀ a, good a → good' a) :
    Accounted d world s good' entries result t := by
  cases result with
  | ok a => exact ⟨himp a h.1, h.2⟩
  | error failure => exact h

/-- Two runs in turn enumerate the entries of the first one and then those of the second one. -/
theorem accounted_bind {act : Resolving α} {next : α → Resolving β} {good : α → Prop}
    {good' : β → Prop} (h : Ensures act world s (Accounted d world s good entries))
    (hnext : ∀ a t, good a → s.Advanced entries t →
      Ensures (next a) world t (Accounted d world t good' others)) :
    Ensures (act >>= next) world s (Accounted d world s good' (entries ++ others)) := by
  refine h.bind (fun a t ha => ?_) fun failure t hfailed => hfailed.append others
  exact (hnext a t ha.1 ha.2).mono fun result u hu => hu.after ha.2

/-- Recording how long a run took changes nothing of the account. -/
theorem accounted_timed {act : Resolving α} {good : α → Prop} (operation : Operation)
    (h : Ensures act world s (Accounted d world s good entries)) :
    Ensures (timed operation act) world s (Accounted d world s good entries) := by
  have htracked : ∀ {done : List (Value × Value)} {t : Session}, s.Advanced done t →
      s.Advanced done (t.retracked (t.tracker.track operation s.clock t.clock)) :=
    fun ht => (s.untracked_advanced _).records (fun hready => hready.track operation s.clock _) ht
  rw [ensures_timed]
  refine h.mono fun result t ht => ?_
  cases result with
  | ok a => exact ⟨ht.1, htracked ht.2⟩
  | error failure =>
      obtain ⟨before, name, raw, after, heq, hraw, hrun, hbefore⟩ := ht
      exact ⟨before, name, raw, after, heq, hraw, hrun, htracked hbefore⟩

theorem accounted_pure {good : α → Prop} {a : α} (ha : good a) :
    Ensures (pure a) world s (Accounted d world s good []) :=
  ⟨ha, Session.Advanced.refl s⟩

variable (d world s) in
/-- Enumerating entries lists the mappings among them, or fails at one of them. -/
theorem accounted_enumerate (entries : List (Value × Value)) :
    Ensures (enumerate d entries) world s (Accounted d world s (Listed d world entries) entries) := by
  induction entries generalizing s with
  | nil => exact accounted_pure .nil
  | cons entry rest ih =>
      obtain ⟨name, raw⟩ := entry
      rw [enumerate]
      cases hraw : raw.isMap with
      | false =>
          change Ensures (modify _ >>= _) world s _
          rw [ensures_modify_bind]
          refine (ih _).mono fun result u hu => ?_
          refine Accounted.imp (hu.after (Session.advanced_warned hraw)) fun table htable => ?_
          unfold Listed
          rw [mappings_cons_of_not_isMap hraw]
          exact htable
      | true =>
          have hschema : Ensures (schemaAt d name raw) world s fun result t =>
              s.Advanced [] t ∧ schemaAt d name raw world s = (result, t) :=
            ⟨(s.lasting_advanced d []).keeping_schemaAt name raw world s (Session.Advanced.refl s),
              rfl⟩
          rw [if_neg (by decide)]
          refine hschema.bind ?_ ?_
          · rintro node t ⟨ht, hrun⟩
            rw [ensures_modify_bind]
            have hdone := ht.counted name hraw t.tracker.recordProcessed
            refine Ensures.bind (ih _) (fun table u hu => ?_) fun failure u hu =>
              FailedAt.after hdone hu
            refine ⟨?_, hdone.trans hu.2⟩
            unfold Listed
            rw [mappings_cons_of_isMap hraw]
            exact .cons ⟨rfl, s, t, hrun⟩ hu.1
          · rintro failure t ⟨ht, hrun⟩
            exact ⟨[], name, raw, rest, rfl, hraw, ⟨s, t, Session.Advanced.refl s, hrun⟩, ht⟩

end Accounting

/-- What is done for a registry in batches: some entries are enumerated, or memory may be freed. -/
inductive Stage where
  | batch (entries : List (Value × Value))
  | cleanup

namespace Stage

/-- The entries that are enumerated in a stage. -/
def part? : Stage → Option (List (Value × Value))
  | .batch entries => some entries
  | .cleanup => none

/-- Whether memory may be freed in a stage. -/
def isCleanup : Stage → Bool
  | .batch _ => false
  | .cleanup => true

end Stage

/-- Batches with a chance to free memory between each two of them. -/
def stages (parts : List (List (Value × Value))) : List Stage :=
  (parts.map Stage.batch).intersperse .cleanup

/-- The stages one after the other, with what is listed in each batch. -/
def runStages (d : Document) : List Stage → Resolving (List (Table Node))
  | [] => return []
  | .batch entries :: rest => do
    let batch ← enumerate d entries
    return batch :: (← runStages d rest)
  | .cleanup :: rest => do
    let _ ← cleanup false
    runStages d rest

theorem stages_cons (part second : List (Value × Value)) (rest : List (List (Value × Value))) :
    stages (part :: second :: rest) = .batch part :: .cleanup :: stages (second :: rest) :=
  rfl

section Stages

variable (parts : List (List (Value × Value)))

theorem parts_stages : (stages parts).filterMap Stage.part? = parts := by
  induction parts with
  | nil => rfl
  | cons part rest ih =>
      cases rest with
      | nil => rfl
      | cons second rest =>
          change part :: (stages (second :: rest)).filterMap Stage.part? = part :: second :: rest
          rw [ih]

/-- There is one chance to free memory less than there are batches. -/
theorem countP_isCleanup_stages : (stages parts).countP Stage.isCleanup = parts.length - 1 := by
  induction parts with
  | nil => rfl
  | cons part rest ih =>
      cases rest with
      | nil => rfl
      | cons second rest =>
          rw [stages_cons, List.countP_cons_of_neg Bool.false_ne_true, List.countP_cons_of_pos rfl, ih]
          rfl

/-- The last stage is a batch. -/
theorem getLast_stages : (stages parts).getLast? = parts.getLast?.map Stage.batch := by
  induction parts with
  | nil => rfl
  | cons part rest ih =>
      cases rest with
      | nil => rfl
      | cons second rest =>
          rw [stages_cons, List.getLast?_cons_cons, List.getLast?_cons_cons]
          cases rest with
          | nil => rfl
          | cons third rest => exact ih

theorem enumerateGroups_eq (d : Document) : enumerateGroups d parts = runStages d (stages parts) := by
  induction parts with
  | nil => rfl
  | cons part rest ih =>
      cases rest with
      | nil => rfl
      | cons second rest =>
          rw [stages_cons, enumerateGroups, ih]
          · simp only [runStages, bind_assoc]
          · exact List.cons_ne_nil _ _

end Stages

section Groups

variable {α : Type} {size count : Nat} {entries : List α}

/-- There are as many groups as are needed for all entries. -/
theorem length_groups (hsize : 0 < size) (h : entries.length ≤ count) :
    (groups size count entries).length = (entries.length + (size - 1)) / size := by
  have hnone : (0 + (size - 1)) / size = 0 := Nat.div_eq_of_lt (by omega)
  induction count generalizing entries with
  | zero =>
      obtain rfl := List.length_eq_zero_iff.mp (Nat.le_zero.mp h)
      exact hnone.symm
  | succ count ih =>
      rw [groups]
      split
      · rename_i hempty
        rw [List.isEmpty_iff.mp hempty]
        exact hnone.symm
      · rename_i hgiven
        have hpos : 0 < entries.length := by
          apply List.length_pos_iff.mpr
          simpa using hgiven
        have hrest : (entries.drop size).length ≤ count := by
          rw [List.length_drop]
          omega
        rw [List.length_cons, ih hrest, List.length_drop]
        by_cases hlarge : size ≤ entries.length
        · rw [← Nat.add_div_right _ hsize]
          congr 1
          omega
        · have hone : (entries.length + (size - 1)) / size = 1 := by
            rw [show entries.length + (size - 1) = entries.length - 1 + size by omega,
              Nat.add_div_right _ hsize, Nat.div_eq_of_lt (by omega)]
          rw [show entries.length - size = 0 by omega, hnone, hone]

/-- Each group is made of the entries that follow those of the groups before it. -/
theorem getElem_groups {k : Nat} {part : List α} (h : (groups size count entries)[k]? = some part) :
    part = (entries.drop (size * k)).take size := by
  induction count generalizing entries k with
  | zero => cases h
  | succ count ih =>
      rw [groups] at h
      split at h
      · cases h
      · cases k with
        | zero =>
            rw [Nat.mul_zero, List.drop_zero]
            exact (Option.some.inj h).symm
        | succ k =>
            rw [ih h, List.drop_drop, Nat.mul_succ, Nat.add_comm]

end Groups

section Batches

variable {d : Document} {world : World} {s : Session} {entries : Table Value}

/-- Stages enumerate the entries of their batches, each batch on its own. -/
theorem accounted_runStages (hs : s.Gauged) (plan : List Stage) :
    Ensures (runStages d plan) world s
      (Accounted d world s (List.Forall₂ (Listed d world) (plan.filterMap Stage.part?))
        (plan.filterMap Stage.part?).flatten) := by
  induction plan generalizing s with
  | nil => exact accounted_pure .nil
  | cons stage rest ih =>
      cases stage with
      | batch part =>
          refine accounted_bind (accounted_enumerate d world s part) fun batch t hbatch ht => ?_
          have hgauged : t.Gauged := hs.of_memory ht.memory ht.memorySettings
          refine (ih hgauged).bind (fun batches u hu => ?_) fun failure u hu => hu
          exact ⟨.cons hbatch hu.1, hu.2⟩
      | cleanup =>
          have hkept : Ensures (cleanup false) world s fun _ t => s.Advanced [] t :=
            s.keeping_cleanup_advanced [] false world s (Session.Advanced.refl s)
          refine ((cleanup_succeeds hs).and hkept).bind ?_ ?_
          · rintro count t ⟨-, ht⟩
            have hgauged : t.Gauged := hs.of_memory ht.memory ht.memorySettings
            exact (ih hgauged).mono fun result u hu => hu.after ht
          · rintro failure t ⟨⟨count, heq⟩, -⟩
            cases heq

/-- Whether the entries of a registry are enumerated in batches. -/
def Session.IsStreaming (s : Session) (entries : Table Value) : Prop :=
  s.memorySettings.streamingMode.truthy = true ∧ batchSize < entries.length

/-- Batches that together list the mappings among some entries.  If they are streamed, there are as
many batches as are needed, and each one lists the mappings among the next entries. -/
structure Partitioned (d : Document) (world : World) (streaming : Prop) (entries : Table Value)
    (batches : List (Table Node)) : Prop where
  whole : Listed d world entries batches.flatten
  single : ¬ streaming → entries ≠ [] → batches.length = 1
  count : streaming → batches.length = (entries.length + (batchSize - 1)) / batchSize
  batch : streaming → ∀ {k : Nat} {batch : Table Node}, batches[k]? = some batch →
    Listed d world ((entries.drop (batchSize * k)).take batchSize) batch

/-- Groups of entries that are listed one by one are a partition of the entries. -/
theorem partitioned_of_groups {streaming : Prop} (hstreaming : streaming)
    {batches : List (Table Node)}
    (h : List.Forall₂ (Listed d world) (groups batchSize entries.length entries) batches) :
    Partitioned d world streaming entries batches where
  whole := by
    have hall := listed_flatten h
    rwa [flatten_groups (by decide) le_rfl] at hall
  single := fun hnot => absurd hstreaming hnot
  count := fun _ => by rw [← h.length_eq, length_groups (by decide) le_rfl]
  batch := by
    intro _ k batch hbatch
    obtain ⟨hk, hget⟩ := List.getElem?_eq_some_iff.mp hbatch
    have hk' : k < (groups batchSize entries.length entries).length := h.length_eq ▸ hk
    have hpart : (groups batchSize entries.length entries)[k]? =
        some (groups batchSize entries.length entries)[k] := List.getElem?_eq_getElem hk'
    rw [← getElem_groups hpart, ← hget]
    exact h.get hk' hk

/-- The stages in which a large registry is enumerated. -/
def registryStages (entries : Table Value) : List Stage :=
  stages (groups batchSize entries.length entries)

theorem schemaBatches_eq_stages (hregistry : d.registry = .ok entries)
    (hstreaming : s.IsStreaming entries) :
    schemaBatches d world s =
      timed .streamingEnumeration (runStages d (registryStages entries)) world s := by
  obtain ⟨hmode, hlarge⟩ := hstreaming
  have hgiven : entries.isEmpty = false := by
    rw [List.isEmpty_eq_false_iff, ← List.length_pos_iff]
    omega
  unfold schemaBatches
  rw [hregistry, bind_apply]
  change (get >>= _ : Resolving (List (Table Node))) world s = _
  rw [bind_apply]
  change (if entries.isEmpty = true then _ else
    if (s.memorySettings.streamingMode.truthy && decide (batchSize < entries.length)) = true
      then _ else _ : Resolving (List (Table Node))) world s = _
  rw [if_neg (by rw [hgiven]; decide), if_pos (by simp [hmode, hlarge]), enumerateGroups_eq]
  rfl

theorem countP_registryStages (entries : Table Value) :
    (registryStages entries).countP Stage.isCleanup =
      (entries.length + (batchSize - 1)) / batchSize - 1 := by
  unfold registryStages
  rw [countP_isCleanup_stages, length_groups (by decide) le_rfl]

theorem getLast_registryStages (hgiven : entries ≠ []) :
    ∃ last, (registryStages entries).getLast? = some (.batch last) := by
  have hgroups : groups batchSize entries.length entries ≠ [] := by
    intro hnone
    have hflat : (groups batchSize entries.length entries).flatten = entries :=
      flatten_groups (by decide) le_rfl
    rw [hnone] at hflat
    exact hgiven hflat.symm
  refine ⟨(groups batchSize entries.length entries).getLast hgroups, ?_⟩
  unfold registryStages
  rw [getLast_stages, List.getLast?_eq_some_getLast hgroups]
  rfl

/-- Enumerating a registry is accounted for in one batch or in many. -/
theorem accounted_schemaBatches (hregistry : d.registry = .ok entries) (hs : s.Gauged)
    (world : World) :
    Ensures (schemaBatches d) world s
      (Accounted d world s (Partitioned d world (s.IsStreaming entries) entries) entries) := by
  by_cases hstreaming : s.IsStreaming entries
  · have hrun : Ensures (runStages d (registryStages entries)) world s _ :=
      accounted_runStages hs (registryStages entries)
    unfold registryStages at hrun
    rw [parts_stages, flatten_groups (by decide) le_rfl] at hrun
    unfold Ensures
    rw [schemaBatches_eq_stages hregistry hstreaming]
    refine accounted_timed .streamingEnumeration (hrun.mono fun result t ht => ?_)
    exact ht.imp fun batches hbatches => partitioned_of_groups hstreaming hbatches
  · unfold schemaBatches
    rw [ensures_check_ok_bind hregistry, ensures_get_bind]
    dsimp only
    split
    · rename_i hempty
      obtain rfl := List.isEmpty_iff.mp hempty
      exact accounted_pure ⟨.nil, fun _ hne => absurd rfl hne, fun h => absurd h hstreaming,
        fun h => absurd h hstreaming⟩
    · split
      · rename_i hmode
        refine absurd ⟨?_, ?_⟩ hstreaming
        · exact (Bool.and_eq_true _ _ ▸ hmode).1
        · exact of_decide_eq_true (Bool.and_eq_true _ _ ▸ hmode).2
      · refine (accounted_enumerate d world s entries).bind (fun batch t ht => ?_)
          fun failure t ht => ht
        refine ⟨⟨?_, fun _ _ => rfl, fun h => absurd h hstreaming,
          fun h => absurd h hstreaming⟩, ht.2⟩
        rw [List.flatten_singleton]
        exact ht.1

/-- Enumerating a registry partitions its mappings into batches, points out each other entry once and
counts the mappings, up to the entry that fails if one does.  Where it goes in batches, memory may be
freed between each two of them and not after the last one. -/
theorem schemaBatches_partition (hregistry : d.registry = .ok entries) (hs : s.Gauged)
    (world : World) :
    Ensures (schemaBatches d) world s
        (Accounted d world s (Partitioned d world (s.IsStreaming entries) entries) entries) ∧
      (s.IsStreaming entries →
        schemaBatches d world s =
          timed .streamingEnumeration (runStages d (registryStages entries)) world s ∧
        (registryStages entries).countP Stage.isCleanup =
          (entries.length + (batchSize - 1)) / batchSize - 1 ∧
        ∃ last, (registryStages entries).getLast? = some (.batch last)) := by
  refine ⟨accounted_schemaBatches hregistry hs world, fun hstreaming => ?_⟩
  have hgiven : entries ≠ [] := by
    rintro rfl
    exact absurd hstreaming.2 (by decide)
  exact ⟨schemaBatches_eq_stages hregistry hstreaming, countP_registryStages entries,
    getLast_registryStages hgiven⟩

end Batches

/-- A registry of numbered entries, one more than a batch has, of which one is no mapping. -/
def numberedRegistry : Table Value :=
  (List.range 51).map fun i =>
    (.str (toString i), if i = 7 then .int 0 else .record [("type", .str "string")])

/-- A document with a registry and nothing else. -/
def documentOf (entries : Table Value) : Document :=
  ⟨.record [("components", .record [("schemas", .map entries)])], "", 1⟩

theorem registry_documentOf (entries : Table Value) : (documentOf entries).registry = .ok entries :=
  rfl

/-- A session that enumerates in batches and frees memory whenever it may. -/
def streamingSession : Session :=
  .start { memory := ⟨.bool true, .int (-1), .bool true⟩ } (.int 0, .int 0) 2

/-- A batch of fifty entries with forty-nine mappings, and one with the last entry; memory is freed
once. -/
theorem schemaBatches_partition_numbered :
    let world : World := ⟨default, [], fun _ _ => (.int 0, .lost ""), true, []⟩
    (documentOf numberedRegistry).registry = .ok numberedRegistry ∧ streamingSession.Gauged ∧
      streamingSession.IsStreaming numberedRegistry ∧
      Ensures (schemaBatches (documentOf numberedRegistry)) world streamingSession
        (Accounted (documentOf numberedRegistry) world streamingSession
          (Partitioned (documentOf numberedRegistry) world
            (streamingSession.IsStreaming numberedRegistry) numberedRegistry) numberedRegistry) ∧
      (registryStages numberedRegistry).countP Stage.isCleanup = 1 := by
  intro world
  have hregistry := registry_documentOf numberedRegistry
  have hlength : numberedRegistry.length = 51 := by simp [numberedRegistry]
  have hgauged : streamingSession.Gauged := by
    refine ⟨⟨0, rfl, by decide⟩, fun _ => ⟨.int (-1), rfl, fun n hn => ?_⟩⟩
    rw [← Number.int.inj hn]
    decide
  have hstreaming : streamingSession.IsStreaming numberedRegistry :=
    ⟨rfl, by rw [hlength]; decide⟩
  refine ⟨hregistry, hgauged, hstreaming,
    (schemaBatches_partition hregistry hgauged world).imp_right fun hstages => ?_⟩
  rw [(hstages hstreaming).2.1, hlength]
  decide

end SchemaGraph
