import SchemaGraph.Proofs.Engine.Normalizing
import SchemaGraph.Proofs.Resolve.Balanced

/-!
# The operations of an engine are balanced

An engine works on no keys between two operations.  Enumerating a registry and resolving are balanced
then.  Whatever else is done to a session, freeing memory and new bounds for the caches included,
loses no miss and makes none good, also when it fails.
-/

namespace SchemaGraph

open Resolving Session

namespace Session

/-- No keys at all. -/
def Work.none : Work := fun _ _ => False

theorem vacant_none (s : Session) : s.Vacant Work.none := fun _ _ hwork => hwork.elim

theorem idle_none : Idle Work.none := fun _ => ⟨id, id⟩

theorem shelved_even (s : Session) : Shelved (Even s) :=
  fun _ _ ht hsame => ht.trans ((ht.counting.level.of_abreast hsame).even ht.counting)

end Session

namespace Resolving

variable {α β : Type}

/-- An operation that leaves as much lost as there was is balanced. -/
theorem balanced_of_even {act : Resolving α} (h : ∀ s, Keeping (Session.Even s) act) :
    Balanced Work.none (fun _ => True) act := by
  intro world s hs _
  have heven := h s world s hs.even
  exact ⟨heven.counting, vacant_none _, fun shelf => (heven.lost shelf).ge,
    fun _ _ => ⟨trivial, heven.lost⟩⟩

/-- Dropping entries and counting what was dropped. -/
theorem keeping_dropping
    {change : Caches CacheKey String Node Failure Document →
      Caches CacheKey String Node Failure Document × List Eviction × Except Failure α}
    (hevicted : ∀ c, Caches.Evicted c (change c).1 (change c).2.1)
    (hopen : ∀ c, Caches.Open c → (change c).1.Open) (s : Session) :
    Keeping (Session.Even s) (do
      let (caches, evictions, result) := change (← get).caches
      modify fun s => { s with caches := caches }.countEvictions evictions
      lift result) := by
  refine keeping_get_bind fun world t ht => ?_
  dsimp only
  rw [bind_apply]
  have hdropped := Session.even_evicted ht.counting (hevicted t.caches) (hopen _ ht.counting.caches)
  exact keeping_lift _ world _ (ht.trans hdropped)

theorem keeping_cleanup_even (force : Bool) (s : Session) :
    Keeping (Session.Even s) (cleanup force) := by
  have hshelved := shelved_even s
  unfold cleanup
  refine keeping_get.bind fun t => ?_
  split
  · exact keeping_pure _
  refine (keeping_check _).bind fun needed => ?_
  split
  · exact keeping_pure _
  refine Keeping.bind (hshelved.keeping_timed _ ?_) fun evicted => ?_
  · exact keeping_dropping (fun c => c.evicted_evictShare) (fun c hc => hc.evictShare _) s
  · refine Keeping.bind (hshelved.keeping_record ?_) fun _ => ?_
    · exact fun t => t.tracker.same_snapshot t.memory.1
    · refine (keeping_check _).bind fun used => (keeping_check _).bind fun threshold => ?_
      exact (External.keeping_emit hshelved.inward _).bind fun _ => keeping_pure _

theorem keeping_recordSize_even (s : Session) (name : String) (size maxSize : Value) :
    Keeping (Session.Even s) (track (·.recordSize name size maxSize)) :=
  keeping_track_beside (fun _ ht => ht.counting.tracker)
    (fun _ _ ht hu => ht.trans ((ht.counting.level.retracked hu).even ht.counting))
    (fun c => { c with size := size, maxSize := maxSize }) (fun _ => rfl) fun _ => ⟨rfl, rfl⟩

end Resolving

section Enumerating

variable (d : Document)

theorem balanced_readEntry {work : Work} (hidle : Idle work) (name : String) (raw : Value) :
    Balanced work (fun _ => True) (readEntry d name raw) := by
  unfold readEntry
  refine (balanced_lift fun _ _ => trivial).bind fun n _ => ?_
  cases n with
  | ref info target => exact balanced_resolveReference hidle d _ target
  | _ => exact balanced_pure trivial

/-- Enumerating a declared schema is balanced. -/
theorem balanced_schemaAt (name raw : Value) :
    Balanced Work.none (fun _ => True) (schemaAt d name raw) := by
  rw [schemaAt_eq]
  refine balanced_get_bind fun world s hs hvacant => ?_
  cases hfound : s.caches.schemas.get? (cacheKey d name.display) with
  | some n =>
      have hhit : Balanced Work.none (fun _ => True)
          (track (·.recordHit "schema") >>= fun _ => pure n) :=
        (balanced_aside fun r => keeping_recordHit_level _ r).bind fun _ _ => balanced_pure trivial
      exact hhit world s hs hvacant
  | none =>
      have habsent := BoundedCache.absent_of_miss (hs.caches .schema) hfound
      have hidle : Idle (Work.none.add .schema (cacheKey d name.display)) := by
        intro key
        constructor <;> rintro (hnone | ⟨hshelf, -⟩)
        · exact hnone
        · cases hshelf
        · exact hnone
        · cases hshelf
      have hread := balanced_readEntry d hidle name.display raw
      have hworked : Ensures _ world s (Balances Work.none (fun _ => True) s) :=
        ensures_worked hs hvacant habsent hread fun _ _ => id
      exact hworked

theorem balanced_enumerate (entries : List (Value × Value)) :
    Balanced Work.none (fun _ => True) (enumerate d entries) := by
  induction entries with
  | nil => exact balanced_pure trivial
  | cons entry rest ih =>
      obtain ⟨name, raw⟩ := entry
      rw [enumerate]
      split
      · refine (balanced_of_even fun s => ?_).bind fun _ _ => ih
        exact External.keeping_emit (shelved_even s).inward _
      · refine (balanced_schemaAt d name raw).bind fun n _ => ?_
        refine (balanced_of_even fun s => ?_).bind fun _ _ => ?_
        · refine (shelved_even s).keeping_modify fun t => ?_
          exact ⟨t.tracker.same_recordProcessed.1, t.tracker.same_recordProcessed.2, fun _ => rfl⟩
        · exact ih.bind fun others _ => balanced_pure trivial

theorem balanced_enumerateGroups (batches : List (List (Value × Value))) :
    Balanced Work.none (fun _ => True) (enumerateGroups d batches) := by
  induction batches with
  | nil => exact balanced_pure trivial
  | cons group rest ih =>
      have hgroup := balanced_enumerate d group
      cases rest with
      | nil =>
          rw [enumerateGroups]
          exact hgroup.bind fun batch _ => balanced_pure trivial
      | cons second others =>
          rw [enumerateGroups]
          · refine hgroup.bind fun batch _ => ?_
            refine (balanced_of_even (keeping_cleanup_even false)).bind fun _ _ => ?_
            exact ih.bind fun tables _ => balanced_pure trivial
          · exact List.cons_ne_nil _ _

theorem balanced_schemaBatches : Balanced Work.none (fun _ => True) (schemaBatches d) := by
  unfold schemaBatches
  refine (balanced_check fun _ _ => trivial).bind fun entries _ => ?_
  refine balanced_get_bind fun world s hs hvacant => ?_
  dsimp only
  split
  · exact balanced_pure trivial world s hs hvacant
  · split
    · exact (balanced_enumerateGroups d _).timed _ world s hs hvacant
    · exact ((balanced_enumerate d entries).bind fun _ _ => balanced_pure trivial) world s hs hvacant

theorem balanced_allSchemas : Balanced Work.none (fun _ => True) (allSchemas d) := by
  unfold allSchemas
  exact (balanced_schemaBatches d).bind fun tables _ => balanced_pure trivial

end Enumerating

namespace Engine

variable (subject : Subject)

theorem balanced_open : Balanced Work.none (fun _ => True) subject.open :=
  balanced_of_even fun s => (shelved_even s).keeping_open subject

theorem balanced_reference (asked : Asked) (visited : Value) :
    Balanced Work.none (fun _ => True) (Engine.reference subject asked visited) := by
  unfold Engine.reference
  refine Balanced.timed ?_ _
  refine (balanced_open subject).bind fun d _ => ?_
  refine (balanced_lift fun _ _ => trivial).bind fun target _ => ?_
  refine (balanced_check fun _ _ => trivial).bind fun path _ => ?_
  exact balanced_resolveReference idle_none d path target

theorem balanced_schema {n : Node} (hn : n.Known) :
    Balanced Work.none (fun _ => True) (Engine.schema subject n) := by
  unfold Engine.schema
  refine Balanced.timed ?_ _
  refine (balanced_open subject).bind fun d _ => ?_
  exact balanced_resolveNode idle_none d (hn.imp id fun h => h.isLeaf)

theorem balanced_rawSchema (raw : Value) :
    Balanced Work.none (fun _ => True) (rawSchema subject raw) := by
  unfold rawSchema
  refine Balanced.timed ?_ _
  refine (balanced_open subject).bind fun d _ => ?_
  have hread : ∀ n, Node.parse "" raw "#" = .ok n → n.Sourced := fun n hn => Node.sourced_parse hn
  exact (balanced_lift hread).bind fun n hn => balanced_resolveNode idle_none d (Or.inl hn)

theorem balanced_schemas : Balanced Work.none (fun _ => True) (Engine.schemas subject) := by
  unfold Engine.schemas
  exact ((balanced_open subject).bind fun d _ => balanced_allSchemas d).timed _

theorem balanced_batches : Balanced Work.none (fun _ => True) (Engine.batches subject) := by
  unfold Engine.batches
  refine (balanced_open subject).bind fun d _ => (balanced_schemaBatches d).bind fun _ _ => ?_
  exact balanced_pure trivial

/-- What is declared was read or is in normal form, so resolving all of it is balanced too. -/
theorem ensures_resolvedSchemas (world : World) {s : Session} (hs : s.Counting)
    (hnormal : s.InNormalForm) :
    Ensures (Engine.resolvedSchemas subject) world s (Balances Work.none (fun _ => True) s) := by
  have hdeclared : Ensures (Engine.schemas subject) world s (Balances Work.none Declared s) := by
    obtain ⟨hcounting, hvacant, hlost, hsuccess⟩ :=
      balanced_schemas subject world s hs (vacant_none s)
    obtain ⟨-, hyields⟩ := yields_schemas subject world s hnormal
    exact ⟨hcounting, hvacant, hlost, fun a ha => ⟨hyields a ha, (hsuccess a ha).2⟩⟩
  unfold Engine.resolvedSchemas
  refine Balances.bind hdeclared fun table htable => ?_
  induction table with
  | nil => exact balanced_pure trivial
  | cons entry rest ih =>
      obtain ⟨name, n⟩ := entry
      rw [List.mapM_cons, bind_assoc]
      refine (balanced_schema subject (htable _ List.mem_cons_self).1).bind fun m _ => ?_
      rw [pure_bind]
      refine (ih fun e he => htable e (List.mem_cons_of_mem _ he)).bind fun others _ => ?_
      exact balanced_pure trivial

end Engine

end SchemaGraph
