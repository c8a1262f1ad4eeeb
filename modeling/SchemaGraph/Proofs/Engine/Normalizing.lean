import SchemaGraph.Proofs.Counting
import SchemaGraph.Proofs.Engine.Aside
import SchemaGraph.Proofs.Engine.History
import SchemaGraph.Proofs.Resolve.Normalizing

/-!
# Answers in normal form

Whatever an engine lives through, its caches stay in normal form, and every schema that it gives as
resolved is in normal form.  So resolving such a schema again gives it back.
-/

namespace SchemaGraph

open Resolving Session

/-!
### What leaves the shelves alone

A property of sessions is shelved if it looks only at the three caches that are counted and at what
was counted for them.  Opening and loading documents, looking outside, changing the settings of memory
cleanup, the passing of time and the measuring of a whole run keep every such property.
-/

/-- A property of sessions that looks only at the shelves and at what was counted for them. -/
def Shelved (keeps : Session → Prop) : Prop := ∀ s t : Session, keeps s → s.Abreast t → keeps t

namespace Shelved

variable {keeps : Session → Prop} (h : Shelved keeps)
include h

theorem inward : Inward keeps := fun s _ _ _ _ hs => h s _ hs ⟨rfl, rfl, fun _ => rfl⟩

theorem aside : Aside keeps := fun s t hsame hs =>
  h s t hs ⟨congrArg Tracker.enabled hsame.tracker, congrArg Tracker.caches hsame.tracker,
    fun shelf => congrArg shelf.cache hsame.caches⟩

theorem keeping_modify {change : Session → Session} (hchange : ∀ s : Session, s.Abreast (change s)) :
    Keeping keeps (modify change : Resolving Unit) :=
  Resolving.keeping_modify fun s hs => h s _ hs (hchange s)

/-- A change of what is recorded beside the counters. -/
theorem keeping_record {record : Session → Tracker}
    (hrecord : ∀ s : Session, (record s).enabled = s.tracker.enabled ∧
      (record s).caches = s.tracker.caches) :
    Keeping keeps (modify fun s => { s with tracker := record s } : Resolving Unit) :=
  h.keeping_modify fun s => ⟨(hrecord s).1, (hrecord s).2, fun _ => rfl⟩

theorem keeping_timed {α : Type} {act : Resolving α} (operation : Operation)
    (hact : Keeping keeps act) : Keeping keeps (timed operation act) := by
  intro scene s hs
  rw [timed_scene_apply]
  have hkept := hact scene s hs
  rcases clocked_cases (act scene s).2 scene operation s.clock with heq | heq
  · rwa [heq]
  · rw [heq]
    have hsame := (act scene s).2.tracker.same_track operation s.clock (act scene s).2.clock
    exact h _ _ hkept ⟨hsame.1, hsame.2, fun _ => rfl⟩

theorem keeping_open (subject : Engine.Subject) : Keeping keeps subject.open :=
  h.aside.keeping_open (fun _ _ hs => h _ _ hs ⟨rfl, rfl, fun shelf => by cases shelf <;> rfl⟩) subject

theorem keeping_load (path : String) : Keeping keeps (Document.load path) :=
  h.aside.keeping_load path

theorem keeping_configureMemory (enabled threshold streaming : Value) :
    Keeping keeps (Engine.configureMemory enabled threshold streaming) :=
  h.aside.keeping_configureMemory enabled threshold streaming

theorem keeping_pass (seconds : Number) (memory : Number × Number) :
    Keeping keeps (modify fun s => { s.elapse seconds with memory := memory }) :=
  h.aside.keeping_pass seconds memory

end Shelved

/-! ### Normal form -/

namespace Session

variable {s t : Session}

/-- Caches that hold nothing more than others are in normal form if those are. -/
theorem InNormalForm.of_less (h : s.InNormalForm) (hless : s.caches.Less t.caches) :
    t.InNormalForm where
  references := fun key n hin => h.references key n (hless.references.entries hin)
  compositions := fun key n hin => h.compositions key n (hless.compositions.entries hin)
  schemas := fun key n hin => h.schemas key n (hless.schemas.entries hin)

theorem shelved_inNormalForm : Shelved InNormalForm := by
  intro s t h hsame
  refine ⟨?_, ?_, ?_⟩
  · rw [show t.caches.references = s.caches.references from hsame.shelves .reference]
    exact h.references
  · rw [show t.caches.compositions = s.caches.compositions from hsame.shelves .composition]
    exact h.compositions
  · rw [show t.caches.schemas = s.caches.schemas from hsame.shelves .schema]
    exact h.schemas

theorem inNormalForm_start (config : Config) (memory : Number × Number) (nextId : Nat) :
    (Session.start config memory nextId).InNormalForm :=
  ⟨fun _ _ hin => (nomatch hin), fun _ _ hin => (nomatch hin), fun _ _ hin => (nomatch hin)⟩

end Session

namespace Caches

variable {κ ι ν φ δ : Type}

theorem evictShare_less (c : Caches κ ι ν φ δ) (fraction : Value) :
    c.Less (c.evictShare fraction).1 := by
  have hself : c.Less c := ⟨.refl _, .refl _, .refl _, .refl _, .refl _⟩
  obtain ⟨schemas, m, hschemas, hlessSchemas⟩ := c.schemas.evictFraction_cases fraction
  obtain ⟨compositions, n, hcompositions, hlessCompositions⟩ :=
    c.compositions.evictFraction_cases fraction
  obtain ⟨references, k, hreferences, hlessReferences⟩ := c.references.evictFraction_cases fraction
  unfold evictShare
  rw [hschemas, hcompositions, hreferences]
  cases m with
  | error f => exact hself
  | ok m =>
      cases n with
      | error f => exact hself
      | ok n =>
          cases k with
          | error f => exact hself
          | ok k =>
              exact ⟨⟨hlessSchemas, id⟩, ⟨hlessCompositions, id⟩, ⟨hlessReferences, id⟩, .refl _,
                .refl _⟩

end Caches

/-- A change that leaves nothing more in the caches keeps them in normal form. -/
theorem keeping_less {change : Session → Session}
    (h : ∀ s : Session, s.caches.Less (change s).caches) :
    Keeping Session.InNormalForm (modify change) :=
  keeping_modify fun s hs => hs.of_less (h s)

section Enumerating

variable (d : Document)

theorem yields_readEntry (name : String) (raw : Value) :
    Yields Session.InNormalForm (fun n => n.Known ∧ n.isRef = false) (readEntry d name raw) := by
  unfold readEntry
  refine (yields_lift fun n hn => Node.sourced_parse hn).bind fun n hn => ?_
  cases n with
  | ref info target =>
      exact (yields_resolveReference d _ target).mono fun m hm => ⟨Or.inr hm, hm.isRef⟩
  | _ => exact yields_pure ⟨Or.inl hn, rfl⟩

/-- A declared schema was read or is in normal form, and is no reference. -/
theorem yields_schemaAt (name raw : Value) :
    Yields Session.InNormalForm (fun n => n.Known ∧ n.isRef = false) (schemaAt d name raw) := by
  have hunrecorded := Session.unrecorded_inNormalForm
  rw [schemaAt_eq]
  refine yields_get.bind fun s hs => ?_
  cases hfound : s.caches.schemas.get? (cacheKey d name.display) with
  | some n =>
      refine (hunrecorded.keeping_track ⟨_, _, fun _ => rfl⟩).bind_yields fun _ => yields_pure ?_
      exact hs.schemas _ n (BoundedCache.mem_of_get hfound)
  | none =>
      refine (hunrecorded.keeping_track ⟨_, _, fun _ => rfl⟩).bind_yields fun _ => ?_
      refine (yields_readEntry d name.display raw).bind fun n hn => ?_
      refine Keeping.bind_yields ?_ fun _ => yields_pure hn
      exact hunrecorded.keeping_keepSchema fun s hs => hs.keptSchema _ hn.1 hn.2

/-- Tables of declared schemas. -/
def Declared (table : Table Node) : Prop := ∀ entry ∈ table, entry.2.Known ∧ entry.2.isRef = false

theorem yields_enumerate (entries : List (Value × Value)) :
    Yields Session.InNormalForm Declared (enumerate d entries) := by
  have hunrecorded := Session.unrecorded_inNormalForm
  induction entries with
  | nil => exact yields_pure fun _ hin => absurd hin (by simp)
  | cons entry rest ih =>
      obtain ⟨name, raw⟩ := entry
      rw [enumerate]
      split
      · exact (External.keeping_emit hunrecorded.inward _).bind_yields fun _ => ih
      · refine (yields_schemaAt d name raw).bind fun n hn => ?_
        refine Keeping.bind_yields (shelved_inNormalForm.keeping_modify ?_) fun _ => ?_
        · exact fun s => ⟨s.tracker.same_recordProcessed.1, s.tracker.same_recordProcessed.2,
            fun _ => rfl⟩
        refine ih.bind fun others hothers => yields_pure fun e he => ?_
        rcases List.mem_cons.mp he with rfl | hin
        · exact hn
        · exact hothers e hin

theorem keeping_cleanup_normal (force : Bool) : Keeping Session.InNormalForm (cleanup force) :=
  Session.unrecorded_inNormalForm.keeping_cleanup
    (fun _ _ _ => External.keeping_note Session.unrecorded_inNormalForm.inward.aloof _)
    (fun s hs => hs.of_less (s.caches.evictShare_less cleanupShare)) force

theorem yields_enumerateGroups (batches : List (List (Value × Value))) :
    Yields Session.InNormalForm (fun tables => ∀ table ∈ tables, Declared table)
      (enumerateGroups d batches) := by
  induction batches with
  | nil => exact yields_pure fun _ hin => absurd hin (by simp)
  | cons group rest ih =>
      have hgroup := yields_enumerate d group
      cases rest with
      | nil =>
          rw [enumerateGroups]
          refine hgroup.bind fun batch hbatch => yields_pure fun table htable => ?_
          rw [List.mem_singleton.mp htable]
          exact hbatch
      | cons second others =>
          rw [enumerateGroups]
          · refine hgroup.bind fun batch hbatch => ?_
            refine (keeping_cleanup_normal false).bind_yields fun _ => ?_
            refine ih.bind fun tables htables => yields_pure fun table htable => ?_
            rcases List.mem_cons.mp htable with rfl | hin
            · exact hbatch
            · exact htables table hin
          · exact List.cons_ne_nil _ _

theorem yields_schemaBatches :
    Yields Session.InNormalForm (fun tables => ∀ table ∈ tables, Declared table)
      (schemaBatches d) := by
  unfold schemaBatches
  refine (keeping_check _).bind_yields fun entries => keeping_get.bind_yields fun s => ?_
  dsimp only
  split
  · exact yields_pure fun _ hin => absurd hin (by simp)
  · split
    · exact Session.unrecorded_inNormalForm.yields_timed _ (yields_enumerateGroups d _)
    · refine (yields_enumerate d entries).bind fun batch hbatch => yields_pure fun table htable => ?_
      rw [List.mem_singleton.mp htable]
      exact hbatch

theorem yields_allSchemas : Yields Session.InNormalForm Declared (allSchemas d) := by
  unfold allSchemas
  refine (yields_schemaBatches d).bind fun tables htables => yields_pure fun entry hentry => ?_
  obtain ⟨table, htable, hin⟩ := List.mem_flatten.mp hentry
  exact htables table htable entry hin

end Enumerating

namespace Engine

/-- Results that are in normal form where there are any. -/
def ResolvedResults (results : List (Value × Except Failure Node)) : Prop :=
  ∀ entry ∈ results, ∀ n, entry.2 = .ok n → n.Normal

/-- Whether what is given as resolved is in normal form, and what is given as declared was read or is
in normal form, and is no reference. -/
def Answer.InNormalForm : Answer → Prop
  | .done => True
  | .schema n => n.Normal
  | .results table => ResolvedResults table
  | .registry table => Declared table

/-- Whether a schema that is handed to the engine is regular, as those are that were read and those
that it gave away. -/
def Request.IsRegular : Request → Prop
  | .node _ n => n.Regular
  | _ => True

section Resolution

variable (subject : Subject)

theorem yields_reference (asked : Asked) (visited : Value) :
    Yields Session.InNormalForm Node.Normal (Engine.reference subject asked visited) := by
  unfold Engine.reference
  refine Session.unrecorded_inNormalForm.yields_timed _ ?_
  refine (shelved_inNormalForm.keeping_open subject).bind_yields fun d => ?_
  refine (keeping_lift _).bind_yields fun target => (keeping_check _).bind_yields fun path => ?_
  exact yields_resolveReference d path target

theorem yields_schema {n : Node} (hn : n.Regular) :
    Yields Session.InNormalForm Node.Normal (Engine.schema subject n) := by
  unfold Engine.schema
  refine Session.unrecorded_inNormalForm.yields_timed _ ?_
  exact (shelved_inNormalForm.keeping_open subject).bind_yields fun d => yields_resolveNode d hn

theorem yields_rawSchema (raw : Value) :
    Yields Session.InNormalForm Node.Normal (rawSchema subject raw) := by
  unfold rawSchema
  refine Session.unrecorded_inNormalForm.yields_timed _ ?_
  refine (shelved_inNormalForm.keeping_open subject).bind_yields fun d => ?_
  refine (yields_lift fun n hn => (Node.sourced_parse hn).regular).bind fun n hn => ?_
  exact yields_resolveNode d hn

theorem yields_schemas : Yields Session.InNormalForm Declared (Engine.schemas subject) := by
  unfold Engine.schemas
  refine Session.unrecorded_inNormalForm.yields_timed _ ?_
  exact (shelved_inNormalForm.keeping_open subject).bind_yields fun d => yields_allSchemas d

theorem resolved_ofList {results : List (Value × Except Failure Node)}
    (h : ResolvedResults results) : ResolvedResults (Table.ofList results) := by
  have hstart : ∀ entry ∈ ([] : Table (Except Failure Node)),
      True ∧ ∀ n, entry.2 = .ok n → n.Normal := fun _ hin => nomatch hin
  have hwritten := Table.forall_putAll (P := fun _ => True)
    (Q := fun result : Except Failure Node => ∀ n, result = .ok n → n.Normal) hstart
    fun entry hentry => ⟨trivial, h entry hentry⟩
  exact fun entry hentry => (hwritten entry hentry).2

theorem yields_references (asked : List Asked) :
    Yields Session.InNormalForm ResolvedResults (Engine.references subject asked) := by
  have hinward := Session.unrecorded_inNormalForm.inward
  unfold Engine.references
  refine (shelved_inNormalForm.keeping_open subject).bind_yields fun d => ?_
  refine (keeping_lift _).bind_yields fun targets => (yields_gather hinward.turned fun target _ =>
    yields_resolveReference d [] target).bind ?_
  refine fun results hresults => (keeping_warnings (fun _ => External.keeping_emit hinward _)
    results).bind_yields fun _ => ?_
  split
  · exact yields_pure (resolved_ofList hresults)
  · exact yields_throw _

/-- Resolving schemas that were read or are in normal form, one after the other. -/
theorem yields_eachSchema {declared : Table Node} (h : ∀ entry ∈ declared, entry.2.Known) :
    Yields Session.InNormalForm (fun table => ∀ entry ∈ table, entry.2.Normal)
      (declared.mapM fun (name, n) => do return (name, ← Engine.schema subject n)) := by
  induction declared with
  | nil => exact yields_pure fun _ hin => absurd hin (by simp)
  | cons entry rest ih =>
      obtain ⟨name, n⟩ := entry
      obtain ⟨hentry, hrest⟩ := List.forall_mem_cons.mp h
      rw [List.mapM_cons, bind_assoc]
      refine (yields_schema subject hentry.regular).bind fun m hm => ?_
      rw [pure_bind]
      refine (ih hrest).bind fun others hothers => yields_pure fun e he => ?_
      rcases List.mem_cons.mp he with rfl | hin
      · exact hm
      · exact hothers e hin

theorem yields_resolvedSchemas :
    Yields Session.InNormalForm (fun table => ∀ entry ∈ table, entry.2.Normal)
      (Engine.resolvedSchemas subject) :=
  (yields_schemas subject).bind fun _ hdeclared =>
    yields_eachSchema subject fun entry hentry => (hdeclared entry hentry).1

end Resolution

section Requests

/-- An operation that gives nothing away. -/
theorem yields_done {α : Type} {act : Resolving α} (h : Keeping Session.InNormalForm act) :
    Yields Session.InNormalForm Answer.InNormalForm (act >>= fun _ => pure .done) :=
  h.bind_yields fun _ => yields_pure trivial

theorem keeping_configureCaching_normal (enabled maxSize : Value) :
    Keeping Session.InNormalForm (configureCaching enabled maxSize) :=
  Session.unrecorded_inNormalForm.keeping_configureCaching fun s hs =>
    hs.of_less (s.caches.configure_less enabled maxSize)

/-- Every request keeps the caches in normal form and has an answer in normal form. -/
theorem yields_request {r : Request} (hr : r.IsRegular) :
    Yields Session.InNormalForm Answer.InNormalForm r.run := by
  have hunrecorded := Session.unrecorded_inNormalForm
  have hsize : ∀ name size maxSize, Keeping Session.InNormalForm
      (track (·.recordSize name size maxSize)) :=
    fun _ _ _ => hunrecorded.keeping_track ⟨_, _, fun _ => rfl⟩
  cases r with
  | reference subject asked visited =>
      exact (yields_reference subject asked visited).bind fun n hn => yields_pure hn
  | schema subject raw => exact (yields_rawSchema subject raw).bind fun n hn => yields_pure hn
  | references subject asked =>
      exact (yields_references subject asked).bind fun table htable => yields_pure htable
  | schemas subject =>
      exact (yields_schemas subject).bind fun table htable => yields_pure htable
  | configureCaching enabled maxSize =>
      exact yields_done (keeping_configureCaching_normal enabled maxSize)
  | configureMemory enabled threshold streaming =>
      exact yields_done (shelved_inNormalForm.keeping_configureMemory enabled threshold streaming)
  | configureMetrics enabled =>
      exact yields_done (keeping_modify fun s hs => ⟨hs.references, hs.compositions, hs.schemas⟩)
  | cleanup force => exact yields_done (keeping_cleanup_normal force)
  | clearCaches => exact yields_done (keeping_less fun s => s.caches.clearAll_less)
  | pass seconds resident virtual =>
      exact yields_done (shelved_inNormalForm.keeping_pass seconds _)
  | node subject n => exact (yields_schema subject hr).bind fun m hm => yields_pure hm
  | resolvedSchemas subject =>
      refine (yields_resolvedSchemas subject).bind fun table htable => yields_pure ?_
      intro entry hentry n hn
      obtain ⟨given, hgiven, rfl⟩ := List.mem_map.mp hentry
      rw [← Except.ok.inj hn]
      exact htable given hgiven
  | batches subject =>
      refine yields_done (Keeping.bind (shelved_inNormalForm.keeping_open subject) fun d => ?_)
      exact (yields_schemaBatches d).keeping.bind fun tables => keeping_pure _
  | load path => exact yields_done (shelved_inNormalForm.keeping_load path)
  | outsideDocument location => exact yields_done (External.keeping_load hunrecorded.inward location)
  | outsideSchema reference base depth =>
      exact yields_done (External.keeping_resolve hunrecorded.inward reference base depth)
  | startTracking =>
      refine yields_done (shelved_inNormalForm.keeping_record ?_)
      exact fun s => s.tracker.same_startTracking s.clock s.memory.1
  | endTracking =>
      refine yields_done (Keeping.bind (keeping_refreshSizes hsize) fun _ => ?_)
      refine shelved_inNormalForm.keeping_record ?_
      exact fun s => s.tracker.same_endTracking s.clock s.memory.1
  | report =>
      refine yields_done (Keeping.bind (keeping_refreshSizes hsize) fun _ => ?_)
      exact keeping_get.bind fun s => keeping_check _
  | resetProcessed =>
      exact yields_done (shelved_inNormalForm.keeping_modify fun s => ⟨rfl, rfl, fun _ => rfl⟩)

end Requests

/-- Throughout every life of an engine, the caches and all that is given as resolved are in normal
form, no declared schema is a reference, and resolving a schema in normal form gives it back. -/
theorem normal_throughout (config : Config) (resident virtual : UInt64) (nextId : Nat)
    {life : List (World × Request)} (hlife : ∀ step ∈ life, step.2.IsRegular) :
    let s := lived life (new config resident virtual nextId)
    s.InNormalForm ∧
      (∀ (world : World) (r : Request), r.IsRegular → ∀ answer, (r.run world s).1 = .ok answer →
        answer.InNormalForm) ∧
      ∀ (world : World) (subject : Subject) n, n.Normal →
        (Engine.schema subject n world s).1 = (subject.open world s).1.map fun _ => n := by
  intro s
  have hs : s.InNormalForm :=
    keeps_lived (fun step hstep => (yields_request (hlife step hstep)).keeping)
      (Session.inNormalForm_start config _ nextId)
  refine ⟨hs, fun world r hr answer hanswer => ?_, fun world subject n hn => ?_⟩
  · exact (yields_request hr world s hs).2 answer hanswer
  · unfold Engine.schema
    rw [timed_apply, bind_apply]
    rcases subject.open world s with ⟨result, t⟩
    cases result with
    | ok d => exact congrArg Prod.fst (congrFun (congrFun (resolveNode_normal d hn) world.alone) t)
    | error failure => rfl

theorem normal_throughout_alias :
    let s := lived [(emptyWorld, askAlias),
      (emptyWorld, .node aliasSubject (.ref default (.str "#/components/schemas/Text")))]
      (new {} 0 0 1)
    s.InNormalForm ∧
      (∀ (world : World) (r : Request), r.IsRegular → ∀ answer, (r.run world s).1 = .ok answer →
        answer.InNormalForm) ∧
      ∀ (world : World) (subject : Subject) n, n.Normal →
        (Engine.schema subject n world s).1 = (subject.open world s).1.map fun _ => n := by
  refine normal_throughout {} 0 0 1 fun step hstep => ?_
  rcases hstep with _ | ⟨_, _ | ⟨_, hstep⟩⟩
  · trivial
  · exact .ref _ _
  · cases hstep

end Engine

end SchemaGraph
