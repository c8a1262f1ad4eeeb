import Mathlib.Logic.Function.Basic
import SchemaGraph.Engine
import SchemaGraph.Proofs.Gathering
import SchemaGraph.Proofs.Resolve.Enumerating

/-!
# Opening subjects

An engine may make a new document for a mapping: the mapping was not remembered, or is no longer.
The new document has a number of its own, so nothing that is remembered belongs to it, and it is
watched if the mapping is.  What a document gives does not depend on its number.

Whatever is resolved in a document that is not watched, and wherever its references lead, everything
that is remembered for the documents that are watched stays right: what is written goes under the
number of the document itself.
-/

namespace SchemaGraph

open Resolving

theorem BoundedCache.set_ok {κ α : Type} [BEq κ] [LawfulBEq κ] {c : BoundedCache κ α}
    (h : c.IsBounded) (key : κ) (item : α) : ∃ count, (c.set key item).2 = .ok count := by
  obtain ⟨entries, result, heq, -, -, hok⟩ := c.set_cases key item
  have hresult := hok h
  rw [heq]
  cases result with
  | ok count => exact ⟨count, rfl⟩
  | error f => cases hresult

/-- A property of sessions that is kept by all that the resolving of schemas of a kind in a document is
made of. -/
structure Resolved (given : Node → Prop) (d : Document) (keeps : Session → Prop) : Prop extends
    Enumerated d keeps where
  turned : ∀ s : Session, keeps s → keeps s.turned
  settling : ∀ n, given n → Keeping keeps (resolveNode d n)

/-- A property of operations that all have that are done in the document that a subject opens to, if
they keep what holds once the subject is open. -/
structure Opens (given : Node → Prop) (P : (α : Type) → Resolving α → Prop) (subject : Engine.Subject) :
    Prop extends Sequential P where
  timed : ∀ {α : Type} {act : Resolving α} (operation : Operation), P α act → P α (timed operation act)
  opening : ∀ {α : Type} {next : Document → Resolving α},
    (∀ d within, Resolved given d within → Keeping within (next d)) → P α (subject.open >>= next)

theorem keeping_warnings {keeps : Session → Prop}
    (hwarn : ∀ warning, Keeping keeps (warn warning))
    (results : List (Value × Except Failure Node)) :
    Keeping keeps (results.forM fun (target, result) =>
      match result with
      | .ok _ => pure ()
      | .error failure => warn (.resolveFailed target failure)) := by
  induction results with
  | nil => exact keeping_pure _
  | cons entry rest ih =>
      obtain ⟨target, result⟩ := entry
      rw [List.forM]
      refine Keeping.bind ?_ fun _ => ih
      cases result with
      | ok n => exact keeping_pure _
      | error failure => exact hwarn _

namespace Opens

open Engine

variable {given : Node → Prop} {P : (α : Type) → Resolving α → Prop} {subject : Subject}
  (h : Opens given P subject)
include h

theorem reference (asked : Asked) (visited : Value) :
    P _ (Engine.reference subject asked visited) := by
  unfold Engine.reference
  refine h.timed _ (h.opening fun d within hd => (keeping_lift _).bind fun target => ?_)
  exact (keeping_check _).bind fun path => hd.following path target

theorem schema {n : Node} (hn : given n) : P _ (Engine.schema subject n) := by
  unfold Engine.schema
  exact h.timed _ (h.opening fun d within hd => hd.settling n hn)

theorem rawSchema {raw : Value} (hgiven : ∀ n, Node.parse "" raw "#" = .ok n → given n) :
    P _ (Engine.rawSchema subject raw) := by
  unfold Engine.rawSchema
  refine h.timed _ (h.opening fun d within hd => ?_)
  cases hparse : Node.parse "" raw "#" with
  | error failure => exact keeping_throw failure
  | ok n => exact hd.settling n (hgiven n hparse)

theorem schemas : P _ (Engine.schemas subject) := by
  unfold Engine.schemas
  exact h.timed _ (h.opening fun d within hd => hd.keeping_allSchemas)

theorem batches : P _ (Engine.batches subject) := by
  unfold Engine.batches
  exact h.opening fun d within hd => hd.keeping_schemaBatches.bind fun tables => keeping_pure _

theorem references (asked : List Asked) : P _ (Engine.references subject asked) := by
  unfold Engine.references
  refine h.opening fun d within hd => (keeping_lift _).bind fun targets => ?_
  refine (keeping_gather hd.turned fun target _ => hd.following [] target).bind fun results => ?_
  refine (keeping_warnings hd.warn results).bind fun _ => ?_
  split
  · exact keeping_pure _
  · exact keeping_fault _

theorem eachSchema {declared : List (Value × Node)}
    (hdeclared : ∀ entry ∈ declared, given entry.2) :
    P _ (declared.mapM fun (name, n) => do
      return (name, ← Engine.schema subject n)) := by
  induction declared with
  | nil => exact h.pure _
  | cons entry rest ih =>
      obtain ⟨hentry, hrest⟩ := List.forall_mem_cons.mp hdeclared
      rw [List.mapM_cons]
      refine h.bind ?_ fun _ => h.bind (ih hrest) fun _ => h.pure _
      exact h.bind (h.schema hentry) fun _ => h.pure _

end Opens

/-- Whether one watch goes on from another: it may watch more documents, those made later. -/
structure Watch.Continues (watch later : Watch) : Prop where
  mappings : later.mappings = watch.mappings
  given : later.given = watch.given
  documents : ∀ i < watch.given, later.documents i = watch.documents i

namespace Watch

variable {watch later : Watch}

theorem continues_refl (watch : Watch) : watch.Continues watch := ⟨rfl, rfl, fun _ _ => rfl⟩

/-- The watch after a document was made for the mapping known by a name. -/
def adopt (watch : Watch) (name : String) (d : Document) : Watch :=
  { watch with
    documents := Function.update watch.documents d.id ((watch.mappings name).map fun _ => d) }

theorem adopt_of_ne {name : String} {d : Document} {i : Nat} (h : i ≠ d.id) :
    (watch.adopt name d).documents i = watch.documents i :=
  Function.update_of_ne h _ _

theorem Continues.adopt (h : watch.Continues later) {name : String} {d : Document}
    (hid : watch.given ≤ d.id) : watch.Continues (later.adopt name d) where
  mappings := h.mappings
  given := h.given
  documents := fun i hi => by
    rw [adopt_of_ne (by omega)]
    exact h.documents i hi

theorem Keeps.adopt {nextId : Nat} {key : CacheKey} {right : Document → String → Prop}
    (h : watch.Keeps nextId key right) {name : String} {d : Document} (hid : nextId ≤ d.id) :
    (watch.adopt name d).Keeps (d.id + 1) key right := by
  have hless := h.1
  have hne : key.document ≠ d.id := by omega
  refine ⟨by omega, fun d' hd' => h.2 d' ?_⟩
  rwa [adopt_of_ne hne] at hd'

theorem Adopts.adopt {name other : String} {d d' : Document} (h : watch.Adopts other d')
    (hne : d'.id ≠ d.id) : (watch.adopt name d).Adopts other d' := by
  unfold Watch.Adopts at *
  rwa [adopt_of_ne hne]

/-- The document made for a mapping may be kept for it. -/
theorem adopts_adopt {name : String} {raw : Value} {id : Nat}
    (h : ∀ raw', watch.mappings name = some raw' → raw' = raw) :
    (watch.adopt name ⟨raw, "", id⟩).Adopts name ⟨raw, "", id⟩ := by
  unfold Watch.Adopts Watch.adopt
  dsimp only
  rw [Function.update_self]
  cases hmapping : watch.mappings name with
  | none => rfl
  | some raw' => exact ⟨by rw [h raw' hmapping], rfl⟩

end Watch

/-! ### Documents that are not watched -/

namespace Session

variable {watch : Watch} {d : Document} {s : Session}

theorem RemembersOnly.keptFailure {may : Allowance} (h : s.RemembersOnly may watch) {key : CacheKey}
    {failure : Failure} (hkeep : watch.Keeps s.nextId key fun d x => may.failure d x failure) :
    (s.keptFailure key failure).RemembersOnly may watch := by
  unfold Session.keptFailure Caches.rememberFailure
  split
  · refine ⟨h.given, h.references, h.compositions, h.schemas, ?_, h.documents⟩
    intro key' failure' hin
    rcases mem_set hin with hnew | hold
    · obtain ⟨rfl, rfl⟩ := Prod.mk.inj hnew
      exact hkeep
    · exact h.failures key' failure' hold
  · exact h

theorem Sound.keptFailure (h : s.Sound watch) {key : CacheKey} {failure : Failure}
    (hkeep : watch.Keeps s.nextId key fun _ _ => False) :
    (s.keptFailure key failure).Sound watch := by
  refine ⟨h.toRemembersOnly.keptFailure hkeep, ?_⟩
  unfold Session.keptFailure Caches.rememberFailure
  split
  · exact ⟨h.sane.ready, h.sane.schemas, h.sane.compositions, h.sane.references, h.sane.documents⟩
  · exact h.sane

theorem unrecorded_ready : Unrecorded (Session.Ready watch d) where
  inward := fun _ _ _ _ _ hs =>
    hs.freed (freed_of_caches hs.sound.1.sane rfl rfl rfl rfl hs.sound.1.sane.ready)
  records := fun hu hs => hs.retracked hu

/-- Resolving in a document that is not watched keeps all that is remembered right. -/
theorem steady_ready (hwatch : watch.documents d.id = none) : Steady d (Session.Ready watch d) where
  toUnrecorded := unrecorded_ready
  reference := fun _ _ hs =>
    ⟨⟨hs.sound.1.keptReference (Watch.keeps_of_none hwatch hs.sound.2), hs.sound.2⟩,
      hs.measured.of_memory rfl rfl⟩
  composition := fun _ _ hs =>
    ⟨⟨hs.sound.1.keptComposition (Watch.keeps_of_none hwatch hs.sound.2), hs.sound.2⟩,
      hs.measured.of_memory rfl rfl⟩
  schema := fun _ _ hs =>
    ⟨⟨hs.sound.1.keptSchema (Watch.keeps_of_none hwatch hs.sound.2), hs.sound.2⟩,
      hs.measured.of_memory rfl rfl⟩
  failure := fun _ _ hs =>
    ⟨⟨hs.sound.1.keptFailure (Watch.keeps_of_none hwatch hs.sound.2), hs.sound.2⟩,
      hs.measured.of_memory rfl rfl⟩

/-- So does enumerating one. -/
theorem resolved_ready (hwatch : watch.documents d.id = none) :
    Resolved (fun _ => True) d (Session.Ready watch d) where
  toUntracked := unrecorded_ready.toUntracked
  warn := fun _ => External.keeping_emit unrecorded_ready.inward _
  processed := fun {s} hs => by
    refine hs.freed (freed_of_caches hs.sound.1.sane rfl rfl rfl rfl ?_)
    have hready := hs.sound.1.sane.ready
    unfold Tracker.recordProcessed
    split <;> exact hready
  dropped := fun hs => hs.freed (freed_refl hs.sound.1.sane).dropped
  following := (steady_ready hwatch).keeping_resolveReference
  schema := fun name n hs => (steady_ready hwatch).schema name n hs
  turned := unrecorded_ready.inward.turned
  settling := fun n _ => (steady_ready hwatch).keeping_resolveNode n

end Session

/-! ### Opening -/

/-- A session in which all that is remembered is right, and in which memory can be freed. -/
def Session.Fit (watch : Watch) (s : Session) : Prop :=
  ∃ later, watch.Continues later ∧ s.Sound later ∧ s.Measured

namespace Session

variable {watch later : Watch} {s : Session} {d : Document}

theorem Ready.fit (h : s.Ready later d) (hlater : watch.Continues later) : s.Fit watch :=
  ⟨later, hlater, h.sound.1, h.measured⟩

theorem Fit.retracked (hs : s.Fit watch) {u : Tracker} (hu : s.tracker.Ready → u.Ready) :
    (s.retracked u).Fit watch := by
  obtain ⟨later, hlater, hsound, hmeasured⟩ := hs
  exact ⟨later, hlater, hsound.retracked (hu hsound.sane.ready), hmeasured.of_memory rfl rfl⟩

/-- The session after a document was made for a mapping. -/
def adopted (s : Session) (name : String) (raw : Value) : Session :=
  { s with
    nextId := s.nextId + 1
    caches := { s.caches with
      documents := (s.caches.documents.set name ⟨raw, "", s.nextId⟩).1 } }

/-- A document that is made for a mapping gets a number under which nothing is remembered. -/
theorem RemembersOnly.adopted {may : Allowance} (h : s.RemembersOnly may later) {name : String}
    {raw : Value} (hname : ∀ raw', later.mappings name = some raw' → raw' = raw) :
    (s.adopted name raw).RemembersOnly may (later.adopt name ⟨raw, "", s.nextId⟩) where
  given := h.given.trans (Nat.le_succ _)
  references := fun key n hin => (h.references key n hin).adopt (le_refl _)
  compositions := fun key n hin => (h.compositions key n hin).adopt (le_refl _)
  schemas := fun key n hin => (h.schemas key n hin).adopt (le_refl _)
  failures := fun key failure hin => (h.failures key failure hin).adopt (le_refl _)
  documents := by
    intro other d hin
    rcases mem_set hin with hnew | hold
    · obtain ⟨rfl, rfl⟩ := Prod.mk.inj hnew
      exact ⟨Nat.lt_succ_self _, Watch.adopts_adopt hname⟩
    · obtain ⟨hid, hadopts⟩ := h.documents other d hold
      exact ⟨Nat.lt_succ_of_lt hid, hadopts.adopt (Nat.ne_of_lt hid)⟩

theorem Sound.adopted (h : s.Sound later) {name : String} {raw : Value}
    (hname : ∀ raw', later.mappings name = some raw' → raw' = raw) :
    (s.adopted name raw).Sound (later.adopt name ⟨raw, "", s.nextId⟩) :=
  ⟨h.toRemembersOnly.adopted hname, ⟨h.sane.ready, h.sane.schemas, h.sane.compositions,
    h.sane.references, isBounded_set h.sane.documents _⟩⟩

end Session

/-- A document that refers to itself only does so whatever its number is. -/
theorem Document.Plain.renumbered {d : Document} (h : d.Plain) (id : Nat) :
    ({ d with id := id } : Document).Plain :=
  ⟨h.json, h.isLocal⟩

/-- What a document declares does not depend on its number. -/
theorem Document.allDeclared_renumbered (d : Document) (id : Nat) :
    ({ d with id := id } : Document).allDeclared = d.allDeclared := by
  have henumerated : ({ d with id := id } : Document).enumerated = d.enumerated := by
    funext entries
    induction entries with
    | nil => rfl
    | cons entry rest ih =>
        rw [Document.enumerated, Document.enumerated, ih]
        rfl
  unfold Document.allDeclared
  rw [henumerated]
  rfl

namespace Engine

/-- The document that a subject is, but for the number of one that has yet to be made. -/
def Subject.content : Subject → Document
  | .document d => d
  | .mapping _ raw => ⟨raw, "", 0⟩

/-- Whether a subject is watched. -/
def Subject.Watched (watch : Watch) : Subject → Prop
  | .document d => d.id < watch.given ∧ watch.documents d.id = some d
  | .mapping name raw => watch.mappings name = some raw

/-- Whether a subject is known and not watched. -/
def Subject.Unwatched (watch : Watch) : Subject → Prop
  | .document d => d.id < watch.given ∧ watch.documents d.id = none
  | .mapping name _ => watch.mappings name = none

section Opening

variable {watch : Watch} {s : Session} {world : World}

/-- Opening a mapping gives the document that is remembered for it, or else makes one, which is given if
it could be written. -/
theorem ensures_open_mapping_cases (name : String) (raw : Value) (scene : Scene) (s : Session) :
    Ensures (Subject.mapping name raw).open scene s fun result t =>
      (∃ d, s.caches.documents.get? name = some d ∧ result = .ok d ∧ t = s) ∨
      (s.caches.documents.get? name = none ∧ t = s.adopted name raw ∧
        result = (orFail (s.caches.documents.set name ⟨raw, "", s.nextId⟩).2).map
          fun _ => ⟨raw, "", s.nextId⟩) := by
  unfold Subject.open
  rw [ensures_get_bind]
  cases hfound : s.caches.documents.get? name with
  | some d => exact Or.inl ⟨d, rfl, rfl, rfl⟩
  | none =>
      have hcreate : Ensures (Document.create raw "") scene s fun result t =>
          result = .ok ⟨raw, "", s.nextId⟩ ∧ t = { s with nextId := s.nextId + 1 } := ⟨rfl, rfl⟩
      apply hcreate.bind_ok
      intro t ht
      subst ht
      rw [ensures_get_bind]
      dsimp only
      rw [ensures_modify_bind]
      cases (s.caches.documents.set name ⟨raw, "", s.nextId⟩).2 with
      | ok count => exact Or.inr ⟨rfl, rfl, rfl⟩
      | error fault => exact Or.inr ⟨rfl, rfl, rfl⟩

variable (world) in
/-- A mapping becomes a document that may be kept for it. -/
theorem ensures_open_mapping {name : String} {raw : Value} (hs : s.Fit watch)
    (hname : ∀ raw', watch.mappings name = some raw' → raw' = raw) :
    Ensures (Subject.mapping name raw).open world s fun result t =>
      ∃ later d, result = .ok d ∧ watch.Continues later ∧ later.Adopts name d ∧
        t.Ready later d := by
  obtain ⟨later, hlater, hsound, hmeasured⟩ := hs
  apply (ensures_open_mapping_cases name raw world s).mono
  rintro result t (⟨d, hfound, hresult, ht⟩ | ⟨-, ht, hresult⟩)
  · subst ht
    obtain ⟨hid, hadopts⟩ := hsound.documents name d (BoundedCache.mem_of_get hfound)
    exact ⟨later, d, hresult, hlater, hadopts, ⟨hsound, hid⟩, hmeasured⟩
  · subst ht
    have hmapping : ∀ raw', later.mappings name = some raw' → raw' = raw := by
      rw [hlater.mappings]
      exact hname
    obtain ⟨count, hcount⟩ : ∃ count,
        (s.caches.documents.set name ⟨raw, "", s.nextId⟩).2 = .ok count :=
      BoundedCache.set_ok hsound.sane.documents name _
    rw [hcount] at hresult
    have hgiven : watch.given ≤ s.nextId := hlater.given ▸ hsound.given
    exact ⟨_, _, hresult, hlater.adopt hgiven, Watch.adopts_adopt hmapping,
      ⟨hsound.adopted hmapping, Nat.lt_succ_self _⟩, hmeasured.of_memory rfl rfl⟩

theorem ready_of_fit {d : Document} (hs : s.Fit watch) (hid : d.id < watch.given) :
    ∃ later, watch.Continues later ∧ later.documents d.id = watch.documents d.id ∧
      s.Ready later d := by
  obtain ⟨later, hlater, hsound, hmeasured⟩ := hs
  have hless : d.id < s.nextId := hid.trans_le (hlater.given ▸ hsound.given)
  exact ⟨later, hlater, hlater.documents d.id hid, ⟨hsound, hless⟩, hmeasured⟩

/-- A subject that is watched opens to a document that is watched. -/
theorem ensures_open {subject : Subject} (hs : s.Fit watch) (hsubject : subject.Watched watch) :
    Ensures subject.open world s fun result t =>
      ∃ later d, result = .ok d ∧ watch.Continues later ∧ d = { subject.content with id := d.id } ∧
        later.documents d.id = some d ∧ t.Ready later d := by
  cases subject with
  | document d =>
      obtain ⟨hid, hdocument⟩ := hsubject
      obtain ⟨later, hlater, hsame, hready⟩ := ready_of_fit hs hid
      exact ⟨later, d, rfl, hlater, rfl, hsame.trans hdocument, hready⟩
  | mapping name raw =>
      have hname : ∀ raw', watch.mappings name = some raw' → raw' = raw := fun raw' hraw' =>
        Option.some.inj (hraw'.symm.trans hsubject)
      refine (ensures_open_mapping world hs hname).mono ?_
      rintro result t ⟨later, d, rfl, hlater, hadopts, hready⟩
      unfold Watch.Adopts at hadopts
      rw [hlater.mappings, show watch.mappings name = some raw from hsubject] at hadopts
      exact ⟨later, d, rfl, hlater, hadopts.1, hadopts.2, hready⟩

/-- A subject that is not watched opens to a document that is not watched. -/
theorem ensures_open_unwatched {subject : Subject} (hs : s.Fit watch)
    (hsubject : subject.Unwatched watch) :
    Ensures subject.open world s fun result t =>
      ∃ later d, result = .ok d ∧ watch.Continues later ∧ later.documents d.id = none ∧
        t.Ready later d := by
  cases subject with
  | document d =>
      obtain ⟨hid, hdocument⟩ := hsubject
      obtain ⟨later, hlater, hsame, hready⟩ := ready_of_fit hs hid
      exact ⟨later, d, rfl, hlater, hsame.trans hdocument, hready⟩
  | mapping name raw =>
      have hnone : watch.mappings name = none := hsubject
      have hname : ∀ raw', watch.mappings name = some raw' → raw' = raw := fun raw' hraw' =>
        absurd (hnone.symm.trans hraw') (by simp)
      refine (ensures_open_mapping world hs hname).mono ?_
      rintro result t ⟨later, d, rfl, hlater, hadopts, hready⟩
      unfold Watch.Adopts at hadopts
      rw [hlater.mappings, hnone] at hadopts
      exact ⟨later, d, rfl, hlater, hadopts, hready⟩

/-- What mirrors a calculation in every document that a watched subject can open to, mirrors it
after the subject was opened. -/
theorem mirrors_open {α β : Type} {subject : Subject} {failures : Prop} {R : α → β → Prop}
    {next : Document → Resolving α} {first : Except Failure β} (hs : s.Fit watch)
    (hsubject : subject.Watched watch)
    (hnext : ∀ later id t, later.documents id = some { subject.content with id := id } →
      t.Ready later { subject.content with id := id } →
        Mirrors (Session.Ready later { subject.content with id := id }) failures R
          (next { subject.content with id := id }) first world t) :
    Mirrors (Session.Fit watch) failures R (subject.open >>= next) first world s := by
  refine Ensures.bind (ensures_open hs hsubject) ?_ ?_
  · rintro d t ⟨later, d', heq, hlater, hd, hwatch, hready⟩
    obtain rfl := Except.ok.inj heq
    rw [hd] at hwatch hready ⊢
    have hmirrors := hnext later d.id t hwatch hready
    exact ⟨hmirrors.1.fit hlater, hmirrors.2⟩
  · rintro failure t ⟨later, d', heq, -⟩
    cases heq

/-- What keeps all that is remembered right in every document that is not watched, keeps it right
after a subject that is not watched was opened. -/
theorem keeps_open {α : Type} {subject : Subject} {next : Document → Resolving α}
    (hs : s.Fit watch) (hsubject : subject.Unwatched watch)
    (hnext : ∀ later d, later.documents d.id = none →
      Keeping (Session.Ready later d) (next d)) :
    Ensures (subject.open >>= next) world s fun _ t => t.Fit watch := by
  refine Ensures.bind (ensures_open_unwatched hs hsubject) ?_ ?_
  · rintro d t ⟨later, d', heq, hlater, hnone, hready⟩
    obtain rfl := Except.ok.inj heq
    exact ((hnext later d hnone).ensures hready).mono fun result u hu => hu.fit hlater
  · rintro failure t ⟨later, d', heq, -⟩
    cases heq

end Opening

end Engine

end SchemaGraph
