import SchemaGraph.Proofs.Resolve.Caching
import SchemaGraph.Proofs.Resolve.Remembered
import SchemaGraph.Proofs.Schema.Signature

/-!
# What caches may hold

The keys of cached schemas carry the numbers of documents, and every number belongs to one document.
A cached schema is sound when it is like the one that its key stands for: what a reference is
followed to alone, what a composition settles to, or what an entry of the registry declares.  Only
the documents that are watched are held to this.

A session remembers only what it may, by some measure of what that is, and it is sound if it remembers
only what is right.  Dropping entries, changing the records and writing an entry that may be remembered
keep it so.
-/

namespace SchemaGraph

namespace Node

theorem identity_eq_ok {info : NodeInfo} {shape : CompositionShape Node} {key : String}
    (h : (Node.composition info shape).identity = .ok key) :
    ∃ text, Json.canonical (Node.composition info shape).write = .ok text ∧
      key = shape.kind.keyword ++ ":" ++ text := by
  unfold identity canonicalText at h
  rw [bind_eq_ok] at h
  obtain ⟨text, htext, h⟩ := h
  exact ⟨text, htext, (Except.ok.inj h).symm⟩

/-- Compositions with one identity have one canonical text. -/
theorem text_of_identity {info info' : NodeInfo} {shape shape' : CompositionShape Node}
    {key : String} (h : (Node.composition info shape).identity = .ok key)
    (h' : (Node.composition info' shape').identity = .ok key) :
    ∃ text, Json.canonical (Node.composition info shape).write = .ok text ∧
      Json.canonical (Node.composition info' shape').write = .ok text := by
  obtain ⟨text, htext, rfl⟩ := identity_eq_ok h
  obtain ⟨text', htext', heq⟩ := identity_eq_ok h'
  obtain ⟨-, rfl⟩ := keyword_append_inj heq
  exact ⟨text, htext, htext'⟩

/-- Neat compositions with one identity are alike. -/
theorem like_of_identity {info info' : NodeInfo} {shape shape' : CompositionShape Node}
    {key : String} (hneat : (Node.composition info shape).Neat)
    (hneat' : (Node.composition info' shape').Neat)
    (h : (Node.composition info shape).identity = .ok key)
    (h' : (Node.composition info' shape').identity = .ok key) :
    (Node.composition info shape).Like (.composition info' shape') := by
  obtain ⟨text, htext, htext'⟩ := text_of_identity h h'
  exact ⟨hneat, hneat', Json.alike_of_canonical htext htext' hneat.composition_parts.write
    hneat'.composition_parts.write⟩

end Node

namespace Document

/-- An entry of the registry as it is enumerated: one that is a reference is followed. -/
def declared (follow : Value → Except Failure Node) (name : String) (raw : Value) :
    Except Failure Node := do
  match ← Node.parse "" raw (Reference.localRegistry ++ name) with
  | .ref _ target => follow target
  | n => .ok n

/-- Whether a schema may be remembered for a reference. -/
def Follows (d : Document) (x : String) (n : Node) : Prop :=
  ∃ m, d.resolved [] (.str x) = .ok m ∧ n.Like m

/-- Whether a schema may be remembered for the compositions that a text identifies. -/
def Settles (d : Document) (key : String) (n : Node) : Prop :=
  ∃ info shape m, (Node.composition info shape).Neat ∧
    (Node.composition info shape).identity = .ok key ∧
      (Node.composition info shape).settled (d.resolved []) = .ok m ∧ n.Like m

/-- Whether a schema may be remembered for a name of the registry. -/
def Declares (d : Document) (name : String) (n : Node) : Prop :=
  ∀ table raw, d.registry = .ok table → (.str name, raw) ∈ table →
    ∃ m, declared (d.resolved []) name raw = .ok m ∧ n.Like m

end Document

/-- The documents that are watched: those with some numbers, and those that the mappings known by
some names become. -/
structure Watch where
  documents : Nat → Option Document
  mappings : String → Option Value
  /-- The numbers below this one were given away at the start. -/
  given : Nat

namespace Watch

/-- Whether an entry under the number of a document may be kept: the number has been given away, and
if the document is watched, what is kept is right for it. -/
def Keeps (watch : Watch) (nextId : Nat) (key : CacheKey) (right : Document → String → Prop) :
    Prop :=
  key.document < nextId ∧ ∀ d, watch.documents key.document = some d → right d key.subject

/-- Whether a document may be kept for the mapping that is known by a name: it was made from this
mapping, and both are watched or none is. -/
def Adopts (watch : Watch) (name : String) (d : Document) : Prop :=
  match watch.mappings name with
  | some raw => d = ⟨raw, "", d.id⟩ ∧ watch.documents d.id = some d
  | none => watch.documents d.id = none

theorem keeps_of_right {watch : Watch} {nextId : Nat} {d : Document} {x : String}
    {right : Document → String → Prop} (hwatch : watch.documents d.id = some d)
    (hid : d.id < nextId) (h : right d x) :
    watch.Keeps nextId (Resolving.cacheKey d x) right := by
  refine ⟨hid, fun d' hd' => ?_⟩
  rw [show (Resolving.cacheKey d x).document = d.id from rfl, hwatch, Option.some.injEq] at hd'
  exact hd' ▸ h

/-- Anything may be kept for a document that is not watched. -/
theorem keeps_of_none {watch : Watch} {nextId : Nat} {d : Document} {x : String}
    {right : Document → String → Prop} (hwatch : watch.documents d.id = none)
    (hid : d.id < nextId) : watch.Keeps nextId (Resolving.cacheKey d x) right := by
  refine ⟨hid, fun d' hd' => ?_⟩
  rw [show (Resolving.cacheKey d x).document = d.id from rfl, hwatch] at hd'
  cases hd'

theorem Keeps.mono {watch : Watch} {nextId later : Nat} {key : CacheKey}
    {right : Document → String → Prop} (h : watch.Keeps nextId key right) (hlater : nextId ≤ later) :
    watch.Keeps later key right :=
  ⟨h.1.trans_le hlater, h.2⟩

end Watch

/-- What a session may remember for a document: for a reference, for the compositions that a text
identifies, for a name of the registry, and as a failure. -/
structure Allowance where
  reference : Document → String → Node → Prop
  composition : Document → String → Node → Prop
  schema : Document → String → Node → Prop
  failure : Document → String → Failure → Prop

/-- To remember only what is right, and no failures. -/
def Allowance.right : Allowance where
  reference := Document.Follows
  composition := Document.Settles
  schema := Document.Declares
  failure := fun _ _ _ => False

/-- A session that remembers only what it may. -/
structure Session.RemembersOnly (may : Allowance) (watch : Watch) (s : Session) : Prop where
  given : watch.given ≤ s.nextId
  references : ∀ key n, (key, n) ∈ s.caches.references.entries →
    watch.Keeps s.nextId key fun d x => may.reference d x n
  compositions : ∀ key n, (key, n) ∈ s.caches.compositions.entries →
    watch.Keeps s.nextId key fun d text => may.composition d text n
  schemas : ∀ key n, (key, n) ∈ s.caches.schemas.entries →
    watch.Keeps s.nextId key fun d name => may.schema d name n
  failures : ∀ key failure, (key, failure) ∈ s.caches.failures.entries →
    watch.Keeps s.nextId key fun d x => may.failure d x failure
  documents : ∀ name d, (name, d) ∈ s.caches.documents.entries →
    d.id < s.nextId ∧ watch.Adopts name d

/-- A session in which everything that is remembered is right. -/
structure Session.Sound (watch : Watch) (s : Session) : Prop extends
    s.RemembersOnly Allowance.right watch where
  sane : s.Sane

/-- Whether a later session remembers nothing more than an earlier one does. -/
structure Session.Less (s t : Session) : Prop where
  references : t.caches.references.entries ⊆ s.caches.references.entries
  compositions : t.caches.compositions.entries ⊆ s.caches.compositions.entries
  schemas : t.caches.schemas.entries ⊆ s.caches.schemas.entries
  failures : t.caches.failures.entries ⊆ s.caches.failures.entries
  documents : t.caches.documents.entries ⊆ s.caches.documents.entries
  nextId : s.nextId ≤ t.nextId

/-- A session that remembers nothing more than another one does, and may go on as that one may. -/
structure Session.Within (s t : Session) : Prop extends s.Less t where
  sane : t.Sane

namespace Session

variable {watch : Watch} {s t : Session} {key : CacheKey} {n : Node}

/-- A session that remembers less remembers only what it may. -/
theorem RemembersOnly.of_less {may : Allowance} (h : s.RemembersOnly may watch) (hless : s.Less t) :
    t.RemembersOnly may watch where
  given := h.given.trans hless.nextId
  references := fun key n hin => (h.references key n (hless.references hin)).mono hless.nextId
  compositions := fun key n hin => (h.compositions key n (hless.compositions hin)).mono hless.nextId
  schemas := fun key n hin => (h.schemas key n (hless.schemas hin)).mono hless.nextId
  failures := fun key failure hin => (h.failures key failure (hless.failures hin)).mono hless.nextId
  documents := by
    intro name d hin
    obtain ⟨hid, hadopts⟩ := h.documents name d (hless.documents hin)
    exact ⟨hid.trans_le hless.nextId, hadopts⟩

theorem less_of_caches (hcaches : t.caches = s.caches) (hid : s.nextId ≤ t.nextId) : s.Less t := by
  refine ⟨?_, ?_, ?_, ?_, ?_, hid⟩ <;> rw [hcaches]
  all_goals exact fun _ hin => hin

theorem Sound.within (h : s.Sound watch) (hless : s.Within t) : t.Sound watch :=
  ⟨h.toRemembersOnly.of_less hless.toLess, hless.sane⟩

theorem Sane.retracked (h : s.Sane) {u : Tracker} (hu : u.Ready) : (s.retracked u).Sane :=
  ⟨hu, h.schemas, h.compositions, h.references, h.documents⟩

theorem Sound.retracked (h : s.Sound watch) {u : Tracker} (hu : u.Ready) :
    (s.retracked u).Sound watch :=
  h.within ⟨less_of_caches rfl (le_refl _), h.sane.retracked hu⟩

/-- What is remembered alone decides what a session may go on as. -/
theorem within_of_caches (h : s.Sane) (hcaches : t.caches = s.caches) (hid : s.nextId ≤ t.nextId)
    (hready : t.tracker.Ready) : s.Within t := by
  refine ⟨less_of_caches hcaches hid, ⟨hready, ?_, ?_, ?_, ?_⟩⟩ <;> rw [hcaches]
  · exact h.schemas
  · exact h.compositions
  · exact h.references
  · exact h.documents

theorem isBounded_set {κ α : Type} [BEq κ] [LawfulBEq κ] {c : BoundedCache κ α} {key : κ}
    (h : c.IsBounded) (item : α) : (c.set key item).1.IsBounded := by
  obtain ⟨entries, result, heq, -⟩ := c.set_cases key item
  rw [heq]
  exact h

theorem mem_set {κ α : Type} [BEq κ] [LawfulBEq κ] {c : BoundedCache κ α} {key : κ} {item : α}
    {entry : κ × α} (h : entry ∈ (c.set key item).1.entries) :
    entry = (key, item) ∨ entry ∈ c.entries := by
  obtain ⟨entries, result, heq, hentries, -⟩ := c.set_cases key item
  rw [heq] at h
  exact hentries entry h

namespace RemembersOnly

variable {may : Allowance} (h : s.RemembersOnly may watch)
include h

theorem keptReference (hkeep : watch.Keeps s.nextId key fun d x => may.reference d x n) :
    (s.keptReference key n).RemembersOnly may watch where
  given := h.given
  references := by
    intro key' n' hin
    rcases mem_set hin with heq | hold
    · obtain ⟨rfl, rfl⟩ := Prod.mk.inj heq
      exact hkeep
    · exact h.references key' n' hold
  compositions := h.compositions
  schemas := h.schemas
  failures := h.failures
  documents := h.documents

theorem keptComposition (hkeep : watch.Keeps s.nextId key fun d text => may.composition d text n) :
    (s.keptComposition key n).RemembersOnly may watch where
  given := h.given
  references := h.references
  compositions := by
    intro key' n' hin
    rcases mem_set hin with heq | hold
    · obtain ⟨rfl, rfl⟩ := Prod.mk.inj heq
      exact hkeep
    · exact h.compositions key' n' hold
  schemas := h.schemas
  failures := h.failures
  documents := h.documents

theorem keptSchema (hkeep : watch.Keeps s.nextId key fun d name => may.schema d name n) :
    (s.keptSchema key n).RemembersOnly may watch where
  given := h.given
  references := h.references
  compositions := h.compositions
  schemas := by
    intro key' n' hin
    rcases mem_set hin with heq | hold
    · obtain ⟨rfl, rfl⟩ := Prod.mk.inj heq
      exact hkeep
    · exact h.schemas key' n' hold
  failures := h.failures
  documents := h.documents

end RemembersOnly

theorem Sound.keptReference (h : s.Sound watch)
    (hkeep : watch.Keeps s.nextId key fun d x => d.Follows x n) :
    (s.keptReference key n).Sound watch :=
  ⟨h.toRemembersOnly.keptReference hkeep, ⟨h.sane.ready, h.sane.schemas, h.sane.compositions,
    isBounded_set h.sane.references n, h.sane.documents⟩⟩

theorem Sound.keptComposition (h : s.Sound watch)
    (hkeep : watch.Keeps s.nextId key fun d text => d.Settles text n) :
    (s.keptComposition key n).Sound watch :=
  ⟨h.toRemembersOnly.keptComposition hkeep, ⟨h.sane.ready, h.sane.schemas,
    isBounded_set h.sane.compositions n, h.sane.references, h.sane.documents⟩⟩

theorem Sound.keptSchema (h : s.Sound watch)
    (hkeep : watch.Keeps s.nextId key fun d name => d.Declares name n) :
    (s.keptSchema key n).Sound watch :=
  ⟨h.toRemembersOnly.keptSchema hkeep, ⟨h.sane.ready, isBounded_set h.sane.schemas n,
    h.sane.compositions, h.sane.references, h.sane.documents⟩⟩

end Session

section Recalling

variable {watch : Watch} {s : Session} {d : Document} {x : String} {n : Node}

/-- What the references of a document are remembered by is right. -/
theorem follows_of_recalled (h : s.Sound watch) (hwatch : watch.documents d.id = some d)
    (hfound : s.caches.references.get? (Resolving.cacheKey d x) = some n) : d.Follows x n :=
  (h.references _ n (BoundedCache.mem_of_get hfound)).2 d hwatch

theorem settles_of_recalled (h : s.Sound watch) (hwatch : watch.documents d.id = some d)
    (hfound : s.caches.compositions.get? (Resolving.cacheKey d x) = some n) : d.Settles x n :=
  (h.compositions _ n (BoundedCache.mem_of_get hfound)).2 d hwatch

theorem declares_of_recalled (h : s.Sound watch) (hwatch : watch.documents d.id = some d)
    (hfound : s.caches.schemas.get? (Resolving.cacheKey d x) = some n) : d.Declares x n :=
  (h.schemas _ n (BoundedCache.mem_of_get hfound)).2 d hwatch

/-- No failure is remembered for a document that is watched. -/
theorem failure_none (h : s.Sound watch) (hwatch : watch.documents d.id = some d) (x : String) :
    s.caches.failure? (Resolving.cacheKey d x) = none := by
  unfold Caches.failure?
  split
  · cases hfound : s.caches.failures.get? (Resolving.cacheKey d x) with
    | none => rfl
    | some failure =>
        exact ((h.failures _ failure (BoundedCache.mem_of_get hfound)).2 d hwatch).elim
  · rfl

/-- Compositions with one identity settle alike. -/
theorem settles_neat {info : NodeInfo} {shape : CompositionShape Node} {key : String}
    (hplain : d.Plain) (hneat : (Node.composition info shape).Neat)
    (hkey : (Node.composition info shape).identity = .ok key) (h : d.Settles key n) :
    ∃ m, (Node.composition info shape).settled (d.resolved []) = .ok m ∧ n.Like m := by
  obtain ⟨info', shape', m', hneat', hkey', hsettled, hlike⟩ := h
  have hsame := Node.like_of_identity hneat' hneat hkey' hkey
  obtain ⟨m, hm, hmm⟩ := (Document.settled_like hplain.json hsame).exists_ok hsettled
  exact ⟨m, hm, hlike.trans hmm⟩

end Recalling

end SchemaGraph
