import SchemaGraph.Proofs.Keeping
import SchemaGraph.Proofs.Resolve.Beside

/-!
# Operations that do not look at the records

What is done outside of the document at hand neither looks at the records nor changes them.  So in
sessions that differ in their records only, a schema of another document is found side by side, and
so is the target of every reference.
-/

namespace SchemaGraph

namespace Resolving

variable {α β : Type}

/-- Whether an operation does the same whatever the records are, and leaves them as they are. -/
def Blind (act : Resolving α) : Prop :=
  ∀ (world : World) (s : Session) (u : Tracker),
    act world (s.retracked u) = ((act world s).1, (act world s).2.retracked u)

theorem blind_pure (a : α) : Blind (pure a) := fun _ _ _ => rfl

theorem blind_throw (failure : Failure) : Blind (throw failure : Resolving α) := fun _ _ _ => rfl

theorem blind_read : Blind (read : Resolving Scene) := fun _ _ _ => rfl

/-- An operation that runs alone does not wait. -/
theorem blind_await : Blind await := fun _ _ _ => rfl

theorem blind_lift (result : Except Failure α) : Blind (lift result) := by
  cases result with
  | ok a => exact blind_pure a
  | error failure => exact blind_throw failure

theorem blind_check (result : Except Fault α) : Blind (check result) := blind_lift _

theorem blind_fault (f : Fault) : Blind (fault f : Resolving α) := blind_throw _

theorem blind_modify {change : Session → Session}
    (h : ∀ s u, change (s.retracked u) = (change s).retracked u) :
    Blind (modify change : Resolving Unit) :=
  fun _ s u => Prod.ext rfl (h s u)

theorem Blind.bind {act : Resolving α} {next : α → Resolving β} (h : Blind act)
    (hnext : ∀ a, Blind (next a)) : Blind (act >>= next) := by
  intro world s u
  rw [bind_apply, bind_apply, h world s u]
  rcases act world s with ⟨result, t⟩
  cases result with
  | ok a => exact hnext a world t u
  | error failure => rfl

/-- An operation that looks at the session first. -/
theorem blind_get_bind_of {next : Session → Resolving β}
    (h : ∀ (world : World) s u, next (s.retracked u) world (s.retracked u) =
      ((next s world s).1, (next s world s).2.retracked u)) : Blind (get >>= next) := by
  intro world s u
  rw [bind_apply, bind_apply]
  exact h world s u

/-- An operation that looks at the session first, but not at the records. -/
theorem blind_get_bind {next : Session → Resolving β}
    (hsame : ∀ s u, next (s.retracked u) = next s) (h : ∀ s, Blind (next s)) :
    Blind (get >>= next) := by
  refine blind_get_bind_of fun world s u => ?_
  rw [hsame]
  exact h s world s u

/-- A step that fails under a condition before the rest. -/
theorem Blind.guard {condition : Prop} [Decidable condition] {failing : Resolving PUnit}
    {rest : PUnit → Resolving β} (hfailing : Blind failing) (hrest : Blind (rest ⟨⟩)) :
    Blind (if condition then failing >>= rest else rest ⟨⟩) := by
  split
  · exact hfailing.bind fun _ => by cases ‹PUnit›; exact hrest
  · exact hrest

/-- One of two steps before the rest. -/
theorem Blind.either {condition : Prop} [Decidable condition] {act act' : Resolving α}
    {rest : α → Resolving β} (h : Blind act) (h' : Blind act') (hrest : ∀ a, Blind (rest a)) :
    Blind (if condition then act >>= rest else act' >>= rest) := by
  split
  · exact h.bind hrest
  · exact h'.bind hrest

theorem Blind.attempt {act : Resolving α} (h : Blind act) : Blind (attempt act) := by
  intro world s u
  rw [attempt_apply, attempt_apply, h world s u]

end Resolving

namespace External

open Resolving

theorem blind_emit (event : Event) : Blind (emit event) := blind_modify fun _ _ => rfl

theorem elapse_retracked (s : Session) (u : Tracker) (seconds : Number) :
    (s.retracked u).elapse seconds = (s.elapse seconds).retracked u := by
  unfold Session.elapse
  split <;> rfl

theorem blind_sendOne (a : Attempt) (target : Target) (trusted : Bool) :
    Blind (sendOne a target trusted) := by
  unfold sendOne
  refine blind_get_bind (fun _ _ => rfl) fun s => blind_read.bind fun world => ?_
  refine (blind_emit _).bind fun _ => Blind.bind (blind_modify fun t u => ?_) fun _ =>
    blind_await.bind fun _ => ?_
  · rw [elapse_retracked]
    rfl
  · split
    · exact blind_pure _
    · exact blind_fault _

theorem blind_send (a : Attempt) (budget hops : Nat) (trusted : Bool) (target : Target) :
    Blind (send a budget hops trusted target) := by
  induction budget generalizing hops trusted target with
  | zero => exact blind_fault _
  | succ budget ih =>
      rw [send]
      refine Blind.guard (blind_fault _) ?_
      refine (blind_sendOne a target trusted).bind fun response => ?_
      split
      · exact blind_pure _
      · dsimp only
        split
        · exact blind_pure _
        · refine (blind_check _).bind fun next => ?_
          split
          · exact ih _ _ _
          · exact blind_pure _

theorem blind_attemptOnce (settings : ExternalSettings) (table : Table Value) (url : String) :
    Blind (attemptOnce settings table url) := by
  unfold attemptOnce
  refine (blind_check _).bind fun timeout => (blind_check _).bind fun target => ?_
  refine (blind_check _).bind fun fields => blind_read.bind fun world => ?_
  refine Blind.either (blind_check _) (blind_pure _) fun maxRedirects => ?_
  have hsend : ∀ configured, Blind (do
      let response ← send ⟨configured, fields, timeout, maxRedirects, world.followsRedirects⟩
        (hopBudget maxRedirects) 0 true target
      if 200 ≤ response.status ∧ response.status < 300 then return response.text
      else fault (.httpStatus response.status) : Resolving String) := by
    intro configured
    refine (blind_send _ _ _ _ _).bind fun response => ?_
    split
    · exact blind_pure _
    · exact blind_fault _
  dsimp only
  split
  · exact (blind_check _).bind hsend
  · exact (blind_pure _).bind hsend

theorem blind_pause (settings : ExternalSettings) (attempt : Nat) :
    Blind (pause settings attempt) := by
  unfold pause
  refine (blind_check _).bind fun backoff => (blind_check _).bind fun seconds => ?_
  refine (blind_emit _).bind fun _ => ?_
  exact Blind.guard (blind_modify fun s u => elapse_retracked s u seconds) blind_await

theorem blind_retry {once : Resolving String} (honce : Blind once) (settings : ExternalSettings)
    (url : String) (total left : Nat) (last : Fault) :
    Blind (retry once settings url total left last) := by
  induction left generalizing last with
  | zero => exact blind_throw _
  | succ left ih =>
      rw [retry]
      refine Blind.guard (blind_pause settings _) ?_
      refine honce.attempt.bind fun outcome => ?_
      split
      · exact blind_pure _
      · split
        · exact (blind_emit _).bind fun _ => ih _
        · exact blind_throw _
      · exact blind_throw _

theorem blind_fetch (url : String) : Blind (fetch url) := by
  unfold fetch
  refine blind_get_bind (fun _ _ => rfl) fun s => (blind_lift _).bind fun _ => ?_
  refine (blind_check _).bind fun table => (blind_check _).bind fun total => ?_
  exact blind_retry (blind_attemptOnce _ _ _) _ _ _ _ _

theorem blind_readFile (location : String) : Blind (readFile location) := by
  unfold readFile
  refine blind_read.bind fun scene => blind_await.bind fun _ => ?_
  refine Blind.guard (blind_fault _) (Blind.guard (blind_throw _) ?_)
  refine (blind_emit _).bind fun _ => ?_
  split
  · exact blind_pure _
  · split
    · exact blind_throw _
    · exact blind_fault _

theorem blind_recallDocument (location : String) : Blind (recallDocument location) := by
  unfold recallDocument
  refine blind_get_bind (fun _ _ => rfl) fun s => ?_
  split
  · exact blind_pure _
  · split
    · exact blind_pure _
    · refine (blind_check _).bind fun stale => ?_
      split
      · exact (blind_modify fun _ _ => rfl).bind fun _ => blind_pure _
      · exact blind_pure _

theorem blind_keep (location : String) (raw : Value) : Blind (keep location raw) := by
  unfold keep
  refine blind_get_bind_of fun world s u => ?_
  have hset : ∀ (t : Session) (act : PUnit → Resolving Unit), Blind (act ⟨⟩) →
      ((set (t.retracked u) : Resolving PUnit) >>= act) world (s.retracked u) =
        ((((set t : Resolving PUnit) >>= act) world s).1,
          (((set t : Resolving PUnit) >>= act) world s).2.retracked u) := by
    intro t act hact
    rw [bind_apply, bind_apply]
    exact hact world t u
  by_cases hcached : s.externalSettings.cacheEnabled.truthy = true
  · have hcached' : (s.retracked u).externalSettings.cacheEnabled.truthy = true := hcached
    rw [if_pos hcached, if_pos hcached']
    refine hset { s with external := _ } _ ((blind_check _).bind fun bound => ?_)
    dsimp only
    split
    · exact blind_modify fun _ _ => rfl
    · exact (blind_modify fun _ _ => rfl).bind fun _ => blind_fault _
  · have hcached' : ¬(s.retracked u).externalSettings.cacheEnabled.truthy = true := hcached
    rw [if_neg hcached, if_neg hcached']
    rfl

theorem blind_load (location : String) : Blind (load location) := by
  unfold load
  refine (blind_recallDocument location).bind fun found => ?_
  split
  · exact blind_pure _
  · refine Blind.either (blind_fetch location) (blind_readFile location) ?_
    refine fun text => (blind_lift _).bind fun raw => ?_
    split
    · exact blind_throw _
    · exact (blind_keep location raw).bind fun _ => blind_pure _

/-- Looking up a schema of another document does not look at the records. -/
theorem blind_resolve (reference : Value) (base : String) (depth : Value) :
    Blind (resolve reference base depth) := by
  unfold resolve
  refine blind_get_bind (fun _ _ => rfl) fun s => (blind_check _).bind fun limit => ?_
  refine (blind_check _).bind fun number => Blind.guard (blind_throw _) ?_
  split
  · refine Blind.guard (blind_throw _) ?_
    refine (blind_check _).bind fun location => (blind_load location).bind fun raw => ?_
    dsimp only
    split
    · exact blind_lift _
    · exact blind_throw _
    · exact blind_fault _
  · exact blind_throw _

end External

section Targets

open Resolving

variable {d : Document} {world : World} {s t : Session}

/-- Sessions that differ in their records only, and cache no schemas. -/
def Session.Twins (s t : Session) : Prop := s.Cold ∧ t.Cold ∧ ∃ u : Tracker, t = s.retracked u

theorem paired_twins : Paired Session.Twins where
  left := fun h => h.1
  right := fun h => h.2.1
  retracked := by
    rintro s t u v ⟨hs, ht, w, rfl⟩ hu hv
    exact ⟨hs.retracked hu, ht.retracked hv, v, rfl⟩

theorem Session.Twins.symm (h : s.Twins t) : t.Twins s := by
  obtain ⟨hs, ht, u, rfl⟩ := h
  exact ⟨ht, hs, s.tracker, rfl⟩

theorem Session.Cold.twins (hs : s.Cold) {u : Tracker} (hu : u.Ready) : s.Twins (s.retracked u) :=
  ⟨hs, hs.retracked hu, u, rfl⟩

theorem inward_cold : Inward Session.Cold := fun _ _ _ _ _ h =>
  ⟨h.ready, h.references, h.compositions, h.failures⟩

/-- An operation that is blind and stays cold goes along with itself. -/
theorem Resolving.Blind.beside {α : Type} {act : Resolving α} (h : Blind act)
    (hkeeping : Keeping Session.Cold act) (hst : s.Twins t) :
    Beside Session.Twins Eq act act world s t := by
  obtain ⟨hs, ht, u, rfl⟩ := hst
  have hkept' := hkeeping world _ ht
  rw [h world s u] at hkept'
  unfold Beside
  rw [h world s u]
  exact ⟨⟨hkeeping world s hs, hkept', u, rfl⟩, .refl (fun _ => rfl) _⟩

/-- In sessions that differ in their records only, a reference is found side by side. -/
theorem foundBeside_twins : d.FoundBeside world Session.Twins fun _ => True where
  found := by
    intro x path s t _ h
    unfold Document.target
    cases Reference.read? x with
    | none => exact beside_throw h rfl
    | some parsed =>
        refine (beside_lift h (.refl (fun _ => rfl) _)).bind fun outside _ s t heq h => ?_
        subst heq
        split
        · unfold outsideTarget
          refine (beside_lift h (.refl (fun _ => rfl) _)).bind fun depth _ s t heq h => ?_
          subst heq
          have hblind := (External.blind_resolve (.str x) d.source (.ofNat depth)).attempt
          have hkeeping := (External.keeping_resolve inward_cold (.str x) d.source
            (.ofNat depth)).attempt
          refine (hblind.beside hkeeping h).bind fun outcome _ s t heq h => ?_
          subst heq
          cases outcome with
          | ok n => exact beside_pure h rfl
          | error cause =>
              refine beside_get_bind ?_
              rw [h.1.rememberFailure, h.2.1.rememberFailure]
              exact ⟨h, .error rfl⟩
        · exact beside_lift h (.refl (fun _ => rfl) _)
  leads := fun _ _ _ _ _ _ => trivial

end Targets

end SchemaGraph
