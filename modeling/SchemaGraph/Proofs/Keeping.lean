import SchemaGraph.Proofs.Resolve.Caching

/-!
# What a run keeps

A property of sessions is kept by an operation if it holds after each run that starts where it holds,
whether the run succeeds or fails.  A property that does not look at the time and the requests, and in
the trace only at entries that were left out, is kept by reading files and by fetching.  If it does not
look at the kept documents, either, it is kept by everything that is done outside of the document at
hand.

An operation that keeps a property of sessions may rely on it for its results: it yields results of a
kind where every result of a run that starts where the property holds is of that kind.
-/

namespace SchemaGraph

/-- Whether the turn has passed from one task to another in the course of a session. -/
def Session.Shared (s : Session) : Prop := Event.turned ∈ s.trace

/-- Whether an event passes the turn to another task. -/
def Event.isTurned : Event → Bool
  | .turned => true
  | _ => false

instance : DecidablePred Session.Shared := fun s =>
  decidable_of_iff (s.trace.any Event.isTurned) <| by
    unfold Session.Shared
    constructor
    · intro hany
      obtain ⟨event, hin, hturned⟩ := List.any_eq_true.mp hany
      cases event with
      | turned => exact hin
      | _ => cases hturned
    · intro hin
      exact List.any_eq_true.mpr ⟨.turned, hin, rfl⟩

/-- A scene in which an operation goes on with sessions of a kind only, whenever it has waited and had
its turn again. -/
structure Scene.Of (keeps : Session → Prop) extends Scene where
  resumes : ∀ entry ∈ resumed, keeps entry.2
  shared : ∀ entry ∈ resumed, entry.2.Shared

instance {keeps : Session → Prop} : CoeOut (Scene.Of keeps) Scene := ⟨Scene.Of.toScene⟩

/-- The scene of an operation that runs alone, so that it goes on with no other session. -/
abbrev World.within (world : World) (keeps : Session → Prop) : Scene.Of keeps :=
  { world.alone with
    resumes := fun _ h => nomatch h
    shared := fun _ h => nomatch h }

instance {keeps : Session → Prop} : Coe World (Scene.Of keeps) := ⟨fun world => world.within keeps⟩

/-- Sessions of a kind are sessions of every wider one. -/
def Scene.Of.mono {keeps keeps' : Session → Prop} (scene : Scene.Of keeps)
    (h : ∀ s, keeps s → keeps' s) : Scene.Of keeps' :=
  { scene with resumes := fun entry hentry => h entry.2 (scene.resumes entry hentry) }

namespace Resolving

variable {α β : Type}

/-- Whether an operation keeps a property of sessions, if those with which it goes on have it. -/
def Keeping (keeps : Session → Prop) (act : Resolving α) : Prop :=
  ∀ (scene : Scene.Of keeps) s, keeps s → keeps (act scene s).2

variable {keeps : Session → Prop}

theorem Keeping.ensures {act : Resolving α} (h : Keeping keeps act) {world : World} {s : Session}
    (hs : keeps s) : Ensures act world s fun _ t => keeps t :=
  h world s hs

/-- What holds before a run in a scene holds after it. -/
theorem keeps_of_step {act : Resolving α} {result : Except Failure α} {scene : Scene.Of keeps}
    {s t : Session} (h : Keeping keeps act) (hs : keeps s) (hrun : act scene s = (result, t)) :
    keeps t := by
  have hkept := h scene s hs
  rwa [hrun] at hkept

/-- What holds before a run holds after it. -/
theorem keeps_of_run {act : Resolving α} {result : Except Failure α} {world : World} {s t : Session}
    (h : Keeping keeps act) (hs : keeps s) (hrun : act world s = (result, t)) : keeps t := by
  have hkept := h world s hs
  rwa [hrun] at hkept

/-- Whether an operation that runs alone keeps a property of sessions. -/
def Preserves (keeps : Session → Prop) (act : Resolving α) : Prop :=
  ∀ (world : World) s, keeps s → keeps (act world s).2

theorem Keeping.preserves {act : Resolving α} (h : Keeping keeps act) : Preserves keeps act :=
  fun world s hs => h world s hs

theorem Preserves.bind {act : Resolving α} {next : α → Resolving β} (h : Preserves keeps act)
    (hnext : ∀ a, Preserves keeps (next a)) : Preserves keeps (act >>= next) := by
  intro world s hs
  have hmid := h world s hs
  rw [bind_apply]
  rcases hrun : act world s with ⟨result, t⟩
  rw [hrun] at hmid
  cases result with
  | ok a => exact hnext a world t hmid
  | error failure => exact hmid

theorem Preserves.and {keeps' : Session → Prop} {act : Resolving α} (h : Preserves keeps act)
    (h' : Preserves keeps' act) : Preserves (fun s => keeps s ∧ keeps' s) act :=
  fun world s hs => ⟨h world s hs.1, h' world s hs.2⟩

theorem keeping_pure (a : α) : Keeping keeps (pure a) := fun _ _ hs => hs

theorem keeping_throw (failure : Failure) : Keeping keeps (throw failure : Resolving α) :=
  fun _ _ hs => hs

theorem keeping_get : Keeping keeps (get : Resolving Session) := fun _ _ hs => hs

theorem keeping_read : Keeping keeps (read : Resolving Scene) := fun _ _ hs => hs

theorem keeping_modify {change : Session → Session} (h : ∀ s, keeps s → keeps (change s)) :
    Keeping keeps (modify change : Resolving Unit) :=
  fun _ s hs => h s hs

theorem keeping_lift (result : Except Failure α) : Keeping keeps (lift result) := by
  cases result with
  | ok a => exact keeping_pure a
  | error failure => exact keeping_throw failure

theorem keeping_check (result : Except Fault α) : Keeping keeps (check result) := keeping_lift _

theorem keeping_fault (f : Fault) : Keeping keeps (fault f : Resolving α) := keeping_throw _

theorem Keeping.bind {act : Resolving α} {next : α → Resolving β} (h : Keeping keeps act)
    (hnext : ∀ a, Keeping keeps (next a)) : Keeping keeps (act >>= next) := by
  intro scene s hs
  have hmid := h scene s hs
  rw [bind_apply]
  rcases hrun : act scene s with ⟨result, t⟩
  rw [hrun] at hmid
  cases result with
  | ok a => exact hnext a scene t hmid
  | error failure => exact hmid

/-- A step that fails under a condition before the rest. -/
theorem Keeping.guard {condition : Prop} [Decidable condition] {failing : Resolving PUnit}
    {rest : PUnit → Resolving β} (hfailing : Keeping keeps failing)
    (hrest : Keeping keeps (rest ⟨⟩)) :
    Keeping keeps (if condition then failing >>= rest else rest ⟨⟩) := by
  split
  · exact hfailing.bind fun _ => hrest
  · exact hrest

/-- One of two steps before the rest. -/
theorem Keeping.either {condition : Prop} [Decidable condition] {act act' : Resolving α}
    {rest : α → Resolving β} (h : Keeping keeps act) (h' : Keeping keeps act')
    (hrest : ∀ a, Keeping keeps (rest a)) :
    Keeping keeps (if condition then act >>= rest else act' >>= rest) := by
  split
  · exact h.bind hrest
  · exact h'.bind hrest

/-- An operation that looks at the session first. -/
theorem keeping_get_bind {next : Session → Resolving β}
    (h : ∀ (scene : Scene.Of keeps) s, keeps s → keeps (next s scene s).2) :
    Keeping keeps (get >>= next) := by
  intro scene s hs
  rw [bind_apply]
  exact h scene s hs

theorem Keeping.attempt {act : Resolving α} (h : Keeping keeps act) :
    Keeping keeps (attempt act) := by
  intro scene s hs
  have hkept := h scene s hs
  rw [attempt_scene_apply]
  rcases hrun : act scene s with ⟨result, t⟩
  rw [hrun] at hkept
  cases result with
  | ok a => exact hkept
  | error failure =>
      dsimp only
      split
      · exact hkept
      · exact hkept

/-- Waiting keeps what does not look at the turns, if those who have theirs keep it. -/
theorem keeping_await (hpaused : ∀ {s : Session}, keeps s →
    keeps { s with trace := .paused :: s.trace }) : Keeping keeps await := by
  intro scene s hs
  rw [await_scene_apply]
  cases hresumed : Ordered.get? s.trace.length scene.resumed with
  | some t => exact scene.resumes _ (Ordered.mem_of_get hresumed)
  | none =>
      dsimp only
      split
      · exact hpaused hs
      · exact hs

/-- Whether an operation keeps a property of sessions and gives results of a kind only. -/
def Yields (keeps : Session → Prop) (good : α → Prop) (act : Resolving α) : Prop :=
  ∀ (scene : Scene.Of keeps) s, keeps s →
    Ensures act scene s fun result t => keeps t ∧ ∀ a, result = .ok a → good a

variable {good : α → Prop} {good' : β → Prop}

theorem Yields.keeping {act : Resolving α} (h : Yields keeps good act) : Keeping keeps act :=
  fun scene s hs => (h scene s hs).1

theorem Keeping.yields {act : Resolving α} (h : Keeping keeps act) :
    Yields keeps (fun _ => True) act :=
  fun scene s hs => ⟨h scene s hs, fun _ _ => trivial⟩

theorem Yields.mono {other : α → Prop} {act : Resolving α} (h : Yields keeps good act)
    (himp : ∀ a, good a → other a) : Yields keeps other act :=
  fun scene s hs => ⟨(h scene s hs).1, fun a ha => himp a ((h scene s hs).2 a ha)⟩

theorem yields_pure {a : α} (h : good a) : Yields keeps good (pure a) := by
  refine fun scene s hs => ⟨hs, fun b hb => ?_⟩
  rw [← Except.ok.inj hb]
  exact h

theorem yields_throw (failure : Failure) : Yields keeps good (throw failure : Resolving α) :=
  fun _ _ hs => ⟨hs, fun _ heq => nomatch heq⟩

theorem yields_lift {result : Except Failure α} (h : ∀ a, result = .ok a → good a) :
    Yields keeps good (lift result) := by
  cases result with
  | ok a => exact yields_pure (h a rfl)
  | error failure => exact yields_throw failure

theorem yields_check {result : Except Fault α} (h : ∀ a, result = .ok a → good a) :
    Yields keeps good (check result) := by
  cases result with
  | ok a => exact yields_pure (h a rfl)
  | error f => exact yields_throw _

theorem Yields.bind {act : Resolving α} {next : α → Resolving β} (h : Yields keeps good act)
    (hnext : ∀ a, good a → Yields keeps good' (next a)) : Yields keeps good' (act >>= next) := by
  intro scene s hs
  refine Ensures.bind (h scene s hs) ?_ ?_
  · rintro a t ⟨ht, ha⟩
    exact hnext a (ha a rfl) scene t ht
  · rintro failure t ⟨ht, -⟩
    exact ⟨ht, fun _ heq => nomatch heq⟩

/-- A step whose result does not matter for what follows. -/
theorem Keeping.bind_yields {act : Resolving α} {next : α → Resolving β} (h : Keeping keeps act)
    (hnext : ∀ a, Yields keeps good' (next a)) : Yields keeps good' (act >>= next) :=
  h.yields.bind fun a _ => hnext a

/-- A step that fails under a condition before the rest. -/
theorem Yields.guard {condition : Prop} [Decidable condition] {failing : Resolving PUnit}
    {rest : PUnit → Resolving β} (hfailing : Keeping keeps failing)
    (hrest : Yields keeps good' (rest ⟨⟩)) :
    Yields keeps good' (if condition then failing >>= rest else rest ⟨⟩) := by
  split
  · exact hfailing.bind_yields fun _ => hrest
  · exact hrest

theorem yields_get : Yields keeps keeps (get : Resolving Session) := by
  refine fun scene s hs => ⟨hs, fun t ht => ?_⟩
  rw [← Except.ok.inj ht]
  exact hs

/-- An operation that looks at the session first. -/
theorem yields_get_bind {next : Session → Resolving β}
    (h : ∀ (scene : Scene.Of keeps) s, keeps s →
      Ensures (next s) scene s fun result t => keeps t ∧ ∀ b, result = .ok b → good' b) :
    Yields keeps good' (get >>= next) := by
  intro scene s hs
  rw [ensures_get_bind]
  exact h scene s hs

theorem Yields.attempt {act : Resolving α} (h : Yields keeps good act) :
    Yields keeps (fun result => ∀ a, result = .ok a → good a) (attempt act) := by
  intro scene s hs
  have hact := h scene s hs
  unfold Ensures at hact ⊢
  rw [attempt_scene_apply]
  rcases hrun : act scene s with ⟨result, t⟩
  rw [hrun] at hact
  obtain ⟨ht, hresult⟩ := hact
  cases result with
  | ok a =>
      refine ⟨ht, fun given heq => ?_⟩
      rw [← Except.ok.inj heq]
      exact hresult
  | error failure =>
      dsimp only
      split
      · exact ⟨ht, fun _ heq => nomatch heq⟩
      · refine ⟨ht, fun given heq => ?_⟩
        rw [← Except.ok.inj heq]
        exact fun _ heq' => nomatch heq'

end Resolving

/-- A property of sessions that does not look at the time, the documents kept from outside, the
requests and the trace. -/
def Inward (keeps : Session → Prop) : Prop :=
  ∀ s external clock sent trace, keeps s →
    keeps { s with external := external, clock := clock, sent := sent, trace := trace }

/-- A property of sessions that does not look at the time, the requests and the trace. -/
def Aloof (keeps : Session → Prop) : Prop :=
  ∀ s clock sent trace, keeps s → keeps { s with clock := clock, sent := sent, trace := trace }

/-- A property of sessions that does not look at the documents kept from outside. -/
def Forgetful (keeps : Session → Prop) : Prop :=
  ∀ (s : Session) external, keeps s → keeps { s with external := external }

theorem Inward.aloof {keeps : Session → Prop} (h : Inward keeps) : Aloof keeps :=
  fun s clock sent trace hs => h s s.external clock sent trace hs

theorem Inward.turned {keeps : Session → Prop} (h : Inward keeps) (s : Session) (hs : keeps s) :
    keeps s.turned :=
  h.aloof s s.clock s.sent _ hs

theorem Inward.forgetful {keeps : Session → Prop} (h : Inward keeps) : Forgetful keeps :=
  fun s external hs => h s external s.clock s.sent s.trace hs

/-- The entry of a registry that an event points out as left out, and of what kind it is. -/
def Event.skipped? : Event → Option (Value × String)
  | .warned (.skippedSchema name kind) => some (name, kind)
  | _ => none

/-- The request that an event is. -/
def Event.request? : Event → Option Request
  | .requested request => some request
  | _ => none

/-- The file that an event opens. -/
def Event.opened? : Event → Option String
  | .opened path => some path
  | _ => none

/-- The requests that were sent in a session, latest first. -/
def Session.requests (s : Session) : List Request := s.trace.filterMap Event.request?

/-- The files that were opened in a session, latest first. -/
def Session.opened (s : Session) : List String := s.trace.filterMap Event.opened?

/-- A property of sessions that looks neither at the time nor at anything in the trace but the entries
that were left out, the requests and the files. -/
structure Unhurried (keeps : Session → Prop) : Prop where
  elapsed : ∀ {s : Session} clock, keeps s → keeps { s with clock := clock }
  noted : ∀ {s : Session} {event : Event}, event.skipped? = none → event.request? = none →
    event.opened? = none → keeps s → keeps { s with trace := event :: s.trace }

/-- A property of sessions that looks neither at the time nor at anything in the trace but the entries
that were left out and the requests. -/
structure Timeless (keeps : Session → Prop) : Prop where
  elapsed : ∀ {s : Session} clock, keeps s → keeps { s with clock := clock }
  noted : ∀ {s : Session} {event : Event}, event.skipped? = none → event.request? = none →
    keeps s → keeps { s with trace := event :: s.trace }

/-- A property of sessions that looks neither at the time and the requests nor at anything in the trace
but the entries that were left out and the files. -/
structure Remote (keeps : Session → Prop) : Prop where
  elapsed : ∀ {s : Session} clock sent, keeps s → keeps { s with clock := clock, sent := sent }
  noted : ∀ {s : Session} {event : Event}, event.skipped? = none → event.opened? = none → keeps s →
    keeps { s with trace := event :: s.trace }

/-- A property of sessions that looks neither at the time and the requests nor at anything in the trace
but the entries that were left out. -/
structure Distant (keeps : Session → Prop) : Prop where
  elapsed : ∀ {s : Session} clock sent, keeps s → keeps { s with clock := clock, sent := sent }
  noted : ∀ {s : Session} {event : Event}, event.skipped? = none → keeps s →
    keeps { s with trace := event :: s.trace }

theorem Timeless.unhurried {keeps : Session → Prop} (h : Timeless keeps) : Unhurried keeps where
  elapsed := h.elapsed
  noted := fun hskipped hrequest _ hs => h.noted hskipped hrequest hs

theorem Remote.unhurried {keeps : Session → Prop} (h : Remote keeps) : Unhurried keeps where
  elapsed := fun clock hs => h.elapsed clock _ hs
  noted := fun hskipped _ hopened hs => h.noted hskipped hopened hs

theorem Distant.timeless {keeps : Session → Prop} (h : Distant keeps) : Timeless keeps where
  elapsed := fun clock hs => h.elapsed clock _ hs
  noted := fun hskipped _ hs => h.noted hskipped hs

theorem Distant.remote {keeps : Session → Prop} (h : Distant keeps) : Remote keeps where
  elapsed := h.elapsed
  noted := fun hskipped _ hs => h.noted hskipped hs

theorem Aloof.distant {keeps : Session → Prop} (h : Aloof keeps) : Distant keeps where
  elapsed := fun clock sent hs => h _ clock sent _ hs
  noted := fun _ hs => h _ _ _ _ hs

namespace External

open Resolving

theorem keeping_note {keeps : Session → Prop} (haloof : Aloof keeps) (event : Event) :
    Keeping keeps (emit event) :=
  keeping_modify fun s hs => haloof s s.clock s.sent (event :: s.trace) hs

section Unhurried

variable {keeps : Session → Prop} (hunhurried : Unhurried keeps)
include hunhurried

theorem keeping_noteAside {event : Event} (hskipped : event.skipped? = none)
    (hrequest : event.request? = none) (hopened : event.opened? = none) :
    Keeping keeps (emit event) :=
  keeping_modify fun _ hs => hunhurried.noted hskipped hrequest hopened hs

theorem keeps_elapse {s : Session} (hs : keeps s) (seconds : Number) :
    keeps (s.elapse seconds) := by
  unfold Session.elapse
  split
  · exact hunhurried.elapsed _ hs
  · exact hs

theorem keeping_awaiting : Keeping keeps await :=
  keeping_await fun hs => hunhurried.noted rfl rfl rfl hs

theorem keeping_pause (settings : ExternalSettings) (attempt : Nat) :
    Keeping keeps (pause settings attempt) := by
  unfold pause
  refine (keeping_check _).bind fun backoff => (keeping_check _).bind fun seconds => ?_
  refine (keeping_noteAside hunhurried rfl rfl rfl).bind fun _ => ?_
  refine Keeping.guard (keeping_modify fun s hs => keeps_elapse hunhurried hs seconds) ?_
  exact keeping_awaiting hunhurried

theorem keeping_retry {once : Resolving String} (honce : Keeping keeps once)
    (settings : ExternalSettings) (url : String) (total left : Nat) (last : Fault) :
    Keeping keeps (retry once settings url total left last) := by
  induction left generalizing last with
  | zero => exact keeping_throw _
  | succ left ih =>
      rw [retry]
      refine Keeping.guard (keeping_pause hunhurried settings _) ?_
      refine honce.attempt.bind fun outcome => ?_
      split
      · exact keeping_pure _
      · split
        · exact (keeping_noteAside hunhurried rfl rfl rfl).bind fun _ => ih _
        · exact keeping_throw _
      · exact keeping_throw _

end Unhurried

theorem keeping_readFile {keeps : Session → Prop} (htimeless : Timeless keeps) (location : String) :
    Keeping keeps (readFile location) := by
  unfold readFile
  refine keeping_read.bind fun scene => (keeping_awaiting htimeless.unhurried).bind fun _ => ?_
  refine Keeping.guard (keeping_fault _) (Keeping.guard (keeping_throw _) ?_)
  refine Keeping.bind (keeping_modify fun _ hs => htimeless.noted rfl rfl hs) fun _ => ?_
  split
  · exact keeping_pure _
  · split
    · exact keeping_throw _
    · exact keeping_fault _

theorem keeping_noteOther {keeps : Session → Prop} (hdistant : Distant keeps) {event : Event}
    (hevent : event.skipped? = none) : Keeping keeps (emit event) :=
  keeping_modify fun _ hs => hdistant.noted hevent hs

section Remote

variable {keeps : Session → Prop} (hremote : Remote keeps)
include hremote

theorem keeping_sendOne (a : Attempt) (target : Target) (trusted : Bool) :
    Keeping keeps (sendOne a target trusted) := by
  unfold sendOne
  refine keeping_get.bind fun s => keeping_read.bind fun scene => ?_
  dsimp only
  refine Keeping.bind (keeping_modify fun _ hs => hremote.noted rfl rfl hs) fun _ =>
    Keeping.bind (keeping_modify ?_) fun _ => (keeping_awaiting hremote.unhurried).bind fun _ => ?_
  · intro t ht
    have helapsed := keeps_elapse hremote.unhurried ht (scene.reply target.text
      ((Ordered.get? target.text s.sent).getD 0)).1
    exact hremote.elapsed _ _ helapsed
  · split
    · exact keeping_pure _
    · exact keeping_fault _

theorem keeping_send (a : Attempt) (budget hops : Nat) (trusted : Bool) (target : Target) :
    Keeping keeps (send a budget hops trusted target) := by
  induction budget generalizing hops trusted target with
  | zero => exact keeping_fault _
  | succ budget ih =>
      rw [send]
      refine Keeping.guard (keeping_fault _) ?_
      refine (keeping_sendOne hremote a target trusted).bind fun response => ?_
      split
      · exact keeping_pure _
      · dsimp only
        split
        · exact keeping_pure _
        · refine (keeping_check _).bind fun next => ?_
          split
          · exact ih _ _ _
          · exact keeping_pure _

theorem keeping_attemptOnce (settings : ExternalSettings) (table : Table Value) (url : String) :
    Keeping keeps (attemptOnce settings table url) := by
  unfold attemptOnce
  refine (keeping_check _).bind fun timeout => (keeping_check _).bind fun target => ?_
  refine (keeping_check _).bind fun fields => keeping_read.bind fun scene => ?_
  refine Keeping.either (keeping_check _) (keeping_pure _) fun maxRedirects => ?_
  have hsend : ∀ configured, Keeping keeps (do
      let response ← send ⟨configured, fields, timeout, maxRedirects, scene.followsRedirects⟩
        (hopBudget maxRedirects) 0 true target
      if 200 ≤ response.status ∧ response.status < 300 then return response.text
      else fault (.httpStatus response.status) : Resolving String) := by
    intro configured
    refine (keeping_send hremote _ _ _ _ _).bind fun response => ?_
    split
    · exact keeping_pure _
    · exact keeping_fault _
  dsimp only
  split
  · exact (keeping_check _).bind hsend
  · exact (keeping_pure _).bind hsend

theorem keeping_fetch (url : String) : Keeping keeps (fetch url) := by
  unfold fetch
  refine keeping_get.bind fun s => (keeping_lift _).bind fun _ => ?_
  refine (keeping_check _).bind fun table => (keeping_check _).bind fun total => ?_
  exact keeping_retry hremote.unhurried (keeping_attemptOnce hremote _ _ _) _ _ _ _ _

end Remote

section Loading

variable {keeps : Session → Prop}

/-- Loading keeps what reading, fetching and the keeping of documents keep. -/
theorem keeping_load_of (htimeless : Timeless keeps)
    (hfetch : ∀ location, Keeping keeps (fetch location))
    (hrecall : ∀ location, Keeping keeps (recallDocument location))
    (hkeep : ∀ location raw, Keeping keeps (keep location raw)) (location : String) :
    Keeping keeps (load location) := by
  unfold load
  refine (hrecall location).bind fun found => ?_
  split
  · exact keeping_pure _
  · refine Keeping.either (hfetch location) (keeping_readFile htimeless location) ?_
    refine fun text => (keeping_lift _).bind fun raw => ?_
    split
    · exact keeping_throw _
    · exact (hkeep location raw).bind fun _ => keeping_pure _

/-- Looking up a schema of another document keeps what loading documents keeps. -/
theorem keeping_resolve_of (hload : ∀ location, Keeping keeps (load location)) (reference : Value)
    (base : String) (depth : Value) : Keeping keeps (resolve reference base depth) := by
  unfold resolve
  refine keeping_get.bind fun s => (keeping_check _).bind fun limit => ?_
  refine (keeping_check _).bind fun number => Keeping.guard (keeping_throw _) ?_
  split
  · refine Keeping.guard (keeping_throw _) ?_
    refine (keeping_check _).bind fun location => (hload location).bind fun raw => ?_
    dsimp only
    split
    · exact keeping_lift _
    · exact keeping_throw _
    · exact keeping_fault _
  · exact keeping_throw _

end Loading

section Forgetful

variable {keeps : Session → Prop} (hforgetful : Forgetful keeps)
include hforgetful

theorem keeping_recallDocument (location : String) : Keeping keeps (recallDocument location) := by
  unfold recallDocument
  refine keeping_get.bind fun s => ?_
  split
  · exact keeping_pure _
  · split
    · exact keeping_pure _
    · refine (keeping_check _).bind fun stale => ?_
      split
      · exact (keeping_modify fun t ht => hforgetful t _ ht).bind fun _ => keeping_pure _
      · exact keeping_pure _

theorem keeping_keep (location : String) (raw : Value) : Keeping keeps (keep location raw) := by
  unfold keep
  refine keeping_get_bind fun scene s hs => ?_
  split
  · dsimp only
    have hset : ∀ act : Unit → Resolving Unit, (∀ u, Keeping keeps (act u)) →
        keeps (((set { s with
          external := Ordered.write location ⟨s.clock, raw⟩ s.external } : Resolving Unit) >>= act)
            scene s).2 := by
      intro act hact
      rw [bind_apply]
      exact hact () scene _ (hforgetful s _ hs)
    refine hset _ fun _ => (keeping_check _).bind fun bound => ?_
    split
    · exact keeping_modify fun t ht => hforgetful t _ ht
    · exact (keeping_modify fun t ht => hforgetful t _ ht).bind fun _ => keeping_fault _
  · exact hs

/-- Looking up a schema of another document keeps what looks outside at most for entries that were
left out. -/
theorem keeping_resolve_distant (hdistant : Distant keeps) (reference : Value) (base : String)
    (depth : Value) : Keeping keeps (resolve reference base depth) := by
  refine keeping_resolve_of (fun location => ?_) reference base depth
  exact keeping_load_of hdistant.timeless (keeping_fetch hdistant.remote)
    (keeping_recallDocument hforgetful) (keeping_keep hforgetful) location

end Forgetful

section Inward

variable {keeps : Session → Prop} (hin : Inward keeps)
include hin

theorem keeping_emit (event : Event) : Keeping keeps (emit event) :=
  keeping_note hin.aloof event

theorem keeping_load (location : String) : Keeping keeps (load location) :=
  keeping_load_of hin.aloof.distant.timeless (keeping_fetch hin.aloof.distant.remote)
    (keeping_recallDocument hin.forgetful) (keeping_keep hin.forgetful) location

/-- Looking up a schema of another document keeps what does not look outside. -/
theorem keeping_resolve (reference : Value) (base : String) (depth : Value) :
    Keeping keeps (resolve reference base depth) :=
  keeping_resolve_distant hin.forgetful hin.aloof.distant reference base depth

end Inward

end External

end SchemaGraph
