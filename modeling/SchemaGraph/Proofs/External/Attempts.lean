import SchemaGraph.Proofs.Outcome
import SchemaGraph.Proofs.Runs
import SchemaGraph.Proofs.Store.Counted

/-!
# Attempts to fetch a document

A document is asked for until it is given or the attempts are used up.  Before each attempt but the
first there is a pause, which is the backoff as many times as there were attempts before; after each
attempt that fails there is a warning.  So the replies decide how many requests are sent: as many as
it takes to be answered with a success, and no more than there are attempts (`fetch_attempts`).

Here redirects are not followed, so every attempt sends one request and gets one reply.  What one
attempt does is said first (`retry_step`); what some failing attempts do follows by induction on
their number (`Fits.run`).
-/

namespace SchemaGraph

open Resolving

namespace Session

/-- The number of requests that were sent to a URL. -/
def requestsTo (s : Session) (url : String) : Nat := (Ordered.get? url s.sent).getD 0

@[simp] theorem elapse_trace (s : Session) (seconds : Number) :
    (s.elapse seconds).trace = s.trace := by
  unfold elapse
  split <;> rfl

@[simp] theorem elapse_sent (s : Session) (seconds : Number) :
    (s.elapse seconds).sent = s.sent := by
  unfold elapse
  split <;> rfl

end Session

namespace Reply

/-- The text of a reply that is a success. -/
def text? : Reply → Option String
  | .answered answer =>
    if 200 ≤ answer.status ∧ answer.status < 300 then some answer.text else none
  | .lost _ => none

/-- What a request comes to with a reply. -/
def answer : Reply → Except Fault Response
  | .answered answer => .ok answer
  | .lost kind => .error (.transport kind)

/-- What a client that does not follow redirects makes of an answer.  It still looks where a
redirect leads. -/
def heed (target : Target) (answer : Response) : Except Fault Response :=
  match answer.location with
  | none => .ok answer
  | some location =>
    if External.redirects.contains answer.status then do
      let _ ← target.redirect location
      return answer
    else .ok answer

/-- The text of an answer, if it is a success. -/
def textOf (answer : Response) : Except Fault String :=
  if 200 ≤ answer.status ∧ answer.status < 300 then .ok answer.text
  else .error (.httpStatus answer.status)

/-- What an attempt comes to with a reply. -/
def outcome (target : Target) (reply : Reply) : Except Fault String :=
  (reply.answer >>= heed target) >>= textOf

/-- Whatever is made of an answer is the answer itself. -/
theorem eq_of_heed {target : Target} {answer answer' : Response}
    (h : heed target answer = .ok answer') : answer = answer' := by
  unfold heed at h
  split at h
  · exact Except.ok.inj h
  · split at h
    · obtain ⟨next, -, h⟩ := bind_eq_ok.mp h
      exact Except.ok.inj h
    · exact Except.ok.inj h

/-- A success is no redirect, so it is taken as it is. -/
theorem heed_success (target : Target) {answer : Response}
    (h : 200 ≤ answer.status ∧ answer.status < 300) : heed target answer = .ok answer := by
  have hredirect : External.redirects.contains answer.status = false := by
    simp [External.redirects]
    omega
  unfold heed
  cases answer.location with
  | none => rfl
  | some location => simp only [hredirect, Bool.false_eq_true, if_false]

/-- An attempt succeeds exactly with a reply that is a success. -/
theorem outcome_eq_ok {target : Target} {reply : Reply} {text : String} :
    reply.outcome target = .ok text ↔ reply.text? = some text := by
  unfold outcome
  cases reply with
  | lost kind =>
    constructor
    · intro h
      cases h
    · intro h
      cases h
  | answered answer =>
    change heed target answer >>= textOf = .ok text ↔ _
    rw [bind_eq_ok]
    unfold text? textOf
    dsimp only
    by_cases hstatus : 200 ≤ answer.status ∧ answer.status < 300
    · rw [if_pos hstatus]
      constructor
      · intro h
        obtain ⟨answer', hheed, htext⟩ := h
        rw [← eq_of_heed hheed, if_pos hstatus] at htext
        rw [Except.ok.inj htext]
      · intro h
        refine ⟨answer, heed_success target hstatus, ?_⟩
        rw [if_pos hstatus, Option.some.inj h]
    · rw [if_neg hstatus]
      constructor
      · intro h
        obtain ⟨answer', hheed, htext⟩ := h
        rw [← eq_of_heed hheed, if_neg hstatus] at htext
        cases htext
      · intro h
        cases h

end Reply

namespace External

/-- The request by which an attempt asks for a target. -/
def Attempt.request (a : Attempt) (target : Target) (trusted : Bool) : Request :=
  ⟨target.text, shownHeaders a.configured a.fields trusted, a.timeout⟩

variable {world : World} {s : Session}

/-- What one request to a target comes to: its result, its note in the trace and its count. -/
def Asked {α : Type} (world : World) (request : Request) (target : Target) (s : Session)
    (come : Reply → Except Fault α) (result : Except Failure α) (t : Session) : Prop :=
  result = orFail (come (world.reply target.text (s.requestsTo target.text)).2) ∧
    t.trace = .requested request :: s.trace ∧
      t.requestsTo target.text = s.requestsTo target.text + 1

/-- What is made of an answer, where the session is no longer changed. -/
theorem Asked.bind {α β : Type} {act : Resolving α} {next : α → Resolving β} {request : Request}
    {target : Target} {come : Reply → Except Fault α} {further : α → Except Fault β}
    (h : Ensures act world s (Asked world request target s come))
    (hnext : ∀ a t, next a world t = (orFail (further a), t)) :
    Ensures (act >>= next) world s
      (Asked world request target s fun reply => come reply >>= further) := by
  apply Ensures.bind h
  · intro a t hasked
    obtain ⟨hresult, hnoted⟩ := hasked
    have hcome := orFail_eq_ok.mp hresult.symm
    unfold Ensures
    rw [hnext]
    refine ⟨?_, hnoted⟩
    dsimp only
    rw [hcome]
    rfl
  · intro failure t hasked
    obtain ⟨hresult, hnoted⟩ := hasked
    refine ⟨?_, hnoted⟩
    dsimp only
    cases hcome : come (world.reply target.text (s.requestsTo target.text)).2 with
    | ok a =>
      rw [hcome] at hresult
      cases hresult
    | error f =>
      rw [hcome] at hresult
      rw [Except.error.inj hresult]
      rfl

/-- Sending a request: it is noted and counted. -/
theorem ensures_sendOne (a : Attempt) (target : Target) (trusted : Bool) :
    Ensures (sendOne a target trusted) world s
      (Asked world (a.request target trusted) target s Reply.answer) := by
  have hcount : ∀ t : Session, t.sent =
      Ordered.write target.text (s.requestsTo target.text + 1) s.sent →
        t.requestsTo target.text = s.requestsTo target.text + 1 := by
    intro t ht
    simp [Session.requestsTo, ht, Ordered.get_write]
  unfold sendOne emit
  rw [ensures_get_bind, ensures_bind, ensures_read]
  unfold After
  dsimp only
  rw [ensures_modify_bind, ensures_modify_bind, ensures_await_bind]
  unfold Asked
  change Ensures (match (world.reply target.text (s.requestsTo target.text)).2 with
    | .answered response => pure response
    | .lost kind => fault (.transport kind)) _ _ _
  cases (world.reply target.text (s.requestsTo target.text)).2 with
  | answered answer => exact ⟨rfl, Session.elapse_trace _ _, hcount _ rfl⟩
  | lost kind => exact ⟨rfl, Session.elapse_trace _ _, hcount _ rfl⟩

/-- A client that follows no redirects sends one request. -/
theorem ensures_send {a : Attempt} (hmax : a.maxRedirects = defaultMaxRedirects)
    (hfollows : a.follows = false) (target : Target) (trusted : Bool) (budget : Nat) :
    Ensures (send a (budget + 1) 0 trusted target) world s
      (Asked world (a.request target trusted) target s fun reply =>
        reply.answer >>= Reply.heed target) := by
  have hhops : Number.lt a.maxRedirects (.int (0 : Nat)) = false := by
    rw [hmax]
    rfl
  rw [send, hhops, if_neg Bool.false_ne_true]
  apply Asked.bind (ensures_sendOne a target trusted)
  intro answer t
  unfold Reply.heed
  cases answer.location with
  | none => rfl
  | some location =>
    dsimp only
    by_cases hredirect : redirects.contains answer.status
    · rw [hredirect, if_neg (by simp), if_pos rfl, bind_apply]
      cases target.redirect location with
      | ok next =>
        simp only [hfollows, Bool.false_eq_true, if_false]
        rfl
      | error f => rfl
    · simp only [hredirect]
      rfl

/-- What a client that follows no redirects needs to send a request to a URL. -/
structure Sendable (settings : ExternalSettings) (url : String) (table : Table Value)
    (target : Target) (a : Attempt) : Prop where
  headers : headerTable settings = .ok table
  fields : headerFields table = .ok a.fields
  configured : ∃ entries, settings.headers = .map entries ∧
    (entries.mapM fun entry => headerText entry.1) = .ok a.configured
  timeout : (do Number.div (← settings.timeoutMs.number) (.int 1000)) = .ok a.timeout
  target : Target.ofRequest url = .ok target
  maxRedirects : a.maxRedirects = defaultMaxRedirects
  follows : a.follows = false

/-- One attempt sends one request, and comes to what is replied to it. -/
theorem ensures_attemptOnce {settings : ExternalSettings} {url : String} {table : Table Value}
    {target : Target} {a : Attempt} (hsendable : Sendable settings url table target a)
    (hworld : world.followsRedirects = false) :
    Ensures (attemptOnce settings table url) world s
      (Asked world (a.request target true) target s (Reply.outcome target)) := by
  obtain ⟨entries, hheaders, hconfigured⟩ := hsendable.configured
  -- the limit of redirects is not read from the settings where none are followed
  have hattempt : a = ⟨a.configured, a.fields, a.timeout, defaultMaxRedirects, false⟩ := by
    rw [← hsendable.maxRedirects, ← hsendable.follows]
  unfold attemptOnce
  rw [ensures_check_ok_bind hsendable.timeout, ensures_check_ok_bind hsendable.target,
    ensures_check_ok_bind hsendable.fields, ensures_bind, ensures_read]
  unfold After
  simp only [hworld, Bool.false_eq_true, if_false, hheaders]
  rw [ensures_bind, ensures_pure]
  unfold After
  dsimp only
  rw [ensures_check_ok_bind hconfigured, ← hattempt]
  apply Asked.bind (ensures_send hsendable.maxRedirects hsendable.follows target true _)
  intro answer t
  unfold Reply.textOf
  by_cases hstatus : 200 ≤ answer.status ∧ answer.status < 300
  · rw [if_pos hstatus, if_pos hstatus]
    rfl
  · rw [if_neg hstatus, if_neg hstatus]
    rfl

/-- Fetching the text at a URL from a client that follows no redirects: what is sent, how often and
with which pauses, and what is replied in turn. -/
structure Exchange where
  url : String
  target : Target
  attempt : Attempt
  retries : Int
  backoff : Number
  pause : Nat → Number
  reply : Nat → Reply

namespace Exchange

/-- The number of attempts that may be made. -/
def total (e : Exchange) : Nat := (max 1 (e.retries + 1)).toNat

/-- Whether the attempts before one fail, so that it is made. -/
def Reaches (e : Exchange) (i : Nat) : Prop := ∀ j < i, (e.reply j).text? = none

/-- The request that each attempt sends. -/
def request (e : Exchange) : Request := e.attempt.request e.target true

/-- What an attempt comes to. -/
def outcome (e : Exchange) (i : Nat) : Except Fault String := (e.reply i).outcome e.target

/-- The pause before an attempt, unless it is the first one. -/
def pauses (e : Exchange) (i : Nat) : List Event := if i = 0 then [] else [.waited (e.pause i)]

/-- The warning after an attempt, if it fails. -/
def warnings (e : Exchange) (i : Nat) : List Event :=
  match e.outcome i with
  | .ok _ => []
  | .error f => [.warned (.fetchFailed e.url (i + 1) e.total f)]

/-- What an attempt does to the outside, in order. -/
def events (e : Exchange) (i : Nat) : List Event :=
  e.pauses i ++ .requested e.request :: e.warnings i

/-- What the first attempts do to the outside, in order. -/
def eventsUpTo (e : Exchange) (count : Nat) : List Event := (List.range count).flatMap e.events

/-- Whether fetching a URL in a session goes this way. -/
structure Fits (e : Exchange) (world : World) (s : Session) : Prop where
  unfollowed : world.followsRedirects = false
  permitted : checkUrl s.externalSettings e.url = .ok ()
  sendable : ∃ table, Sendable s.externalSettings e.url table e.target e.attempt
  retries : s.externalSettings.retries.number = .ok (.int e.retries)
  backoff : s.externalSettings.retryBackoffSeconds.number = .ok e.backoff
  /-- The replies come in turn. -/
  reply : ∀ i, (world.reply e.target.text (s.requestsTo e.target.text + i)).2 = e.reply i
  /-- The pause before an attempt is the backoff as many times as there were attempts before. -/
  pause : ∀ i < e.total, 0 < i → e.Reaches i → e.backoff.mul (.int i) = .ok (e.pause i)
  /-- What fails is a status or a lost request. -/
  errors : ∀ i < e.total, e.Reaches i →
    ∀ f, e.outcome i = .error f → f.isRequestFault = true

end Exchange

/-- The number of attempts is one more than the retries, and at least one. -/
theorem attempts_eq {settings : ExternalSettings} {retries : Int}
    (h : settings.retries.number = .ok (.int retries)) :
    attempts settings = .ok (max 1 (retries + 1)).toNat := by
  unfold attempts
  rw [h]
  change (if Number.lt (.int 1) (.int (retries + 1)) then Except.ok (retries + 1).toNat
    else Except.ok 1) = _
  rw [Number.lt_int]
  by_cases hmore : 1 < retries + 1
  · rw [if_pos (by simpa using hmore), max_eq_right hmore.le]
  · rw [if_neg (by simpa using hmore), max_eq_left (by omega)]
    rfl

/-- A pause is noted, and nothing is sent. -/
theorem ensures_pause {settings : ExternalSettings} {backoff seconds : Number} {i : Nat}
    (hbackoff : settings.retryBackoffSeconds.number = .ok backoff)
    (hseconds : backoff.mul (.int i) = .ok seconds) :
    Ensures (pause settings (i + 1)) world s fun result t =>
      result = .ok () ∧ t.trace = .waited seconds :: s.trace ∧ t.sent = s.sent := by
  unfold pause emit
  rw [ensures_check_ok_bind hbackoff, Nat.add_sub_cancel, ensures_check_ok_bind hseconds,
    ensures_modify_bind]
  by_cases hlong : Number.lt (.int 0) seconds = true
  · rw [if_pos hlong, ensures_modify_bind]
    have hawait : ∀ u : Session, await world u = (.ok (), u) := await_apply world
    simp [Ensures, hawait]
  · rw [if_neg hlong]
    exact ⟨rfl, rfl, rfl⟩

/-- How the loop goes on with what an attempt came to. -/
def goOn (once : Resolving String) (settings : ExternalSettings) (url : String)
    (total left : Nat) : Except Failure String → Resolving String
  | .ok text => return text
  | .error (.fault f) =>
    if f.isRequestFault then do
      warn (.fetchFailed url (total - left) total f)
      retry once settings url total left f
    else throw (.fault f)
  | .error failure => throw failure

theorem retry_succ (once : Resolving String) (settings : ExternalSettings) (url : String)
    (total left : Nat) (last : Fault) :
    retry once settings url total (left + 1) last =
      if 1 < total - left then
        pause settings (total - left) >>= fun _ =>
          Resolving.attempt once >>= goOn once settings url total left
      else Resolving.attempt once >>= goOn once settings url total left :=
  rfl

namespace Exchange

variable {e : Exchange} {settings : ExternalSettings} {once : Resolving String}

/-- The request of an attempt and what follows it, and how the loop goes on from there. -/
theorem goOn_asked (settings : ExternalSettings) {i left : Nat} (hleft : i + (left + 1) = e.total)
    (honce : Ensures once world s (Asked world e.request e.target s (Reply.outcome e.target)))
    (hreply : (world.reply e.target.text (s.requestsTo e.target.text)).2 = e.reply i)
    (herrors : ∀ f, e.outcome i = .error f → f.isRequestFault = true) :
    ∃ t : Session, t.trace = (.requested e.request :: e.warnings i).reverse ++ s.trace ∧
      t.requestsTo e.target.text = s.requestsTo e.target.text + 1 ∧
        (Resolving.attempt once >>= goOn once settings e.url e.total left) world s =
          match e.outcome i with
          | .ok text => (.ok text, t)
          | .error f => retry once settings e.url e.total left f world t := by
  obtain ⟨hresult, htrace, hcount⟩ := honce
  rw [hreply] at hresult
  change _ = orFail (e.outcome i) at hresult
  have hattempt : e.total - left = i + 1 := by omega
  rw [bind_apply, attempt_apply, hresult]
  unfold warnings
  cases houtcome : e.outcome i with
  | ok text => exact ⟨(once world s).2, by simp [htrace], hcount, rfl⟩
  | error f =>
    refine ⟨{ (once world s).2 with
      trace := .warned (.fetchFailed e.url (i + 1) e.total f) :: (once world s).2.trace },
      ?_, hcount, ?_⟩
    · simp [htrace]
    · simp only [orFail, goOn, herrors f houtcome, if_true, hattempt]
      rw [bind_apply]
      rfl

/-- One attempt: what it does to the outside, and how the loop goes on from it. -/
theorem retry_step {i left : Nat} (last : Fault) (hleft : i + (left + 1) = e.total)
    (honce : ∀ u, Ensures once world u (Asked world e.request e.target u (Reply.outcome e.target)))
    (hbackoff : settings.retryBackoffSeconds.number = .ok e.backoff)
    (hpause : 0 < i → e.backoff.mul (.int i) = .ok (e.pause i))
    (hreply : (world.reply e.target.text (s.requestsTo e.target.text)).2 = e.reply i)
    (herrors : ∀ f, e.outcome i = .error f → f.isRequestFault = true) :
    ∃ t : Session, t.trace = (e.events i).reverse ++ s.trace ∧
      t.requestsTo e.target.text = s.requestsTo e.target.text + 1 ∧
        retry once settings e.url e.total (left + 1) last world s =
          match e.outcome i with
          | .ok text => (.ok text, t)
          | .error f => retry once settings e.url e.total left f world t := by
  have hattempt : e.total - left = i + 1 := by omega
  rw [retry_succ, hattempt]
  unfold events pauses
  by_cases hfirst : i = 0
  -- the loop numbers attempts from one, so only those after the first find a number above one
  · rw [if_pos hfirst, if_neg (by omega), List.nil_append]
    exact goOn_asked settings hleft (honce s) hreply herrors
  · rw [if_neg hfirst, if_pos (by omega), bind_apply]
    have hpaused : Ensures (External.pause settings (i + 1)) world s fun result u =>
        result = .ok () ∧ u.trace = .waited (e.pause i) :: s.trace ∧ u.sent = s.sent :=
      ensures_pause hbackoff (hpause (by omega))
    obtain ⟨hresult, htrace, hsent⟩ := hpaused
    rcases hrun : External.pause settings (i + 1) world s with ⟨result, u⟩
    rw [hrun] at hresult htrace hsent
    subst hresult
    have hcount : u.requestsTo e.target.text = s.requestsTo e.target.text := by
      unfold Session.requestsTo
      rw [hsent]
    obtain ⟨t, htrace', hcount', hrun'⟩ := goOn_asked settings hleft (honce u) (hcount ▸ hreply)
      herrors
    refine ⟨t, ?_, ?_, hrun'⟩
    · rw [htrace', htrace]
      simp
    · rw [hcount', hcount]

/-- An attempt that fails leaves a fault. -/
theorem outcome_of_failed {i : Nat} (h : (e.reply i).text? = none) :
    ∃ f, e.outcome i = .error f := by
  cases houtcome : e.outcome i with
  | error f => exact ⟨f, rfl⟩
  | ok text =>
    rw [Reply.outcome_eq_ok.mp houtcome] at h
    cases h

theorem eventsUpTo_succ (e : Exchange) (count : Nat) :
    e.eventsUpTo (count + 1) = e.eventsUpTo count ++ e.events count := by
  unfold eventsUpTo
  rw [List.range_succ, List.flatMap_append, List.flatMap_singleton]

theorem total_pos (e : Exchange) : 0 < e.total := by
  unfold total
  omega

section Fits

variable {table : Table Value} (h : e.Fits world s)
  (hsendable : Sendable s.externalSettings e.url table e.target e.attempt)
include h hsendable

/-- An attempt that is made, after as many requests as there were attempts before. -/
theorem Fits.step {i : Nat} {u : Session} (hi : i < e.total) (hreaches : e.Reaches i) (last : Fault)
    (hu : u.requestsTo e.target.text = s.requestsTo e.target.text + i) :
    ∃ t : Session, t.trace = (e.events i).reverse ++ u.trace ∧
      t.requestsTo e.target.text = s.requestsTo e.target.text + (i + 1) ∧
        retry (attemptOnce s.externalSettings table e.url) s.externalSettings e.url e.total
            (e.total - i) last world u =
          match e.outcome i with
          | .ok text => (.ok text, t)
          | .error f =>
            retry (attemptOnce s.externalSettings table e.url) s.externalSettings e.url e.total
              (e.total - (i + 1)) f world t := by
  have hleft : e.total - i = e.total - (i + 1) + 1 := by omega
  have hreply : (world.reply e.target.text (u.requestsTo e.target.text)).2 = e.reply i := by
    rw [hu, h.reply i]
  have hrest : i + (e.total - (i + 1) + 1) = e.total := by omega
  obtain ⟨t, htrace, hcount, hrun⟩ := retry_step last hrest
    (fun v => ensures_attemptOnce (s := v) hsendable h.unfollowed) h.backoff
    (fun hpositive => h.pause i hi hpositive hreaches) hreply (h.errors i hi hreaches)
  rw [← hleft] at hrun
  exact ⟨t, htrace, by omega, hrun⟩

/-- The loop after some attempts that failed. -/
theorem Fits.run {count : Nat} (hcount : count ≤ e.total) (hreaches : e.Reaches count)
    (start : Fault) :
    ∃ (last : Fault) (t : Session), (∀ i, count = i + 1 → e.outcome i = .error last) ∧
      t.trace = (e.eventsUpTo count).reverse ++ s.trace ∧
        t.requestsTo e.target.text = s.requestsTo e.target.text + count ∧
          retry (attemptOnce s.externalSettings table e.url) s.externalSettings e.url e.total
              e.total start world s =
            retry (attemptOnce s.externalSettings table e.url) s.externalSettings e.url e.total
              (e.total - count) last world t := by
  -- on the number of attempts that failed: as many requests were sent, so the next reply is the one
  -- that the next attempt gets
  induction count with
  | zero => exact ⟨start, s, by simp, rfl, rfl, rfl⟩
  | succ count ih =>
    have hearlier : e.Reaches count := fun j hj => hreaches j (by omega)
    obtain ⟨last, u, -, htrace, hsent, hrun⟩ := ih (by omega) hearlier
    obtain ⟨t, htrace', hsent', hrun'⟩ := h.step hsendable (by omega) hearlier last hsent
    obtain ⟨f, hf⟩ := outcome_of_failed (hreaches count (by omega))
    rw [hf] at hrun'
    refine ⟨f, t, ?_, ?_, hsent', hrun.trans hrun'⟩
    · intro i hi
      obtain rfl : count = i := by omega
      exact hf
    · rw [htrace', htrace, eventsUpTo_succ, List.reverse_append, List.append_assoc]

end Fits

/-- Fetching is the loop of attempts. -/
theorem Fits.fetch (h : e.Fits world s) {table : Table Value}
    (hsendable : Sendable s.externalSettings e.url table e.target e.attempt) :
    fetch e.url world s =
      retry (attemptOnce s.externalSettings table e.url) s.externalSettings e.url e.total e.total
        .budgetExhausted world s := by
  have hattempts : attempts s.externalSettings = .ok e.total := attempts_eq h.retries
  unfold External.fetch
  rw [bind_apply]
  change (lift (checkUrl s.externalSettings e.url) >>= _) world s = _
  rw [h.permitted, hsendable.headers, hattempts]
  rfl

end Exchange

/-- A document is asked for until it is given or the attempts are used up.  Each attempt made sends
one request, after its pause, and those that fail are warned of, in this order. -/
theorem fetch_attempts {e : Exchange} (h : e.Fits world s) :
    Ensures (fetch e.url) world s fun result t =>
      (∀ i text, i < e.total → e.Reaches i → (e.reply i).text? = some text →
        result = .ok text ∧ t.trace = (e.eventsUpTo (i + 1)).reverse ++ s.trace) ∧
      (e.Reaches e.total →
        ∃ f, e.outcome (e.total - 1) = .error f ∧
          result = .error (.unavailable (.notFetched e.url e.total f)) ∧
            t.trace = (e.eventsUpTo e.total).reverse ++ s.trace) := by
  obtain ⟨table, hsendable⟩ := h.sendable
  unfold Ensures
  rw [h.fetch hsendable]
  constructor
  · intro i text hi hreaches htext
    obtain ⟨last, u, -, htrace, hsent, hrun⟩ := h.run hsendable hi.le hreaches .budgetExhausted
    obtain ⟨t, htrace', -, hrun'⟩ := h.step hsendable hi hreaches last hsent
    rw [show e.outcome i = .ok text from Reply.outcome_eq_ok.mpr htext] at hrun'
    rw [hrun, hrun', Exchange.eventsUpTo_succ, List.reverse_append, List.append_assoc, ← htrace]
    exact ⟨rfl, htrace'⟩
  · intro hreaches
    obtain ⟨last, t, hlast, htrace, -, hrun⟩ := h.run hsendable le_rfl hreaches .budgetExhausted
    -- there is a last attempt, so what the loop was started with is not the cause
    have hpositive := e.total_pos
    rw [hrun, Nat.sub_self]
    exact ⟨last, hlast (e.total - 1) (by omega), rfl, htrace⟩

/-- A world whose server is unavailable at first, then lost, and answers the third request. -/
def flakyWorld : World where
  workingDirectory := ⟨1, []⟩
  files := []
  reply := fun _ count =>
    (.int 0,
      match count with
      | 0 => .answered ⟨503, "", none⟩
      | 1 => .lost "ConnectError"
      | _ => .answered ⟨200, "openapi: 3.0.0", none⟩)
  followsRedirects := false

/-- A document fetched with the third of three attempts. -/
def flakyExchange : Exchange where
  url := "http://h/a.yaml"
  target := ⟨"http", [], ['h'], none, "/a.yaml".toList, none, none⟩
  attempt := ⟨[], [("User-Agent", "openapi-schema-resolver/1.0.0")], Binary64.ofInt 30,
    defaultMaxRedirects, false⟩
  retries := 2
  backoff := .double (Binary64.ofInt 1)
  pause := fun i => .double (Binary64.ofInt i)
  reply := fun count => (flakyWorld.reply "http://h/a.yaml" count).2

theorem flakyExchange_fits :
    flakyExchange.Fits flakyWorld (Session.start {} (.int 0, .int 0) 0) := by
  have htotal : flakyExchange.total = 3 := rfl
  constructor
  case unfollowed => rfl
  case permitted => rfl
  case retries => rfl
  case backoff => rfl
  case sendable =>
    refine ⟨[(.str agentHeader, .str "openapi-schema-resolver/1.0.0")], ?_⟩
    constructor
    case configured => exact ⟨[], rfl, rfl⟩
    case target => exact toOption_eq_some.mp (by decide +kernel)
    all_goals rfl
  case reply =>
    intro i
    change (flakyWorld.reply _ (0 + i)).2 = _
    rw [Nat.zero_add]
    rfl
  case pause =>
    intro i hi hpositive hreaches
    rw [htotal] at hi
    obtain rfl | rfl : i = 1 ∨ i = 2 := by omega
    · rfl
    · rfl
  case errors =>
    intro i hi hreaches f hf
    rw [htotal] at hi
    obtain rfl | rfl | rfl : i = 0 ∨ i = 1 ∨ i = 2 := by omega
    · cases hf
      rfl
    · cases hf
      rfl
    · cases hf

theorem fetch_attempts_flaky :
    flakyExchange.Fits flakyWorld (Session.start {} (.int 0, .int 0) 0) ∧
      Ensures (fetch flakyExchange.url) flakyWorld (Session.start {} (.int 0, .int 0) 0)
        fun result t => result = .ok "openapi: 3.0.0" ∧
          t.trace = (flakyExchange.eventsUpTo 3).reverse := by
  have hfetched := (fetch_attempts flakyExchange_fits).1 2 "openapi: 3.0.0" (by decide) ?_ rfl
  · exact ⟨flakyExchange_fits, hfetched.1, hfetched.2.trans (List.append_nil _)⟩
  · intro j hj
    obtain rfl | rfl : j = 0 ∨ j = 1 := by omega
    · rfl
    · rfl

end External

end SchemaGraph
