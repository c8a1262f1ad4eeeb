import Mathlib.Logic.Relation
import SchemaGraph.Proofs.External.Attempts
import SchemaGraph.Proofs.Keeping

/-!
# Texts that were asked for

Reading a file and fetching leave notes of what was opened and requested.  Notes are never taken back,
and an operation that reads or fetches gives no text unless it has left one.  So a document that is
given while no further note is left was at hand already.

What is requested is owed to a URL from which documents may be fetched.  The check is made once, for the
URL that was asked for; each attempt then starts at the target of this URL, and any other target is one
to which redirects have led from there.
-/

namespace SchemaGraph

open Relation Resolving

/-- Whether an event asks for a text outside: it is a request or the opening of a file. -/
def Event.isAccess : Event → Bool
  | .requested _ | .opened _ => true
  | _ => false

/-- How often a text was asked for outside. -/
def Session.accesses (s : Session) : Nat := s.trace.countP Event.isAccess

/-- Accesses are never taken back. -/
theorem distant_accesses (n : Nat) : Distant fun s => n ≤ s.accesses where
  elapsed := fun _ _ hs => hs
  noted := by
    intro s event _ hs
    unfold Session.accesses at hs ⊢
    rw [List.countP_cons]
    omega

namespace Resolving

variable {α β : Type}

/-- Whether an operation asks for a text outside before it gives a result. -/
def Reaching (act : Resolving α) : Prop :=
  ∀ (world : World) s, Ensures act world s fun result t =>
    s.accesses ≤ t.accesses ∧ ∀ a, result = .ok a → s.accesses < t.accesses

/-- Whether an operation takes no access back. -/
abbrev Onward (act : Resolving α) : Prop := ∀ n, Keeping (fun s => n ≤ s.accesses) act

theorem reaching_throw (failure : Failure) : Reaching (throw failure : Resolving α) := by
  intro world s
  exact ⟨le_rfl, fun a heq => nomatch heq⟩

/-- What asks for a text first. -/
theorem Reaching.bind {act : Resolving α} {next : α → Resolving β} (h : Reaching act)
    (hnext : ∀ a, Onward (next a)) : Reaching (act >>= next) := by
  intro world s
  apply Ensures.bind (h world s)
  · intro a t hreached
    have hlater : t.accesses ≤ (next a world t).2.accesses := hnext a t.accesses world t le_rfl
    have hmore := hreached.2 a rfl
    exact ⟨by omega, fun b _ => by omega⟩
  · intro failure t hreached
    exact ⟨hreached.1, fun b heq => nomatch heq⟩

/-- What asks for a text later. -/
theorem Onward.bind_reaching {act : Resolving α} {next : α → Resolving β} (h : Onward act)
    (hnext : ∀ a, Reaching (next a)) : Reaching (act >>= next) := by
  intro world s
  apply Ensures.bind ((h s.accesses).ensures le_rfl)
  · intro a t hle
    obtain ⟨hlater, hmore⟩ := hnext a world t
    refine ⟨hle.trans hlater, ?_⟩
    intro b hb
    exact hle.trans_lt (hmore b hb)
  · intro failure t hle
    exact ⟨hle, fun b heq => nomatch heq⟩

/-- A step that fails under a condition before the rest. -/
theorem Reaching.guard {condition : Prop} [Decidable condition] {failing : Resolving PUnit}
    {rest : PUnit → Resolving β} (hfailing : Onward failing) (hrest : Reaching (rest ⟨⟩)) :
    Reaching (if condition then failing >>= rest else rest ⟨⟩) := by
  by_cases hcondition : condition
  · rw [if_pos hcondition]
    exact hfailing.bind_reaching fun _ => hrest
  · rw [if_neg hcondition]
    exact hrest

end Resolving

namespace External

/-- Sending a request asks for a text, whatever becomes of it. -/
theorem reaching_sendOne (a : Attempt) (target : Target) (trusted : Bool) :
    Reaching (sendOne a target trusted) := by
  intro world s
  apply (ensures_sendOne a target trusted).mono
  intro result t hasked
  obtain ⟨-, htrace, -⟩ := hasked
  have hcount : t.accesses = s.accesses + 1 := by
    unfold Session.accesses
    rw [htrace, List.countP_cons]
    rfl
  exact ⟨by omega, fun response _ => by omega⟩

theorem reaching_send (a : Attempt) (budget hops : Nat) (trusted : Bool) (target : Target) :
    Reaching (send a budget hops trusted target) := by
  cases budget with
  | zero => exact reaching_throw _
  | succ budget =>
    rw [send]
    refine Reaching.guard (fun n => keeping_fault _) ?_
    apply (reaching_sendOne a target trusted).bind
    intro response n
    split
    · exact keeping_pure _
    · dsimp only
      split
      · exact keeping_pure _
      · refine (keeping_check _).bind fun next => ?_
        split
        · exact keeping_send (distant_accesses n).remote a budget _ _ next
        · exact keeping_pure _

theorem reaching_attemptOnce (settings : ExternalSettings) (table : Table Value) (url : String) :
    Reaching (attemptOnce settings table url) := by
  have hsend : ∀ (a : Attempt) (budget : Nat) (target : Target), Reaching (do
      let response ← send a budget 0 true target
      if 200 ≤ response.status ∧ response.status < 300 then return response.text
      else fault (.httpStatus response.status) : Resolving String) := by
    intro a budget target
    apply (reaching_send a budget 0 true target).bind
    intro response n
    split
    · exact keeping_pure _
    · exact keeping_fault _
  unfold attemptOnce
  refine Onward.bind_reaching (fun n => keeping_check _) fun timeout => ?_
  refine Onward.bind_reaching (fun n => keeping_check _) fun target => ?_
  refine Onward.bind_reaching (fun n => keeping_check _) fun fields => ?_
  refine Onward.bind_reaching (fun n => keeping_read) fun world => ?_
  dsimp only
  -- whether redirects are followed only decides how many of them are allowed
  split
  all_goals
    refine Onward.bind_reaching (fun n => by first | exact keeping_check _ | exact keeping_pure _)
      fun maxRedirects => ?_
    split
    · exact Onward.bind_reaching (fun n => keeping_check _) fun configured => hsend _ _ _
    · exact Onward.bind_reaching (fun n => keeping_pure _) fun configured => hsend _ _ _

theorem reaching_retry {once : Resolving String} (honce : Reaching once)
    (settings : ExternalSettings) (url : String) (total left : Nat) (last : Fault) :
    Reaching (retry once settings url total left last) := by
  -- an attempt that gives a text has asked for it; after one that fails, the further ones do
  induction left generalizing last with
  | zero => exact reaching_throw _
  | succ left ih =>
    have hfailed : ∀ failure, Reaching (goOn once settings url total left (.error failure)) := by
      intro failure
      unfold goOn
      split
      · rename_i heq
        cases heq
      · split
        · exact Onward.bind_reaching (fun n => keeping_noteOther (distant_accesses n) rfl)
            fun _ => ih _
        · exact reaching_throw _
      · exact reaching_throw _
    have htried : Reaching (Resolving.attempt once >>= goOn once settings url total left) := by
      intro world s
      rw [ensures_bind, ensures_attempt]
      apply (honce world s).mono
      intro result t hreached
      cases result with
      | ok text => exact ⟨hreached.1, fun _ _ => hreached.2 text rfl⟩
      | error failure =>
        obtain ⟨hlater, hmore⟩ := hfailed failure world t
        exact ⟨hreached.1.trans hlater, fun text htext => hreached.1.trans_lt (hmore text htext)⟩
    rw [retry_succ]
    split
    · exact Onward.bind_reaching (fun n => keeping_pause (distant_accesses n).remote.unhurried settings _)
        fun _ => htried
    · exact htried

theorem reaching_fetch (url : String) : Reaching (fetch url) := by
  unfold fetch
  refine Onward.bind_reaching (fun n => keeping_get) fun s => ?_
  refine Onward.bind_reaching (fun n => keeping_lift _) fun _ => ?_
  refine Onward.bind_reaching (fun n => keeping_check _) fun table => ?_
  refine Onward.bind_reaching (fun n => keeping_check _) fun total => ?_
  exact reaching_retry (reaching_attemptOnce _ table url) _ url total total _

theorem reaching_readFile (location : String) : Reaching (readFile location) := by
  have hopened : ∀ path : String, Reaching (emit (.opened path)) := by
    intro path world s
    have hcount : s.accesses < s.accesses + 1 := by omega
    unfold emit
    rw [ensures_modify]
    unfold Session.accesses at hcount ⊢
    rw [List.countP_cons]
    exact ⟨hcount.le, fun _ _ => hcount⟩
  unfold readFile
  refine Onward.bind_reaching (fun n => keeping_read) fun scene => ?_
  refine Onward.bind_reaching
    (fun n => keeping_awaiting (distant_accesses n).timeless.unhurried) fun _ => ?_
  refine Reaching.guard (fun n => keeping_fault _) ?_
  refine Reaching.guard (fun n => keeping_throw _) ?_
  apply (hopened _).bind
  intro _ n
  split
  · exact keeping_pure _
  · split
    · exact keeping_throw _
    · exact keeping_fault _

end External

/-- Whether a redirect may lead from one target to another. -/
def Target.LeadsTo (t u : Target) : Prop := ∃ location, t.redirect location = .ok u

namespace External

/-- Whether a target may be asked for: it is that of a URL from which documents may be fetched, or
redirects lead to it from there. -/
def Permits (settings : ExternalSettings) (target : Target) : Prop :=
  ∃ url start, checkUrl settings url = .ok () ∧ Target.ofRequest url = .ok start ∧
    ReflTransGen Target.LeadsTo start target

theorem Permits.redirect {settings : ExternalSettings} {target next : Target} {location : String}
    (h : Permits settings target) (hnext : target.redirect location = .ok next) :
    Permits settings next := by
  obtain ⟨url, start, hcheck, hstart, hled⟩ := h
  exact ⟨url, start, hcheck, hstart, hled.tail ⟨location, hnext⟩⟩

/-- Documents may be fetched from a URL exactly if it has a scheme of the web, remote references are
enabled and its host is allowed. -/
theorem checkUrl_eq_ok_iff {settings : ExternalSettings} {url : String} :
    checkUrl settings url = .ok () ↔
      ∃ parts, Url.read "" url.toList = .ok parts ∧ parts.scheme ∈ fetchable ∧
        settings.enableRemoteReferences.truthy = true ∧
          allowsHost settings (Case.lower parts.host) = .ok true := by
  unfold checkUrl
  rw [bind_eq_ok]
  refine exists_congr fun parts => and_congr orFail_eq_ok ?_
  -- the scheme, the switch and the host are checked in this order
  refine guard_eq_ok.trans (and_congr (by simp) (guard_eq_ok.trans (and_congr (by simp) ?_)))
  rw [bind_eq_ok]
  constructor
  · rintro ⟨allowed, hallowed, h⟩
    cases allowed with
    | true => exact orFail_eq_ok.mp hallowed
    | false => cases h
  · intro hallowed
    exact ⟨true, orFail_eq_ok.mpr hallowed, rfl⟩

/-- A host is listed only if it is a listed domain or lies in one. -/
theorem exists_hostIn_of_isListed {host : String} {domains : List Value}
    (h : isListed host domains = .ok true) :
    ∃ domain, .str domain ∈ domains ∧ hostIn host domain = true := by
  induction domains with
  | nil => cases h
  | cons first rest ih =>
    cases first with
    | str domain =>
      rw [isListed] at h
      by_cases hin : hostIn host domain = true
      · exact ⟨domain, List.mem_cons_self, hin⟩
      · rw [if_neg hin] at h
        obtain ⟨later, hlater, hhost⟩ := ih h
        exact ⟨later, List.mem_cons_of_mem _ hlater, hhost⟩
    | _ => cases h

/-- What permits a target to be asked for: remote references are enabled, and where domains are listed,
the URL from which redirects lead to the target has a host in one of them. -/
theorem Permits.spec {settings : ExternalSettings} {target : Target} (h : Permits settings target) :
    settings.enableRemoteReferences.truthy = true ∧
      ∃ url parts start, Url.read "" url.toList = .ok parts ∧ parts.scheme ∈ fetchable ∧
        (settings.allowedDomains.truthy = true → ∃ domains domain,
          settings.allowedDomains.iterate = .ok domains ∧ .str domain ∈ domains ∧
            hostIn (Case.lower parts.host) domain = true) ∧
        Target.ofRequest url = .ok start ∧ ReflTransGen Target.LeadsTo start target := by
  obtain ⟨url, start, hcheck, hstart, hled⟩ := h
  obtain ⟨parts, hparts, hscheme, henabled, hallowed⟩ := checkUrl_eq_ok_iff.mp hcheck
  refine ⟨henabled, url, parts, start, hparts, hscheme, fun hlisted => ?_, hstart, hled⟩
  unfold allowsHost at hallowed
  rw [if_pos hlisted] at hallowed
  obtain ⟨domains, hdomains, hhost⟩ := bind_eq_ok.mp hallowed
  obtain ⟨domain, hdomain, hin⟩ := exists_hostIn_of_isListed hhost
  exact ⟨domains, domain, hdomains, hdomain, hin⟩

end External

/-- Whether a session has some settings for other documents, and has asked only for what they permit. -/
structure Session.Permitted (settings : ExternalSettings) (s : Session) : Prop where
  configured : s.externalSettings = settings
  permits : ∀ request ∈ s.requests, ∃ target, External.Permits settings target ∧
    request.url = target.text

namespace External

variable {settings : ExternalSettings}

theorem timeless_permitted : Timeless (Session.Permitted settings) where
  elapsed := fun _ hs => ⟨hs.configured, hs.permits⟩
  noted := by
    intro s event _ hevent hs
    refine ⟨hs.configured, ?_⟩
    unfold Session.requests
    rw [List.filterMap_cons_none hevent]
    exact hs.permits

/-- Asking for what is permitted. -/
theorem keeping_sendOne_permitted (a : Attempt) {target : Target} (h : Permits settings target)
    (trusted : Bool) : Keeping (Session.Permitted settings) (sendOne a target trusted) := by
  unfold sendOne
  refine keeping_get.bind fun s => keeping_read.bind fun scene => ?_
  dsimp only
  refine Keeping.bind (keeping_modify fun t ht => ⟨ht.configured, ?_⟩) fun _ =>
    Keeping.bind (keeping_modify fun t ht => ?_) fun _ =>
      (keeping_awaiting timeless_permitted.unhurried).bind fun _ => ?_
  · intro request hrequest
    rcases List.mem_cons.mp hrequest with rfl | hearlier
    · exact ⟨target, h, rfl⟩
    · exact ht.permits request hearlier
  · have helapsed := keeps_elapse timeless_permitted.unhurried ht (scene.reply target.text
      ((Ordered.get? target.text s.sent).getD 0)).1
    exact ⟨helapsed.configured, helapsed.permits⟩
  · split
    · exact keeping_pure _
    · exact keeping_fault _

/-- Redirects lead from what is permitted to what is permitted. -/
theorem keeping_send_permitted (a : Attempt) (budget hops : Nat) (trusted : Bool) {target : Target}
    (h : Permits settings target) :
    Keeping (Session.Permitted settings) (send a budget hops trusted target) := by
  induction budget generalizing hops trusted target with
  | zero => exact keeping_fault _
  | succ budget ih =>
    rw [send]
    refine Keeping.guard (keeping_fault _) ?_
    refine (keeping_sendOne_permitted a h trusted).bind fun response => ?_
    split
    · exact keeping_pure _
    · dsimp only
      split
      · exact keeping_pure _
      · have hredirect : ∀ location, Yields (Session.Permitted settings) (Permits settings)
            (check (target.redirect location)) :=
          fun location => yields_check fun next hnext => h.redirect hnext
        refine ((hredirect _).bind fun next hnext => ?_ : Yields _ (fun _ => True) _).keeping
        split
        · exact (ih _ _ hnext).yields
        · exact (keeping_pure _).yields

theorem keeping_attemptOnce_permitted (table : Table Value) {url : String}
    (hcheck : checkUrl settings url = .ok ()) :
    Keeping (Session.Permitted settings) (attemptOnce settings table url) := by
  have htarget : Yields (Session.Permitted settings) (Permits settings)
      (check (Target.ofRequest url)) :=
    yields_check fun start hstart => ⟨url, start, hcheck, hstart, .refl⟩
  have hsend : ∀ (a : Attempt) (budget : Nat) {target : Target}, Permits settings target →
      Keeping (Session.Permitted settings) (do
        let response ← send a budget 0 true target
        if 200 ≤ response.status ∧ response.status < 300 then return response.text
        else fault (.httpStatus response.status) : Resolving String) := by
    intro a budget target h
    refine (keeping_send_permitted a budget 0 true h).bind fun response => ?_
    split
    · exact keeping_pure _
    · exact keeping_fault _
  unfold attemptOnce
  refine (keeping_check _).bind fun timeout => ?_
  refine (htarget.bind fun target h => ?_ : Yields _ (fun _ => True) _).keeping
  refine ((keeping_check _).bind fun fields => keeping_read.bind fun world => ?_).yields
  refine Keeping.either (keeping_check _) (keeping_pure _) fun maxRedirects => ?_
  dsimp only
  split
  · exact (keeping_check _).bind fun configured => hsend _ _ h
  · exact (keeping_pure _).bind fun configured => hsend _ _ h

theorem keeping_fetch_permitted (url : String) :
    Keeping (Session.Permitted settings) (fetch url) := by
  unfold fetch
  refine keeping_get_bind fun world s hs => ?_
  rw [hs.configured]
  -- nothing is asked for unless the URL has passed the check
  cases hcheck : checkUrl settings url with
  | error failure => exact hs
  | ok _ =>
    have hrest : Keeping (Session.Permitted settings) (do
        let table ← check (headerTable settings)
        let total ← check (attempts settings)
        retry (attemptOnce settings table url) settings url total total .budgetExhausted) := by
      refine (keeping_check _).bind fun table => (keeping_check _).bind fun total => ?_
      have honce := keeping_attemptOnce_permitted table hcheck
      exact keeping_retry timeless_permitted.unhurried honce _ _ _ _ _
    exact hrest world s hs

theorem keeping_load_permitted (location : String) :
    Keeping (Session.Permitted settings) (load location) :=
  keeping_load_of timeless_permitted keeping_fetch_permitted
    (keeping_recallDocument fun _ _ hs => ⟨hs.configured, hs.permits⟩)
    (keeping_keep fun _ _ hs => ⟨hs.configured, hs.permits⟩) location

end External

end SchemaGraph
