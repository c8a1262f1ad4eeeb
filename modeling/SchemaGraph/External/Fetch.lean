import SchemaGraph.External.Access
import SchemaGraph.Location.Target
import SchemaGraph.Session

/-!
# Fetching documents

A document is fetched by a request, which may be redirected.  A request that is lost, that is
redirected too often or that is answered with anything but a success is tried again after a pause,
each time a longer one, until the attempts are used up.
-/

namespace SchemaGraph.External

open Resolving

/-- The header of the sender's name. -/
def agentHeader : String := "User-Agent"

/-- The headers to be sent: the sender's name and the configured ones, which may replace it. -/
def headerTable (settings : ExternalSettings) : Except Fault (Table Value) :=
  match settings.headers with
  | .map entries =>
    .ok (entries.foldl (fun (table : Table Value) entry => table.put entry.1 entry.2)
      [(.str agentHeader, settings.userAgent)])
  | _ => .error .typeMismatch

/-- Texts that can be sent as headers. -/
def headerText : Value → Except Fault String
  | .str text => if text.toList.all (·.toNat < 0x80) then .ok text else .error .unencodableText
  | _ => .error .typeMismatch

/-- Names and values of headers. -/
def headerFields (table : Table Value) : Except Fault (List (String × String)) :=
  table.mapM fun entry => do return (← headerText entry.1, ← headerText entry.2)

/-- The value of a header; the values of headers that differ in case alone are joined. -/
def headerValue? (fields : List (String × String)) (name : String) : Option String :=
  let named := fields.filter fun field => Case.lower field.1 == Case.lower name
  if named.isEmpty then none else some (", ".intercalate (named.map (·.2)))

/-- The headers by which a request is known: the sender's name under its usual spelling, and each
configured one.  Credentials are not sent on to another place. -/
def shownHeaders (configured : List String) (fields : List (String × String)) (trusted : Bool) :
    List (String × Option String) :=
  let shown (name : String) : Option String :=
    if !trusted && Case.lower name == "authorization" then none else headerValue? fields name
  configured.foldl (fun entries name => Ordered.write name (shown name) entries)
    [("user-agent", shown "user-agent")]

/-- Statuses of answers that redirect. -/
def redirects : List Int := [301, 302, 303, 307, 308]

/-- What stays the same in all requests of one attempt. -/
structure Attempt where
  configured : List String
  fields : List (String × String)
  timeout : Binary64
  /-- The greatest number of redirects. -/
  maxRedirects : Number
  follows : Bool

/-- Send one request. -/
def sendOne (a : Attempt) (target : Target) (trusted : Bool) : Resolving Response := do
  let url := target.text
  let count := (Ordered.get? url (← get).sent).getD 0
  let (delay, reply) := (← read).reply url count
  emit (.requested ⟨url, shownHeaders a.configured a.fields trusted, a.timeout⟩)
  modify fun s => { s.elapse delay with sent := Ordered.write url (count + 1) s.sent }
  await
  match reply with
  | .answered response => return response
  | .lost kind => fault (.transport kind)

/-- Send a request and follow its redirects; `hops` counts those already followed. -/
def send (a : Attempt) : Nat → Nat → Bool → Target → Resolving Response
  | 0, _, _, _ => fault .budgetExhausted
  | budget + 1, hops, trusted, target => do
    if Number.lt a.maxRedirects (.int hops) then fault .tooManyRedirects
    let response ← sendOne a target trusted
    match response.location with
    | none => return response
    | some location =>
      if !redirects.contains response.status then return response
      let next ← check (target.redirect location)
      if a.follows then
        let trusted := trusted && (target.sameOrigin next || target.isUpgrade next)
        send a budget (hops + 1) trusted next
      else return response

/-- The number of redirects that a client follows when it does not follow them by itself. -/
def defaultMaxRedirects : Number := .int 20

/-- The greatest number of requests of one attempt. -/
def hopBudget : Number → Nat
  | .int n => n.toNat + 2
  | .double x => match x.floor? with
    | some n => n.toNat + 2
    | none => 1000000

/-- One attempt to fetch a text. -/
def attemptOnce (settings : ExternalSettings) (table : Table Value) (url : String) :
    Resolving String := do
  let timeout ← check (do Number.div (← settings.timeoutMs.number) (.int 1000))
  let target ← check (Target.ofRequest url)
  let fields ← check (headerFields table)
  let follows := (← read).followsRedirects
  let maxRedirects ← if follows then check settings.maxRedirects.number else pure defaultMaxRedirects
  let configured ← match settings.headers with
    | .map entries => check (entries.mapM fun entry => headerText entry.1)
    | _ => pure []
  let attempt : Attempt := ⟨configured, fields, timeout, maxRedirects, follows⟩
  let response ← send attempt (hopBudget maxRedirects) 0 true target
  if 200 ≤ response.status ∧ response.status < 300 then return response.text
  else fault (.httpStatus response.status)

/-- The pause before an attempt. -/
def pause (settings : ExternalSettings) (attempt : Nat) : Resolving Unit := do
  let backoff ← check settings.retryBackoffSeconds.number
  let seconds ← check (backoff.mul (.int (attempt - 1 : Nat)))
  emit (.waited seconds)
  if Number.lt (.int 0) seconds then modify fun s => s.elapse seconds
  await

/-- The number of attempts: one more than the retries, and at least one. -/
def attempts (settings : ExternalSettings) : Except Fault Nat := do
  let total ← Number.add (← settings.retries.number) (.int 1)
  if Number.lt (.int 1) total then
    match total with
    | .int n => return n.toNat
    | .double _ => throw .typeMismatch
  else return 1

/-- Attempt to fetch a text until it succeeds; `last` is the fault of the attempt before. -/
def retry (once : Resolving String) (settings : ExternalSettings) (url : String) (total : Nat) :
    Nat → Fault → Resolving String
  | 0, last => throw (.unavailable (.notFetched url total last))
  | left + 1, _ => do
    let attempt := total - left
    if 1 < attempt then pause settings attempt
    match ← Resolving.attempt once with
    | .ok text => return text
    | .error (.fault f) =>
      if f.isRequestFault then
        warn (.fetchFailed url attempt total f)
        retry once settings url total left f
      else throw (.fault f)
    | .error failure => throw failure

/-- Fetch the text at a URL. -/
def fetch (url : String) : Resolving String := do
  let settings := (← get).externalSettings
  lift (checkUrl settings url)
  let table ← check (headerTable settings)
  let total ← check (attempts settings)
  retry (attemptOnce settings table url) settings url total total .budgetExhausted

end SchemaGraph.External
