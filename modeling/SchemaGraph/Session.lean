import SchemaGraph.Document
import SchemaGraph.Metrics
import SchemaGraph.Schema.Signature
import SchemaGraph.Warning
import SchemaGraph.World

/-!
# Sessions

What an engine knows between two operations: its settings, its caches, its records, the time and the
memory in use.  Everything that an operation does to the outside is kept as a trace of events, so
that a law may speak of what was read, sent or waited for.

`Resolving` is the type of operations: they look at the world and may change the session, also when
they fail.

Several tasks may be at work at once.  One of them runs until it has to wait for the outside; then another
one gets its turn, and what all others did meanwhile is in the session with which it goes on.  A task that
goes on is run from its start again, and wherever it has waited before, it takes up the session with which
it went on there.
-/

namespace SchemaGraph

/-- The key of a cache entry: the number of a document and what the entry is for. -/
structure CacheKey where
  document : Nat
  subject : String
  deriving DecidableEq, Repr, Inhabited

/-- A request to a URL. -/
structure Request where
  url : String
  /-- The values of the headers by which the sender shows itself; none for one that was dropped. -/
  headers : List (String × Option String)
  /-- Seconds after which the request is given up. -/
  timeout : Binary64

/-- Something that an operation did to the outside. -/
inductive Event where
  | warned (warning : Warning)
  | requested (request : Request)
  | waited (seconds : Number)
  | opened (path : String)
  /-- The task at work has to wait for the outside. -/
  | paused
  /-- The turn passes to another task. -/
  | turned

/-- A document that was read or fetched, and when. -/
structure Loaded where
  time : Binary64
  raw : Value

/-- What an engine knows. -/
structure Session where
  memorySettings : MemorySettings
  metricsSettings : MetricsSettings
  externalSettings : ExternalSettings
  /-- The caches.  The documents made from plain mappings stand under the names of the mappings. -/
  caches : Caches CacheKey String Node Failure Document
  /-- Documents from outside under their locations, oldest first. -/
  external : List (String × Loaded)
  tracker : Tracker
  /-- The number of schemas enumerated since the counter was set back. -/
  processed : Nat
  /-- The number that the next document gets. -/
  nextId : Nat
  /-- Seconds since the start. -/
  clock : Binary64
  /-- Resident and virtual memory, in bytes. -/
  memory : Number × Number
  /-- The number of requests sent to each URL. -/
  sent : List (String × Nat)
  /-- What was done to the outside, latest first. -/
  trace : List Event

namespace Session

/-- The start of a session with some settings. -/
def start (config : Config) (memory : Number × Number) (nextId : Nat) : Session :=
  { memorySettings := config.memory
    metricsSettings := config.metrics
    externalSettings := config.external
    caches := .empty config.cache
    external := []
    tracker := .start config.metrics.enabled.truthy
    processed := 0
    nextId := nextId
    clock := Binary64.zero false
    memory := memory
    sent := []
    trace := [] }

/-- The settings as they are now. -/
def config (s : Session) : Config :=
  { cache := s.caches.settings
    memory := s.memorySettings
    metrics := s.metricsSettings
    external := s.externalSettings }

/-- Let time go by. -/
def elapse (s : Session) (seconds : Number) : Session :=
  match seconds.toDouble with
  | .ok d => { s with clock := s.clock.add d }
  | .error _ => s

/-- Count the evictions that the caches report. -/
def countEvictions (s : Session) (evictions : List Eviction) : Session :=
  { s with
    tracker := evictions.foldl (fun t e =>
      match t.recordEviction e.cache (.ofNat e.count) with
      | .ok t => t
      | .error _ => t) s.tracker }

/-- The length of the trace when the task at work had to wait, if it has to. -/
def pausedAt? (s : Session) : Option Nat :=
  match s.trace with
  | .paused :: earlier => some earlier.length
  | _ => none

end Session

/-- Where an operation runs: the world, and what is known of the times when it has to wait. -/
structure Scene extends World where
  /-- The sessions with which the operation went on, each under the length of the trace when it had to
  wait. -/
  resumed : List (Nat × Session)
  /-- Whether the operation stops where it has to wait and has not gone on yet. -/
  halts : Bool

/-- The scene of an operation that runs alone, so that nothing happens while it waits. -/
@[coe] abbrev World.alone (world : World) : Scene := { world with resumed := [], halts := false }

instance : Coe World Scene := ⟨World.alone⟩

/-- Whether an operation that left a session has stopped, to go on later. -/
def Scene.isStopped (scene : Scene) (s : Session) : Bool := scene.halts && s.pausedAt?.isSome

/-- The session in which an operation is over, once its time is recorded.  One that has stopped is not over
yet. -/
def Session.clocked (s : Session) (scene : Scene) (operation : Operation) (started : Binary64) :
    Session :=
  if scene.isStopped s then s
  else { s with tracker := s.tracker.track operation started s.clock }

/-- An operation in a scene. -/
abbrev Resolving (α : Type) := ReaderT Scene (ExceptT Failure (StateM Session)) α

/-- The session when the turn passes to another task. -/
def Session.turned (s : Session) : Session := { s with trace := .turned :: s.trace }

namespace Resolving

/-- Fail with a fault. -/
def fault {α : Type} (f : Fault) : Resolving α := throw (.fault f)

/-- A step that does not touch the session. -/
def lift {α : Type} : Except Failure α → Resolving α
  | .ok a => pure a
  | .error failure => throw failure

/-- A step below the level of resolution. -/
def check {α : Type} (result : Except Fault α) : Resolving α := lift (orFail result)

/-- Note an event. -/
def emit (event : Event) : Resolving Unit :=
  modify fun s => { s with trace := event :: s.trace }

/-- Point something out. -/
def warn (warning : Warning) : Resolving Unit := emit (.warned warning)

/-- Run an operation and record how long it took, also when it fails. -/
def timed {α : Type} (operation : Operation) (act : Resolving α) : Resolving α := fun scene => do
  let started := (← get).clock
  let record : ExceptT Failure (StateM Session) Unit :=
    modify fun s => s.clocked scene operation started
  try
    let result ← act scene
    record
    pure result
  catch failure =>
    record
    throw failure

/-- Change the records, where the change may fail. -/
def track (change : Tracker → Except Fault Tracker) : Resolving Unit := do
  let tracker ← check (change (← get).tracker)
  modify fun s => { s with tracker := tracker }

/-- The result of an operation as a value: a failure does not end what follows.  An operation that has
stopped has no result yet. -/
def attempt {α : Type} (act : Resolving α) : Resolving (Except Failure α) := do
  try
    let result ← act
    pure (.ok result)
  catch failure =>
    if (← read).isStopped (← get) then throw failure else pure (.error failure)

/-- Wait for the outside. -/
def await : Resolving Unit := do
  let scene ← read
  let s ← get
  match Ordered.get? s.trace.length scene.resumed with
  | some t => set t
  | none =>
    if scene.halts then
      emit .paused
      fault .emptyQueue

/-! ### Several tasks at once -/

/-- How one of several tasks stands. -/
inductive Progress (α : Type) where
  | ready
  /-- The task started in a session, went on with others and has to wait again. -/
  | waiting (start : Session) (resumed : List (Nat × Session)) (since : Nat)
  | ended (result : Except Failure α)

/-- How a task stands after it has run up to where it stops or ends. -/
def Progress.ofRun {α : Type} (start : Session) (resumed : List (Nat × Session)) :
    Except Failure α × Session → Progress α × Session
  | (result, t) =>
    match t.pausedAt? with
    | some since => (.waiting start resumed since, t.turned)
    | none => (.ended result, t)

section Gathering

variable {α β : Type} (run : β → Resolving α) (world : World)

/-- Let a task go on to where it has to wait next. -/
def Progress.advance (act : Resolving α) : Progress α → Session → Progress α × Session
  | .ready, s => ofRun s [] (act { world with resumed := [], halts := true } s)
  | .waiting start resumed since, s =>
    let later := resumed ++ [(since, s.turned)]
    ofRun start later (act { world with resumed := later, halts := true } start)
  | .ended result, s => (.ended result, s)

/-- Let a task go on to its end. -/
def Progress.finish (act : Resolving α) : Progress α → Session → Except Failure α × Session
  | .ready, s => act world s
  | .waiting start resumed since, s =>
    act { world with resumed := resumed ++ [(since, s.turned)], halts := false } start
  | .ended result, s => (result, s)

/-- Give a turn to one of several tasks. -/
def giveTurn : Nat → List (β × Progress α) → Session → List (β × Progress α) × Session
  | _, [], s => ([], s)
  | 0, (item, progress) :: rest, s =>
    let (progress, t) := progress.advance world (run item) s
    ((item, progress) :: rest, t)
  | number + 1, task :: rest, s =>
    let (rest, t) := giveTurn number rest s
    (task :: rest, t)

/-- Let all tasks go on to their ends, one after the other. -/
def finishAll : List (β × Progress α) → Session → List (β × Except Failure α) × Session
  | [], s => ([], s)
  | (item, progress) :: rest, s =>
    let (result, t) := progress.finish world (run item) s
    let (results, u) := finishAll rest t
    ((item, result) :: results, u)

/-- The tasks after some turns. -/
def giveTurns (turns : List Nat) (tasks : List (β × Progress α)) (s : Session) :
    List (β × Progress α) × Session :=
  turns.foldl (fun state number => giveTurn run world number state.1 state.2) (tasks, s)

end Gathering

/-- Do the same with several items at once.  What fails for one of them does not stop the others: its
failure is its result.  The turns are taken as the world has it; when no more are given, nothing has to
be waited for any longer. -/
def gather {α β : Type} (run : β → Resolving α) (items : List β) :
    Resolving (List (β × Except Failure α)) := fun scene s =>
  let (tasks, t) := giveTurns run scene.toWorld scene.turns (items.map fun item => (item, .ready)) s
  let (results, u) := finishAll run scene.toWorld tasks t
  (.ok results, u)

end Resolving

end SchemaGraph
