import Mathlib.Logic.Relation
import SchemaGraph.Proofs.Engine.Durable
import SchemaGraph.Proofs.Gathering

/-!
# The tasks of a request

What an engine does for a request is made of tasks, which start further tasks: to resolve all schemas of
a registry one after the other, to follow a reference, to find its target, to settle the members of a
composition, to load a document.  The moments of a request are the sessions in which its tasks start and
end.  A property that is kept by all that requests are made of holds at all moments of a request, if it
holds before the request.
-/

namespace SchemaGraph

open Relation Resolving

/-- A part of what an engine does for a request, or the whole of it. -/
inductive Task where
  | request (r : Engine.Request)
  | attempts (d : Document) (targets : List Value)
  | resolved (subject : Engine.Subject) (declared : List (Value × Node))
  | schema (subject : Engine.Subject) (n : Node)
  | schemas (subject : Engine.Subject)
  | batches (d : Document)
  | groups (d : Document) (groups : List (List (Value × Value)))
  | entries (d : Document) (entries : List (Value × Value))
  | entry (d : Document) (name raw : Value)
  | reference (d : Document) (path : List String) (target : Value)
  | node (d : Document) (n : Node)
  | follow (d : Document) (budget : Nat) (path : List String) (target : Value)
  | settle (d : Document) (budget : Nat) (path : List String) (n : Node)
  | into (d : Document) (budget : Nat) (path : List String) (merged : Merged) (members : List Node)
  | variants (d : Document) (budget : Nat) (path : List String) (kind : CompositionKind) (number : Nat)
      (members : List Node)
  | target (d : Document) (x : String) (path : List String)
  | outside (reference : Value) (base : String) (depth : Value)
  | load (location : String)

namespace Task

/-- The session that a task leaves, whether it succeeds or fails. -/
def after (scene : Scene) (s : Session) : Task → Session
  | .request r => (r.run scene s).2
  | .attempts d targets => (gather (resolveReference d []) targets scene s).2
  | .resolved subject declared => ((declared.mapM fun ((name, n) : Value × Node) => do
      return (name, ← Engine.schema subject n)) scene s).2
  | .schema subject n => (Engine.schema subject n scene s).2
  | .schemas subject => (Engine.schemas subject scene s).2
  | .batches d => (schemaBatches d scene s).2
  | .groups d parts => (enumerateGroups d parts scene s).2
  | .entries d table => (enumerate d table scene s).2
  | .entry d name raw => (schemaAt d name raw scene s).2
  | .reference d path v => (resolveReference d path v scene s).2
  | .node d n => (resolveNode d n scene s).2
  | .follow d budget path v => (SchemaGraph.follow d budget path v scene s).2
  | .settle d budget path n => (n.settle (SchemaGraph.follow d budget path) d scene s).2
  | .into d budget path merged members =>
    (Node.settleInto (SchemaGraph.follow d budget path) d merged members scene s).2
  | .variants d budget path kind number members =>
    (Node.settleVariants (SchemaGraph.follow d budget path) d kind number members scene s).2
  | .target d x path => (d.target x path scene s).2
  | .outside v base depth => (External.resolve v base depth scene s).2
  | .load location => (External.load location scene s).2

/-- Whether a reference was looked up in vain on the way from one session to the next, so that its
target is looked for. -/
structure Sought (scene : Scene) (d : Document) (path : List String) (target : Value) (x : String)
    (s t : Session) : Prop where
  given : Reference.given target = .ok x
  fresh : x ∉ path
  missed : recallNode "reference" (·.references) (cacheKey d x) scene s = (.ok none, t)
  unfailed : t.caches.failure? (cacheKey d x) = none

/-- What is looked up in vain is not there, and only the records are others afterwards. -/
theorem Sought.retracked {scene : Scene} {d : Document} {path : List String} {target : Value}
    {x : String} {s t : Session} (h : Sought scene d path target x s t) (hready : s.tracker.Ready) :
    s.caches.references.get? (cacheKey d x) = none ∧ ∃ u : Tracker, u.Ready ∧ t = s.retracked u := by
  have hrecalled : Ensures (recallNode "reference" (·.references) (cacheKey d x)) scene s
      fun result t => result = .ok (s.caches.references.get? (cacheKey d x)) ∧
        ∃ u : Tracker, u.Ready ∧ t = s.retracked u := ensures_recallNode hready (by decide) _ _
  unfold Ensures at hrecalled
  rw [h.missed] at hrecalled
  exact ⟨(Except.ok.inj hrecalled.1).symm, hrecalled.2⟩

/-- The tasks that a task starts, with the sessions in which it and they start. -/
inductive Starts (scene : Scene) : Task → Session → Task → Session → Prop
  -- requests
  | reference {subject : Engine.Subject} {asked : Engine.Asked} {visited target : Value}
      {path : List String} {d : Document} {s t : Session} :
      subject.open scene s = (.ok d, t) → asked.target = .ok target →
      Engine.visitedPath visited = .ok path →
      Starts scene (.request (.reference subject asked visited)) s (.reference d path target) t
  | rawSchema {subject : Engine.Subject} {raw : Value} {d : Document} {n : Node} {s t : Session} :
      subject.open scene s = (.ok d, t) → Node.parse "" raw "#" = .ok n →
      Starts scene (.request (.schema subject raw)) s (.node d n) t
  | references {subject : Engine.Subject} {asked : List Engine.Asked} {targets : List Value}
      {d : Document} {s t : Session} :
      subject.open scene s = (.ok d, t) → asked.mapM Engine.Asked.target = .ok targets →
      Starts scene (.request (.references subject asked)) s (.attempts d targets) t
  | registry (subject : Engine.Subject) (s : Session) :
      Starts scene (.request (.schemas subject)) s (.schemas subject) s
  | handed (subject : Engine.Subject) (n : Node) (s : Session) :
      Starts scene (.request (.node subject n)) s (.schema subject n) s
  | declared (subject : Engine.Subject) (s : Session) :
      Starts scene (.request (.resolvedSchemas subject)) s (.schemas subject) s
  | resolved {subject : Engine.Subject} {table : Table Node} {s t : Session} :
      Engine.schemas subject scene s = (.ok table, t) →
      Starts scene (.request (.resolvedSchemas subject)) s (.resolved subject table) t
  | batches {subject : Engine.Subject} {d : Document} {s t : Session} :
      subject.open scene s = (.ok d, t) →
      Starts scene (.request (.batches subject)) s (.batches d) t
  | outsideDocument (location : String) (s : Session) :
      Starts scene (.request (.outsideDocument location)) s (.load location) s
  | outsideSchema (reference : Value) (base : String) (depth : Value) (s : Session) :
      Starts scene (.request (.outsideSchema reference base depth)) s
        (.outside reference base depth) s
  -- several schemas, one after the other
  | resolve (subject : Engine.Subject) (name : Value) (n : Node) (rest : List (Value × Node))
      (s : Session) :
      Starts scene (.resolved subject ((name, n) :: rest)) s (.schema subject n) s
  | resolvedOne {subject : Engine.Subject} {name : Value} {n m : Node}
      {rest : List (Value × Node)} {s t : Session} :
      Engine.schema subject n scene s = (.ok m, t) →
      Starts scene (.resolved subject ((name, n) :: rest)) s (.resolved subject rest) t
  | schema {subject : Engine.Subject} {d : Document} {n : Node} {s t : Session} :
      subject.open scene s = (.ok d, t) → Starts scene (.schema subject n) s (.node d n) t
  | schemas {subject : Engine.Subject} {d : Document} {s t : Session} :
      subject.open scene s = (.ok d, t) → Starts scene (.schemas subject) s (.batches d) t
  | streamed {d : Document} {entries : Table Value} (s : Session) : d.registry = .ok entries →
      Starts scene (.batches d) s (.groups d (SchemaGraph.groups batchSize entries.length entries)) s
  | whole {d : Document} {entries : Table Value} (s : Session) : d.registry = .ok entries →
      Starts scene (.batches d) s (.entries d entries) s
  | group (d : Document) (group : List (Value × Value)) (rest : List (List (Value × Value)))
      (s : Session) : Starts scene (.groups d (group :: rest)) s (.entries d group) s
  | grouped {d : Document} {group : List (Value × Value)} {rest : List (List (Value × Value))}
      {table : Table Node} {count : Nat} {s t u : Session} :
      enumerate d group scene s = (.ok table, t) → cleanup false scene t = (.ok count, u) →
      Starts scene (.groups d (group :: rest)) s (.groups d rest) u
  | skipped (d : Document) (name raw : Value) (rest : List (Value × Value)) (s : Session) :
      Starts scene (.entries d ((name, raw) :: rest)) s (.entries d rest)
        (warn (.skippedSchema name raw.kindName) scene s).2
  | entry (d : Document) (name raw : Value) (rest : List (Value × Value)) (s : Session) :
      Starts scene (.entries d ((name, raw) :: rest)) s (.entry d name raw) s
  | enumerated {d : Document} {name raw : Value} {rest : List (Value × Value)} {n : Node}
      {s t : Session} : schemaAt d name raw scene s = (.ok n, t) →
      Starts scene (.entries d ((name, raw) :: rest)) s (.entries d rest)
        { t with processed := t.processed + 1, tracker := t.tracker.recordProcessed }
  | aliased {d : Document} {name raw target : Value} {info : NodeInfo} {s t : Session} :
      track (·.recordMiss "schema") scene s = (.ok (), t) →
      Node.parse "" raw (Reference.localRegistry ++ name.display) = .ok (.ref info target) →
      Starts scene (.entry d name raw) s
        (.reference d [Reference.localRegistry ++ name.display] target) t
  -- one reference or schema
  | follow (d : Document) (path : List String) (target : Value) (s : Session) :
      Starts scene (.reference d path target) s
        (.follow d (pathBudget d s.externalSettings.maxDepth) path target) s
  | settle (d : Document) (n : Node) (s : Session) :
      Starts scene (.node d n) s (.settle d (pathBudget d s.externalSettings.maxDepth) [] n) s
  | target {d : Document} {budget : Nat} {path : List String} {target : Value} {x : String}
      {s t : Session} : Sought scene d path target x s t →
      Starts scene (.follow d (budget + 1) path target) s (.target d x path) t
  | found {d : Document} {budget : Nat} {path : List String} {target : Value} {x : String}
      {n : Node} {s t u : Session} : Sought scene d path target x s t →
      d.target x path scene t = (.ok n, u) →
      Starts scene (.follow d (budget + 1) path target) s (.settle d budget (x :: path) n) u
  | ref (d : Document) (budget : Nat) (path : List String) (info : NodeInfo) (target : Value)
      (s : Session) :
      Starts scene (.settle d budget path (.ref info target)) s (.follow d budget path target) s
  | into {d : Document} {budget : Nat} {path : List String} {info : NodeInfo}
      {shape : CompositionShape Node} {key : String} {s t : Session} :
      Node.identity (.composition info shape) = .ok key →
      recallNode "composition" (·.compositions) (cacheKey d key) scene s = (.ok none, t) →
      Starts scene (.settle d budget path (.composition info shape)) s
        (.into d budget path (Merged.start info shape) shape.members) t
  | variants {d : Document} {budget : Nat} {path : List String} {info : NodeInfo}
      {shape : CompositionShape Node} {key : String} {s t : Session} :
      Node.identity (.composition info shape) = .ok key →
      recallNode "composition" (·.compositions) (cacheKey d key) scene s = (.ok none, t) →
      Starts scene (.settle d budget path (.composition info shape)) s
        (.variants d budget path shape.kind 1 shape.members) t
  | member (d : Document) (budget : Nat) (path : List String) (merged : Merged) (member : Node)
      (rest : List Node) (s : Session) :
      Starts scene (.into d budget path merged (member :: rest)) s (.settle d budget path member) s
  | absorbed {d : Document} {budget : Nat} {path : List String} {merged next : Merged}
      {member n : Node} {rest : List Node} {s t : Session} :
      member.settle (SchemaGraph.follow d budget path) d scene s = (.ok n, t) →
      merged.absorb n = .ok next →
      Starts scene (.into d budget path merged (member :: rest)) s (.into d budget path next rest) t
  | variant (d : Document) (budget : Nat) (path : List String) (kind : CompositionKind) (number : Nat)
      (member : Node) (rest : List Node) (s : Session) :
      Starts scene (.variants d budget path kind number (member :: rest)) s
        (.settle d budget path member) s
  | named {d : Document} {budget : Nat} {path : List String} {kind : CompositionKind} {number : Nat}
      {member n : Node} {rest : List Node} {s t : Session} :
      member.settle (SchemaGraph.follow d budget path) d scene s = (.ok n, t) →
      Starts scene (.variants d budget path kind number (member :: rest)) s
        (.variants d budget path kind (number + 1) rest) t
  -- other documents
  | outside {d : Document} {x : String} {path : List String} {depth : Nat} (s : Session) :
      d.outsideCount path = .ok depth →
      Starts scene (.target d x path) s (.outside (.str x) d.source (.ofNat depth)) s
  | load {reference depth : Value} {base location : String} {parsed : Reference} (s : Session) :
      Reference.ofValue? reference = some parsed →
      Location.join base parsed.location = .ok location →
      Starts scene (.outside reference base depth) s (.load location) s

/-- How tasks lead to further ones: a task starts another one in its own scene, and where several
references are resolved at once, each of them has its own scene from turn to turn. -/
inductive Leads : Task × Scene × Session → Task × Scene × Session → Prop
  | starts {scene : Scene} {task inner : Task} {s t : Session} (h : Starts scene task s inner t) :
      Leads (task, scene, s) (inner, scene, t)
  | attempt {scene inner : Scene} {d : Document} {targets : List Value}
      {before after : List (Value × Progress Node)} {target : Value} {progress : Progress Node}
      {s t start : Session}
      (hgathering : Gathering (resolveReference d []) scene.toWorld targets s
        (before ++ (target, progress) :: after) t)
      (hruns : progress.Runs scene.toWorld t inner start) :
      Leads (.attempts d targets, scene, s) (.reference d [] target, inner, start)

/-- Whether a task that runs alone from a session on leads to another one, which starts in a scene from
another session on. -/
def Reaches (world : World) (task : Task) (s : Session) (inner : Task) (scene : Scene) (t : Session) :
    Prop :=
  ReflTransGen Leads (task, world.alone, s) (inner, scene, t)

theorem Starts.reaches {world : World} {task inner : Task} {s t : Session}
    (h : Starts world task s inner t) : Reaches world task s inner world t :=
  ReflTransGen.single (.starts h)

theorem Reaches.starts {world : World} {scene : Scene} {task inner next : Task} {s t u : Session}
    (h : Reaches world task s inner scene t) (hnext : Starts scene inner t next u) :
    Reaches world task s next scene u :=
  ReflTransGen.tail h (.starts hnext)

end Task

/-- A property of sessions that is kept by all requests and all that they are made of, to find the
target of a reference where it was looked up in vain among the rest. -/
structure Throughout (keeps : Session → Prop) : Prop extends Durable keeps where
  follow : ∀ d budget path target, Keeping keeps (SchemaGraph.follow d budget path target)
  settle : ∀ d budget path (n : Node),
    Keeping keeps (n.settle (SchemaGraph.follow d budget path) d)
  target : ∀ {scene : Scene.Of keeps} {d path target x s t}, Task.Sought scene d path target x s t →
    keeps s → keeps (d.target x path scene t).2

/-- What resolving keeps wherever it starts is kept throughout. -/
theorem Durable.throughout {keeps : Session → Prop} (h : Durable keeps)
    (hlasting : ∀ d, Lasting d keeps) : Throughout keeps where
  toDurable := h
  follow := fun d => (hlasting d).keeping_follow
  settle := fun d budget path _ =>
    (hlasting d).keeping_settle fun target _ => (hlasting d).keeping_follow budget path target
  target := fun hsought hs => (hlasting _).keeping_target _ _ _ _
    (keeps_of_step (h.keeping_recallNode _ _ _) hs hsought.missed)

open SchemaGraph.Task

namespace Throughout

variable {keeps : Session → Prop} (h : Throughout keeps) {scene : Scene.Of keeps} {s t : Session}
include h

/-- What holds when a task starts holds when it starts another one. -/
theorem keeps_started {task inner : Task} (hstarts : Starts scene task s inner t) (hs : keeps s) :
    keeps t := by
  cases hstarts with
  | reference hopen => exact keeps_of_step (h.keeping_open _) hs hopen
  | rawSchema hopen => exact keeps_of_step (h.keeping_open _) hs hopen
  | references hopen => exact keeps_of_step (h.keeping_open _) hs hopen
  | resolved hrun => exact keeps_of_step (h.opens _).schemas hs hrun
  | batches hopen => exact keeps_of_step (h.keeping_open _) hs hopen
  | resolvedOne hrun => exact keeps_of_step ((h.opens _).schema trivial) hs hrun
  | schema hopen => exact keeps_of_step (h.keeping_open _) hs hopen
  | schemas hopen => exact keeps_of_step (h.keeping_open _) hs hopen
  | grouped hrun hcleanup =>
      exact keeps_of_step (h.keeping_freeing false)
        (keeps_of_step ((h.resolved _).keeping_enumerate _) hs hrun) hcleanup
  | skipped => exact h.aside.keeping_warn _ scene s hs
  | enumerated hrun =>
      have ht := keeps_of_step ((h.resolved _).keeping_schemaAt _ _) hs hrun
      exact h.aside.keeps_processed h.toUntracked ht
  | aliased hrun => exact keeps_of_step (h.keeping_track ⟨_, _, fun _ => rfl⟩) hs hrun
  | target hsought => exact keeps_of_step (h.keeping_recallNode _ _ _) hs hsought.missed
  | found hsought htarget =>
      have hfound := h.target hsought hs
      rwa [htarget] at hfound
  | into _ hrun => exact keeps_of_step (h.keeping_recallNode _ _ _) hs hrun
  | variants _ hrun => exact keeps_of_step (h.keeping_recallNode _ _ _) hs hrun
  | absorbed hrun => exact keeps_of_step (h.settle _ _ _ _) hs hrun
  | named hrun => exact keeps_of_step (h.settle _ _ _ _) hs hrun
  | _ => exact hs

/-- What holds when a task starts holds when it ends.  Requests are kept by what they ask for, and the
looking for a target by what was looked up before. -/
theorem keeps_after {task : Task} (hrequest : ∀ r, task = .request r → Keeping keeps r.run)
    (htarget : ∀ d x path, task = .target d x path → keeps (d.target x path scene s).2)
    (hs : keeps s) : keeps (task.after scene s) := by
  cases task with
  | request r => exact hrequest r rfl scene s hs
  | attempts d targets =>
      exact keeping_gather h.aside.turned (fun target _ => h.following d [] target) scene s hs
  | resolved subject declared => exact (h.opens subject).eachSchema (fun _ _ => trivial) scene s hs
  | schema subject n => exact (h.opens subject).schema trivial scene s hs
  | schemas subject => exact (h.opens subject).schemas scene s hs
  | batches d => exact (h.resolved d).keeping_schemaBatches scene s hs
  | groups d parts => exact (h.resolved d).keeping_enumerateGroups parts scene s hs
  | entries d table => exact (h.resolved d).keeping_enumerate table scene s hs
  | entry d name raw => exact (h.resolved d).keeping_schemaAt name raw scene s hs
  | reference d path target => exact h.following d path target scene s hs
  | node d n => exact h.settling d n scene s hs
  | follow d budget path target => exact h.follow d budget path target scene s hs
  | settle d budget path n => exact h.settle d budget path n scene s hs
  | into d budget path merged members =>
      have hsettle : ∀ m ∈ members, Keeping keeps (m.settle (SchemaGraph.follow d budget path) d) :=
        fun m _ => h.settle d budget path m
      exact (sequential_keeping keeps).settleInto hsettle merged scene s hs
  | variants d budget path kind number members =>
      have hsettle : ∀ m ∈ members, Keeping keeps (m.settle (SchemaGraph.follow d budget path) d) :=
        fun m _ => h.settle d budget path m
      exact (sequential_keeping keeps).settleVariants hsettle kind number scene s hs
  | target d x path => exact htarget d x path rfl
  | outside reference base depth =>
      exact External.keeping_resolve_of h.loading reference base depth scene s hs
  | load location => exact h.loading location scene s hs

/-- A task that another one leads to runs in a scene of the kind, too. -/
theorem keeps_led {task inner : Task} {later : Scene} (hleads : Leads (task, scene, s) (inner, later, t))
    (hs : keeps s) : keeps t ∧ ∃ kept : Scene.Of keeps, kept.toScene = later := by
  cases hleads with
  | starts hstarts => exact ⟨h.keeps_started hstarts hs, scene, rfl⟩
  | @attempt _ _ d targets _ _ target _ _ u _ hgathering hruns =>
      have hsettles : ∀ target ∈ targets, Settles keeps (fun _ => True) (resolveReference d [] target) :=
        fun target _ scene v hv => ⟨h.following d [] target scene v hv, fun _ => trivial⟩
      obtain ⟨hu, -, hsound⟩ := hgathering.sound h.aside.turned hsettles hs
      exact (hsound (target, _) (List.mem_append_right _ List.mem_cons_self)).runs h.aside.turned hu hruns

/-- What holds before a request holds at all its moments, and of the sessions with which its tasks go
on. -/
theorem kept_reached {r : Engine.Request} (hr : Keeping keeps r.run) {world : World} {inner : Task}
    {later : Scene} (hreaches : Reaches world (.request r) s inner later t) (hs : keeps s) :
    (∃ kept : Scene.Of keeps, kept.toScene = later) ∧ keeps t ∧ keeps (inner.after later t) := by
  -- The induction is on the tasks that lead to the one that is reached.
  suffices hkept : ∀ state, ReflTransGen Leads (.request r, world.alone, s) state →
      (∃ kept : Scene.Of keeps, kept.toScene = state.2.1) ∧ keeps state.2.2 ∧
        keeps (state.1.after state.2.1 state.2.2) from hkept _ hreaches
  intro state hstate
  induction hstate with
  | refl => exact ⟨⟨world.within keeps, rfl⟩, hs, hr world s hs⟩
  | @tail earlier state _ hleads ih =>
      obtain ⟨task, scene, v⟩ := earlier
      obtain ⟨next, later, u⟩ := state
      obtain ⟨⟨kept, rfl⟩, hv, -⟩ := ih
      dsimp only at hv ⊢
      obtain ⟨hu, kept', hkept'⟩ := h.keeps_led hleads hv
      refine ⟨⟨kept', hkept'⟩, hu, ?_⟩
      rw [← hkept']
      -- No task leads to a request, and a target is only looked for where it was looked up in vain.
      refine h.keeps_after (fun r' heq => ?_) (fun d x path heq => ?_) hu
      · subst heq
        cases hleads with
        | starts hstarts => cases hstarts
      · subst heq
        cases hleads with
        | starts hstarts =>
            cases hstarts with
            | target hsought =>
                rw [hkept']
                exact h.target hsought hv

end Throughout

end SchemaGraph
