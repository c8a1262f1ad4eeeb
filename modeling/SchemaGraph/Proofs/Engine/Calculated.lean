import SchemaGraph.Proofs.Engine.Requests
import SchemaGraph.Proofs.Engine.Subjects

/-!
# What requests come to without a session

Each request that resolves something has an outcome without a session.  In a session in which all that
is remembered is right, the request mirrors this outcome and leaves such a session, if it asks about a
document of JSON that refers to itself only.
-/

namespace SchemaGraph.Engine

open Resolving

/-- Answers that a caller does not tell apart. -/
inductive Answer.Like : Answer → Answer → Prop where
  | done : Answer.Like .done .done
  | schema {n n' : Node} (h : n.Alike n') : Answer.Like (.schema n) (.schema n')
  | results {table table' : Table (Except Failure Node)}
      (h : List.Forall₂ (Table.EntryRel (Agree Node.Alike)) table table') :
      Answer.Like (.results table) (.results table')
  | registry {table table' : Table Node}
      (h : List.Forall₂ (Table.EntryRel Node.Alike) table table') :
      Answer.Like (.registry table) (.registry table')

/-- Whether what is asked for, if it is a reference, leads to the document itself. -/
def Asked.IsLocal (d : Document) (asked : Asked) : Prop :=
  ∀ x, asked.target = .ok (.str x) → d.IsLocal x

namespace Request

/-- Whether a request resolves in a document of JSON that refers to itself only, and asks for nothing
outside of it, or resolves nothing. -/
def IsLocal : Request → Prop
  | .reference subject asked _ => subject.content.Plain ∧ asked.IsLocal subject.content
  | .schema subject raw =>
    subject.content.Plain ∧ raw.isJson = true ∧ ∀ x ∈ raw.references, subject.content.IsLocal x
  | .node subject n =>
    subject.content.Plain ∧ n.Neat ∧ ∀ x, n.Pursues (.str x) → subject.content.IsLocal x
  | .references subject asked =>
    subject.content.Plain ∧ ∀ one ∈ asked, one.IsLocal subject.content
  | .schemas subject | .resolvedSchemas subject | .batches subject => subject.content.Plain
  | _ => True

/-- Whether nothing but the document bears on the outcome of a request: no reference is being
followed already, and every name of the registry stands in a pointer as it is. -/
def IsClosed : Request → Prop
  | .reference _ _ visited => visitedPath visited = .ok []
  | .schemas subject | .resolvedSchemas subject | .batches subject =>
    ∀ table, subject.content.registry = .ok table → SegmentNames table
  | _ => True

end Request

/-- Resolve a reference of a document, without a session. -/
def calculatedReference (subject : Subject) (asked : Asked) (visited : Value) :
    Except Failure Node := do
  let target ← asked.target
  let path ← orFail (visitedPath visited)
  subject.content.remembered path target

/-- Read a schema from a value and resolve it, without a session. -/
def calculatedSchema (subject : Subject) (raw : Value) : Except Failure Node := do
  let n ← Node.parse "" raw "#"
  n.settled (subject.content.resolved [])

/-- Resolve several references, without a session. -/
def calculatedReferences (subject : Subject) (asked : List Asked) :
    Except Failure (Table (Except Failure Node)) := do
  let targets ← asked.mapM Asked.target
  let results := targets.map fun target => (target, subject.content.resolved [] target)
  if targets.all (·.hashable) then .ok (Table.ofList results) else .error (.fault .typeMismatch)

/-- Resolve several schemas one after the other, without a session. -/
def calculatedEach (subject : Subject) : Table Node → Except Failure (Table Node)
  | [] => .ok []
  | (name, n) :: rest => do
    let first ← n.settled (subject.content.resolved [])
    let others ← calculatedEach subject rest
    return (name, first) :: others

/-- Resolve all schemas of a document, without a session. -/
def calculatedSchemas (subject : Subject) : Except Failure (Table Node) := do
  calculatedEach subject (← subject.content.allDeclared)

/-- What a request that resolves something gives without a session. -/
def Request.outcome : Request → Except Failure Answer
  | .reference subject asked visited => do
    return .schema (← calculatedReference subject asked visited)
  | .schema subject raw => do return .schema (← calculatedSchema subject raw)
  | .node subject n => do return .schema (← n.settled (subject.content.resolved []))
  | .references subject asked => do return .results (← calculatedReferences subject asked)
  | .schemas subject => do return .registry (← subject.content.allDeclared)
  | .resolvedSchemas subject => do
    let table ← calculatedSchemas subject
    return .results (table.map fun entry => (entry.1, .ok entry.2))
  | .batches subject => do
    let _ ← subject.content.allDeclared
    return .done
  | _ => .ok .done

section Steps

variable {watch : Watch} {d : Document} {world : World} {s : Session}

/-- A calculation that is part of an operation. -/
theorem mirrors_same {α : Type} {keeps : Session → Prop} {failures : Prop} (hs : keeps s)
    (result : Except Failure α) :
    Mirrors keeps failures (fun a b => a = b ∧ result = .ok a) (lift result) result world s := by
  cases result with
  | ok a => exact mirrors_pure hs ⟨rfl, rfl⟩
  | error failure => exact mirrors_throw hs rfl

theorem mirrors_resolveReference_ready (scene : Scene.Of (Session.Ready watch d))
    (path : List String) {target : Value} (hwatch : watch.documents d.id = some d) (hplain : d.Plain)
    (hlocal : ∀ x, target = .str x → d.IsLocal x) (hs : s.Ready watch d) :
    Mirrors (Session.Ready watch d) (path = []) Node.Like (resolveReference d path target)
      (d.remembered path target) scene s := by
  have hmirrors := mirrors_resolveReference path scene hwatch hplain hlocal hs.sound
  refine mirrors_ready scene hs ((Session.steady_measured d).keeping_resolveReference path target) ?_
  exact hmirrors.antitone fun hpath x _ => hpath ▸ Document.leadsTo_nil

variable (world) in
theorem mirrors_resolveNode_ready {n : Node} (hwatch : watch.documents d.id = some d)
    (hplain : d.Plain) (hneat : n.Neat) (hlocal : ∀ x, n.Pursues (.str x) → d.IsLocal x)
    (hs : s.Ready watch d) :
    Mirrors (Session.Ready watch d) True Node.Like (resolveNode d n) (n.settled (d.resolved []))
      world s := by
  have hresolve := mirrors_resolveNode world hwatch hplain hneat hlocal hs.sound
  exact mirrors_ready world hs ((Session.steady_measured d).keeping_resolveNode n) hresolve

/-- Several references at once, whatever turns they take. -/
theorem mirrors_targets (hwatch : watch.documents d.id = some d) (hplain : d.Plain)
    {targets : List Value} (hlocal : ∀ target ∈ targets, ∀ x, target = .str x → d.IsLocal x)
    (hs : s.Ready watch d) :
    Ensures (gather (resolveReference d []) targets) world s fun result t =>
      t.Ready watch d ∧ ∃ results, result = .ok results ∧
        List.Forall₂ (Table.EntryRel (Agree Node.Like)) results
          (targets.map fun target => (target, d.resolved [] target)) := by
  have hsettles : ∀ target ∈ targets, Settles (Session.Ready watch d)
      (fun result => Agree Node.Like result (d.resolved [] target)) (resolveReference d [] target) := by
    intro target htarget scene t ht
    have hone := mirrors_resolveReference_ready scene [] hwatch hplain (hlocal target htarget) ht
    rw [d.remembered_nil] at hone
    exact ⟨hone.1, fun _ => (hone.2.antitone fun _ => rfl).agree⟩
  have hturned : ∀ t : Session, t.Ready watch d → t.turned.Ready watch d :=
    Session.unrecorded_ready.inward.turned
  refine (ensures_gather_of_settles hturned hsettles hs).mono ?_
  rintro result t ⟨ht, results, hresult, htargets, hgood⟩
  refine ⟨ht, results, hresult, ?_⟩
  rw [← htargets, List.map_map, List.forall₂_map_right_iff, List.forall₂_same]
  exact fun entry hentry => ⟨rfl, hgood entry hentry⟩

theorem ensures_warnings {results : List (Value × Except Failure Node)}
    (hs : s.Ready watch d) :
    Ensures (results.forM fun (target, result) =>
      match result with
      | .ok _ => pure ()
      | .error failure => warn (.resolveFailed target failure)) world s fun result t =>
        result = .ok () ∧ t.Ready watch d := by
  induction results generalizing s with
  | nil => exact ⟨rfl, hs⟩
  | cons entry rest ih =>
      obtain ⟨target, result⟩ := entry
      rw [List.forM]
      cases result with
      | ok n => exact ih hs
      | error failure =>
          have hsane := hs.sound.1.sane
          refine (ensures_modify_bind _ _ _).mpr (ih (hs.freed ?_))
          exact Session.freed_of_caches hsane rfl rfl rfl rfl hsane.ready

/-- Writing entries that are related one after the other gives tables that are. -/
theorem forall_put {α β : Type} {R : α → β → Prop} {table : Table α} {table' : Table β}
    (h : List.Forall₂ (Table.EntryRel R) table table') (key : Value) {item : α} {item' : β}
    (hitem : R item item') :
    List.Forall₂ (Table.EntryRel R) (table.put key item) (table'.put key item') := by
  induction h with
  | nil => exact .cons ⟨rfl, hitem⟩ .nil
  | @cons entry entry' rest rest' hentry hrest ih =>
      obtain ⟨k, old⟩ := entry
      obtain ⟨k', old'⟩ := entry'
      obtain ⟨hkey, hold⟩ := hentry
      dsimp only at hkey
      subst hkey
      rw [Table.put, Table.put]
      split
      · exact .cons ⟨rfl, hitem⟩ hrest
      · exact .cons ⟨rfl, hold⟩ ih

theorem forall_ofList {α β : Type} {R : α → β → Prop} {entries : List (Value × α)}
    {entries' : List (Value × β)} (h : List.Forall₂ (Table.EntryRel R) entries entries') :
    List.Forall₂ (Table.EntryRel R) (Table.ofList entries) (Table.ofList entries') := by
  unfold Table.ofList
  generalize hstart : ([] : Table α) = start
  generalize hstart' : ([] : Table β) = start'
  have hrel : List.Forall₂ (Table.EntryRel R) start start' := by
    subst hstart
    subst hstart'
    exact .nil
  clear hstart hstart'
  induction h generalizing start start' with
  | nil => exact hrel
  | @cons entry entry' rest rest' hentry hrest ih =>
      rw [List.foldl_cons, List.foldl_cons]
      refine ih _ _ ?_
      rw [show entry'.1 = entry.1 from hentry.1.symm]
      exact forall_put hrel entry.1 hentry.2

theorem mem_of_mapM {ε α β : Type} {f : α → Except ε β} {items : List α} {results : List β}
    (h : items.mapM f = .ok results) {b : β} (hb : b ∈ results) :
    ∃ a ∈ items, f a = .ok b := by
  induction items generalizing results with
  | nil =>
      rw [List.mapM_nil] at h
      rw [← Except.ok.inj h] at hb
      cases hb
  | cons a rest ih =>
      rw [List.mapM_cons, bind_eq_ok] at h
      obtain ⟨first, hfirst, h⟩ := h
      rw [bind_eq_ok] at h
      obtain ⟨others, hothers, h⟩ := h
      rw [← Except.ok.inj h] at hb
      rcases List.mem_cons.mp hb with rfl | hin
      · exact ⟨a, List.mem_cons_self, hfirst⟩
      · obtain ⟨c, hc, heq⟩ := ih hothers hin
        exact ⟨c, List.mem_cons_of_mem _ hc, heq⟩

end Steps

section Resolution

variable {watch : Watch} {subject : Subject} {world : World} {s : Session}

theorem mirrors_reference {asked : Asked} {visited : Value} (hs : s.Fit watch)
    (hsubject : subject.Watched watch) (hplain : subject.content.Plain)
    (hlocal : asked.IsLocal subject.content) :
    Mirrors (Session.Fit watch) (visitedPath visited = .ok []) Node.Like
      (Engine.reference subject asked visited) (calculatedReference subject asked visited)
      world s := by
  unfold Engine.reference calculatedReference
  refine mirrors_timed (fun t u hu ht => ht.retracked hu) _ ?_
  refine mirrors_open hs hsubject fun later id t hwatch ht => ?_
  refine (mirrors_same ht _).bind ?_
  rintro target target' u ⟨rfl, htarget⟩ hu
  refine (mirrors_same hu (orFail (visitedPath visited))).bind ?_
  rintro path path' v ⟨rfl, hpath⟩ hv
  have htargetLocal : ∀ x, target = .str x → subject.content.IsLocal x :=
    fun x hx => hlocal x (hx ▸ htarget)
  have hresolve := mirrors_resolveReference_ready world path hwatch (hplain.renumbered id)
    htargetLocal hv
  refine hresolve.antitone fun hvisited => ?_
  rw [hvisited] at hpath
  exact (Except.ok.inj hpath).symm

theorem mirrors_rawSchema {raw : Value} (hs : s.Fit watch) (hsubject : subject.Watched watch)
    (hplain : subject.content.Plain) (hjson : raw.isJson = true)
    (hlocal : ∀ x ∈ raw.references, subject.content.IsLocal x) :
    Mirrors (Session.Fit watch) True Node.Like (rawSchema subject raw)
      (calculatedSchema subject raw) world s := by
  unfold rawSchema calculatedSchema
  refine mirrors_timed (fun t u hu ht => ht.retracked hu) _ ?_
  refine mirrors_open hs hsubject fun later id t hwatch ht => ?_
  refine (mirrors_same ht _).bind ?_
  rintro n n' u ⟨rfl, hparse⟩ hu
  have hfollows : ∀ x, n.Pursues (.str x) → subject.content.IsLocal x :=
    fun x hx => hlocal x (Node.follows_parse hparse hx.follows)
  exact mirrors_resolveNode_ready world hwatch (hplain.renumbered id)
    (Node.sound_parse hjson hparse).1 hfollows hu

/-- Resolving a schema that was read mirrors settling it without a session. -/
theorem mirrors_schema {n : Node} (hs : s.Fit watch) (hsubject : subject.Watched watch)
    (hplain : subject.content.Plain) (hneat : n.Neat)
    (hlocal : ∀ x, n.Pursues (.str x) → subject.content.IsLocal x) :
    Mirrors (Session.Fit watch) True Node.Like (Engine.schema subject n)
      (n.settled (subject.content.resolved [])) world s := by
  unfold Engine.schema
  refine mirrors_timed (fun t u hu ht => ht.retracked hu) _ ?_
  refine mirrors_open hs hsubject fun later id t hwatch ht => ?_
  exact mirrors_resolveNode_ready world hwatch (hplain.renumbered id) hneat hlocal ht

theorem mirrors_schemas (hs : s.Fit watch) (hsubject : subject.Watched watch)
    (hplain : subject.content.Plain) :
    Mirrors (Session.Fit watch)
      (∀ table, subject.content.registry = .ok table → SegmentNames table) LikeTables
      (Engine.schemas subject) subject.content.allDeclared world s := by
  unfold Engine.schemas
  refine mirrors_timed (fun t u hu ht => ht.retracked hu) _ ?_
  refine mirrors_open hs hsubject fun later id t hwatch ht => ?_
  have hall := mirrors_allSchemas world hwatch (hplain.renumbered id) ht
  rwa [Document.allDeclared_renumbered] at hall

theorem mirrors_references {asked : List Asked} (hs : s.Fit watch)
    (hsubject : subject.Watched watch) (hplain : subject.content.Plain)
    (hlocal : ∀ one ∈ asked, one.IsLocal subject.content) :
    Mirrors (Session.Fit watch) True (List.Forall₂ (Table.EntryRel (Agree Node.Like)))
      (Engine.references subject asked) (calculatedReferences subject asked) world s := by
  unfold Engine.references calculatedReferences
  refine mirrors_open hs hsubject fun later id t hwatch ht => ?_
  refine (mirrors_same ht _).bind ?_
  rintro targets targets' u ⟨rfl, htargets⟩ hu
  have htargetsLocal : ∀ target ∈ targets, ∀ x, target = .str x →
      Document.IsLocal { subject.content with id := id } x := by
    intro target htarget x hx
    obtain ⟨one, hone, heq⟩ := mem_of_mapM htargets htarget
    exact hlocal one hone x (hx ▸ heq)
  refine Ensures.bind (mirrors_targets hwatch (hplain.renumbered id) htargetsLocal hu) ?_ ?_
  · rintro results v ⟨hv, results', hresults, hall⟩
    obtain rfl := Except.ok.inj hresults
    refine Ensures.bind_ok (ensures_warnings hv) fun w hw => ?_
    dsimp only
    split
    · exact mirrors_pure hw (forall_ofList hall)
    · exact mirrors_throw hw rfl
  · rintro failure v ⟨-, results', hresults, -⟩
    cases hresults

/-- Resolving a schema mirrors settling one that is like it. -/
theorem mirrors_schema_like {n m : Node} (hs : s.Fit watch) (hsubject : subject.Watched watch)
    (hplain : subject.content.Plain) (hlike : n.Like m)
    (hlocal : ∀ x, m.Pursues (.str x) → subject.content.IsLocal x) :
    Mirrors (Session.Fit watch) True Node.Like (Engine.schema subject n)
      (m.settled (subject.content.resolved [])) world s := by
  have hown : ∀ x, n.Pursues (.str x) → subject.content.IsLocal x :=
    fun x hx => hlocal x (hlike.pursues hx)
  have hmirrors : Mirrors (Session.Fit watch) True Node.Like (Engine.schema subject n)
      (n.settled (subject.content.resolved [])) world s :=
    mirrors_schema hs hsubject hplain hlike.neat hown
  have hsettled := Document.settled_like hplain.json hlike
  refine ⟨hmirrors.1, Agree.simulates ?_ True⟩
  exact hmirrors.2.agree.trans hsettled fun _ _ _ h h' => h.trans h'

/-- Resolving schemas one after the other mirrors settling schemas that are like them. -/
theorem mirrors_eachSchema {declared calculated : Table Node} (hs : s.Fit watch)
    (hsubject : subject.Watched watch) (hplain : subject.content.Plain)
    (hlike : LikeTables declared calculated)
    (hlocal : ∀ entry ∈ calculated, ∀ x, entry.2.Pursues (.str x) → subject.content.IsLocal x) :
    Mirrors (Session.Fit watch) True LikeTables
      (declared.mapM fun (name, n) => do return (name, ← Engine.schema subject n))
      (calculatedEach subject calculated) world s := by
  induction hlike generalizing s with
  | nil => exact mirrors_pure hs .nil
  | @cons entry entry' rest rest' hentry hrest ih =>
      obtain ⟨name, n⟩ := entry
      obtain ⟨name', m⟩ := entry'
      obtain ⟨hname, hnm⟩ := hentry
      obtain ⟨hfirst, hothers⟩ := List.forall_mem_cons.mp hlocal
      rw [List.mapM_cons, calculatedEach, bind_assoc]
      refine (mirrors_schema_like hs hsubject hplain hnm hfirst).bind fun a b t hab ht => ?_
      rw [pure_bind]
      refine (ih ht hothers).bind fun others others' u hlike hu => ?_
      exact mirrors_pure hu (.cons ⟨hname, hab⟩ hlike)

/-- Resolving all schemas of a document mirrors settling what its entries declare. -/
theorem mirrors_resolvedSchemas (hs : s.Fit watch) (hsubject : subject.Watched watch)
    (hplain : subject.content.Plain) :
    Mirrors (Session.Fit watch)
      (∀ table, subject.content.registry = .ok table → SegmentNames table) LikeTables
      (Engine.resolvedSchemas subject) (calculatedSchemas subject) world s := by
  unfold Engine.resolvedSchemas calculatedSchemas
  refine (mirrors_schemas hs hsubject hplain).bind_ok fun declared calculated t hall hlike ht => ?_
  refine Mirrors.antitone (mirrors_eachSchema ht hsubject hplain hlike ?_) fun _ => trivial
  rintro ⟨name, n⟩ hentry x hx
  obtain ⟨registry, hregistry, henumerated⟩ := bind_eq_ok.mp hall
  obtain ⟨raw, hraw, hdeclared⟩ := Document.declared_of_enumerated henumerated hentry
  exact Document.isLocal_of_declared hplain (orFail_eq_ok.mp hregistry) hraw hdeclared hx.follows

theorem mirrors_batches (hs : s.Fit watch) (hsubject : subject.Watched watch)
    (hplain : subject.content.Plain) :
    Mirrors (Session.Fit watch)
      (∀ table, subject.content.registry = .ok table → SegmentNames table) (fun _ _ => True)
      (Engine.batches subject) subject.content.allDeclared world s := by
  unfold Engine.batches
  refine mirrors_open hs hsubject fun later id t hwatch ht => ?_
  have hall := mirrors_schemaBatches world hwatch (hplain.renumbered id) ht
  rw [Document.allDeclared_renumbered] at hall
  have hsame : (subject.content.allDeclared >>= fun table => Except.ok table) =
      subject.content.allDeclared := bind_pure _
  rw [← hsame]
  exact hall.bind fun tables table u _ hu => mirrors_pure hu trivial

/-- An answer is like another if what is answered is. -/
theorem mirrors_answer {α β : Type} {failures : Prop} {R : α → β → Prop} {act : Resolving α}
    {first : Except Failure β} {answer : α → Answer} {answer' : β → Answer}
    (h : Mirrors (Session.Fit watch) failures R act first world s)
    (himp : ∀ a b, R a b → Answer.Like (answer a) (answer' b)) :
    Mirrors (Session.Fit watch) failures Answer.Like (do return answer (← act))
      (do return answer' (← first)) world s :=
  h.bind fun a b _ hab ht => mirrors_pure ht (himp a b hab)

variable (world) in
/-- A request that resolves something mirrors its outcome without a session. -/
theorem mirrors_run {r : Request} (hs : s.Fit watch) (hsubject : r.subject? = some subject)
    (hwatched : subject.Watched watch) (hlocal : r.IsLocal) :
    Mirrors (Session.Fit watch) r.IsClosed Answer.Like r.run r.outcome world s := by
  cases r with
  | reference subject' asked visited =>
      obtain rfl := Option.some.inj hsubject
      exact mirrors_answer (mirrors_reference hs hwatched hlocal.1 hlocal.2)
        fun n n' h => .schema h.alike
  | schema subject' raw =>
      obtain rfl := Option.some.inj hsubject
      exact mirrors_answer (mirrors_rawSchema hs hwatched hlocal.1 hlocal.2.1 hlocal.2.2)
        fun n n' h => .schema h.alike
  | node subject' n =>
      obtain rfl := Option.some.inj hsubject
      refine mirrors_answer (Mirrors.antitone (mirrors_schema hs hwatched hlocal.1 hlocal.2.1 hlocal.2.2)
        fun _ => trivial) fun n n' h => .schema h.alike
  | references subject' asked =>
      obtain rfl := Option.some.inj hsubject
      refine mirrors_answer (mirrors_references hs hwatched hlocal.1 hlocal.2) fun table table' h => ?_
      exact .results (h.imp fun entry entry' he => ⟨he.1, he.2.mono fun n n' hn => hn.alike⟩)
  | schemas subject' =>
      obtain rfl := Option.some.inj hsubject
      refine mirrors_answer (mirrors_schemas hs hwatched hlocal) fun table table' h => ?_
      exact .registry (h.imp fun entry entry' he => ⟨he.1, he.2.alike⟩)
  | resolvedSchemas subject' =>
      obtain rfl := Option.some.inj hsubject
      refine mirrors_answer (mirrors_resolvedSchemas hs hwatched hlocal) fun table table' h => ?_
      refine .results ?_
      rw [List.forall₂_map_left_iff, List.forall₂_map_right_iff]
      exact h.imp fun entry entry' he => ⟨he.1, .ok he.2.alike⟩
  | batches subject' =>
      obtain rfl := Option.some.inj hsubject
      exact mirrors_answer (mirrors_batches hs hwatched hlocal) fun _ _ _ => .done
  | _ => cases hsubject

end Resolution

end SchemaGraph.Engine
