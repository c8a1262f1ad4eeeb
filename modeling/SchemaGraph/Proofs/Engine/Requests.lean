import SchemaGraph.Engine
import SchemaGraph.Proofs.Gathering

/-!
# What an engine is asked for

The operations of an engine that resolve, those that only change how it works, its settings, its caches
and what it measures, and those that load documents or look into other ones directly.  The outside may
change from one request to the next, so a life is a list of requests, each with the world in which it
is made.
-/

namespace SchemaGraph.Engine

open Resolving

/-- What an engine may be asked for. -/
inductive Request where
  | reference (subject : Subject) (asked : Asked) (visited : Value)
  | schema (subject : Subject) (raw : Value)
  /-- Resolve a schema that was handed out, or read, before. -/
  | node (subject : Subject) (n : Node)
  | references (subject : Subject) (asked : List Asked)
  | schemas (subject : Subject)
  | resolvedSchemas (subject : Subject)
  | batches (subject : Subject)
  | load (path : String)
  | outsideDocument (location : String)
  | outsideSchema (target : Value) (base : String) (depth : Value)
  | configureCaching (enabled maxSize : Value)
  | configureMemory (enabled threshold streaming : Value)
  | configureMetrics (enabled : Value)
  | cleanup (force : Bool)
  | clearCaches
  | startTracking
  | endTracking
  | report
  | resetProcessed
  /-- Time goes by, and other memory is in use. -/
  | pass (seconds : Number) (resident virtual : UInt64)

/-- What an engine answers. -/
inductive Answer where
  | done
  | schema (n : Node)
  | results (table : Table (Except Failure Node))
  | registry (table : Table Node)

namespace Request

/-- What is asked about, if something is resolved. -/
def subject? : Request → Option Subject
  | .reference subject _ _ | .schema subject _ | .node subject _ | .references subject _
  | .schemas subject | .resolvedSchemas subject | .batches subject => some subject
  | _ => none

/-- Do what is asked for. -/
def run : Request → Resolving Answer
  | .reference subject asked visited => do
    return .schema (← Engine.reference subject asked visited)
  | .schema subject raw => do return .schema (← rawSchema subject raw)
  | .node subject n => do return .schema (← Engine.schema subject n)
  | .references subject asked => do return .results (← Engine.references subject asked)
  | .schemas subject => do return .registry (← Engine.schemas subject)
  | .resolvedSchemas subject => do
    let table ← Engine.resolvedSchemas subject
    return .results (table.map fun entry => (entry.1, .ok entry.2))
  | .batches subject => do
    let _ ← Engine.batches subject
    return .done
  | .load path => do
    let _ ← Document.load path
    return .done
  | .outsideDocument location => do
    let _ ← External.load location
    return .done
  | .outsideSchema target base depth => do
    let _ ← External.resolve target base depth
    return .done
  | .configureCaching enabled maxSize => do
    Engine.configureCaching enabled maxSize
    return .done
  | .configureMemory enabled threshold streaming => do
    Engine.configureMemory enabled threshold streaming
    return .done
  | .configureMetrics enabled => do
    Engine.configureMetrics enabled
    return .done
  | .cleanup force => do
    let _ ← SchemaGraph.cleanup force
    return .done
  | .clearCaches => do
    Engine.clearCaches
    return .done
  | .startTracking => do
    Engine.startTracking
    return .done
  | .endTracking => do
    Engine.endTracking
    return .done
  | .report => do
    let _ ← Engine.report
    return .done
  | .resetProcessed => do
    modify fun s => { s with processed := 0 }
    return .done
  | .pass seconds resident virtual => do
    modify fun s =>
      { s.elapse seconds with memory := (.int resident.toNat, .int virtual.toNat) }
    return .done

end Request

/-- A world with nothing in it. -/
def emptyWorld : World := ⟨default, [], fun _ _ => (.int 0, .lost ""), true, []⟩

/-- The session after a life. -/
def lived (life : List (World × Request)) (s : Session) : Session :=
  life.foldl (fun s step => (step.2.run step.1 s).2) s

theorem lived_cons (step : World × Request) (life : List (World × Request)) (s : Session) :
    lived (step :: life) s = lived life (step.2.run step.1 s).2 := rfl

/-- What every request of a life keeps, the life keeps. -/
theorem keeps_lived {keeps : Session → Prop} {life : List (World × Request)}
    (h : ∀ step ∈ life, Keeping keeps step.2.run) {s : Session} (hs : keeps s) :
    keeps (lived life s) := by
  induction life generalizing s with
  | nil => exact hs
  | cons step rest ih =>
      rw [lived_cons]
      exact ih (fun later hlater => h later (List.mem_cons_of_mem _ hlater))
        (h step List.mem_cons_self step.1 s hs)

/-! ### Several references -/

section References

variable {subject : Subject} {asked : List Asked} {targets : List Value} {d : Document}
  {world : World} {s t : Session}

/-- Pointing failures out does not fail. -/
theorem ensures_pointedOut (results : List (Value × Except Failure Node)) (world : World)
    (s : Session) :
    Ensures (results.forM fun (target, result) =>
      match result with
      | .ok _ => pure ()
      | .error failure => warn (.resolveFailed target failure)) world s fun result _ =>
        result = .ok () := by
  induction results generalizing s with
  | nil => rfl
  | cons entry rest ih =>
      obtain ⟨target, result⟩ := entry
      rw [List.forM]
      cases result with
      | ok n => exact ih s
      | error failure => exact (ensures_modify_bind _ _ _).mpr (ih _)

/-- All targets are resolved; then the results are given if all targets may be keys. -/
theorem ensures_results (hopen : subject.open world s = (.ok d, t))
    (htargets : asked.mapM Asked.target = .ok targets) :
    Ensures (Engine.references subject asked) world s fun result _ => ∃ results u,
      Gathering (resolveReference d []) world targets t
        (results.map fun entry => (entry.1, .ended entry.2)) u ∧
        result = if targets.all (·.hashable) then .ok (Table.ofList results)
          else .error (.fault .typeMismatch) := by
  have hopened : Ensures subject.open world s fun result u => result = .ok d ∧ u = t := by
    unfold Ensures
    rw [hopen]
    exact ⟨rfl, rfl⟩
  unfold Engine.references
  apply hopened.bind_ok
  intro u hu
  rw [hu, ensures_lift_ok_bind htargets]
  apply Ensures.bind (ensures_gather (resolveReference d []) targets world t)
  · intro results u hresults
    obtain ⟨results', hok, hgathered⟩ := hresults
    obtain rfl := Except.ok.inj hok
    apply Ensures.bind (ensures_pointedOut results world u)
    · intro _ v _
      refine ⟨results, u, hgathered, ?_⟩
      split
      · rfl
      · rfl
    · intro failure v hfailed
      cases hfailed
  · intro failure u hresults
    obtain ⟨results, hok, -⟩ := hresults
    cases hok

/-- Several references have results exactly if each of them tells its target and each target may be a
key, whichever of them can be resolved. -/
theorem references_isOk (hopen : subject.open world s = (.ok d, t)) :
    (∃ table, (Engine.references subject asked world s).1 = .ok table) ↔
      ∃ targets, asked.mapM Asked.target = .ok targets ∧ targets.all (·.hashable) = true := by
  constructor
  · intro hgiven
    obtain ⟨table, htable⟩ := hgiven
    cases htargets : asked.mapM Asked.target with
    | error failure =>
        unfold Engine.references at htable
        rw [bind_apply, hopen] at htable
        dsimp only at htable
        rw [bind_apply, htargets] at htable
        cases htable
    | ok targets =>
        obtain ⟨results, u, -, hresult⟩ := ensures_results hopen htargets
        rw [htable] at hresult
        split at hresult
        · exact ⟨targets, rfl, ‹_›⟩
        · cases hresult
  · intro htold
    obtain ⟨targets, htargets, hhashable⟩ := htold
    obtain ⟨results, u, -, hresult⟩ := ensures_results hopen htargets
    rw [if_pos hhashable] at hresult
    exact ⟨_, hresult⟩

/-- The tasks whose results are given are those of the targets, in their order. -/
theorem targets_of_gathering {results : List (Value × Except Failure Node)} {u : Session}
    (h : Gathering (resolveReference d []) world targets t
      (results.map fun entry => (entry.1, .ended entry.2)) u) : results.map Prod.fst = targets := by
  have hsettles : ∀ target ∈ targets,
      Settles (fun _ => True) (fun _ => True) (resolveReference d [] target) :=
    fun _ _ _ _ _ => ⟨trivial, fun _ => trivial⟩
  obtain ⟨-, hitems, -⟩ := h.sound (fun _ _ => trivial) hsettles trivial
  rw [← hitems, List.map_map]
  rfl

/-- Several references are resolved exactly if each of them tells its target and each target may be a key;
and then each target has the result of its own task, whichever of the others fail. -/
theorem references_gathered (hopen : subject.open world s = (.ok d, t)) :
    ((∃ table, (Engine.references subject asked world s).1 = .ok table) ↔
      ∃ targets, asked.mapM Asked.target = .ok targets ∧ targets.all (·.hashable) = true) ∧
    ∀ table, (Engine.references subject asked world s).1 = .ok table →
      ∃ targets results u, asked.mapM Asked.target = .ok targets ∧ results.map Prod.fst = targets ∧
        Gathering (resolveReference d []) world targets t
          (results.map fun entry => (entry.1, .ended entry.2)) u ∧ table = Table.ofList results := by
  refine ⟨references_isOk hopen, fun table htable => ?_⟩
  obtain ⟨targets, htargets, hhashable⟩ := (references_isOk hopen).mp ⟨table, htable⟩
  obtain ⟨results, u, hgathered, hresult⟩ := ensures_results hopen htargets
  rw [if_pos hhashable, htable] at hresult
  exact ⟨targets, results, u, htargets, targets_of_gathering hgathered, hgathered,
    Except.ok.inj hresult⟩

/-- A reference that leads nowhere has its failure, and the others would have their results. -/
theorem references_gathered_missing :
    let subject := Subject.mapping "empty" (Value.record [])
    let asked := [Asked.value (.str "#/components/schemas/A")]
    let s := Session.start {} (.int 0, .int 0) 1
    ∃ table results, (Engine.references subject asked emptyWorld s).1 = .ok table ∧
      results.map Prod.fst = [.str "#/components/schemas/A"] ∧ table = Table.ofList results := by
  intro subject asked s
  have hopen : ∃ d t, subject.open emptyWorld s = (.ok d, t) := ⟨_, _, rfl⟩
  obtain ⟨d, t, hopen⟩ := hopen
  have htold : ∃ targets, asked.mapM Asked.target = .ok targets ∧ targets.all (·.hashable) = true :=
    ⟨_, rfl, rfl⟩
  obtain ⟨hgiven, hgathered⟩ := references_gathered hopen
  obtain ⟨table, htable⟩ := hgiven.mpr htold
  obtain ⟨targets, results, u, htargets, hresults, -, heq⟩ := hgathered table htable
  obtain rfl := Except.ok.inj htargets
  exact ⟨table, results, htable, hresults, heq⟩

/-- A mapping without a reference keeps the references beside it from being resolved. -/
example : [Asked.value (.str "#/components/schemas/A"), Asked.value (.map [])].mapM Asked.target =
    .error .noReferenceKey := rfl

end References

end SchemaGraph.Engine
