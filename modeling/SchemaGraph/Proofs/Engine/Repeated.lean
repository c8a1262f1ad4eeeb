import SchemaGraph.Proofs.Engine.Discerning
import SchemaGraph.Proofs.Engine.Reachable
import SchemaGraph.Proofs.Resolve.Repeated

/-!
# Asking twice

On an engine that caches, with a bound of at least one, whatever is resolved is kept by the very call
that resolved it, and so is the document that a mapping has become.  Asking once more at once gives the
same schema.  Nothing is fetched, read or pointed out then, no cache changes, and the records count one
more hit and no miss.
-/

namespace SchemaGraph.Engine

open Resolving

/-- Records that know all caches, and caches that are on and leave room for an entry. -/
structure Receptive (s : Session) : Prop where
  ready : s.tracker.Ready
  caches : s.caches.Open
  remembers : s.caches.documents.enabled = true
  roomy : s.caches.Roomy

/-- An engine that caches takes what is resolved, if its bound is at least one. -/
theorem Reachable.receptive {s : Session} (h : Reachable s)
    (henabled : s.caches.settings.enabled.truthy = true) {bound : Number}
    (hbound : s.caches.settings.maxSize.number? = some bound)
    (hroom : Number.le (.int 1) bound = true) : Receptive s where
  ready := h.inOrder.ready
  caches := fun shelf => (h.inOrder.caches shelf).trans henabled
  remembers := h.ample.remembers
  roomy := h.ample.roomy (Value.hasRoom_of_number hbound hroom)

section Opening

variable {subject : Subject} {d : Document} {world : World} {s t u : Session}

/-- The document that a mapping has become is remembered under the name of the mapping. -/
theorem get_of_open {name : String} {raw : Value} (hs : Receptive s)
    (hopen : (Subject.mapping name raw).open world s = (.ok d, t)) :
    t.caches.documents.get? name = some d := by
  have hcases := ensures_open_mapping_cases name raw world s
  unfold Ensures at hcases
  rw [hopen] at hcases
  rcases hcases with ⟨found, hget, hresult, rfl⟩ | ⟨hget, rfl, hresult⟩
  · rw [Except.ok.inj hresult]
    exact hget
  · have habsent := BoundedCache.absent_of_miss hs.remembers hget
    cases hset : (s.caches.documents.set name ⟨raw, "", s.nextId⟩).2 with
    | error fault =>
        rw [hset] at hresult
        cases hresult
    | ok count =>
        rw [hset] at hresult
        rw [Except.ok.inj hresult]
        exact BoundedCache.get_set hs.remembers hs.roomy.documents habsent hset

/-- As long as the remembered documents are the same, a subject is the same document. -/
theorem open_again (hs : Receptive s) (hopen : subject.open world s = (.ok d, t))
    (hsame : u.caches.documents = t.caches.documents) (world' : World) :
    Ensures subject.open world' u fun result v => result = .ok d ∧ v = u := by
  cases subject with
  | document known =>
      obtain ⟨hd, -⟩ := Prod.mk.inj hopen
      exact ⟨hd, rfl⟩
  | mapping name raw =>
      have hget : u.caches.documents.get? name = some d := by
        rw [hsame]
        exact get_of_open hs hopen
      unfold Subject.open
      rw [ensures_get_bind, hget]
      exact ⟨rfl, rfl⟩

end Opening

/-- Resolving makes no documents of mappings. -/
theorem steady_documents (d : Document) (documents : BoundedCache String Document) :
    Steady d fun s => s.caches.documents = documents where
  records := fun _ hs => hs
  inward := fun _ _ _ _ _ hs => hs
  composition := fun _ _ hs => hs
  reference := fun _ _ hs => hs
  schema := fun _ _ hs => hs
  failure := by
    intro s x failure hs
    unfold Session.keptFailure Caches.rememberFailure
    split
    · exact hs
    · exact hs

theorem timed_eq_ok {α : Type} {operation : Operation} {act : Resolving α} {world : World}
    {s t : Session} {a : α} (h : timed operation act world s = (.ok a, t)) :
    ∃ u, act world s = (.ok a, u) ∧ t.caches = u.caches ∧ (u.tracker.Ready → t.tracker.Ready) := by
  rw [timed_apply] at h
  obtain ⟨hresult, rfl⟩ := Prod.mk.inj h
  exact ⟨(act world s).2, Prod.ext hresult rfl, rfl, fun hready => hready.track _ _ _⟩

section Asking

variable {subject : Subject} {d : Document} {world : World} {s t : Session} {n : Node}

/-- A subject that was opened leaves a session that takes what is resolved. -/
theorem Receptive.opened (hs : Receptive s) (hopen : subject.open world s = (.ok d, t)) :
    t.tracker.Ready ∧ t.caches.Open ∧ t.Room .reference ∧ t.Room .composition := by
  obtain ⟨documents, nextId, rfl⟩ := opened_of_open hopen
  refine ⟨hs.ready, fun shelf => ?_, hs.roomy.references, hs.roomy.compositions⟩
  have hon := hs.caches shelf
  cases shelf <;> exact hon

/-- A reference that was resolved is served from its cache when it is resolved again. -/
theorem reference_again (hs : Receptive s) {asked : Asked} {visited : Value}
    (hrun : reference subject asked visited world s = (.ok n, t)) (world' : World) :
    Ensures (reference subject asked visited) world' t fun result u =>
      result = .ok n ∧ t.HitOnce "reference" u := by
  obtain ⟨v, hbody, hcaches, hready⟩ := timed_eq_ok hrun
  obtain ⟨d, opened, hopen, hrest⟩ := bind_eq_ok_run hbody
  obtain ⟨target, _, hlifted, hrest⟩ := bind_eq_ok_run hrest
  obtain ⟨htarget, hsame⟩ := lift_eq_ok hlifted
  rw [hsame] at hrest
  obtain ⟨path, _, hchecked, hrest⟩ := bind_eq_ok_run hrest
  obtain ⟨hpath, hsame⟩ := check_eq_ok hchecked
  rw [hsame] at hrest
  obtain ⟨hopened, hon, hroom, -⟩ := hs.opened hopen
  have hfollow : follow d (pathBudget d opened.externalSettings.maxDepth) path target world opened =
      (.ok n, v) := by
    unfold resolveReference at hrest
    rw [bind_apply] at hrest
    exact hrest
  obtain ⟨x, hgiven, hx, hv, hkept⟩ := follow_kept hopened hon hroom hfollow
  have hdocuments : v.caches.documents = opened.caches.documents :=
    keeps_of_run ((steady_documents d opened.caches.documents).keeping_resolveReference path target)
      rfl hrest
  rw [← hcaches] at hkept hdocuments
  unfold reference
  rw [ensures_timed]
  apply (open_again hs hopen hdocuments world').bind_ok
  rintro _ rfl
  rw [ensures_lift_ok_bind htarget, ensures_check_ok_bind hpath]
  unfold resolveReference pathBudget
  rw [ensures_get_bind, follow_eq_recalled d _ path hgiven hx]
  apply (ensures_recalled_hit .reference (hready hv) hkept _ world').mono
  rintro result u ⟨hresult, hhit⟩
  exact ⟨hresult, hhit.track _ _ _⟩

/-- A composition that was settled is served from its cache when it is settled again. -/
theorem rawSchema_again (hs : Receptive s) {raw : Value} {info : NodeInfo}
    {shape : CompositionShape Node} (hparse : Node.parse "" raw "#" = .ok (.composition info shape))
    (hrun : rawSchema subject raw world s = (.ok n, t)) (world' : World) :
    Ensures (rawSchema subject raw) world' t fun result u =>
      result = .ok n ∧ t.HitOnce "composition" u := by
  obtain ⟨v, hbody, hcaches, hready⟩ := timed_eq_ok hrun
  obtain ⟨d, opened, hopen, hrest⟩ := bind_eq_ok_run hbody
  obtain ⟨m, _, hlifted, hrest⟩ := bind_eq_ok_run hrest
  obtain ⟨hread, hsame⟩ := lift_eq_ok hlifted
  rw [hsame] at hrest
  obtain rfl := Except.ok.inj (hparse.symm.trans hread)
  obtain ⟨hopened, hon, -, hroom⟩ := hs.opened hopen
  obtain ⟨key, hdefect, hkey, hv, hkept⟩ :=
    settle_kept hopened hon hroom (Node.sourced_parse hparse) hrest
  have hdocuments : v.caches.documents = opened.caches.documents :=
    keeps_of_run ((steady_documents d opened.caches.documents).keeping_resolveNode _) rfl hrest
  rw [← hcaches] at hkept hdocuments
  unfold rawSchema
  rw [ensures_timed]
  apply (open_again hs hopen hdocuments world').bind_ok
  rintro _ rfl
  rw [ensures_lift_ok_bind hparse]
  unfold resolveNode
  rw [ensures_get_bind, settle_eq_recalled hdefect hkey]
  apply (ensures_recalled_hit .composition (hready hv) hkept _ world').mono
  rintro result u ⟨hresult, hhit⟩
  exact ⟨hresult, hhit.track _ _ _⟩

end Asking

/-- Wherever an engine comes that caches, with a bound of at least one: what it resolves, it gives again
when it is asked again at once, in whatever world.  All that changes then are its records, and these
count one more hit of the cache of references, or of compositions, and nothing else. -/
theorem repeated_is_hit {s : Session} (hs : Reachable s)
    (henabled : s.caches.settings.enabled.truthy = true) {bound : Number}
    (hbound : s.caches.settings.maxSize.number? = some bound)
    (hroom : Number.le (.int 1) bound = true) (subject : Subject) (world world' : World) :
    (∀ asked visited n t, reference subject asked visited world s = (.ok n, t) →
      ∃ u, reference subject asked visited world' t = (.ok n, u) ∧ t.HitOnce "reference" u) ∧
    ∀ raw info shape n t, Node.parse "" raw "#" = .ok (.composition info shape) →
      rawSchema subject raw world s = (.ok n, t) →
        ∃ u, rawSchema subject raw world' t = (.ok n, u) ∧ t.HitOnce "composition" u := by
  have hreceptive : Receptive s := hs.receptive henabled hbound hroom
  constructor
  · intro asked visited n t hrun
    obtain ⟨hresult, hhit⟩ := reference_again hreceptive hrun world'
    exact ⟨_, Prod.ext hresult rfl, hhit⟩
  · intro raw info shape n t hparse hrun
    obtain ⟨hresult, hhit⟩ := rawSchema_again hreceptive hparse hrun world'
    exact ⟨_, Prod.ext hresult rfl, hhit⟩

/-- An engine that keeps a single entry in each cache. -/
def narrowed : List (World × Request) :=
  [(emptyWorld, .configureCaching .null (.int 1))]

/-- A choice among what an alias stands for. -/
def aliasChoice : Value :=
  Value.record [("anyOf", .list [Value.record [("$ref", .str "#/components/schemas/Alias")]])]

/-- With room for one entry only, the alias drives out its target, and is kept itself. -/
theorem repeated_is_hit_narrowed :
    let s := lived narrowed (new {} 0 0 1)
    let asked := Asked.value (.str "#/components/schemas/Alias")
    (∃ n t u, reference aliasSubject asked (.list []) emptyWorld s = (.ok n, t) ∧
      reference aliasSubject asked (.list []) emptyWorld t = (.ok n, u) ∧ t.HitOnce "reference" u) ∧
    ∃ n t u, rawSchema aliasSubject aliasChoice emptyWorld s = (.ok n, t) ∧
      rawSchema aliasSubject aliasChoice emptyWorld t = (.ok n, u) ∧ t.HitOnce "composition" u := by
  intro s asked
  have hreachable : Reachable s := ⟨_, _, _, _, _, rfl⟩
  have henabled : s.caches.settings.enabled.truthy = true := by decide +kernel
  have hbound : s.caches.settings.maxSize.number? = some (.int 1) := by decide +kernel
  obtain ⟨hreference, hcomposition⟩ := repeated_is_hit hreachable henabled hbound (by decide)
    aliasSubject emptyWorld emptyWorld
  have hrun : ∀ run : Except Failure Node × Session, run.1.isOk = true →
      ∃ n, run = (.ok n, run.2) := by
    rintro ⟨result, t⟩ hok
    cases result with
    | ok n => exact ⟨n, rfl⟩
    | error failure => cases hok
  constructor
  · obtain ⟨n, hfirst⟩ := hrun (reference aliasSubject asked (.list []) emptyWorld s) (by decide +kernel)
    obtain ⟨u, hagain, hhit⟩ := hreference asked (.list []) n _ hfirst
    exact ⟨n, _, u, hfirst, hagain, hhit⟩
  · obtain ⟨n, hfirst⟩ := hrun (rawSchema aliasSubject aliasChoice emptyWorld s) (by decide +kernel)
    have hparse : ∃ info shape, Node.parse "" aliasChoice "#" = .ok (.composition info shape) :=
      ⟨_, _, rfl⟩
    obtain ⟨info, shape, hparse⟩ := hparse
    obtain ⟨u, hagain, hhit⟩ := hcomposition aliasChoice info shape n _ hparse hfirst
    exact ⟨n, _, u, hfirst, hagain, hhit⟩

end SchemaGraph.Engine
