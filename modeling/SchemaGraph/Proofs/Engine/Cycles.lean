import SchemaGraph.Proofs.Engine.Durable
import SchemaGraph.Proofs.Engine.Normalizing
import SchemaGraph.Proofs.Resolve.Cycles

/-!
# Cycles on an engine

Whatever an engine has lived through, a reference of a document that refers to itself only is found to be
on a cycle exactly if one is below it: if it is resolved, no reference that it leads to depends eagerly on
itself, and if a cycle is reported, some reference that it leads to does.

The engine may have resolved anything before, also in this document: references that lead to other
documents, schemas that were read from values of any kind or that it gave away itself, and documents that
it loaded.  Its settings may have changed, its caches have been emptied, and the outside may have answered
differently every time.  All that has to be known of it is what the number of each document stands for.
-/

namespace SchemaGraph

open Relation Resolving

/-- To remember only what is clear of cycles, and no cycles as failures. -/
def Allowance.clear : Allowance where
  reference := fun d x _ => d.Clear x
  composition := fun d key _ => Node.Identifies d.Clear key
  schema := fun _ _ _ => True
  failure := fun _ _ failure => failure.kind ≠ .circularReference

/-- A session that remembers only what is clear of cycles, and has given away the number of a document. -/
structure Session.ClearFor (watch : Watch) (d : Document) (s : Session) : Prop where
  remembers : s.RemembersOnly .clear watch
  numbered : d.id < s.nextId

section Watched

variable {watch : Watch} {d : Document}

namespace Session.ClearFor

variable {s t : Session} (h : s.ClearFor watch d)
include h

theorem of_less (hless : s.Less t) : t.ClearFor watch d :=
  ⟨h.remembers.of_less hless, h.numbered.trans_le hless.nextId⟩

end Session.ClearFor

theorem unrecorded_clearFor : Unrecorded (Session.ClearFor watch d) where
  records := fun _ hs => hs.of_less (Session.less_of_caches rfl (le_refl _))
  inward := fun _ _ _ _ _ hs => hs.of_less (Session.less_of_caches rfl (le_refl _))

/-- The stores warrant for a document that is watched that nothing is resolved which is on a cycle. -/
theorem clearing_clearFor (hwatch : watch.documents d.id = some d) :
    Clearing d (Session.ClearFor watch d) where
  toUnrecorded := unrecorded_clearFor
  reference := fun hs hfound =>
    (hs.remembers.references _ _ (BoundedCache.mem_of_get hfound)).2 d hwatch
  composition := fun hs hfound =>
    (hs.remembers.compositions _ _ (BoundedCache.mem_of_get hfound)).2 d hwatch
  failure := by
    intro s x failure hs hfound
    unfold Caches.failure? at hfound
    split at hfound
    · exact (hs.remembers.failures _ _ (BoundedCache.mem_of_get hfound)).2 d hwatch
    · cases hfound
  keptReference := fun x n hs hx =>
    ⟨hs.remembers.keptReference (Watch.keeps_of_right hwatch hs.numbered hx), hs.numbered⟩
  keptComposition := fun key n hs hkey =>
    ⟨hs.remembers.keptComposition (Watch.keeps_of_right hwatch hs.numbered hkey), hs.numbered⟩
  keptFailure := by
    intro s x cause hs
    refine ⟨hs.remembers.keptFailure ?_, hs.numbered⟩
    exact Watch.keeps_of_right hwatch hs.numbered (fun hkind => nomatch hkind)

/-- All that is done in a document that is watched keeps the stores clear of cycles. -/
theorem resolved_clearFor (hwatch : watch.documents d.id = some d) :
    Resolved Node.Known d (Session.ClearFor watch d) where
  toUntracked := unrecorded_clearFor.toUntracked
  warn := fun _ => External.keeping_emit unrecorded_clearFor.inward _
  processed := fun hs => hs.of_less (Session.less_of_caches rfl (le_refl _))
  turned := unrecorded_clearFor.inward.turned
  dropped := fun hs => hs.of_less (Session.less_dropped _)
  following := fun path target =>
    ((clearing_clearFor hwatch).warrants_resolveReference path target).yields.keeping
  settling := fun _ hn => (clearing_clearFor hwatch).keeping_resolveNode hn
  schema := fun _ _ hs =>
    ⟨hs.remembers.keptSchema (Watch.keeps_of_right hwatch hs.numbered trivial), hs.numbered⟩

end Watched

namespace Engine

/-! ### What an engine may be asked about -/

/-- The document that a request loads, if it does. -/
def Request.loaded? (r : Request) (world : World) (s : Session) : Option Document :=
  match r with
  | .load path => (Document.load path world s).1.toOption
  | _ => none

namespace Holdings

/-- What is at hand when one more document is. -/
def adding (holdings : Holdings) (loaded : Option Document) : Holdings :=
  { holdings with documents := loaded.toList ++ holdings.documents }

/-- Whether what a request asks about is at hand, and a schema that it hands in was read or is in normal
form. -/
def Grants (holdings : Holdings) (r : Request) : Prop :=
  (∀ subject, r.subject? = some subject → holdings.Holds subject) ∧
    ∀ subject n, r = .node subject n → n.Known

/-- What is at hand after a life: the documents, too, that were loaded in it. -/
def after (holdings : Holdings) : List (World × Request) → Session → Holdings
  | [], _ => holdings
  | (world, r) :: rest, s => (holdings.adding (r.loaded? world s)).after rest (r.run world s).2

/-- Whether whatever a life asks about is at hand by then. -/
def Serves (holdings : Holdings) : List (World × Request) → Session → Prop
  | [], _ => True
  | (world, r) :: rest, s =>
    holdings.Grants r ∧ (holdings.adding (r.loaded? world s)).Serves rest (r.run world s).2

end Holdings

/-- A session that remembers only what is clear of cycles, where all that is at hand is watched. -/
def ClearOf (holdings : Holdings) (s : Session) : Prop :=
  ∃ watch : Watch, (∀ subject, holdings.Holds subject → subject.Watched watch) ∧
    s.RemembersOnly .clear watch

section Requests

variable {holdings : Holdings} {subject : Subject}

theorem ClearOf.of_less {s t : Session} (h : ClearOf holdings s) (hless : s.Less t) :
    ClearOf holdings t := by
  obtain ⟨watch, hwatched, hremembers⟩ := h
  exact ⟨watch, hwatched, hremembers.of_less hless⟩

/-- What was at hand stays watched when a document is made for a mapping. -/
theorem watched_adopt {watch : Watch} (h : subject.Watched watch) {name : String} {d : Document}
    (hid : watch.given ≤ d.id) : subject.Watched (watch.adopt name d) := by
  cases subject with
  | document known =>
      obtain ⟨hgiven, hknown⟩ := h
      refine ⟨hgiven, ?_⟩
      rw [Watch.adopt_of_ne (by omega)]
      exact hknown
  | mapping known raw => exact h

/-- A subject that is at hand opens to a document that is watched. -/
theorem ensures_open_clear (hholds : holdings.Holds subject) {world : World} {s : Session}
    (hs : ClearOf holdings s) :
    Ensures subject.open world s fun result t => ∃ watch : Watch,
      (∀ other, holdings.Holds other → other.Watched watch) ∧ t.RemembersOnly .clear watch ∧
        ∀ d, result = .ok d → watch.documents d.id = some d ∧ d.id < t.nextId ∧
          d = { subject.content with id := d.id } := by
  obtain ⟨watch, hwatched, hremembers⟩ := hs
  have hsubject := hwatched subject hholds
  cases subject with
  | document d =>
      refine ⟨watch, hwatched, hremembers, fun d' hd' => ?_⟩
      obtain rfl := Except.ok.inj hd'
      exact ⟨hsubject.2, hsubject.1.trans_le hremembers.given, rfl⟩
  | mapping name raw =>
      have hname : watch.mappings name = some raw := hsubject
      have hsame : ∀ raw', watch.mappings name = some raw' → raw' = raw := fun raw' hraw' =>
        Option.some.inj (hraw'.symm.trans hname)
      apply (ensures_open_mapping_cases name raw world s).mono
      rintro result t (⟨d, hfound, hresult, ht⟩ | ⟨-, ht, hresult⟩)
      · subst ht
        obtain ⟨hid, hadopts⟩ := hremembers.documents name d (BoundedCache.mem_of_get hfound)
        unfold Watch.Adopts at hadopts
        rw [hname] at hadopts
        refine ⟨watch, hwatched, hremembers, fun d' hd' => ?_⟩
        obtain rfl := Except.ok.inj (hresult.symm.trans hd')
        exact ⟨hadopts.2, hid, hadopts.1⟩
      · -- the new document may be remembered or not, but it has its number, and is watched
        subst ht
        let d : Document := ⟨raw, "", s.nextId⟩
        have hadopts : (watch.adopt name d).Adopts name d := Watch.adopts_adopt hsame
        unfold Watch.Adopts at hadopts
        rw [show (watch.adopt name d).mappings name = some raw from hname] at hadopts
        refine ⟨watch.adopt name d, fun other hother => ?_, hremembers.adopted hsame, fun d' hd' => ?_⟩
        · exact watched_adopt (hwatched other hother) hremembers.given
        · have hd : d' = d := by
            rw [hresult] at hd'
            cases hset : (s.caches.documents.set name d).2 with
            | ok count =>
                rw [hset] at hd'
                exact (Except.ok.inj hd').symm
            | error fault =>
                rw [hset] at hd'
                cases hd'
          subst hd
          exact ⟨hadopts.2, Nat.lt_succ_self _, rfl⟩

/-- Opening a subject never reports a cycle. -/
theorem blameless_open (subject : Subject) : Blameless subject.open := by
  intro scene s _
  cases subject with
  | document d => exact Node.harmless_ok d
  | mapping name raw =>
      rcases ensures_open_mapping_cases name raw scene s with ⟨d, -, hresult, -⟩ | ⟨-, -, hresult⟩
      · rw [hresult]
        exact Node.harmless_ok d
      · rw [hresult]
        cases (s.caches.documents.set name ⟨raw, "", s.nextId⟩).2 with
        | ok count => exact Node.harmless_ok _
        | error fault => exact Node.harmless_orFail (.error fault)

theorem standing_clear (holdings : Holdings) : Standing (ClearOf holdings) where
  records := fun _ hs => hs.of_less (Session.less_of_caches rfl (le_refl _))
  aside := fun _ _ hsame hs => hs.of_less (Session.less_of_caches hsame.caches hsame.nextId)
  loading := External.keeping_load fun _ _ _ _ _ hs =>
    hs.of_less (Session.less_of_caches rfl (le_refl _))
  dropped := fun hs => hs.of_less (Session.less_dropped _)
  cleared := fun hs => hs.of_less (Session.less_of_entries (Caches.clearAll_less _) (le_refl _))

/-- Whatever is resolved in a subject that is at hand keeps the stores clear of cycles. -/
theorem opens_clear (hholds : holdings.Holds subject) :
    Opens Node.Known (fun _ => Preserves (ClearOf holdings)) subject where
  toSequential := sequential_preserves (ClearOf holdings)
  timed := (standing_clear holdings).toUntracked.preserves_timed
  opening := by
    intro α next hnext world s hs
    suffices Ensures (subject.open >>= next) world s fun _ t => ClearOf holdings t from this
    apply Ensures.bind (ensures_open_clear hholds hs)
    · rintro d t ⟨watch, hwatched, hremembers, hopened⟩
      obtain ⟨hwatch, hid, -⟩ := hopened d rfl
      have hkept := hnext d _ (resolved_clearFor hwatch) world t ⟨hremembers, hid⟩
      exact ⟨watch, hwatched, hkept.remembers⟩
    · rintro failure t ⟨watch, hwatched, hremembers, -⟩
      exact ⟨watch, hwatched, hremembers⟩

/-- Resolving all schemas of a subject, those that are remembered among them. -/
theorem preserves_resolvedSchemas_clear (hholds : holdings.Holds subject) :
    Preserves (fun s => ClearOf holdings s ∧ s.InNormalForm) (resolvedSchemas subject) := by
  have hopens := opens_clear hholds
  intro world s hs
  have hdeclared : Ensures (schemas subject) world s fun result t =>
      (ClearOf holdings t ∧ t.InNormalForm) ∧ ∀ table, result = .ok table → Declared table :=
    have hnormal := yields_schemas subject world s hs.2
    ⟨⟨hopens.schemas world s hs.1, hnormal.1⟩, hnormal.2⟩
  have hresolved : Ensures (resolvedSchemas subject) world s fun _ t =>
      ClearOf holdings t ∧ t.InNormalForm := by
    refine hdeclared.bind ?_ fun failure t ht => ht.1
    intro table t ht
    have hknown : ∀ entry ∈ table, entry.2.Known := fun entry hentry => (ht.2 table rfl entry hentry).1
    exact ⟨hopens.eachSchema hknown world t ht.1.1,
      (yields_eachSchema subject hknown).keeping world t ht.1.2⟩
  exact hresolved

/-- What is made of a result does not matter. -/
theorem preserves_answer {α : Type} {keeps : Session → Prop} {act : Resolving α}
    (hact : Preserves keeps act) (answer : α → Answer) :
    Preserves keeps (act >>= fun a => pure (answer a)) :=
  hact.bind fun _ => (keeping_pure _).preserves

/-- Every request for what is at hand keeps the stores clear of cycles, and in normal form. -/
theorem preserves_request_clear {r : Request} (hr : holdings.Grants r) :
    Preserves (fun s => ClearOf holdings s ∧ s.InNormalForm) r.run := by
  obtain ⟨hsubject, hknown⟩ := hr
  have hregular : r.IsRegular := by
    cases r with
    | node subject n => exact (hknown subject n rfl).regular
    | _ => trivial
  have hnormal : Preserves Session.InNormalForm r.run := (yields_request hregular).keeping.preserves
  -- a request about no subject keeps every such invariant; each of the others opens its subject
  cases hr : r.subject? with
  | none =>
      refine Preserves.and (Keeping.preserves ?_) hnormal
      refine (standing_clear holdings).keeping_request hr fun enabled maxSize _ => ?_
      refine (standing_clear holdings).toUntracked.keeping_configureCaching fun s hs => ?_
      exact hs.of_less (Session.less_of_entries (s.caches.configure_less enabled maxSize) (le_refl _))
  | some subject =>
      have hholds := hsubject subject hr
      have hopens := opens_clear hholds
      cases r with
      | reference other asked visited =>
          obtain rfl := Option.some.inj hr
          exact (preserves_answer (hopens.reference asked visited) _).and hnormal
      | schema other raw =>
          obtain rfl := Option.some.inj hr
          have hread : ∀ n, Node.parse "" raw "#" = .ok n → n.Known :=
            fun n hn => Or.inl (Node.sourced_parse hn)
          exact (preserves_answer (hopens.rawSchema hread) _).and hnormal
      | references other asked =>
          obtain rfl := Option.some.inj hr
          exact (preserves_answer (hopens.references asked) _).and hnormal
      | schemas other =>
          obtain rfl := Option.some.inj hr
          exact (preserves_answer hopens.schemas _).and hnormal
      | node other n =>
          obtain rfl := Option.some.inj hr
          exact (preserves_answer (hopens.schema (hknown _ n rfl)) _).and hnormal
      | resolvedSchemas other =>
          obtain rfl := Option.some.inj hr
          exact preserves_answer (preserves_resolvedSchemas_clear hholds) _
      | batches other =>
          obtain rfl := Option.some.inj hr
          exact (preserves_answer hopens.batches fun _ => .done).and hnormal
      | _ => cases hr

end Requests

/-! ### Documents that are loaded -/

/-- Whether an operation makes documents under new numbers. -/
def Numbers (act : Resolving Document) : Prop :=
  ∀ (world : World) s, Ensures act world s fun result t =>
    ∀ d, result = .ok d → s.nextId ≤ d.id ∧ d.id < t.nextId

theorem numbers_bind {α : Type} {act : Resolving α} {next : α → Resolving Document}
    (hact : ∀ id, Keeping (fun s => id ≤ s.nextId) act) (hnext : ∀ a, Numbers (next a)) :
    Numbers (act >>= next) := by
  intro world s
  have hkept := hact s.nextId world s (le_refl _)
  rw [ensures_bind]
  unfold Ensures
  rcases hrun : act world s with ⟨result, t⟩
  rw [hrun] at hkept
  cases result with
  | ok a =>
      intro d hd
      obtain ⟨hlow, hhigh⟩ := hnext a world t d hd
      exact ⟨hkept.trans hlow, hhigh⟩
  | error failure => exact fun d hd => nomatch hd

theorem numbers_throw (failure : Failure) : Numbers (throw failure) :=
  fun _ _ _ hd => nomatch hd

theorem numbers_guard {condition : Prop} [Decidable condition] {failing : Resolving PUnit}
    {rest : PUnit → Resolving Document} (hfailing : ∀ id, Keeping (fun s => id ≤ s.nextId) failing)
    (hrest : Numbers (rest ⟨⟩)) : Numbers (if condition then failing >>= rest else rest ⟨⟩) := by
  split
  · exact numbers_bind hfailing fun _ => hrest
  · exact hrest

/-- A document that is loaded gets a new number. -/
theorem numbers_load (path : String) : Numbers (Document.load path) := by
  have haside : ∀ id, Aside fun s => id ≤ s.nextId := fun id s t hsame hs => hs.trans hsame.nextId
  unfold Document.load
  refine numbers_bind (fun _ => keeping_read) fun world => ?_
  refine numbers_guard (fun _ => keeping_fault _) (numbers_guard (fun _ => keeping_throw _) ?_)
  dsimp only
  split
  · exact numbers_throw _
  · refine numbers_bind (fun id => (haside id).keeping_note rfl) fun _ => ?_
    refine numbers_bind (fun _ => keeping_check _) fun text => ?_
    refine numbers_bind (fun _ => keeping_lift _) fun raw => ?_
    split
    · exact numbers_throw _
    · refine numbers_bind (fun id => Document.keeping_oddPaths (haside id).keeping_warn _) ?_
      intro _ world s d hd
      obtain rfl := Except.ok.inj hd
      exact ⟨le_refl _, Nat.lt_succ_self _⟩

/-- A document that was made under a new number may be at hand from then on. -/
theorem ClearOf.adding {holdings : Holdings} {s t : Session} (h : ClearOf holdings s)
    (hless : s.Less t) {d : Document} (hlow : s.nextId ≤ d.id) (hhigh : d.id < t.nextId) :
    ClearOf (holdings.adding (some d)) t := by
  obtain ⟨watch, hwatched, hremembers⟩ := h
  -- nothing is remembered under the new number, so what it is watched for does not matter
  let later : Watch := ⟨Function.update watch.documents d.id (some d), watch.mappings, t.nextId⟩
  have hsame : ∀ i, i ≠ d.id → later.documents i = watch.documents i :=
    fun i hi => Function.update_of_ne hi _ _
  have hkeeps : ∀ {key : CacheKey} {right : Document → String → Prop},
      watch.Keeps s.nextId key right → later.Keeps t.nextId key right := by
    intro key right hkeep
    obtain ⟨hid, hright⟩ := hkeep
    refine ⟨hid.trans_le hless.nextId, fun d' hd' => hright d' ?_⟩
    rwa [hsame _ (by omega)] at hd'
  refine ⟨later, fun subject hsubject => ?_, ?_⟩
  · cases subject with
    | document known =>
        rcases List.mem_cons.mp hsubject with heq | hknown
        · subst heq
          exact ⟨hhigh, Function.update_self _ _ _⟩
        · obtain ⟨hgiven, hdocument⟩ := hwatched (.document known) hknown
          have hid : known.id < s.nextId := hgiven.trans_le hremembers.given
          exact ⟨hid.trans_le hless.nextId, (hsame _ (by omega)).trans hdocument⟩
    | mapping name raw => exact hwatched (.mapping name raw) hsubject
  · exact
      { given := le_refl _
        references := fun key n hin => hkeeps (hremembers.references key n (hless.references hin))
        compositions := fun key n hin =>
          hkeeps (hremembers.compositions key n (hless.compositions hin))
        schemas := fun key n hin => hkeeps (hremembers.schemas key n (hless.schemas hin))
        failures := fun key failure hin =>
          hkeeps (hremembers.failures key failure (hless.failures hin))
        documents := by
          intro name known hin
          obtain ⟨hid, hadopts⟩ := hremembers.documents name known (hless.documents hin)
          refine ⟨hid.trans_le hless.nextId, ?_⟩
          unfold Watch.Adopts at *
          rwa [hsame _ (by omega)] }

/-- What a request loads is at hand after it. -/
theorem clear_after_request {holdings : Holdings} {r : Request} (hr : holdings.Grants r)
    {world : World} {s : Session} (hs : ClearOf holdings s ∧ s.InNormalForm) :
    ClearOf (holdings.adding (r.loaded? world s)) (r.run world s).2 ∧
      (r.run world s).2.InNormalForm := by
  have hkept := preserves_request_clear hr world s hs
  refine ⟨?_, hkept.2⟩
  cases hloaded : r.loaded? world s with
  | none => exact hkept.1
  | some d =>
      cases r with
      | load path =>
          have hrun : (Document.load path world s).1 = .ok d := toOption_eq_some.mp hloaded
          obtain ⟨hlow, hhigh⟩ := numbers_load path world s d hrun
          have hsame : s.Less (Document.load path world s).2 := by
            have haside : Aside s.Less := fun t u hsame hless =>
              hless.trans (Session.less_of_caches hsame.caches hsame.nextId)
            exact haside.keeping_load path world s (Session.less_refl s)
          have hafter : ((Request.load path).run world s).2 = (Document.load path world s).2 := by
            change ((Document.load path >>= fun _ => pure Answer.done) world s).2 = _
            rw [bind_apply]
            rcases Document.load path world s with ⟨result, t⟩
            cases result with
            | ok d => rfl
            | error failure => rfl
          rw [hafter]
          exact hs.1.adding hsame hlow hhigh
      | _ => cases hloaded

/-- Throughout a life that asks only for what is at hand, the stores are clear of cycles. -/
theorem clear_after_life {holdings : Holdings} {life : List (World × Request)} {s : Session}
    (hserved : holdings.Serves life s) (hs : ClearOf holdings s ∧ s.InNormalForm) :
    ClearOf (holdings.after life s) (lived life s) := by
  induction life generalizing holdings s with
  | nil => exact hs.1
  | cons step rest ih =>
      obtain ⟨world, r⟩ := step
      obtain ⟨hgranted, hrest⟩ := hserved
      exact ih hrest (clear_after_request hgranted hs)

/-- A new engine remembers nothing. -/
theorem clearOf_new (library : Library) (config : Config) (resident virtual : UInt64) :
    ClearOf library.toHoldings (new config resident virtual library.nextId) := by
  refine ⟨library.watchAll, fun subject hholds => Library.watched_watchAll hholds, ?_⟩
  exact
    { given := le_refl _
      references := fun _ _ hin => nomatch hin
      compositions := fun _ _ hin => nomatch hin
      schemas := fun _ _ hin => nomatch hin
      failures := fun _ _ hin => nomatch hin
      documents := fun _ _ hin => nomatch hin }

/-- What a document warrants does not depend on its number. -/
theorem warranted_renumbered {α : Type} {d : Document} (hplain : d.Plain) {x : String}
    (hlocal : d.IsLocal x) (id : Nat) {result : Except Failure α}
    (h : Warranted (fun _ => ({ d with id := id } : Document).ClearAt (.str x))
      (({ d with id := id } : Document).CyclicAt [] (.str x)) result) :
    Warranted (fun _ => d.Acyclic x) (d.Cyclic [] x) result := by
  cases h with
  | ok hclear =>
      obtain ⟨y, heq, hy⟩ := hclear
      obtain rfl := Value.str.inj heq
      exact .ok (hy (hplain.renumbered id) hlocal)
  | error hcyclic =>
      refine .error fun hkind => ?_
      obtain ⟨y, heq, hy⟩ := hcyclic hkind
      obtain rfl := Value.str.inj heq
      exact hy (hplain.renumbered id) hlocal

/-- Wherever an engine comes that is asked only for what is at hand: a reference of a document of JSON
that refers to itself only is resolved only if no reference that it leads to depends eagerly on itself,
and a cycle is reported only if some reference that it leads to does. -/
theorem cycle_after_life (library : Library) (config : Config) (resident virtual : UInt64)
    {life : List (World × Request)}
    (hserved : library.Serves life (new config resident virtual library.nextId))
    {subject : Subject}
    (hholds : (library.after life (new config resident virtual library.nextId)).Holds subject)
    (hplain : subject.content.Plain) {asked : Asked} {x : String}
    (hasked : asked.target = .ok (.str x)) (hlocal : subject.content.IsLocal x) (world : World) :
    let result := (Engine.reference subject asked (.list []) world
      (lived life (new config resident virtual library.nextId))).1
    (∀ n, result = .ok n → ∀ z, ReflTransGen (Eager subject.content.look) x z →
      ¬TransGen (Eager subject.content.look) z z) ∧
    (∀ y, result = .error (.circularReference y) →
      ∃ z, ReflTransGen (Eager subject.content.look) x z ∧
        TransGen (Eager subject.content.look) z z) := by
  have hclear := clear_after_life hserved
    ⟨clearOf_new library config resident virtual, Session.inNormalForm_start config _ _⟩
  generalize lived life (new config resident virtual library.nextId) = s at hclear ⊢
  have hwarranted : Ensures (Engine.reference subject asked (.list [])) world s fun result _ =>
      Warranted (fun _ => subject.content.Acyclic x) (subject.content.Cyclic [] x) result := by
    unfold Engine.reference
    rw [ensures_timed]
    have hblameless : Ensures subject.open world s fun result _ => Node.Harmless result :=
      blameless_open subject world s rfl
    apply Ensures.bind ((ensures_open_clear hholds hclear).and hblameless)
    · rintro d t ⟨⟨watch, -, hremembers, hopened⟩, -⟩
      obtain ⟨hwatch, hid, hcontent⟩ := hopened d rfl
      rw [ensures_lift_ok_bind hasked,
        ensures_check_ok_bind (show visitedPath (.list []) = .ok [] from rfl)]
      have hresolve := (clearing_clearFor hwatch).warrants_resolveReference [] (.str x) world t
        ⟨hremembers, hid⟩
      refine hresolve.mono fun result u hu => warranted_renumbered hplain hlocal d.id ?_
      rw [← hcontent]
      -- what runs alone does not stop
      exact hu.2.mono (fun _ h => h) fun h => h.resolve_left Bool.false_ne_true
    · rintro failure t ⟨-, hfailure⟩
      exact .error fun hkind => absurd hkind (hfailure failure rfl)
  intro result
  have hresult : Warranted (fun _ => subject.content.Acyclic x) (subject.content.Cyclic [] x) result :=
    hwarranted
  constructor
  · intro n hn
    rw [hn] at hresult
    cases hresult with
    | ok hacyclic => exact hacyclic
  · intro y hy
    rw [hy] at hresult
    cases hresult with
    | error hcyclic =>
        obtain ⟨z, hreach, hz⟩ := hcyclic rfl
        exact ⟨z, hreach, hz.resolve_left fun hin => absurd hin List.not_mem_nil⟩

/-- A schema that refers to another document, as reading gives it. -/
def strayNode : Node := .ref ⟨"#", [], .null, .null⟩ (.str "other.json#/A")

/-- A life in which the mapping with the alias was asked for what lies outside of it, too. -/
def outwardLife : List (World × Request) :=
  [.reference aliasSubject (.value (.str "other.json#/A")) (.list []),
    .node aliasSubject strayNode, .load "other.json",
    .resolvedSchemas aliasSubject].map fun r => (emptyWorld, r)

theorem cycle_after_life_outward :
    let result := (Engine.reference aliasSubject (.value (.str "#/components/schemas/Alias"))
      (.list []) emptyWorld (lived outwardLife (new {} 0 0 1))).1
    (∀ n, result = .ok n →
      ∀ z, ReflTransGen (Eager aliasSubject.content.look) "#/components/schemas/Alias" z →
        ¬TransGen (Eager aliasSubject.content.look) z z) ∧
    (∀ y, result = .error (.circularReference y) →
      ∃ z, ReflTransGen (Eager aliasSubject.content.look) "#/components/schemas/Alias" z ∧
        TransGen (Eager aliasSubject.content.look) z z) := by
  have hsubject : ∀ {holdings : Holdings} {r : Request}, holdings.mappings = aliasLibrary.mappings →
      r.subject? = some aliasSubject ∨ r.subject? = none →
      ∀ subject, r.subject? = some subject → holdings.Holds subject := by
    intro holdings r hmappings hr subject hsubject
    rcases hr with hr | hr
    · obtain rfl := Option.some.inj (hr.symm.trans hsubject)
      exact (congrFun hmappings "alias").symm
    · cases hr.symm.trans hsubject
  have hread : ∀ subject n, Request.node aliasSubject strayNode =
      .node subject n → n.Known := by
    intro subject n heq
    obtain ⟨-, rfl⟩ := Request.node.inj heq
    exact Or.inl (.ref fun _ hentry => nomatch hentry)
  have hserved : aliasLibrary.Serves outwardLife (new {} 0 0 1) :=
    ⟨⟨hsubject rfl (Or.inl rfl), fun _ _ heq => nomatch heq⟩, ⟨hsubject rfl (Or.inl rfl), hread⟩,
      ⟨hsubject rfl (Or.inr rfl), fun _ _ heq => nomatch heq⟩,
      ⟨hsubject rfl (Or.inl rfl), fun _ _ heq => nomatch heq⟩, trivial⟩
  have hholds : (aliasLibrary.after outwardLife (new {} 0 0 1)).Holds aliasSubject := rfl
  exact cycle_after_life aliasLibrary {} 0 0 hserved hholds plain_alias rfl
    (isLocal_alias "Alias" (by decide)) emptyWorld

end Engine

end SchemaGraph
