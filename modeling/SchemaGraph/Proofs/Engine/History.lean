import SchemaGraph.Proofs.Engine.Settings

/-!
# Histories

An engine serves one request after the other.  Whatever it was asked for before, resolving in a
document of JSON that refers to itself only gives what a new engine without caches gives: the same
schemas up to the order of keys, or a failure of the same kind.
-/

namespace SchemaGraph

/-- Settings that are of the right type where a resolution looks at them, and a threshold of memory
that is not negative. -/
structure Config.Typed (config : Config) : Prop where
  maxSize : config.cache.maxSize.number?.isSome
  threshold : ∃ t, config.memory.memoryThreshold.number = .ok t ∧ Number.lt t (.int 0) = false

/-- The settings with the caches turned off. -/
def Config.uncached (config : Config) : Config :=
  { config with cache := { config.cache with enabled := .bool false } }

namespace Engine

/-- A new engine. -/
def new (config : Config) (resident virtual : UInt64) (nextId : Nat) : Session :=
  .start config (.int resident.toNat, .int virtual.toNat) nextId

section Fit

variable {watch : Watch} {s : Session}

theorem fit_new {config : Config} (h : config.Typed) (resident virtual : UInt64) {nextId : Nat}
    (hid : watch.given ≤ nextId) : (new config resident virtual nextId).Fit watch := by
  refine ⟨watch, watch.continues_refl, ?_, ⟨resident.toNat, rfl, resident.toNat_lt⟩, h.threshold⟩
  have hempty : ∀ {α : Type} {a : α} {p : Prop}, a ∈ ([] : List α) → p :=
    fun hin => absurd hin (by simp)
  exact
    { sane := ⟨Tracker.ready_start _, h.maxSize, h.maxSize, h.maxSize, h.maxSize⟩
      given := hid
      references := fun _ _ hin => hempty hin
      compositions := fun _ _ hin => hempty hin
      schemas := fun _ _ hin => hempty hin
      failures := fun _ _ hin => hempty hin
      documents := fun _ _ hin => hempty hin }

/-- After every life all that is remembered is right. -/
theorem fit_lived {life : List (World × Request)} (hs : s.Fit watch)
    (h : ∀ step ∈ life, step.2.Admitted watch) : (lived life s).Fit watch := by
  induction life generalizing s with
  | nil => exact hs
  | cons step rest ih =>
      obtain ⟨hstep, hrest⟩ := List.forall_mem_cons.mp h
      rw [lived_cons]
      exact ih (fit_run hs hstep) hrest

end Fit

/-- The documents that an engine may be asked about: those that were loaded, and mappings, each of which
is known by its name. -/
structure Holdings where
  documents : List Document
  mappings : String → Value

/-- Whether a subject is at hand. -/
def Holdings.Holds (holdings : Holdings) : Subject → Prop
  | .document d => d ∈ holdings.documents
  | .mapping name raw => raw = holdings.mappings name

/-- The documents that an engine is asked about.  Those that were loaded have different numbers, which
were given away before the engine was made. -/
structure Library extends Holdings where
  nextId : Nat
  distinct : ∀ d ∈ documents, ∀ d' ∈ documents, d.id = d'.id → d = d'
  numbered : ∀ d ∈ documents, d.id < nextId

namespace Library

variable (library : Library)

/-- Watch all documents. -/
def watchAll : Watch where
  documents := fun i => library.documents.find? fun d => d.id == i
  mappings := fun name => some (library.mappings name)
  given := library.nextId

/-- Watch one subject only. -/
def watchOnly (subject : Subject) : Watch where
  documents := fun i =>
    match subject with
    | .document d => if d.id = i then some d else none
    | .mapping _ _ => none
  mappings := fun name =>
    match subject with
    | .document _ => none
    | .mapping known raw => if known = name then some raw else none
  given := library.nextId

variable {library}

theorem watched_watchAll {subject : Subject} (h : library.Holds subject) :
    subject.Watched library.watchAll := by
  cases subject with
  | document d =>
      refine ⟨library.numbered d h, ?_⟩
      obtain ⟨d', hfound⟩ : ∃ d', library.documents.find? (fun e => e.id == d.id) = some d' :=
        Option.isSome_iff_exists.mp (List.find?_isSome.mpr ⟨d, h, by simp⟩)
      have hid : d'.id = d.id := by simpa using List.find?_some hfound
      have hsame : d' = d := library.distinct d' (List.mem_of_find?_eq_some hfound) d h hid
      exact hfound.trans (congrArg some hsame)
  | mapping name raw => exact congrArg some (Eq.symm h)

theorem watched_watchOnly {subject : Subject} (h : library.Holds subject) :
    subject.Watched (library.watchOnly subject) := by
  cases subject with
  | document d => exact ⟨library.numbered d h, if_pos rfl⟩
  | mapping name raw => exact if_pos rfl

theorem unwatched_watchOnly {subject other : Subject} (h : library.Holds subject)
    (hother : library.Holds other) (hne : other ≠ subject) :
    other.Unwatched (library.watchOnly subject) := by
  cases other with
  | document d =>
      refine ⟨library.numbered d hother, ?_⟩
      cases subject with
      | document d' =>
          refine if_neg fun hid => hne ?_
          rw [library.distinct d' h d hother hid]
      | mapping name raw => rfl
  | mapping name raw =>
      cases subject with
      | document d' => rfl
      | mapping known raw' =>
          refine if_neg fun hname => hne ?_
          rw [show raw = library.mappings name from hother,
            show raw' = library.mappings known from h, hname]

end Library

/-- A world in which two tasks have a turn each, and in which the first requests to every URL are in
vain, if any are; later ones are answered with a document that declares one schema. -/
def overlappingWorld (failing : Nat) : World where
  workingDirectory := default
  files := []
  reply := fun _ count =>
    if count < failing then (.int 0, .answered ⟨503, "", none⟩)
    else (.int 0, .answered ⟨200, "\x7b\"openapi\": \"3.0.0\", \"info\": \x7b\"title\": \"T\", " ++
      "\"version\": \"1\"\x7d, \"components\": \x7b\"schemas\": \x7b\"A\": \x7b\x7d\x7d\x7d\x7d", none⟩)
  followsRedirects := true
  turns := [0, 1]

/-- Ask twice for that schema at once. -/
def askTwice : List Asked :=
  let asked := Asked.value (.str "https://example.com/a.json#/components/schemas/A")
  [asked, asked]

/-- A mapping with an alias and the schema that it stands for. -/
def aliasRaw : Value :=
  Value.record [("components", Value.record [("schemas", Value.record
    [("Alias", Value.record [("$ref", .str "#/components/schemas/Text")]),
      ("Text", Value.record [("type", .str "string")])])])]

/-- The mapping as a subject. -/
def aliasSubject : Subject := .mapping "alias" aliasRaw

/-- The mapping as a document. -/
def aliasDocument : Document := ⟨aliasRaw, "", 1⟩

/-- A library with this mapping only. -/
def aliasLibrary : Library :=
  ⟨⟨[], fun _ => aliasRaw⟩, 1, fun _ h => absurd h (by simp), fun _ h => absurd h (by simp)⟩

theorem isLocal_alias {x : String} (name : String) (h : Reference.read? x = some ⟨"", [name]⟩) :
    aliasSubject.content.IsLocal x := by
  intro parsed hparsed
  rw [h, Option.some.injEq] at hparsed
  rw [← hparsed]
  rfl

theorem plain_alias : aliasSubject.content.Plain where
  json := by decide
  isLocal := by
    intro x hx
    have hreferences : aliasSubject.content.raw.references = ["#/components/schemas/Text"] := rfl
    rw [hreferences, List.mem_singleton] at hx
    rw [hx]
    exact isLocal_alias "Text" (by decide)

/-- Ask for the alias. -/
def askAlias : Request :=
  .reference aliasSubject (.value (.str "#/components/schemas/Alias")) (.list [])

theorem isLocal_askAlias : askAlias.IsLocal := by
  refine ⟨plain_alias, fun x hx => ?_⟩
  obtain rfl := Value.str.inj (Except.ok.inj hx)
  exact isLocal_alias "Alias" (by decide)

theorem typed_default : ({} : Config).Typed :=
  ⟨rfl, ⟨.int (100 * 1024 * 1024), rfl, by decide⟩⟩

section Outcomes

variable (library : Library)

/-- Tables with the same keys and related items, taken together over a third one. -/
theorem forall_symm_trans {α : Type} {R : α → α → Prop} (hR : ∀ a b c, R a c → R b c → R a b)
    {table table' other : Table α} (h : List.Forall₂ (Table.EntryRel R) table other)
    (h' : List.Forall₂ (Table.EntryRel R) table' other) :
    List.Forall₂ (Table.EntryRel R) table table' := by
  induction h generalizing table' with
  | nil =>
      cases h'
      exact .nil
  | cons hentry hrest ih =>
      cases h' with
      | cons hentry' hrest' =>
          exact .cons ⟨hentry.1.trans hentry'.1.symm, hR _ _ _ hentry.2 hentry'.2⟩ (ih hrest')

/-- Answers like a third one are like each other. -/
theorem Answer.Like.symm_trans {a b c : Answer} (h : a.Like c) (h' : b.Like c) : a.Like b := by
  cases h with
  | done =>
      cases h'
      exact .done
  | schema h =>
      cases h' with
      | schema h' => exact .schema (h.trans h'.symm)
  | results h =>
      cases h' with
      | results h' =>
          refine .results (forall_symm_trans (fun a b c hac hbc => ?_) h h')
          exact hac.trans (hbc.symm fun n n' hn => hn.symm) fun n m l hnm hml => hnm.trans hml
  | registry h =>
      cases h' with
      | registry h' =>
          exact .registry (forall_symm_trans (fun n m l hnl hml => hnl.trans hml.symm) h h')

/-- The outcome of resolving in documents of JSON that refer to themselves only does not depend on
what the engine was asked for before, nor on its caches. -/
theorem outcome_after_history {config config' : Config} (hconfig : config.Typed)
    (hconfig' : config'.Typed) (world world' : World)
    (resident virtual resident' virtual' : UInt64) {nextId : Nat} (hid : library.nextId ≤ nextId)
    {history : List (World × Request)} {call : Request} {subject : Subject}
    (hhistory : ∀ step ∈ history,
      step.2.IsLocal ∧ ∀ other, step.2.subject? = some other → library.Holds other)
    (hsubject : call.subject? = some subject) (hholds : library.Holds subject)
    (hlocal : call.IsLocal) (hclosed : call.IsClosed) :
    Agree Answer.Like
      (call.run world (lived history (new config resident virtual library.nextId))).1
      (call.run world' (new config'.uncached resident' virtual' nextId)).1 := by
  have hwatched := Library.watched_watchAll hholds
  have hadmitted : ∀ step ∈ history, step.2.Admitted library.watchAll := by
    intro step hstep other hother
    obtain ⟨hlocal, hholds⟩ := hhistory step hstep
    exact Or.inl ⟨Library.watched_watchAll (hholds other hother), hlocal⟩
  have hfit : Session.Fit library.watchAll
      (lived history (new config resident virtual library.nextId)) :=
    fit_lived (fit_new hconfig resident virtual (le_refl _)) hadmitted
  have huncached : config'.uncached.Typed := ⟨hconfig'.maxSize, hconfig'.threshold⟩
  have hfresh : Session.Fit library.watchAll (new config'.uncached resident' virtual' nextId) :=
    fit_new huncached resident' virtual' hid
  have hresult : Simulates True Answer.Like _ call.outcome :=
    (mirrors_run world hfit hsubject hwatched hlocal).2.antitone fun _ => hclosed
  have hcold : Simulates True Answer.Like _ call.outcome :=
    (mirrors_run world' hfresh hsubject hwatched hlocal).2.antitone fun _ => hclosed
  have hback := hcold.agree.symm (S := fun a b => Answer.Like b a) fun a b h => h
  exact hresult.agree.trans hback fun a b c h h' => h.symm_trans h'

theorem outcome_after_history_alias :
    Agree Answer.Like
      (askAlias.run emptyWorld (lived
        ([.schemas aliasSubject, .configureCaching (.bool true) (.int 1), askAlias, .clearCaches].map
          fun r => (emptyWorld, r)) (new {} 0 0 1))).1
      (askAlias.run emptyWorld (new ({} : Config).uncached 0 0 1)).1 := by
  refine outcome_after_history aliasLibrary typed_default typed_default emptyWorld
    emptyWorld 0 0 0 0 (le_refl 1) (fun a ha => ?_) rfl rfl isLocal_askAlias rfl
  rcases ha with _ | ⟨_, _ | ⟨_, _ | ⟨_, _ | ⟨_, ha⟩⟩⟩⟩
  · exact ⟨plain_alias, fun other h => Option.some.inj h ▸ rfl⟩
  · exact ⟨trivial, fun other h => nomatch h⟩
  · exact ⟨isLocal_askAlias, fun other h => Option.some.inj h ▸ rfl⟩
  · exact ⟨trivial, fun other h => nomatch h⟩
  · cases ha

/-- After every life all that is remembered of one subject is right, where the requests for this
subject ask for nothing outside of it. -/
theorem fit_after_life {config : Config} (hconfig : config.Typed) (resident virtual : UInt64)
    {life : List (World × Request)} {subject : Subject}
    (hlife : ∀ step ∈ life, ∀ other, step.2.subject? = some other →
      library.Holds other ∧ (other = subject → step.2.IsLocal))
    (hholds : library.Holds subject) :
    Session.Fit (library.watchOnly subject)
      (lived life (new config resident virtual library.nextId)) := by
  have hwatched := Library.watched_watchOnly hholds
  refine fit_lived (fit_new hconfig resident virtual (le_refl _)) fun step hstep other hother => ?_
  obtain ⟨hother, hsame⟩ := hlife step hstep other hother
  by_cases heq : other = subject
  · exact Or.inl ⟨heq ▸ hwatched, hsame heq⟩
  · exact Or.inr (Library.unwatched_watchOnly hholds hother heq)

end Outcomes

end Engine

end SchemaGraph
