import SchemaGraph.Proofs.Cleanup
import SchemaGraph.Proofs.Pointer.Written
import SchemaGraph.Proofs.Resolve.Following
import SchemaGraph.Proofs.Resolve.Steady

/-!
# Enumerating in a sound session

The schemas of a registry, without a session: each as it is declared, and one that is a reference as
it is followed with its own pointer on the path.  A name without slash and tilde is the only segment
of its pointer, so the pointer leads to the reference, and the memory of a session changes nothing.

Enumerating the entries of a registry in a sound session mirrors this.
-/

namespace SchemaGraph

open Resolving

namespace Document

variable {d : Document} {name : String} {raw : Value} {table : Table Value}

/-- What stands under a name of a registry of JSON. -/
theorem table_at_registry (hjson : d.raw.isJson = true) (htable : d.registry = .ok table)
    (hin : (.str name, raw) ∈ table) : Table.at? table name = some raw :=
  Value.at_of_mem (entriesJson_registry hjson htable) hin

/-- The pointer that is made of the name of an entry names the entry. -/
theorem look_pointer (hjson : d.raw.isJson = true) (htable : d.registry = .ok table)
    (hin : (.str name, raw) ∈ table) (hname : Reference.IsSegment name) (hne : name ≠ "") :
    d.look (Reference.localRegistry ++ name) =
      Node.parse "" raw (Reference.localRegistry ++ name) := by
  have hwalk : Pointer.walk (.map table) [name] = .ok raw := by
    have hstep : Pointer.step (.map table) name = .ok raw := by
      unfold Pointer.step
      dsimp only
      rw [table_at_registry hjson htable hin]
    unfold Pointer.walk
    rw [List.foldlM_cons, hstep]
    rfl
  unfold look
  rw [Reference.read_pointer hname hne]
  dsimp only
  unfold localTarget
  rw [htable, show orFail (.ok table) = Except.ok table from rfl]
  simp only [bind, Except.bind, hwalk]

/-- The pointer to an entry that is a reference leads to the reference. -/
theorem leadsTo_pointer (hjson : d.raw.isJson = true) (htable : d.registry = .ok table)
    (hin : (.str name, raw) ∈ table) (hname : Reference.IsSegment name) {info : NodeInfo}
    {x : String}
    (hparse : Node.parse "" raw (Reference.localRegistry ++ name) = .ok (.ref info (.str x))) :
    d.LeadsTo [Reference.localRegistry ++ name] x := by
  intro z hz
  obtain rfl := List.mem_singleton.mp hz
  by_cases hne : name = ""
  · subst hne
    refine Or.inr fun h => ?_
    have hread := Reference.given_eq_ok.mp h
    rw [Reference.read_pointer_empty] at hread
    cases hread
  · have hlook := (look_pointer hjson htable hin hname hne).trans hparse
    exact Or.inl (.single ⟨.ref info (.str x), hlook, List.mem_singleton.mpr rfl⟩)

theorem declared_remembered_eq_ok {path : List String} {m : Node} :
    declared (d.remembered path) name raw = .ok m ↔ declared (d.resolved []) name raw = .ok m := by
  unfold declared
  cases hparse : Node.parse "" raw (Reference.localRegistry ++ name) with
  | error failure => exact Iff.rfl
  | ok n =>
      cases n with
      | ref info target => exact remembered_eq_ok
      | _ => exact Iff.rfl

end Document

section Entries

variable {watch : Watch} {d : Document} {world : World} {s : Session} {table : Table Value}
  {name : String} {raw : Value}

/-- The references of an entry of a registry are references of the document. -/
theorem isLocal_of_entry (hplain : d.Plain) (htable : d.registry = .ok table) {key : Value}
    (hin : (key, raw) ∈ table) {path : String} {n : Node}
    (hparse : Node.parse "" raw path = .ok n) {x : String} (hx : .str x ∈ n.follows) :
    d.IsLocal x := by
  refine hplain.isLocal x (Document.references_registry htable ?_)
  exact Value.mem_entriesReferences.mpr ⟨_, hin, Or.inr (Node.follows_parse hparse hx)⟩

/-- Read an entry of the registry, and follow it if it is a reference. -/
def readEntry (d : Document) (name : String) (raw : Value) : Resolving Node := do
  match ← lift (Node.parse "" raw (Reference.localRegistry ++ name)) with
  | .ref _ target => resolveReference d [Reference.localRegistry ++ name] target
  | n => pure n

/-- What enumerating an entry does once it is known not to be remembered. -/
theorem schemaAt_eq (d : Document) (name raw : Value) :
    schemaAt d name raw = do
      match (← get).caches.schemas.get? (cacheKey d name.display) with
      | some node =>
        track (·.recordHit "schema")
        return node
      | none =>
        track (·.recordMiss "schema")
        let node ← readEntry d name.display raw
        keepSchema (cacheKey d name.display) node
        return node := by
  unfold schemaAt
  refine bind_congr fun s => ?_
  dsimp only
  cases s.caches.schemas.get? (cacheKey d name.display) with
  | some node => rfl
  | none =>
      refine bind_congr fun _ => ?_
      unfold readEntry
      rw [bind_assoc]
      refine bind_congr fun n => ?_
      cases n <;> rfl

variable (world) in
/-- Reading an entry and following it if it is a reference mirrors what is declared. -/
theorem mirrors_readEntry (hwatch : watch.documents d.id = some d) (hplain : d.Plain)
    (htable : d.registry = .ok table) (hin : (.str name, raw) ∈ table)
    (hs : s.SoundFor watch d) :
    Mirrors (Session.SoundFor watch d) (Reference.IsSegment name) Node.Like
      (readEntry d name raw)
      (Document.declared (d.remembered [Reference.localRegistry ++ name]) name raw) world s := by
  have hregistry := Document.entriesJson_registry hplain.json htable
  have hraw : raw.isJson = true := (Value.isJson_of_mem_entries hregistry hin).2
  have hread : Simulates (Reference.IsSegment name)
      (fun n n' => n = n' ∧ Node.parse "" raw (Reference.localRegistry ++ name) = .ok n)
      (Node.parse "" raw (Reference.localRegistry ++ name))
      (Node.parse "" raw (Reference.localRegistry ++ name)) := by
    cases hparse : Node.parse "" raw (Reference.localRegistry ++ name) with
    | error failure => exact .error fun _ => ⟨failure, rfl, rfl⟩
    | ok n => exact .ok ⟨rfl, rfl⟩
  unfold readEntry Document.declared
  refine (mirrors_lift hs hread).bind ?_
  rintro n n' t ⟨rfl, hparse⟩ ht
  have hneat : n.Neat := (Node.sound_parse hraw hparse).1
  cases n with
  | ref info target =>
      have htarget : ∀ x, target = .str x → d.IsLocal x := fun x hx =>
        isLocal_of_entry hplain htable hin hparse (List.mem_singleton.mpr hx.symm)
      have hresolve := mirrors_resolveReference [Reference.localRegistry ++ name] world
        hwatch hplain htarget ht
      refine hresolve.antitone fun hname x hx => ?_
      exact Document.leadsTo_pointer hplain.json htable hin hname (hx ▸ hparse)
  | _ => exact mirrors_pure ht hneat.like

/-- What is remembered for a name is what its entry declares. -/
theorem declares_of_declared (hplain : d.Plain) (htable : d.registry = .ok table)
    (hin : (.str name, raw) ∈ table) {n m : Node}
    (h : Document.declared (d.resolved []) name raw = .ok m) (hlike : n.Like m) :
    d.Declares name n := by
  intro table' raw' htable' hin'
  obtain rfl : table = table' := Except.ok.inj (htable.symm.trans htable')
  have hsame := Document.table_at_registry hplain.json htable hin
  rw [Document.table_at_registry hplain.json htable hin', Option.some.injEq] at hsame
  exact ⟨m, hsame ▸ h, hlike⟩

variable (world) in
/-- The schema under a name of the registry. -/
theorem mirrors_schemaAt (hwatch : watch.documents d.id = some d) (hplain : d.Plain)
    (htable : d.registry = .ok table) (hin : (.str name, raw) ∈ table)
    (hs : s.SoundFor watch d) :
    Mirrors (Session.SoundFor watch d) (Reference.IsSegment name) Node.Like
      (schemaAt d (.str name) raw)
      (Document.declared (d.remembered [Reference.localRegistry ++ name]) name raw) world s := by
  rw [schemaAt_eq, Value.display_str]
  change Ensures (get >>= _) _ _ _
  rw [ensures_get_bind]
  cases hfound : s.caches.schemas.get? (cacheKey d name) with
  | some found =>
      obtain ⟨m, hm, hlike⟩ := declares_of_recalled hs.1 hwatch hfound table raw htable hin
      rw [Document.declared_remembered_eq_ok.mpr hm]
      refine Ensures.bind_ok (ensures_updateCache hs.1.sane.ready (by decide) ⟨_, fun _ => rfl⟩) ?_
      rintro t ⟨u, hu, rfl⟩
      exact mirrors_pure ⟨hs.1.retracked hu, hs.2⟩ hlike
  | none =>
      refine Ensures.bind_ok (ensures_updateCache hs.1.sane.ready (by decide) ⟨_, fun _ => rfl⟩) ?_
      rintro t ⟨u, hu, rfl⟩
      have ht : (s.retracked u).SoundFor watch d := ⟨hs.1.retracked hu, hs.2⟩
      have hread := mirrors_readEntry world hwatch hplain htable hin ht
      refine Ensures.bind hread ?_ fun failure v hresult => hresult
      rintro n v ⟨hv, hresult⟩
      obtain ⟨m, hm, hlike⟩ := hresult.exists_ok rfl
      have hdeclares : d.Declares name n :=
        declares_of_declared hplain htable hin (Document.declared_remembered_eq_ok.mp hm) hlike
      have hkeep : watch.Keeps v.nextId (cacheKey d name) fun d name => d.Declares name n :=
        Watch.keeps_of_right hwatch hv.2 hdeclares
      refine Ensures.bind_ok (ensures_keepSchema hv.1.sane.ready
        (isOk_of_set hv.1.sane.schemas _ _)) ?_
      rintro w ⟨u', hu', rfl⟩
      exact ⟨⟨(hv.1.keptSchema hkeep).retracked hu', hv.2⟩, hresult⟩

end Entries

namespace Document

/-- The schemas of some entries of the registry, without a session. -/
def enumerated (d : Document) : List (Value × Value) → Except Failure (Table Node)
  | [] => .ok []
  | (name, raw) :: rest =>
    if !raw.isMap then enumerated d rest
    else do
      let pointer := Reference.localRegistry ++ name.display
      let n ← declared (d.remembered [pointer]) name.display raw
      return (name, n) :: (← enumerated d rest)

theorem enumerated_append (d : Document) (entries others : List (Value × Value)) :
    d.enumerated (entries ++ others) = do
      let table ← d.enumerated entries
      return table ++ (← d.enumerated others) := by
  induction entries with
  | nil =>
      rw [List.nil_append, enumerated]
      cases d.enumerated others <;> rfl
  | cons entry rest ih =>
      obtain ⟨name, raw⟩ := entry
      rw [List.cons_append, enumerated, enumerated]
      split
      · exact ih
      · dsimp only
        rw [ih]
        cases declared _ name.display raw with
        | error failure => rfl
        | ok n =>
            cases d.enumerated rest with
            | error failure => rfl
            | ok table => cases d.enumerated others <;> rfl

/-- An enumerated schema is what its entry of the registry declares. -/
theorem declared_of_enumerated {d : Document} {entries : List (Value × Value)} {table : Table Node}
    (h : d.enumerated entries = .ok table) {key : Value} {n : Node} (hin : (key, n) ∈ table) :
    ∃ raw, (key, raw) ∈ entries ∧ declared (d.resolved []) key.display raw = .ok n := by
  induction entries generalizing table with
  | nil =>
      rw [← Except.ok.inj h] at hin
      exact absurd hin List.not_mem_nil
  | cons entry rest ih =>
      obtain ⟨name, first⟩ := entry
      rw [enumerated] at h
      split at h
      · obtain ⟨raw, hraw, hdeclared⟩ := ih h hin
        exact ⟨raw, List.mem_cons_of_mem _ hraw, hdeclared⟩
      · obtain ⟨m, hm, h⟩ := bind_eq_ok.mp h
        obtain ⟨others, hothers, h⟩ := bind_eq_ok.mp h
        rw [← Except.ok.inj h] at hin
        rcases List.mem_cons.mp hin with heq | hrest
        · obtain ⟨rfl, rfl⟩ := Prod.mk.inj heq
          exact ⟨first, List.mem_cons_self, declared_remembered_eq_ok.mp hm⟩
        · obtain ⟨raw, hraw, hdeclared⟩ := ih hothers hrest
          exact ⟨raw, List.mem_cons_of_mem _ hraw, hdeclared⟩

/-- What an entry declares comes to follow references of the document only. -/
theorem isLocal_of_declared {d : Document} (hplain : d.Plain) {table : Table Value}
    (htable : d.registry = .ok table) {key raw : Value} (hin : (key, raw) ∈ table) {n : Node}
    (h : declared (d.resolved []) key.display raw = .ok n) {x : String} (hx : .str x ∈ n.follows) :
    d.IsLocal x := by
  obtain ⟨m, hparse, h⟩ := bind_eq_ok.mp h
  cases m with
  | ref info target =>
      rw [Node.follows_leaf (isLeaf_of_followed h)] at hx
      exact absurd hx List.not_mem_nil
  | _ =>
      obtain rfl := Except.ok.inj h
      exact isLocal_of_entry hplain htable hin hparse hx

end Document

namespace Session

/-- A session that is sound for a document and in which memory can be freed. -/
structure Ready (watch : Watch) (d : Document) (s : Session) : Prop where
  sound : s.SoundFor watch d
  measured : s.Measured

variable {watch : Watch} {d : Document} {s t : Session}

theorem Ready.freed (h : s.Ready watch d) (hfreed : s.Freed t) : t.Ready watch d where
  sound := ⟨h.sound.1.within hfreed.within, h.sound.2.trans_le hfreed.within.nextId⟩
  measured := h.measured.of_memory hfreed.memory hfreed.memorySettings

/-- Changes of the records and of the trace free nothing and keep all. -/
theorem freed_of_caches (h : s.Sane) (hcaches : t.caches = s.caches) (hid : t.nextId = s.nextId)
    (hmemory : t.memory = s.memory) (hsettings : t.memorySettings = s.memorySettings)
    (hready : t.tracker.Ready) : s.Freed t :=
  ⟨within_of_caches h hcaches hid.ge hready, hmemory, hsettings⟩

/-- Resolving does not touch the memory in use and its settings. -/
theorem steady_measured (d : Document) : Steady d Session.Measured where
  inward := fun _ _ _ _ _ hs => hs.of_memory rfl rfl
  records := fun _ hs => hs.of_memory rfl rfl
  reference := fun _ _ hs => hs.of_memory rfl rfl
  composition := fun _ _ hs => hs.of_memory rfl rfl
  schema := fun _ _ hs => hs.of_memory rfl rfl
  failure := fun _ _ hs => hs.of_memory rfl rfl

end Session

theorem Lasting.keeping_schemaAt {d : Document} {keeps : Session → Prop} (h : Lasting d keeps)
    (name raw : Value) : Keeping keeps (schemaAt d name raw) :=
  h.toUntracked.keeping_schemaAt h.keeping_resolveReference (fun _ name n hs => h.schema name n hs)
    name raw

section Batches

variable {watch : Watch} {d : Document} {world : World} {s : Session} {table : Table Value}

/-- Tables with the same names and like schemas under them. -/
abbrev LikeTables : Table Node → Table Node → Prop := List.Forall₂ (Table.EntryRel Node.Like)

/-- Whether every name of a registry stands in a pointer as it is. -/
def SegmentNames (table : Table Value) : Prop :=
  ∀ name raw, (.str name, raw) ∈ table → Reference.IsSegment name

/-- What a step of resolving mirrors, it mirrors where memory can be freed. -/
theorem mirrors_ready {α β : Type} {failures : Prop} {R : α → β → Prop} {act : Resolving α}
    {first : Except Failure β} (scene : Scene.Of (Session.Ready watch d)) (hs : s.Ready watch d)
    (hact : Keeping Session.Measured act)
    (h : Mirrors (Session.SoundFor watch d) failures R act first scene s) :
    Mirrors (Session.Ready watch d) failures R act first scene s :=
  ⟨⟨h.1, hact (scene.mono fun _ ht => ht.measured) s hs.measured⟩, h.2⟩

variable (world) in
theorem mirrors_schemaAt_ready (hwatch : watch.documents d.id = some d) (hplain : d.Plain)
    (htable : d.registry = .ok table) {name : String} {raw : Value}
    (hin : (.str name, raw) ∈ table) (hs : s.Ready watch d) :
    Mirrors (Session.Ready watch d) (SegmentNames table) Node.Like (schemaAt d (.str name) raw)
      (Document.declared (d.remembered [Reference.localRegistry ++ name]) name raw) world s := by
  have hmirrors := mirrors_schemaAt world hwatch hplain htable hin hs.sound
  have hmeasured := (Session.steady_measured d).keeping_schemaAt (.str name) raw
  exact mirrors_ready world hs hmeasured (hmirrors.antitone fun hnames => hnames name raw hin)

/-- A step that changes the records or the trace only. -/
theorem mirrors_after_modify {α β : Type} {failures : Prop} {R : α → β → Prop}
    {change : Session → Session} {next : Unit → Resolving α} {second : Except Failure β}
    (hs : s.Ready watch d) (hchange : s.Freed (change s))
    (hnext : ∀ t, t.Ready watch d → Mirrors (Session.Ready watch d) failures R (next ()) second
      world t) :
    Mirrors (Session.Ready watch d) failures R (modify change >>= next) second world s := by
  change Ensures (modify change >>= next) _ _ _
  rw [ensures_modify_bind]
  exact hnext _ (hs.freed hchange)

variable (world) in
theorem mirrors_enumerate (hwatch : watch.documents d.id = some d) (hplain : d.Plain)
    (htable : d.registry = .ok table) {entries : List (Value × Value)}
    (hentries : entries ⊆ table) (hs : s.Ready watch d) :
    Mirrors (Session.Ready watch d) (SegmentNames table) LikeTables (enumerate d entries)
      (d.enumerated entries) world s := by
  induction entries generalizing s with
  | nil => exact mirrors_pure hs .nil
  | cons entry rest ih =>
      obtain ⟨key, raw⟩ := entry
      have hin : (key, raw) ∈ table := hentries List.mem_cons_self
      have hrest : rest ⊆ table := fun e he => hentries (List.mem_cons_of_mem _ he)
      have hregistry := Document.entriesJson_registry hplain.json htable
      obtain ⟨⟨name, rfl⟩, -⟩ := Value.isJson_of_mem_entries hregistry hin
      have hsane := hs.sound.1.sane
      rw [enumerate, Document.enumerated, Value.display_str]
      split
      · refine mirrors_after_modify hs ?_ fun t ht => ih hrest ht
        exact Session.freed_of_caches hsane rfl rfl rfl rfl hsane.ready
      · dsimp only
        have hschema := mirrors_schemaAt_ready world hwatch hplain htable hin hs
        refine hschema.bind fun n n' t hn ht => ?_
        refine mirrors_after_modify ht ?_ fun u hu => ?_
        · have hready := ht.sound.1.sane.ready
          refine Session.freed_of_caches ht.sound.1.sane rfl rfl rfl rfl ?_
          unfold Tracker.recordProcessed
          split <;> exact hready
        · refine (ih hrest hu).bind fun others others' v hothers hv => ?_
          exact mirrors_pure hv (.cons ⟨rfl, hn⟩ hothers)

/-- Nothing is lost in groups. -/
theorem flatten_groups {α : Type} {size : Nat} (hsize : 0 < size) {count : Nat} {entries : List α}
    (h : entries.length ≤ count) : (groups size count entries).flatten = entries := by
  induction count generalizing entries with
  | zero =>
      obtain rfl := List.length_eq_zero_iff.mp (Nat.le_zero.mp h)
      rfl
  | succ count ih =>
      rw [groups]
      split
      · rename_i hempty
        rw [List.isEmpty_iff.mp hempty]
        rfl
      · have hless : (entries.drop size).length ≤ count := by
          rw [List.length_drop]
          omega
        rw [List.flatten_cons, ih hless, List.take_append_drop]

variable (world) in
theorem mirrors_enumerateGroups (hwatch : watch.documents d.id = some d) (hplain : d.Plain)
    (htable : d.registry = .ok table) (batches : List (List (Value × Value)))
    (hbatches : batches.flatten ⊆ table) (hs : s.Ready watch d) :
    Mirrors (Session.Ready watch d) (SegmentNames table)
      (fun tables table => LikeTables tables.flatten table) (enumerateGroups d batches)
      (d.enumerated batches.flatten) world s := by
  induction batches generalizing s with
  | nil => exact mirrors_pure hs .nil
  | cons group rest ih =>
      rw [List.flatten_cons] at hbatches ⊢
      obtain ⟨hgroup, hrest⟩ := List.append_subset.mp hbatches
      have hfirst := mirrors_enumerate world hwatch hplain htable hgroup hs
      rw [Document.enumerated_append]
      cases rest with
      | nil =>
          rw [enumerateGroups]
          refine hfirst.bind fun batch batch' t hbatch ht => mirrors_pure ht ?_
          simpa using hbatch
      | cons second others =>
          rw [enumerateGroups]
          · refine hfirst.bind fun batch batch' t hbatch ht => ?_
            refine Ensures.bind (frees_cleanup ht.sound.1.sane false) ?_ ?_
            · rintro count u ⟨hu, -⟩
              refine (ih hrest (ht.freed hu)).bind fun tables tables' v htables hv => ?_
              exact mirrors_pure hv (List.rel_append hbatch htables)
            · rintro failure u ⟨-, hsure⟩
              obtain ⟨count, heq⟩ := hsure ⟨rfl, ht.measured⟩
              cases heq
          · exact List.cons_ne_nil _ _

theorem Session.Ready.retracked (h : s.Ready watch d) {u : Tracker}
    (hu : s.tracker.Ready → u.Ready) : (s.retracked u).Ready watch d :=
  h.freed ((Session.freed_refl h.sound.1.sane).retracked (hu h.sound.1.sane.ready))

/-- Recording the time of an operation changes nothing that it mirrors. -/
theorem mirrors_timed {α β : Type} {keeps : Session → Prop} {failures : Prop} {R : α → β → Prop}
    {act : Resolving α} {first : Except Failure β}
    (hrecords : ∀ t (u : Tracker), (t.tracker.Ready → u.Ready) → keeps t → keeps (t.retracked u))
    (operation : Operation) (h : Mirrors keeps failures R act first world s) :
    Mirrors keeps failures R (timed operation act) first world s := by
  change Ensures (timed operation act) _ _ _
  rw [ensures_timed]
  refine Ensures.mono h ?_
  rintro result t ⟨ht, hresult⟩
  exact ⟨hrecords t _ (fun hready => hready.track operation s.clock t.clock) ht, hresult⟩

/-- All schemas of a document, without a session. -/
def Document.allDeclared (d : Document) : Except Failure (Table Node) :=
  orFail d.registry >>= d.enumerated

variable (world) in
theorem mirrors_schemaBatches (hwatch : watch.documents d.id = some d) (hplain : d.Plain)
    (hs : s.Ready watch d) :
    Mirrors (Session.Ready watch d) (∀ table, d.registry = .ok table → SegmentNames table)
      (fun tables table => LikeTables tables.flatten table) (schemaBatches d) d.allDeclared
      world s := by
  unfold schemaBatches Document.allDeclared
  cases htable : d.registry with
  | error f => exact mirrors_throw hs rfl
  | ok table =>
      have hread : Mirrors (Session.Ready watch d)
          (∀ table', Except.ok table = (.ok table' : Except Fault _) → SegmentNames table')
          (fun entries entries' => table = entries ∧ table = entries') (check (Except.ok table))
          (orFail (Except.ok table)) world s :=
        mirrors_pure hs ⟨rfl, rfl⟩
      refine hread.bind ?_
      rintro entries entries' t ⟨heq, heq'⟩ ht
      subst heq
      subst heq'
      change Ensures (get >>= _) _ _ _
      rw [ensures_get_bind]
      dsimp only
      -- no schema at all, batch by batch, or all at once
      split
      · rename_i hempty
        rw [List.isEmpty_iff.mp hempty]
        exact mirrors_pure ht .nil
      · split
        · refine mirrors_timed (fun t u hu ht => ht.retracked hu) _ ?_
          have hflatten := flatten_groups (by decide : 0 < batchSize) (le_refl table.length)
          have hgroups := mirrors_enumerateGroups world hwatch hplain htable
            (groups batchSize table.length table)
            (fun entry hentry => by rwa [hflatten] at hentry) ht
          rw [hflatten] at hgroups
          exact hgroups.antitone fun hnames => hnames table rfl
        · have hall := mirrors_enumerate world hwatch hplain htable
            (List.Subset.refl table) ht
          have hsame : (d.enumerated table >>= fun batch => Except.ok batch) = d.enumerated table :=
            bind_pure _
          rw [← hsame]
          refine (hall.antitone fun hnames => hnames table rfl).bind ?_
          intro batch batch' u hbatch hu
          exact mirrors_pure hu (by simpa using hbatch)

variable (world) in
theorem mirrors_allSchemas (hwatch : watch.documents d.id = some d) (hplain : d.Plain)
    (hs : s.Ready watch d) :
    Mirrors (Session.Ready watch d) (∀ table, d.registry = .ok table → SegmentNames table)
      LikeTables (allSchemas d) d.allDeclared world s := by
  unfold allSchemas
  have hbatches := mirrors_schemaBatches world hwatch hplain hs
  have hsame : (d.allDeclared >>= fun table => Except.ok table) = d.allDeclared := bind_pure _
  rw [← hsame]
  exact hbatches.bind fun tables table t htables ht => mirrors_pure ht htables

end Batches

end SchemaGraph
