import SchemaGraph.Proofs.Engine.History
import SchemaGraph.Proofs.Schema.Order
import SchemaGraph.Proofs.Schema.Signature

/-!
# Compositions on an engine

What an engine says of a composition of JSON, whatever it was asked for before.  Compositions with one
signature are written alike, so they resolve alike: on every two engines, whether or not they have
caches, both give the same schema up to the order of keys, or both fail in the same way.

An engine reports conflicting types in an `allOf` exactly if two neighbouring declarations of a property
have different types.  The properties of an `allOf` or `anyOf` are those of the composition and of its
members, in some order: compositions that are alike share one entry of the cache, and the order is
that of the one which was met first.
-/

namespace SchemaGraph

theorem Failure.eq_of_kind {failure : Failure} (h : failure.kind = .conflictingTypes) :
    ∃ name, failure = .conflictingTypes name := by
  cases failure <;> simp_all [Failure.kind]

/-- Outcomes that a caller does not tell apart report conflicting types together. -/
theorem Agree.conflict_iff {α β : Type} {R : α → β → Prop} {first : Except Failure α}
    {second : Except Failure β} (h : Agree R first second) :
    (∃ name, first = .error (.conflictingTypes name)) ↔
      ∃ name, second = .error (.conflictingTypes name) := by
  cases h with
  | ok _ => exact iff_of_false (fun ⟨_, h⟩ => nomatch h) fun ⟨_, h⟩ => nomatch h
  | error hkind =>
      constructor
      · rintro ⟨name, h⟩
        rw [Except.error.inj h] at hkind
        obtain ⟨name', rfl⟩ := Failure.eq_of_kind hkind.symm
        exact ⟨name', rfl⟩
      · rintro ⟨name, h⟩
        rw [Except.error.inj h] at hkind
        obtain ⟨name', rfl⟩ := Failure.eq_of_kind hkind
        exact ⟨name', rfl⟩

namespace Node

theorem Neat.keyed_offered {n : Node} (h : n.Neat) : Table.Keyed n.offered := by
  cases h with
  | leaf _ hobject _ =>
      rw [offered_other hobject]
      trivial
  | object _ hproperties _ => exact hproperties.1
  | composition _ _ _ _ _ _ _ => trivial

/-- Schemas that are like offer the same names, in some order. -/
theorem Like.keys_perm {n n' : Node} (h : n.Like n') : n.offered.keys.Perm n'.offered.keys := by
  rcases Merged.objects_of_like h with
    ⟨info, shape, info', shape', rfl, rfl, hlike⟩ | ⟨hobject, hobject'⟩
  · obtain ⟨arranged, hentries, hperm⟩ := hlike.shape.properties.exists_perm
      hlike.neat.properties.1 hlike.neat'.properties.1
    -- entries stand under the same keys, so only the arrangement can differ
    have hkeys : Table.keys shape.properties = Table.keys arranged := by
      unfold Table.keys
      rw [← List.forall₂_eq_eq_eq, List.forall₂_map_left_iff, List.forall₂_map_right_iff]
      exact hentries.imp fun _ _ hentry => hentry.1
    exact hkeys ▸ hperm.map _
  · rw [offered_other hobject, offered_other hobject']

end Node

namespace Engine

/-- An engine with a past: its settings, the memory in use at its start, what it was asked for, and the
world around it now. -/
structure Past (library : Library) (subject : Subject) where
  config : Config
  typed : config.Typed
  resident : UInt64
  virtual : UInt64
  life : List (World × Request)
  admitted : ∀ step ∈ life, ∀ other, step.2.subject? = some other →
    library.Holds other ∧ (other = subject → step.2.IsLocal)
  world : World

namespace Past

variable {library : Library} {subject : Subject}

/-- The session of an engine now. -/
def session (past : Past library subject) : Session :=
  lived past.life (new past.config past.resident past.virtual library.nextId)

/-- The outcome of resolving a schema on an engine. -/
def schema (past : Past library subject) (raw : Value) : Except Failure Node :=
  (rawSchema subject raw past.world past.session).1

theorem fit (past : Past library subject) (hholds : library.Holds subject) :
    past.session.Fit (library.watchOnly subject) :=
  fit_after_life library past.typed past.resident past.virtual past.admitted hholds

/-- On every engine resolving a schema gives what it gives without a session. -/
theorem schema_like (past : Past library subject) (hholds : library.Holds subject)
    (hplain : subject.content.Plain) {raw : Value} (hjson : raw.isJson = true)
    (hlocal : ∀ x ∈ raw.references, subject.content.IsLocal x) :
    Agree Node.Like (past.schema raw) (calculatedSchema subject raw) :=
  (mirrors_rawSchema (past.fit hholds) (Library.watched_watchOnly hholds) hplain hjson
    hlocal).2.agree

end Past

section Signatures

variable {subject : Subject} {raw raw' : Value} {info info' : NodeInfo}
  {shape shape' : CompositionShape Node} (hjson : raw.isJson = true) (hjson' : raw'.isJson = true)
  (hread : Node.parse "" raw "#" = .ok (.composition info shape))
  (hread' : Node.parse "" raw' "#" = .ok (.composition info' shape'))
include hjson hjson' hread hread'

/-- Compositions that are written alike resolve alike, without a session. -/
theorem calculatedSchema_like (hplain : subject.content.Plain)
    (halike : (Node.composition info shape).Alike (.composition info' shape')) :
    Agree Node.Like (calculatedSchema subject raw) (calculatedSchema subject raw') := by
  unfold calculatedSchema
  rw [hread, hread']
  have hlike : (Node.composition info shape).Like (.composition info' shape') :=
    ⟨(Node.sound_parse hjson hread).1, (Node.sound_parse hjson' hread').1, halike⟩
  exact Document.settled_like hplain.json hlike

/-- A signature is all that has to be known of a composition of JSON.  If the digests of the two
texts are different unless the texts are the same, two compositions have one signature exactly if
they are written alike; and then they resolve alike in every document that refers to itself only, on
every two engines. -/
theorem signature_sound
    (hdigest : Node.DigestsTellApart (.composition info shape) (.composition info' shape')) :
    ∃ key key', (Node.composition info shape).signature = .ok key ∧
      (Node.composition info' shape').signature = .ok key' ∧
      (key = key' ↔ (Node.composition info shape).Alike (.composition info' shape')) ∧
      (key = key' → ∀ (library : Library) (subject : Subject), library.Holds subject →
        subject.content.Plain → (∀ x ∈ raw.references, subject.content.IsLocal x) →
        (∀ x ∈ raw'.references, subject.content.IsLocal x) →
        ∀ past past' : Past library subject,
          Agree Node.Alike (past.schema raw) (past'.schema raw')) := by
  have hsound := Node.sound_parse hjson hread
  have hsound' := Node.sound_parse hjson' hread'
  obtain ⟨key, hkey⟩ := Node.signature_exists hsound.2
  obtain ⟨key', hkey'⟩ := Node.signature_exists hsound'.2
  have hiff := Node.signature_eq_iff hsound hsound' hdigest hkey hkey'
  refine ⟨key, key', hkey, hkey', hiff, fun hsame library subject hholds hplain hlocal hlocal' => ?_⟩
  intro past past'
  -- both engines give what is calculated, and the calculations are alike
  have hfirst := past.schema_like hholds hplain hjson hlocal
  have hcalculated : Agree Node.Like (calculatedSchema subject raw)
      (calculatedSchema subject raw') :=
    calculatedSchema_like hjson hjson' hread hread' hplain (hiff.mp hsame)
  have hsecond := (past'.schema_like hholds hplain hjson' hlocal').symm
    (S := fun n n' => Node.Like n n') fun n n' h => h.symm
  exact (hfirst.trans hcalculated (T := Node.Like) fun _ _ _ h h' => h.trans h').trans hsecond
    fun _ _ _ h h' => (h.trans h').alike

end Signatures

section Pair

open Value

/-- A schema that refers to the text of the alias and has some properties. -/
def pairSchema (properties : List (String × Value)) : Value :=
  record [("allOf", .list [record [("$ref", .str "#/components/schemas/Text")]]),
    ("properties", record properties)]

/-- A composition with the properties in one order, and in the other one. -/
def pairFirst : Value :=
  pairSchema [("a", record [("type", .str "string")]), ("b", record [("type", .str "integer")])]

/-- The same composition with the properties in the other order. -/
def pairLast : Value :=
  pairSchema [("b", record [("type", .str "integer")]), ("a", record [("type", .str "string")])]

theorem alike_pair : Value.Alike pairFirst pairLast := by
  have hproperties : Value.Alike
      (record [("a", record [("type", .str "string")]), ("b", record [("type", .str "integer")])])
      (record [("b", record [("type", .str "integer")]), ("a", record [("type", .str "string")])]) :=
    (alike_map_iff _ _).mpr ⟨_, _, rfl,
      List.forall₂_same.mpr fun entry _ => ⟨rfl, alike_refl entry.2⟩, .swap _ _ _⟩
  refine (alike_map_iff _ _).mpr ⟨_, _, rfl, ?_, .rfl⟩
  exact .cons ⟨rfl, alike_refl _⟩ (.cons ⟨rfl, hproperties⟩ .nil)

theorem isLocal_pair {raw : Value}
    (h : raw.references = ["#/components/schemas/Text"]) :
    ∀ x ∈ raw.references, aliasSubject.content.IsLocal x := by
  intro x hx
  rw [h, List.mem_singleton] at hx
  rw [hx]
  exact isLocal_alias "Text" (by decide)

/-- An engine without caches that was asked for nothing yet. -/
def coldPast : Past aliasLibrary aliasSubject where
  config := ({} : Config).uncached
  typed := ⟨rfl, ⟨.int (100 * 1024 * 1024), rfl, by decide⟩⟩
  resident := 0
  virtual := 0
  life := []
  admitted := fun _ hstep => nomatch hstep
  world := emptyWorld

theorem signature_sound_pair :
    ∃ info shape info' shape',
      Node.parse "" pairFirst "#" = .ok (.composition info shape) ∧
      Node.parse "" pairLast "#" = .ok (.composition info' shape') ∧
      ∃ key, (Node.composition info shape).signature = .ok key ∧
        (Node.composition info' shape').signature = .ok key ∧
        Agree Node.Alike (coldPast.schema pairFirst) (coldPast.schema pairLast) := by
  have hread : ∃ info shape, Node.parse "" pairFirst "#" = .ok (.composition info shape) ∧
      (Node.composition info shape).write = pairFirst := ⟨_, _, rfl, rfl⟩
  have hread' : ∃ info shape, Node.parse "" pairLast "#" = .ok (.composition info shape) ∧
      (Node.composition info shape).write = pairLast := ⟨_, _, rfl, rfl⟩
  obtain ⟨info, shape, hread, hwrite⟩ := hread
  obtain ⟨info', shape', hread', hwrite'⟩ := hread'
  have halike : (Node.composition info shape).Alike (.composition info' shape') := by
    unfold Node.Alike
    rw [hwrite, hwrite']
    exact alike_pair
  -- both schemas have one canonical text, so their digests need not be told apart
  have hdigest : Node.DigestsTellApart (.composition info shape) (.composition info' shape') := by
    intro text text' htext htext' _
    unfold Node.canonicalText at htext htext'
    rw [hwrite] at htext
    rw [hwrite'] at htext'
    rw [(Json.canonical_eq_iff rfl rfl htext htext').mpr alike_pair]
  obtain ⟨key, key', hkey, hkey', hiff, hagree⟩ :=
    signature_sound (show pairFirst.isJson = true from rfl) (show pairLast.isJson = true from rfl)
      hread hread' hdigest
  obtain rfl := hiff.mpr halike
  refine ⟨info, shape, info', shape', hread, hread', key, hkey, hkey', ?_⟩
  exact hagree rfl aliasLibrary aliasSubject rfl plain_alias (isLocal_pair rfl) (isLocal_pair rfl)
    coldPast coldPast

end Pair

section Settled

variable {library : Library} {subject : Subject} (hholds : library.Holds subject)
  (hplain : subject.content.Plain) {raw : Value} (hjson : raw.isJson = true)
  (hlocal : ∀ x ∈ raw.references, subject.content.IsLocal x) {info : NodeInfo}
  {shape : CompositionShape Node} (hread : Node.parse "" raw "#" = .ok (.composition info shape))
include hholds hplain hjson hlocal hread

/-- An engine settles a composition as it settles without a session. -/
theorem settled_like (past : Past library subject) :
    Agree Node.Like (past.schema raw)
      ((Node.composition info shape).settled (subject.content.resolved [])) := by
  have hlike := past.schema_like hholds hplain hjson hlocal
  unfold calculatedSchema at hlike
  rw [hread] at hlike
  exact hlike

/-- On every engine an `allOf` whose members resolve is a conflict exactly if its declarations are not
consistent. -/
theorem conflicts_iff {resolved : List Node} (hkind : shape.kind = .allOf)
    (hdefect : Node.memberDefect? shape.rawMembers = none)
    (hmembers : Node.SettleTo (subject.content.resolved []) shape.members resolved)
    (past : Past library subject) :
    (∃ name, past.schema raw = .error (.conflictingTypes name)) ↔
      ¬Merged.Consistent (shape.properties :: resolved.map Node.offered) := by
  have hneat := (Node.sound_parse hjson hread).1
  have hneats : ∀ n ∈ resolved, Table.Keyed n.offered := by
    intro n hn
    obtain ⟨member, hmember, hsettled⟩ := hmembers.of_mem hn
    have hmemberNeat := hneat.composition_parts.members member hmember
    exact (Document.neat_of_settled hplain.json hmemberNeat hsettled).keyed_offered
  rw [(settled_like hholds hplain hjson hlocal hread past).conflict_iff]
  rcases Node.settled_allOf_cases hneat hkind hdefect hmembers hneats with
    ⟨⟨n, hn⟩, hconsistent⟩ | ⟨herror, hconsistent⟩
  · refine iff_of_false (fun ⟨name, h⟩ => ?_) (not_not.mpr hconsistent)
    rw [hn] at h
    cases h
  · exact iff_of_true herror hconsistent

/-- On every engine an `allOf` whose members resolve is a conflict exactly if two declarations of a
property with none between them have different types.  Where all declarations name a type, it is one
exactly if any two of them differ. -/
theorem allOf_conflict_iff {resolved : List Node} (hkind : shape.kind = .allOf)
    (hdefect : Node.memberDefect? shape.rawMembers = none)
    (hmembers : Node.SettleTo (subject.content.resolved []) shape.members resolved)
    (past : Past library subject) :
    let declarations := Table.declarations (shape.properties :: resolved.map Node.offered)
    let conflicts := ∃ name, past.schema raw = .error (.conflictingTypes name)
    (conflicts ↔ ∃ a before existing declared later,
      declarations a = before ++ existing :: declared :: later ∧
        Merged.conflict existing declared = true) ∧
    ((∀ a, ∀ declared ∈ declarations a, Merged.Named declared) →
      (conflicts ↔ ¬∀ a, (declarations a).Pairwise fun existing declared =>
        Merged.conflict existing declared = false)) := by
  have hconflicts := conflicts_iff hholds hplain hjson hlocal hread hkind hdefect hmembers past
  intro declarations conflicts
  constructor
  · exact hconflicts.trans Merged.not_consistent_iff
  · intro hnamed
    exact hconflicts.trans (not_congr (Merged.consistent_iff_pairwise hnamed))

/-- On every engine the properties of an `allOf` or `anyOf` are those that are declared, in some
order. -/
theorem names_perm (hkind : shape.kind ≠ .oneOf) (past : Past library subject) {n : Node}
    (h : past.schema raw = .ok n) :
    ∃ resolved, Node.SettleTo (subject.content.resolved []) shape.members resolved ∧
      n.offered.keys.Perm (Node.declaredNames shape.properties resolved) := by
  obtain ⟨m, hm, hlike⟩ := (settled_like hholds hplain hjson hlocal hread past).exists_ok h
  obtain ⟨resolved, hresolved, hkeys⟩ := Node.keys_of_settled hm hkind
  exact ⟨resolved, hresolved, hkeys ▸ hlike.keys_perm⟩

end Settled

section Declared

open Value

/-- An `allOf` whose members declare a property with different types. -/
def clashingSchema : Value :=
  let declares := fun type => record [("properties", record [("x", record [("type", .str type)])])]
  record [("allOf", .list [declares "string", declares "integer"])]

theorem allOf_conflict_iff_clashing :
    ∃ name, coldPast.schema clashingSchema = .error (.conflictingTypes name) := by
  have hread : ∃ info shape existing declared,
      Node.parse "" clashingSchema "#" = .ok (.composition info shape) ∧
      shape.kind = .allOf ∧ Node.memberDefect? shape.rawMembers = none ∧
      Node.SettleTo (aliasSubject.content.resolved []) shape.members shape.members ∧
      Table.declarations (shape.properties :: shape.members.map Node.offered) (.text "x") =
        [] ++ existing :: declared :: [] ∧ Merged.conflict existing declared = true :=
    ⟨_, _, _, _, rfl, rfl, rfl, .cons rfl (.cons rfl .nil), rfl, rfl⟩
  obtain ⟨info, shape, existing, declared, hread, hkind, hdefect, hmembers, hdeclared, hconflict⟩ :=
    hread
  have hholds : aliasLibrary.Holds aliasSubject := rfl
  have hjson : clashingSchema.isJson = true := rfl
  have hlocal : ∀ x ∈ clashingSchema.references, aliasSubject.content.IsLocal x := by
    intro x hx
    have hnone : clashingSchema.references = [] := rfl
    simp [hnone] at hx
  have hconflicts := allOf_conflict_iff hholds plain_alias hjson hlocal hread hkind hdefect hmembers
    coldPast
  exact hconflicts.1.mpr ⟨_, _, _, _, _, hdeclared, hconflict⟩

theorem names_perm_pair :
    ∃ n, coldPast.schema pairLast = .ok n ∧ n.offered.keys.Perm [.str "a", .str "b"] := by
  have hread : ∃ info shape member text n,
      Node.parse "" pairLast "#" = .ok (.composition info shape) ∧
      shape.kind = .allOf ∧ Node.memberDefect? shape.rawMembers = none ∧ shape.members = [member] ∧
      member.settled (aliasSubject.content.resolved []) = .ok text ∧
      Node.declaredNames shape.properties [text] = [.str "b", .str "a"] ∧
      Node.settledKind (aliasSubject.content.resolved []) info shape = .ok n :=
    ⟨_, _, _, _, _, rfl, rfl, rfl, rfl, rfl, rfl, rfl⟩
  obtain ⟨info, shape, member, text, m, hread, hkind, hdefect, hmembers, htext, hnames, hm⟩ :=
    hread
  have hholds : aliasLibrary.Holds aliasSubject := rfl
  have hjson : pairLast.isJson = true := rfl
  have hlocal : ∀ x ∈ pairLast.references, aliasSubject.content.IsLocal x := isLocal_pair rfl
  -- merging succeeds, and the composition has a signature
  have hsettled : (Node.composition info shape).settled (aliasSubject.content.resolved []) =
      .ok m := by
    obtain ⟨key, hkey⟩ := Node.identity_ok (Node.sound_parse hjson hread).1
    rw [Node.settled_composition, hdefect, hkey]
    exact hm
  have hlike := settled_like hholds plain_alias hjson hlocal hread coldPast
  obtain ⟨n, hn, -⟩ :=
    (hlike.symm (S := fun n n' => Node.Like n' n) fun _ _ h => h).exists_ok hsettled
  obtain ⟨resolved, hresolved, hperm⟩ := names_perm hholds plain_alias hjson hlocal hread
    (by rw [hkind]; decide) coldPast hn
  rw [hmembers] at hresolved
  cases hresolved with
  | cons hfirst hrest =>
      cases hrest
      obtain rfl := Except.ok.inj (hfirst.symm.trans htext)
      rw [hnames] at hperm
      exact ⟨n, hn, hperm.trans (.swap _ _ _)⟩

end Declared

end Engine

end SchemaGraph
