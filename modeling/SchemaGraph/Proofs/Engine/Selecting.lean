import SchemaGraph.Proofs.Engine.Compositions
import SchemaGraph.Proofs.Resolve.Visited

/-!
# Selecting a schema

There are two ways to have one schema of a registry resolved: to enumerate the registry and resolve
what is enumerated, or to resolve the reference to the schema.  The first way starts from an empty
path, the second one from the reference; the first way recalls compositions and enumerated schemas, the
second one references.  In a document of JSON that refers only to itself both give the same schema up
to the order of keys, or both fail in the same way.
-/

namespace SchemaGraph

namespace Document

variable {d : Document} {table : Table Value} {name : String} {raw : Value} {n : Node}

/-- What an entry declares settles as the pointer to the entry resolves. -/
theorem settled_declared (hjson : d.raw.isJson = true) (htable : d.registry = .ok table)
    (hin : (.str name, raw) ∈ table) (hname : Reference.IsSegment name) (hne : name ≠ "")
    (h : declared (d.resolved []) name raw = .ok n) :
    Agree Eq (n.settled (d.resolved []))
      (d.resolved [] (.str (Reference.localRegistry ++ name))) := by
  have hgiven : Reference.given (.str (Reference.localRegistry ++ name)) = .ok _ :=
    Reference.given_eq_ok.mpr (by rw [Reference.read_pointer hname hne]; rfl)
  have hlook := look_pointer hjson htable hin hname hne
  obtain ⟨m, hparse, h⟩ := bind_eq_ok.mp h
  cases m with
  | ref info target =>
      -- the entry was followed when it was enumerated, and is settled as it is
      have hresolved := resolved_of_settled hgiven (hlook.trans hparse) h
      rw [Node.settled_leaf _ (isLeaf_of_followed h), hresolved]
      exact .ok rfl
  | _ =>
      obtain rfl := Except.ok.inj h
      exact settled_look hgiven (hlook.trans hparse)

end Document

namespace Engine

open Resolving

namespace Past

variable {library : Library} {subject : Subject}

/-- The outcome of enumerating a registry on an engine. -/
def schemas (past : Past library subject) : Except Failure (Table Node) :=
  (Engine.schemas subject past.world past.session).1

/-- The outcome of resolving a schema that was enumerated on an engine. -/
def node (past : Past library subject) (n : Node) : Except Failure Node :=
  (Engine.schema subject n past.world past.session).1

/-- The outcome of resolving a reference on an engine, while none is being followed. -/
def reference (past : Past library subject) (x : String) : Except Failure Node :=
  (Engine.reference subject (.value (.str x)) (.list []) past.world past.session).1

section Likeness

variable (past : Past library subject) (hholds : library.Holds subject)
  (hplain : subject.content.Plain)
include hholds hplain

/-- What an engine enumerates is like what the entries declare, one by one. -/
theorem schemas_like {table : Table Node} (htable : past.schemas = .ok table) :
    ∃ calculated, subject.content.allDeclared = .ok calculated ∧ LikeTables table calculated := by
  have hmirrors : Mirrors (Session.Fit (library.watchOnly subject)) _ LikeTables
      (Engine.schemas subject) subject.content.allDeclared past.world past.session :=
    mirrors_schemas (past.fit hholds) (Library.watched_watchOnly hholds) hplain
  exact hmirrors.2.exists_ok htable

/-- An enumerated schema is like the one that its entry declares. -/
theorem declared_of_schemas {table : Table Node} (htable : past.schemas = .ok table)
    {name : String} {n : Node} (hin : (.str name, n) ∈ table) :
    ∃ registry raw m, subject.content.registry = .ok registry ∧ (.str name, raw) ∈ registry ∧
      Document.declared (subject.content.resolved []) name raw = .ok m ∧ n.Like m := by
  obtain ⟨calculated, hcalculated, hlike⟩ := past.schemas_like hholds hplain htable
  obtain ⟨registry, hregistry, hentries⟩ := bind_eq_ok.mp hcalculated
  obtain ⟨⟨key, m⟩, hm, rfl, hnm⟩ := Node.exists_related hlike hin
  obtain ⟨raw, hraw, hdeclared⟩ := Document.declared_of_enumerated hentries hm
  exact ⟨registry, raw, m, orFail_eq_ok.mp hregistry, hraw, hdeclared, hnm⟩

/-- On every engine a schema settles as it does without a session. -/
theorem node_like {n : Node} (hneat : n.Neat)
    (hlocal : ∀ x, n.Pursues (.str x) → subject.content.IsLocal x) :
    Agree Node.Like (past.node n) (n.settled (subject.content.resolved [])) :=
  (mirrors_schema (past.fit hholds) (Library.watched_watchOnly hholds) hplain hneat hlocal).2.agree

/-- On every engine a reference resolves as it does without a session. -/
theorem reference_like {x : String} (hlocal : subject.content.IsLocal x) :
    Agree Node.Like (past.reference x) (subject.content.resolved [] (.str x)) := by
  have hasked : (Asked.value (.str x)).IsLocal subject.content := by
    intro y hy
    obtain rfl := Value.str.inj (Except.ok.inj hy)
    exact hlocal
  have hmirrors : Mirrors (Session.Fit (library.watchOnly subject))
      (visitedPath (.list []) = .ok []) Node.Like
      (Engine.reference subject (.value (.str x)) (.list []))
      (calculatedReference subject (.value (.str x)) (.list [])) past.world past.session :=
    mirrors_reference (past.fit hholds) (Library.watched_watchOnly hholds) hplain hasked
  have hcalculated : calculatedReference subject (.value (.str x)) (.list []) =
      subject.content.resolved [] (.str x) := Document.remembered_nil _ _
  rw [hcalculated] at hmirrors
  exact (hmirrors.antitone fun _ => rfl).2.agree

end Likeness

end Past

/-- Selecting a schema by its name and resolving all schemas agree: what an engine enumerates under a
name that stands in a pointer as it is resolves as the pointer does, on every three engines. -/
theorem selecting_agrees {library : Library} {subject : Subject} (hholds : library.Holds subject)
    (hplain : subject.content.Plain) (past : Past library subject) {table : Table Node}
    (htable : past.schemas = .ok table) {name : String} {n : Node} (hin : (.str name, n) ∈ table)
    (hname : Reference.IsSegment name) (hne : name ≠ "") (past' past'' : Past library subject) :
    Agree Node.Alike (past'.node n) (past''.reference (Reference.localRegistry ++ name)) := by
  obtain ⟨registry, raw, m, hregistry, hraw, hdeclared, hlike⟩ :=
    past.declared_of_schemas hholds hplain htable hin
  have hlocal : ∀ x, n.Pursues (.str x) → subject.content.IsLocal x := fun x hx =>
    Document.isLocal_of_declared hplain hregistry hraw hdeclared (hlike.pursues hx).follows
  have hpointer : subject.content.IsLocal (Reference.localRegistry ++ name) := by
    intro parsed hparsed
    rw [Reference.read_pointer hname hne] at hparsed
    obtain rfl := Option.some.inj hparsed
    rfl
  have hnode := past'.node_like hholds hplain hlike.neat hlocal
  have hreference := past''.reference_like hholds hplain hpointer
  -- the schema is like the declared one, which settles as the pointer resolves
  have hdeclaredNode : Agree Node.Like (past'.node n) (m.settled (subject.content.resolved [])) :=
    hnode.trans (Document.settled_like hplain.json hlike) fun _ _ _ h h' => h.trans h'
  have hresolved : Agree Node.Like (past'.node n)
      (subject.content.resolved [] (.str (Reference.localRegistry ++ name))) :=
    hdeclaredNode.trans
      (Document.settled_declared hplain.json hregistry hraw hname hne hdeclared)
      fun _ _ _ h h' => h' ▸ h
  exact hresolved.trans (hreference.symm (S := fun n n' => Node.Like n n') fun n n' h => h.symm)
    fun _ _ _ h h' => (h.trans h').alike

theorem selecting_agrees_alias :
    ∃ table n, coldPast.schemas = .ok table ∧ (.str "Alias", n) ∈ table ∧
      Agree Node.Alike (coldPast.node n) (coldPast.reference "#/components/schemas/Alias") := by
  have hholds : aliasLibrary.Holds aliasSubject := rfl
  have hdeclared : ∃ m rest, aliasSubject.content.allDeclared = .ok ((.str "Alias", m) :: rest) :=
    ⟨_, _, rfl⟩
  obtain ⟨m, rest, hdeclared⟩ := hdeclared
  have hok : coldPast.schemas.isOk = true := by decide +kernel
  cases hschemas : coldPast.schemas with
  | error failure =>
      rw [hschemas] at hok
      cases hok
  | ok table =>
      obtain ⟨calculated, hcalculated, hlike⟩ := coldPast.schemas_like hholds plain_alias hschemas
      obtain rfl := Except.ok.inj (hcalculated.symm.trans hdeclared)
      cases hlike with
      | @cons entry _ others _ hentry hothers =>
          obtain ⟨name, n⟩ := entry
          obtain rfl : name = .str "Alias" := hentry.1
          refine ⟨_, n, rfl, List.mem_cons_self, ?_⟩
          exact selecting_agrees hholds plain_alias coldPast hschemas List.mem_cons_self (by decide)
            (by decide) coldPast coldPast

/-- On every engine a reference whose pointer leads nowhere is not found, and nothing else becomes of it
unless a segment of the pointer is misread at a list. -/
theorem reference_nowhere {library : Library} {subject : Subject} (hholds : library.Holds subject)
    (hplain : subject.content.Plain) (past : Past library subject) {x : String} {parsed : Reference}
    {table : Table Value} (hlocal : subject.content.IsLocal x)
    (hread : Reference.read? x = some parsed) (htable : subject.content.registry = .ok table)
    (hnowhere : ∀ v, Pointer.walk (.map table) parsed.segments ≠ .ok v) :
    ∃ failure, past.reference x = .error failure ∧
      (failure.kind = .referenceNotFound ∨ failure.kind = .fault .invalidValue ∧
        ∃ segment ∈ parsed.segments, Pointer.IsMisread segment) := by
  have hlike : Agree (fun n n' => Node.Like n' n) (subject.content.resolved [] (.str x))
      (past.reference x) := (past.reference_like hholds hplain hlocal).symm fun _ _ h => h
  rcases Document.resolved_nowhere hread htable hnowhere List.not_mem_nil with
    hmissing | ⟨hinvalid, hmisread⟩
  · obtain ⟨failure, hfailure, hkind⟩ := hlike.exists_error hmissing
    exact ⟨failure, hfailure, Or.inl hkind.symm⟩
  · obtain ⟨failure, hfailure, hkind⟩ := hlike.exists_error hinvalid
    exact ⟨failure, hfailure, Or.inr ⟨hkind.symm, hmisread⟩⟩

theorem reference_nowhere_alias :
    ∃ failure, coldPast.reference "#/components/schemas/Missing" = .error failure ∧
      (failure.kind = .referenceNotFound ∨ failure.kind = .fault .invalidValue ∧
        ∃ segment ∈ ["Missing"], Pointer.IsMisread segment) := by
  have hholds : aliasLibrary.Holds aliasSubject := rfl
  have hread : Reference.read? "#/components/schemas/Missing" = some ⟨"", ["Missing"]⟩ := by decide
  have htable : ∃ table, aliasSubject.content.registry = .ok table ∧
      Pointer.walk (.map table) ["Missing"] = .error (.deadSegment "Missing") := ⟨_, rfl, rfl⟩
  obtain ⟨table, htable, hdead⟩ := htable
  refine reference_nowhere hholds plain_alias coldPast (isLocal_alias "Missing" hread) hread htable ?_
  intro v hv
  cases hdead.symm.trans hv

end Engine

end SchemaGraph
