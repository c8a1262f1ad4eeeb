import SchemaGraph.Proofs.Pointer.Walked
import SchemaGraph.Proofs.Resolve.Followed
import SchemaGraph.Proofs.Schema.References

/-!
# Documents that refer only to themselves

The schema that a reference names is found in the registry of the document.  All references that can
be met are written in the document, so there is fuel that is always enough, and following with that
fuel obeys its own equation: what a reference is followed to is its schema, settled on the longer
path.  A reference whose pointer leads nowhere is not found, unless a segment of it is misread.
-/

namespace SchemaGraph

open Relation

namespace Document

/-- Whether a reference, if it is well formed, leads to the document itself. -/
def IsLocal (d : Document) (x : String) : Prop :=
  ∀ parsed, Reference.read? x = some parsed → d.isOutside parsed.location = .ok false

/-- A document of JSON whose references all lead to itself. -/
structure Plain (d : Document) : Prop where
  json : d.raw.isJson = true
  isLocal : ∀ x ∈ d.raw.references, d.IsLocal x

/-- The schema that a reference names in the registry of the document. -/
def look (d : Document) (x : String) : Except Failure Node :=
  match Reference.read? x with
  | some parsed => d.localTarget x parsed.segments
  | none => .error (.malformedReference x)

/-- The references that are written in a document. -/
def known (d : Document) : Finset String := d.raw.references.toFinset

/-- Fuel for all paths of references that are written in the document, and one that is not. -/
def fuel (d : Document) : Nat := d.raw.referenceCount + 2

/-- What a reference of the document is followed to on a path, where nothing is cached. -/
def resolved (d : Document) (path : List String) (target : Value) : Except Failure Node :=
  followed d.look d.fuel path target

section Registry

theorem references_registry {d : Document} {table : Table Value} (h : d.registry = .ok table) :
    Value.entriesReferences table ⊆ d.raw.references :=
  (Value.inherited_references _).registry (List.Subset.refl _) h

theorem entriesJson_registry {d : Document} {table : Table Value} (hjson : d.raw.isJson = true)
    (h : d.registry = .ok table) : Value.entriesJson table = true :=
  Node.inherited_isJson.registry hjson h

/-- What is found under a reference is read from a value of the registry. -/
theorem look_eq_ok {d : Document} {x : String} {n : Node} (h : d.look x = .ok n) :
    ∃ parsed table v, Reference.read? x = some parsed ∧ d.registry = .ok table ∧
      Pointer.walk (.map table) parsed.segments = .ok v ∧ Node.parse "" v x = .ok n := by
  unfold look at h
  split at h
  · rename_i parsed hread
    unfold localTarget at h
    rw [bind_eq_ok] at h
    obtain ⟨table, htable, h⟩ := h
    split at h
    · rename_i v hwalk
      exact ⟨parsed, table, v, hread, orFail_eq_ok.mp htable, hwalk, h⟩
    · cases h
    · cases h
  · cases h

theorem harmless_look (d : Document) (x : String) : Node.Harmless (d.look x) := by
  unfold look
  split
  · unfold localTarget
    refine (Node.harmless_orFail _).bind fun table => ?_
    split
    · exact Node.harmless_parse _ _ _
    · exact Node.harmless_error (by simp [Failure.kind])
    · exact Node.harmless_error (by simp [Failure.kind])
  · exact Node.harmless_error (by simp [Failure.kind])

theorem neat_look {d : Document} (hjson : d.raw.isJson = true) {x : String} {n : Node}
    (h : d.look x = .ok n) : n.Neat := by
  obtain ⟨parsed, table, v, -, htable, hwalk, hparse⟩ := look_eq_ok h
  have hwhole : (Value.map table).isJson = true := entriesJson_registry hjson htable
  exact (Node.sound_parse (Node.inherited_isJson.walk hwhole hwalk) hparse).1

/-- A reference whose pointer leads nowhere is not found, unless a segment of the pointer is misread. -/
theorem look_nowhere {d : Document} {x : String} {parsed : Reference} {table : Table Value}
    (hread : Reference.read? x = some parsed) (htable : d.registry = .ok table)
    (hnowhere : ∀ v, Pointer.walk (.map table) parsed.segments ≠ .ok v) :
    d.look x = .error (.referenceNotFound x) ∨
      d.look x = .error (.fault .invalidValue) ∧
        ∃ segment ∈ parsed.segments, Pointer.IsMisread segment := by
  obtain ⟨before, segment, after, v, heq, -, hstops⟩ := Pointer.walk_stops hnowhere
  unfold look
  rw [hread]
  dsimp only
  unfold localTarget
  rw [htable]
  dsimp only [orFail, bind, Except.bind]
  rcases hstops with hdead | ⟨hinvalid, hmisread, -⟩
  · left
    rw [hdead]
    rfl
  · right
    rw [hinvalid, heq]
    exact ⟨rfl, segment, List.mem_append_right _ List.mem_cons_self, hmisread⟩

theorem mem_known_of_eager {d : Document} {x y : String} (h : Eager d.look x y) :
    y ∈ d.known := by
  obtain ⟨n, hn, hy⟩ := h
  obtain ⟨parsed, table, v, -, htable, hwalk, hparse⟩ := look_eq_ok hn
  refine List.mem_toFinset.mpr (references_registry htable ?_)
  have hmem := Value.references_walk hwalk (Node.follows_parse hparse hy)
  rwa [Value.references] at hmem

theorem isLocal_of_eager {d : Document} (hd : d.Plain) {x y : String} (h : Eager d.look x y) :
    d.IsLocal y :=
  hd.isLocal y (List.mem_toFinset.mp (mem_known_of_eager h))

end Registry

section Resolved

variable (d : Document)

theorem closed_known : Closed d.look d.known := fun _ _ _ h => mem_known_of_eager h

theorem closed_insert (x : String) : Closed d.look (insert x d.known) :=
  fun _ _ _ h => Finset.mem_insert_of_mem (mem_known_of_eager h)

theorem card_known : d.known.card ≤ d.raw.referenceCount :=
  (List.toFinset_card_le _).trans (Value.length_references d.raw)

theorem card_insert_known (x : String) : (insert x d.known).card ≤ d.raw.referenceCount + 1 :=
  (Finset.card_insert_le x d.known).trans (Nat.succ_le_succ d.card_known)

/-- Any fuel that is enough for the references off the path gives the same. -/
theorem followed_eq_resolved {fuel : Nat} {path : List String} {x : String}
    (h : (insert x d.known \ path.toFinset).card < fuel) :
    followed d.look fuel path (.str x) = d.resolved path (.str x) := by
  refine followed_fuel (d.closed_insert x) (Finset.mem_insert_self x _) h ?_
  have hcard := (Finset.card_le_card (Finset.sdiff_subset (s := insert x d.known)
    (t := path.toFinset))).trans (d.card_insert_known x)
  unfold Document.fuel
  omega

variable {d}

/-- What a reference is followed to is its schema, settled on the longer path. -/
theorem resolved_eq {x : String} (h : Reference.given (.str x) = .ok x) (path : List String) :
    d.resolved path (.str x) =
      if x ∈ path then .error (.circularReference x)
      else d.look x >>= fun n => n.settled (d.resolved (x :: path)) := by
  unfold resolved
  rw [show d.fuel = d.raw.referenceCount + 1 + 1 from rfl, followed_succ h]
  split
  · rfl
  · cases hn : d.look x with
    | error failure => rfl
    | ok n =>
        change n.settled _ = n.settled _
        refine Node.settled_congr_follow fun target htarget => ?_
        cases target with
        | str y =>
            have hy : y ∈ d.known := mem_known_of_eager ⟨n, hn, htarget⟩
            have hcard : (d.known \ (x :: path).toFinset).card ≤ d.raw.referenceCount :=
              (Finset.card_le_card Finset.sdiff_subset).trans d.card_known
            exact followed_fuel d.closed_known hy (by omega) (by omega)
        | _ => rfl

theorem resolved_error {target : Value} {failure : Failure}
    (h : Reference.given target = .error failure) (path : List String) :
    d.resolved path target = .error failure := by
  unfold resolved
  rw [show d.fuel = d.raw.referenceCount + 1 + 1 from rfl, followed, h]
  rfl

/-- Off its path, a reference whose pointer leads nowhere is not found, and nothing else becomes of it
unless a segment of the pointer is misread. -/
theorem resolved_nowhere {x : String} {parsed : Reference} {table : Table Value}
    (hread : Reference.read? x = some parsed) (htable : d.registry = .ok table)
    (hnowhere : ∀ v, Pointer.walk (.map table) parsed.segments ≠ .ok v) {path : List String}
    (hpath : x ∉ path) :
    d.resolved path (.str x) = .error (.referenceNotFound x) ∨
      d.resolved path (.str x) = .error (.fault .invalidValue) ∧
        ∃ segment ∈ parsed.segments, Pointer.IsMisread segment := by
  have hgiven : Reference.given (.str x) = .ok x := by
    rw [Reference.given_eq_ok, hread]
    rfl
  rw [resolved_eq hgiven, if_neg hpath]
  rcases look_nowhere hread htable hnowhere with hdead | ⟨hinvalid, hmisread⟩
  · left
    rw [hdead]
    rfl
  · right
    rw [hinvalid]
    exact ⟨rfl, hmisread⟩

/-- A schema whose references can all be followed alone can be followed alone. -/
theorem resolved_of_settled {x : String} (hgiven : Reference.given (.str x) = .ok x) {n m : Node}
    (hn : d.look x = .ok n) (h : n.settled (d.resolved []) = .ok m) :
    d.resolved [] (.str x) = .ok m := by
  rw [resolved_eq hgiven, if_neg (by simp), hn]
  change n.settled _ = _
  rw [← h]
  refine Node.settled_congr_follow fun target htarget => ?_
  obtain ⟨m', hm'⟩ := Node.follows_of_settled h target htarget
  obtain ⟨-, y, -, -, rfl, -⟩ := followed_eq_ok hm'
  rw [hm']
  refine followed_on_path hm' fun z hreach hz => ?_
  -- a reference that led back to `x` would depend on itself
  rw [List.mem_singleton.mp hz] at hreach
  have hcycle : TransGen (Eager d.look) y y :=
    TransGen.tail' hreach ⟨n, hn, htarget⟩
  exact absurd hcycle (not_cyclic_of_followed hm')

/-- What was followed alone is followed alike on every path that it does not lead back to. -/
theorem resolved_on_path {path : List String} {x : String} {m : Node}
    (h : d.resolved [] (.str x) = .ok m)
    (hpath : ∀ z, ReflTransGen (Eager d.look) x z → z ∉ path) :
    d.resolved path (.str x) = .ok m :=
  followed_on_path h fun z hreach hz => absurd hz (hpath z hreach)

theorem resolved_like (hjson : d.raw.isJson = true) (path : List String) {target target' : Value}
    (h : Value.Alike target target') :
    Agree Node.Like (d.resolved path target) (d.resolved path target') :=
  followed_like (fun _ _ => neat_look hjson) d.fuel path h

/-- Schemas that are like settle alike. -/
theorem settled_like (hjson : d.raw.isJson = true) {n n' : Node} (h : n.Like n') :
    Agree Node.Like (n.settled (d.resolved [])) (n'.settled (d.resolved [])) := by
  have hsettled : Simulates True Node.Like (n.settled (d.resolved []))
      (n'.settled (d.resolved [])) :=
    Node.congruence_like.settled_related h fun target _ target' _ halike =>
      (resolved_like hjson [] halike).simulates True
  exact hsettled.agree

/-- A neat schema settles to a neat schema. -/
theorem neat_of_settled (hjson : d.raw.isJson = true) {n m : Node} (hneat : n.Neat)
    (h : n.settled (d.resolved []) = .ok m) : m.Neat := by
  obtain ⟨m', -, hlike⟩ := (settled_like hjson hneat.like).exists_ok h
  exact hlike.neat

end Resolved

end Document

end SchemaGraph
