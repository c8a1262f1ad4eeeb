import SchemaGraph.Proofs.Resolve.Steady
import SchemaGraph.Proofs.Value.Inherited

/-!
# What resolving establishes

Resolving reads the target of each reference and merges the members of each composition.  So a property
of schemas is one of all that is resolved, if merging gives it to what is built of schemas that have
it, and reading a property that is enough for a schema with nothing left to resolve.  The caches must
show nothing else, and take nothing else.
-/

namespace SchemaGraph

open Resolving

/-- What is read has one property if the value has another, which a value hands on to its parts. -/
structure Node.ReadFrom (P : Value → Prop) (given : Node → Prop) : Prop extends
    Value.Inherited P where
  parse : ∀ {base path : String} {v : Value} {n : Node}, P v → Node.parse base v path = .ok n →
    given n

/-- A property that merging gives to what is built of schemas that have it, where what is merged is
given. -/
structure Node.Establishes (given good : Node → Prop) (merging : Merged → Prop) : Prop where
  leaf : ∀ {n : Node}, given n → n.isLeaf = true → good n
  members : ∀ {info shape}, given (.composition info shape) → ∀ member ∈ shape.members, given member
  start : ∀ {info shape}, given (.composition info shape) → merging (Merged.start info shape)
  absorb : ∀ {m next : Merged} {n : Node}, merging m → good n → m.absorb n = .ok next →
    merging next
  node : ∀ {m : Merged}, merging m → good m.node
  oneOf : ∀ {info shape d variants n}, given (.composition info shape) →
    (∀ v : Variant Node, v ∈ variants → good v.schema) →
      Node.resolvedOneOf info shape d variants = .ok n → good n
  anyOf : ∀ {info shape variants}, given (.composition info shape) →
    (∀ v : Variant Node, v ∈ variants → good v.schema) →
      good (Node.resolvedAnyOf info shape variants)

/-- A property of sessions whose caches of references and compositions show schemas of a kind only, and
take every schema of that kind. -/
structure Holding (keeps : Session → Prop) (good : Node → Prop) : Prop extends
    Untracked keeps where
  reference : ∀ {s : Session} {key n}, keeps s → s.caches.references.get? key = some n → good n
  composition : ∀ {s : Session} {key n}, keeps s → s.caches.compositions.get? key = some n → good n
  keptReference : ∀ {s : Session} key {n}, keeps s → good n → keeps (s.keptReference key n)
  keptComposition : ∀ {s : Session} key {n}, keeps s → good n → keeps (s.keptComposition key n)
  keptFailure : ∀ {s : Session} key failure, keeps s → keeps (s.keptFailure key failure)

section Targets

variable {keeps : Session → Prop} {P : Value → Prop} {given : Node → Prop}
  (hread : Node.ReadFrom P given) (hload : ∀ location, Yields keeps P (External.load location))
include hread hload

/-- A schema of another document is read from a part of it. -/
theorem External.yields_resolve (reference : Value) (base : String) (depth : Value) :
    Yields keeps given (resolve reference base depth) := by
  unfold resolve
  refine keeping_get.bind_yields fun s => (keeping_check _).bind_yields fun limit => ?_
  refine (keeping_check _).bind_yields fun number => Yields.guard (keeping_throw _) ?_
  split
  · refine Yields.guard (keeping_throw _) ((keeping_check _).bind_yields fun location => ?_)
    refine (hload location).bind fun raw hraw => ?_
    dsimp only
    split
    · rename_i hwalk
      exact yields_lift fun n hn => hread.parse (hread.walk (hread.schemasOf hraw) hwalk) hn
    · exact yields_throw _
    · exact yields_throw _
  · exact yields_throw _

omit hload in
theorem Document.given_localTarget {d : Document} (hd : P d.raw) {x : String}
    {segments : List String} {n : Node} (h : d.localTarget x segments = .ok n) : given n := by
  unfold localTarget at h
  rw [bind_eq_ok] at h
  obtain ⟨table, htable, h⟩ := h
  split at h
  · rename_i hwalk
    exact hread.parse (hread.walk (hread.registry hd (orFail_eq_ok.mp htable)) hwalk) h
  · cases h
  · cases h

/-- What a reference names is read from a part of a document. -/
theorem yields_target {d : Document} (hd : P d.raw) {x : String}
    (hfailure : ∀ s cause, keeps s → keeps (s.keptFailure (cacheKey d x) (.externalFailed x cause)))
    (path : List String) : Yields keeps given (d.target x path) := by
  have houtside : Yields keeps given (outsideTarget d x path) := by
    unfold outsideTarget
    refine (keeping_check _).bind_yields fun depth => ?_
    refine (External.yields_resolve hread hload _ _ _).attempt.bind fun outcome houtcome => ?_
    cases outcome with
    | ok n => exact yields_pure (houtcome n rfl)
    | error cause =>
        refine yields_get_bind fun world s hs => ?_
        dsimp only
        rw [ensures_modify_bind]
        have hkept := hfailure s cause hs
        exact (keeping_check _).bind_yields (fun _ => yields_throw _) world _ hkept
  unfold Document.target
  split
  · exact yields_throw _
  · refine (keeping_check _).bind_yields fun outside => ?_
    split
    · exact houtside
    · exact yields_lift fun n hn => Document.given_localTarget hread hd hn

end Targets

namespace Node.Establishes

variable {keeps : Session → Prop} {given good : Node → Prop} {merging : Merged → Prop}
  (h : Establishes given good merging) {d : Document} {follow : Value → Resolving Node}

section Members

variable {members : List Node}
  (hmembers : ∀ member ∈ members, Yields keeps good (member.settle follow d))
include hmembers

include h in
theorem yields_settleInto {merged : Merged} (hmerged : merging merged) :
    Yields keeps merging (settleInto follow d merged members) := by
  induction members generalizing merged with
  | nil =>
      rw [settleInto]
      exact yields_pure hmerged
  | cons member rest ih =>
      rw [settleInto]
      refine (hmembers member List.mem_cons_self).bind fun n hn => ?_
      refine (yields_lift fun next hnext => h.absorb hmerged hn hnext).bind fun next hnext => ?_
      exact ih (fun m hm => hmembers m (List.mem_cons_of_mem _ hm)) hnext

omit h in
theorem yields_settleVariants (kind : CompositionKind) (number : Nat) :
    Yields keeps (fun variants => ∀ v ∈ variants, good v.schema)
      (settleVariants follow d kind number members) := by
  induction members generalizing number with
  | nil =>
      rw [settleVariants]
      exact yields_pure fun v hv => absurd hv List.not_mem_nil
  | cons member rest ih =>
      rw [settleVariants]
      refine (hmembers member List.mem_cons_self).bind fun n hn => ?_
      refine (ih (fun m hm => hmembers m (List.mem_cons_of_mem _ hm)) (number + 1)).bind ?_
      exact fun others hothers => yields_pure (List.forall_mem_cons.mpr ⟨hn, hothers⟩)

end Members

include h

theorem yields_settleKind {info : NodeInfo} {shape : CompositionShape Node}
    (hgiven : given (.composition info shape))
    (hmembers : ∀ member ∈ shape.members, Yields keeps good (member.settle follow d)) :
    Yields keeps good (settleKind follow d info shape) := by
  unfold settleKind
  split
  · refine (h.yields_settleInto hmembers (h.start hgiven)).bind fun merged hmerged => ?_
    exact yields_pure (h.node hmerged)
  · split
    · exact yields_throw _
    · refine (yields_settleVariants hmembers _ _).bind fun variants hvariants => ?_
      exact yields_check fun n hn => h.oneOf hgiven hvariants hn
  · refine (yields_settleVariants hmembers _ _).bind fun variants hvariants => ?_
    exact yields_pure (h.anyOf hgiven hvariants)

variable (hholding : Holding keeps good)
include hholding

/-- Settling establishes what following does. -/
theorem yields_settle {n : Node} (hn : given n)
    (hfollow : ∀ target ∈ n.follows, Yields keeps good (follow target)) :
    Yields keeps good (n.settle follow d) := by
  induction n using nested with
  | hleaf n hleaf =>
      rw [settle_leaf follow d hleaf]
      exact yields_pure (h.leaf hn hleaf)
  | href info target =>
      rw [settle_ref]
      exact hfollow target (List.mem_singleton.mpr rfl)
  | hcomposition info shape ih =>
      have hmembers : ∀ member ∈ shape.members, Yields keeps good (member.settle follow d) :=
        fun member hmember => ih member hmember (h.members hn member hmember) fun target htarget =>
          hfollow target (mem_follows_composition.mpr ⟨member, hmember, htarget⟩)
      rw [settle_composition]
      split
      · exact yields_throw _
      · refine (keeping_check _).bind_yields fun key => ?_
        refine (hholding.yields_recallNode _ _ _ fun s hs n => hholding.composition hs).bind ?_
        intro found hfound
        cases found with
        | some n => exact yields_pure (hfound n rfl)
        | none =>
            refine (h.yields_settleKind hn hmembers).bind fun n hgood => ?_
            refine Keeping.bind_yields ?_ fun _ => yields_pure hgood
            exact hholding.keeping_keepComposition fun s hs => hholding.keptComposition _ hs hgood

variable (htarget : ∀ x path, Yields keeps given (d.target x path))
include htarget

/-- Following establishes what merging does, if targets are given. -/
theorem yields_follow (budget : Nat) (path : List String) (target : Value) :
    Yields keeps good (SchemaGraph.follow d budget path target) := by
  induction budget generalizing path target with
  | zero => exact yields_throw _
  | succ budget ih =>
      rw [SchemaGraph.follow]
      refine (keeping_lift _).bind_yields fun x => ?_
      split
      · exact yields_throw _
      · refine (hholding.yields_recallNode _ _ _ fun s hs n => hholding.reference hs).bind ?_
        intro found hfound
        cases found with
        | some n => exact yields_pure (hfound n rfl)
        | none =>
            refine keeping_get.bind_yields fun s => ?_
            split
            · exact yields_throw _
            · refine (htarget x path).bind fun n hn => ?_
              refine (h.yields_settle hholding hn fun target _ => ih _ target).bind fun m hm => ?_
              refine Keeping.bind_yields ?_ fun _ => yields_pure hm
              exact hholding.keeping_keepReference fun s hs => hholding.keptReference _ hs hm

theorem yields_resolveReference (path : List String) (target : Value) :
    Yields keeps good (resolveReference d path target) := by
  unfold resolveReference
  exact keeping_get.bind_yields fun s => h.yields_follow hholding htarget _ path target

theorem yields_resolveNode {n : Node} (hn : given n) : Yields keeps good (resolveNode d n) := by
  unfold resolveNode
  exact keeping_get.bind_yields fun s => h.yields_settle hholding hn fun target _ =>
    h.yields_follow hholding htarget _ [] target

end Node.Establishes

end SchemaGraph
