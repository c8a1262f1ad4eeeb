import SchemaGraph.Proofs.Resolve.Settling

/-!
# From the steps to a run

Settling and following are put together from a few steps: looking a schema up, finding the target of a
reference and keeping what is resolved.  What the steps are known to do, whatever they return, and what
one operation after another does if both do, is done by settling and following as well.  Properties of
operations are stated here as predicates, so that this is said once for all of them.
-/

namespace SchemaGraph

open Resolving

/-- A property of operations that all have which do not touch the session, and that two operations have
together if each of them has it. -/
structure Sequential (P : (α : Type) → Resolving α → Prop) : Prop where
  lift : ∀ {α : Type} (result : Except Failure α), P α (Resolving.lift result)
  bind : ∀ {α β : Type} {act : Resolving α} {next : α → Resolving β}, P α act →
    (∀ a, P β (next a)) → P β (act >>= next)

/-- A property of operations that the steps of settling in a document have. -/
structure SettlingSteps (d : Document) (P : (α : Type) → Resolving α → Prop) : Prop extends
    Sequential P where
  recallComposition : ∀ key, P _ (recallNode "composition" (·.compositions) key)
  keepComposition : ∀ text n, P _ (Resolving.keepComposition (cacheKey d text) n)

/-- A property of operations that the steps of following in a document have.  The session may be looked
at, but not the records. -/
structure FollowingSteps (d : Document) (P : (α : Type) → Resolving α → Prop) : Prop extends
    SettlingSteps d P where
  look : ∀ {α : Type} {next : Session → Resolving α},
    (∀ s u, next (s.retracked u) = next s) → (∀ s, P α (next s)) → P α (get >>= next)
  recallReference : ∀ key, P _ (recallNode "reference" (·.references) key)
  target : ∀ x path, P _ (d.target x path)
  keepReference : ∀ x n, P _ (Resolving.keepReference (cacheKey d x) n)

namespace Sequential

variable {P : (α : Type) → Resolving α → Prop} (h : Sequential P)
include h

theorem pure {α : Type} (a : α) : P α (Pure.pure a) := h.lift (.ok a)

theorem throw {α : Type} (failure : Failure) : P α (MonadExcept.throw failure) :=
  h.lift (.error failure)

theorem check {α : Type} (result : Except Fault α) : P α (Resolving.check result) := h.lift _

variable {d : Document} {follow : Value → Resolving Node}

section Members

variable {members : List Node} (hmembers : ∀ member ∈ members, P _ (member.settle follow d))
include hmembers

theorem settleInto (merged : Merged) : P _ (Node.settleInto follow d merged members) := by
  induction members generalizing merged with
  | nil =>
      rw [Node.settleInto]
      exact h.pure merged
  | cons member rest ih =>
      obtain ⟨hmember, hrest⟩ := List.forall_mem_cons.mp hmembers
      rw [Node.settleInto]
      apply h.bind hmember
      intro resolved
      apply h.bind (h.lift _)
      intro next
      exact ih hrest next

theorem settleVariants (kind : CompositionKind) (number : Nat) :
    P _ (Node.settleVariants follow d kind number members) := by
  induction members generalizing number with
  | nil =>
      rw [Node.settleVariants]
      exact h.pure []
  | cons member rest ih =>
      obtain ⟨hmember, hrest⟩ := List.forall_mem_cons.mp hmembers
      rw [Node.settleVariants]
      apply h.bind hmember
      intro resolved
      apply h.bind (ih hrest (number + 1))
      intro others
      exact h.pure _

end Members

theorem settleKind {shape : CompositionShape Node}
    (hmembers : ∀ member ∈ shape.members, P _ (member.settle follow d)) (info : NodeInfo) :
    P _ (Node.settleKind follow d info shape) := by
  unfold Node.settleKind
  cases shape.kind with
  | allOf => exact h.bind (h.settleInto hmembers _) fun _ => h.pure _
  | anyOf => exact h.bind (h.settleVariants hmembers _ _) fun _ => h.pure _
  | oneOf =>
      cases shape.discriminator with
      | none => exact h.throw _
      | some _ => exact h.bind (h.settleVariants hmembers _ _) fun _ => h.check _

end Sequential

/-- Settling does what following each reference does that the schema leads to. -/
theorem SettlingSteps.settle {d : Document} {P : (α : Type) → Resolving α → Prop} (h : SettlingSteps d P)
    {follow : Value → Resolving Node} {n : Node}
    (hfollow : ∀ target ∈ n.follows, P _ (follow target)) : P _ (n.settle follow d) := by
  induction n using Node.nested with
  | hleaf n hn =>
      rw [Node.settle_leaf follow d hn]
      exact h.pure n
  | href info target =>
      rw [Node.settle_ref]
      exact hfollow target (List.mem_singleton.mpr rfl)
  | hcomposition info shape ih =>
      have hmembers : ∀ member ∈ shape.members, P _ (member.settle follow d) := by
        intro member hmember
        apply ih member hmember
        intro target htarget
        exact hfollow target (Node.mem_follows_composition.mpr ⟨member, hmember, htarget⟩)
      rw [Node.settle_composition]
      cases Node.memberDefect? shape.rawMembers with
      | some defect => exact h.throw _
      | none =>
          apply h.bind (h.check _)
          intro text
          apply h.bind (h.recallComposition _)
          intro found
          cases found with
          | some m => exact h.pure m
          | none =>
              apply h.bind (h.settleKind hmembers info)
              intro resolved
              exact h.bind (h.keepComposition text resolved) fun _ => h.pure _

namespace FollowingSteps

variable {d : Document} {P : (α : Type) → Resolving α → Prop} (h : FollowingSteps d P)
include h

theorem follow (budget : Nat) (path : List String) (target : Value) :
    P _ (SchemaGraph.follow d budget path target) := by
  induction budget generalizing path target with
  | zero => exact h.throw _
  | succ budget ih =>
      rw [SchemaGraph.follow]
      apply h.bind (h.lift _)
      intro x
      split
      · exact h.throw _
      · apply h.bind (h.recallReference _)
        intro found
        cases found with
        | some n => exact h.pure n
        | none =>
            -- Remembered failures are looked up in the caches, which are no records.
            apply h.look (fun _ _ => rfl)
            intro s
            split
            · exact h.throw _
            · apply h.bind (h.target x path)
              intro n
              apply h.bind (h.settle fun target _ => ih (x :: path) target)
              intro resolved
              exact h.bind (h.keepReference x resolved) fun _ => h.pure _

/-- Building a composition whose members are settled by following. -/
theorem settleKind (budget : Nat) (path : List String) (info : NodeInfo)
    (shape : CompositionShape Node) :
    P _ (Node.settleKind (SchemaGraph.follow d budget path) d info shape) := by
  apply h.toSequential.settleKind
  exact fun member _ => h.settle fun target _ => h.follow budget path target

theorem resolveReference (path : List String) (target : Value) :
    P _ (SchemaGraph.resolveReference d path target) := by
  unfold SchemaGraph.resolveReference
  apply h.look (fun _ _ => rfl)
  exact fun s => h.follow _ path target

theorem resolveNode (n : Node) : P _ (SchemaGraph.resolveNode d n) := by
  unfold SchemaGraph.resolveNode
  apply h.look (fun _ _ => rfl)
  exact fun s => h.settle fun target _ => h.follow _ [] target

end FollowingSteps

end SchemaGraph
