import SchemaGraph.Proofs.Resolve.Followed
import SchemaGraph.Proofs.Schema.Retargeted

/-!
# Schemas that differ in their targets

Two schemas may be equal but for their targets and places: they become equal when the targets of each
are changed in a way of its own.  Where the changed targets still tell what a reference names, such
schemas settle to schemas that differ in the same way.
-/

namespace SchemaGraph

/-- Whether a target is a reference that is well formed. -/
def Reference.IsGiven (target : Value) : Prop := ∃ x, Reference.given target = .ok x

namespace Node

/-- Targets that name one schema, or are both no texts. -/
def CalledAlike (target target' : Value) : Prop :=
  (∃ x x', target = .str x ∧ target' = .str x' ∧
    Reference.schemaName x = Reference.schemaName x') ∨
  (∀ x, target ≠ .str x) ∧ ∀ x, target' ≠ .str x

/-- Whether two ways to change targets leave texts texts, and the same names in targets of a kind that
become equal. -/
structure NamesKept (named : Value → Prop) (change change' : Value → Value) : Prop where
  skeleton : ∀ v, (change v).skeleton = v.skeleton
  skeleton' : ∀ v, (change' v).skeleton = v.skeleton
  name : ∀ {target target'}, named target → change target = change' target' →
    CalledAlike target target'

/-- Targets that become equal, the first of which is of a kind. -/
def SameTarget (named : Value → Prop) (change change' : Value → Value) (target target' : Value) :
    Prop :=
  change target = change' target' ∧ named target

/-- Schemas that become equal when their targets are changed, the first of which leads only to
targets of a kind. -/
structure Moved (named : Value → Prop) (change change' : Value → Value) (n n' : Node) : Prop where
  same : n.retargeted change = n'.retargeted change'
  named : ∀ target ∈ n.follows, named target

variable {named : Value → Prop} {change change' : Value → Value}

theorem Moved.of_object {info : NodeInfo} {shape : ObjectShape Node} {n' : Node}
    (h : (Node.object info shape).retargeted change = n'.retargeted change') :
    Moved named change change' (.object info shape) n' :=
  ⟨h, fun _ htarget => absurd htarget (by simp [follows])⟩

theorem Moved.ref {info : NodeInfo} {target : Value} {n' : Node}
    (h : Moved named change change' (.ref info target) n') :
    ∃ info' target', n' = .ref info' target' ∧ SameTarget named change change' target target' := by
  have hsame := h.same
  rw [retargeted] at hsame
  cases n' with
  | ref info' target' =>
      rw [retargeted] at hsame
      exact ⟨info', target', rfl, (Node.ref.inj hsame).2,
        h.named target (List.mem_singleton.mpr rfl)⟩
  | _ => rw [retargeted] at hsame; cases hsame

theorem Moved.composition {info : NodeInfo} {shape : CompositionShape Node} {n' : Node}
    (h : Moved named change change' (.composition info shape) n') :
    ∃ info' shape', n' = .composition info' shape' ∧ info.unplaced = info'.unplaced ∧
      retargetedComposition change shape = retargetedComposition change' shape' := by
  have hsame := h.same
  rw [retargeted] at hsame
  cases n' with
  | composition info' shape' =>
      rw [retargeted] at hsame
      obtain ⟨hinfo, hshape⟩ := Node.composition.inj hsame
      exact ⟨info', shape', rfl, hinfo, hshape⟩
  | _ => rw [retargeted] at hsame; cases hsame

theorem Moved.parts {info info' : NodeInfo} {shape shape' : CompositionShape Node}
    (h : Moved named change change' (.composition info shape) (.composition info' shape')) :
    info.unplaced = info'.unplaced ∧
      retargetedComposition change shape = retargetedComposition change' shape' := by
  obtain ⟨info'', shape'', heq, hinfo, hshape⟩ := h.composition
  obtain ⟨rfl, rfl⟩ := Node.composition.inj heq
  exact ⟨hinfo, hshape⟩

/-- The members of such compositions differ in the same way. -/
theorem Moved.shape {info info' : NodeInfo} {shape shape' : CompositionShape Node}
    (h : Moved named change change' (.composition info shape) (.composition info' shape'))
    (hshape : retargetedComposition change shape = retargetedComposition change' shape') :
    ShapeRel (Moved named change change') shape shape' := by
  have hnamed := h.named
  obtain ⟨kind, rawMembers, members, discriminator, properties, required⟩ := shape
  obtain ⟨kind', rawMembers', members', discriminator', properties', required'⟩ := shape'
  simp only [retargetedComposition, CompositionShape.mk.injEq] at hshape
  obtain ⟨rfl, rfl, hmembers, hdiscriminator, -, -⟩ := hshape
  refine ⟨rfl, rfl, fun _ => ?_, ?_⟩
  · rw [retargetedEach_eq, retargetedEach_eq] at hmembers
    have hsame : List.Forall₂ (fun n n' => n.retargeted change = n'.retargeted change')
        members members' := by
      rw [← List.forall₂_map_right_iff, ← List.forall₂_map_left_iff, List.forall₂_eq_eq_eq]
      exact hmembers
    refine List.forall₂_iff_get.mpr ⟨hsame.length_eq, fun index hindex hindex' => ?_⟩
    refine ⟨hsame.get hindex hindex', fun target htarget => hnamed target ?_⟩
    exact mem_follows_composition.mpr ⟨_, List.getElem_mem hindex, htarget⟩
  · have hsome := congrArg Option.isSome hdiscriminator
    simpa using hsome

theorem Moved.info {n n' : Node} (h : Moved named change change' n n') :
    n.info.unplaced = n'.info.unplaced := by
  rw [← info_retargeted n, h.same, info_retargeted]

theorem retargetedVariants_of_moved {variants variants' : List (Variant Node)}
    (h : List.Forall₂ (VariantRel (Moved named change change') Eq) variants variants') :
    retargetedVariants change variants = retargetedVariants change' variants' := by
  rw [retargetedVariants_eq, retargetedVariants_eq]
  induction h with
  | nil => rfl
  | @cons v v' rest rest' hv hrest ih =>
      obtain ⟨hname, hschema⟩ := hv
      rw [List.map_cons, List.map_cons, ih, hname, hschema.same]

/-- A member that names nothing is called by its title, or by that of what it settles to. -/
theorem variantName_of_title {member member' n n' : Node} (kind : CompositionKind) (number : Nat)
    (hmember : ∀ info text, member ≠ .ref info (.str text))
    (hmember' : ∀ info text, member' ≠ .ref info (.str text))
    (h : member.info.unplaced = member'.info.unplaced) (hn : n.info.unplaced = n'.info.unplaced) :
    variantName kind member n number = variantName kind member' n' number := by
  have htitle : ∀ {i i' : NodeInfo}, i.unplaced = i'.unplaced → i.title = i'.title :=
    fun heq => ((NodeInfo.mk.injEq ..).mp heq).2.2.1
  rw [variantName_other hmember, variantName_other hmember', htitle h, htitle hn]

theorem isRef_retargeted (n : Node) : (n.retargeted change).isRef = n.isRef := by
  cases n <;> rw [retargeted] <;> rfl

/-- Discriminators that differ in their targets name one property. -/
theorem propertyName_of_retargeted {shape shape' : CompositionShape Node} {d d' : Discriminator}
    (h : retargetedComposition change shape = retargetedComposition change' shape')
    (hd : shape.discriminator = some d) (hd' : shape'.discriminator = some d') :
    d.propertyName = d'.propertyName := by
  have hdiscriminator := congrArg CompositionShape.discriminator h
  obtain ⟨kind, rawMembers, members, discriminator, properties, required⟩ := shape
  obtain ⟨kind', rawMembers', members', discriminator', properties', required'⟩ := shape'
  change discriminator = some d at hd
  change discriminator' = some d' at hd'
  change discriminator.map _ = discriminator'.map _ at hdiscriminator
  rw [hd, hd'] at hdiscriminator
  have hsame : d.retargeted change = d'.retargeted change' := Option.some.inj hdiscriminator
  exact ((Discriminator.mk.injEq ..).mp hsame).1

theorem Moved.merged {m m' : Merged} (h : Moved named change change' m.node m'.node) :
    m.retargeted change = m'.retargeted change' := by
  have hsame := h.same
  rw [Merged.retargeted_node, Merged.retargeted_node] at hsame
  obtain ⟨hinfo, hshape⟩ := Node.object.inj hsame
  exact congrArg₂ Merged.mk hinfo hshape

/-- Operations with the same faults fail together. -/
theorem agree_of_faults {α β : Type} {first : Except Fault α} {second : Except Fault β}
    (h : first.map (fun _ => ()) = second.map fun _ => ()) :
    Agree (fun _ _ => True) (orFail first) (orFail second) := by
  cases first with
  | ok a =>
      cases second with
      | ok b => exact .ok trivial
      | error fault => cases h
  | error fault =>
      cases second with
      | ok b => cases h
      | error fault' =>
          rw [Except.error.inj h]
          exact .error rfl

/-- Differing in targets is a congruence. -/
theorem congruence_moved (h : NamesKept named change change') :
    Congruence (Moved named change change') (SameTarget named change change') Eq where
  leaf := by
    intro n n' hmoved hn
    rw [← @isLeaf_retargeted change', ← hmoved.same, isLeaf_retargeted, hn]
  ref := fun hmoved => hmoved.ref
  composition := by
    intro info shape n' hmoved
    obtain ⟨info', shape', rfl, -, hshape⟩ := hmoved.composition
    exact ⟨info', shape', rfl, hmoved.shape hshape⟩
  identity := by
    intro info shape info' shape' hmoved
    have hidentity := identity_retargeted h.skeleton info shape
    rw [hmoved.same, identity_retargeted h.skeleton'] at hidentity
    exact agree_of_faults hidentity.symm
  start := by
    intro info shape info' shape' hmoved
    obtain ⟨hinfo, hshape⟩ := hmoved.parts
    refine Moved.of_object ?_
    change (Merged.start info shape).node.retargeted change = _
    rw [Merged.retargeted_node, Merged.retargeted_node, Merged.start_retargeted,
      Merged.start_retargeted, hinfo, hshape]
  absorb := by
    intro m m' n n' hm hn
    have habsorb : (m.absorb n).map (Merged.retargeted change) =
        (m'.absorb n').map (Merged.retargeted change') := by
      rw [← Merged.absorb_retargeted, ← Merged.absorb_retargeted, hm.merged, hn.same]
    refine (Agree.of_map_eq habsorb).mono fun next next' hnext => Moved.of_object ?_
    change next.node.retargeted change = _
    rw [Merged.retargeted_node, Merged.retargeted_node, hnext]
  variantName := by
    intro member member' n n' kind number hmember hn
    cases href : member.isRef with
    | false =>
        have href' : member'.isRef = false := by
          rw [← @isRef_retargeted change', ← hmember.same, isRef_retargeted, href]
        have hother : ∀ {given : Node}, given.isRef = false →
            ∀ info text, given ≠ .ref info (.str text) := by
          rintro given hgiven info text rfl
          cases hgiven
        exact variantName_of_title kind number (hother href) (hother href') hmember.info hn.info
    | true =>
        cases member with
        | ref info target =>
            obtain ⟨info', target', rfl, hsame, hnamed⟩ := hmember.ref
            rcases h.name hnamed hsame with ⟨x, x', rfl, rfl, hname⟩ | ⟨hother, hother'⟩
            · exact congrArg Value.str hname
            · have hne : ∀ (i : NodeInfo) (given : Value), (∀ x, given ≠ .str x) →
                  ∀ j text, Node.ref i given ≠ .ref j (.str text) :=
                fun i given hgiven j text heq => hgiven text (Node.ref.inj heq).2
              exact variantName_of_title kind number (hne info target hother)
                (hne info' target' hother') hmember.info hn.info
        | _ => cases href
  oneOf := by
    intro info shape info' shape' d d' variants variants' hmoved hd hd' hvariants
    obtain ⟨hinfo, hshape⟩ := hmoved.parts
    have hname := propertyName_of_retargeted hshape hd hd'
    have hmap : (resolvedOneOf info shape d variants).map (retargeted change) =
        (resolvedOneOf info' shape' d' variants').map (retargeted change') := by
      rw [resolvedOneOf_retargeted, resolvedOneOf_retargeted, hinfo, hshape, hname,
        retargetedVariants_of_moved hvariants]
    -- one name is tested on both sides, so both fail or both succeed
    unfold resolvedOneOf at hmap ⊢
    dsimp only at hmap ⊢
    rw [hname] at hmap ⊢
    split
    · exact .error rfl
    · rename_i hhashable
      rw [if_neg hhashable, if_neg hhashable] at hmap
      exact .ok (Moved.of_object (Except.ok.inj hmap))
  anyOf := by
    intro info shape info' shape' variants variants' hmoved hvariants
    obtain ⟨hinfo, hshape⟩ := hmoved.parts
    have hsame : (resolvedAnyOf info shape variants).retargeted change =
        (resolvedAnyOf info' shape' variants').retargeted change' := by
      rw [resolvedAnyOf_retargeted, resolvedAnyOf_retargeted, hinfo, hshape,
        retargetedVariants_of_moved hvariants]
    exact Moved.of_object hsame

/-- Schemas that differ in their places only. -/
abbrev Misplaced : Node → Node → Prop := Moved (fun _ => True) id id

theorem namesKept_id : NamesKept (fun _ => True) id id where
  skeleton := fun _ => rfl
  skeleton' := fun _ => rfl
  name := by
    rintro target target' - rfl
    cases target with
    | str x => exact Or.inl ⟨x, x, rfl, rfl, rfl⟩
    | _ => exact Or.inr ⟨by simp, by simp⟩

end Node

end SchemaGraph
