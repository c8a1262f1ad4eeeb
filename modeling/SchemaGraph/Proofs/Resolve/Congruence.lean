import SchemaGraph.Proofs.Resolve.Settled
import SchemaGraph.Proofs.Json.Canonical
import SchemaGraph.Proofs.Schema.Merging

/-!
# Settling respects what merging respects

A relation between schemas is a congruence for merging when related compositions have members
related one by one, and merging, naming and building take related schemas to related ones.  Related
schemas then settle to related schemas.  Being equal is such a relation, and so is being alike.
-/

namespace SchemaGraph

namespace Node

/-- Variants with related names and related schemas. -/
def VariantRel (R : Node → Node → Prop) (N : Value → Value → Prop) (v v' : Variant Node) : Prop :=
  N v.name v'.name ∧ R v.schema v'.schema

/-- Compositions with as many members, related one by one. -/
structure ShapeRel (R : Node → Node → Prop) (shape shape' : CompositionShape Node) : Prop where
  kind : shape.kind = shape'.kind
  defect : memberDefect? shape.rawMembers = memberDefect? shape'.rawMembers
  members : memberDefect? shape.rawMembers = none → List.Forall₂ R shape.members shape'.members
  discriminator : shape.discriminator.isSome = shape'.discriminator.isSome

/-- A relation `R` between schemas that merging respects, where targets of references are related
by `T` and names of variants by `N`. -/
structure Congruence (R : Node → Node → Prop) (T N : Value → Value → Prop) : Prop where
  leaf : ∀ {n n'}, R n n' → n.isLeaf = true → n'.isLeaf = true
  ref : ∀ {info target n'}, R (.ref info target) n' →
    ∃ info' target', n' = .ref info' target' ∧ T target target'
  composition : ∀ {info shape n'}, R (.composition info shape) n' →
    ∃ info' shape', n' = .composition info' shape' ∧ ShapeRel R shape shape'
  identity : ∀ {info shape info' shape'}, R (.composition info shape) (.composition info' shape') →
    Agree (fun _ _ => True) (orFail (identity (.composition info shape)))
      (orFail (identity (.composition info' shape')))
  start : ∀ {info shape info' shape'}, R (.composition info shape) (.composition info' shape') →
    R (Merged.start info shape).node (Merged.start info' shape').node
  absorb : ∀ {m m' : Merged} {n n'}, R m.node m'.node → R n n' →
    Agree (fun next next' : Merged => R next.node next'.node) (m.absorb n) (m'.absorb n')
  variantName : ∀ {member member' n n'} (kind : CompositionKind) (number : Nat),
    R member member' → R n n' →
      N (variantName kind member n number) (variantName kind member' n' number)
  oneOf : ∀ {info shape info' shape' d d' variants variants'},
    R (.composition info shape) (.composition info' shape') → shape.discriminator = some d →
      shape'.discriminator = some d' → List.Forall₂ (VariantRel R N) variants variants' →
        Agree R (orFail (resolvedOneOf info shape d variants))
          (orFail (resolvedOneOf info' shape' d' variants'))
  anyOf : ∀ {info shape info' shape' variants variants'},
    R (.composition info shape) (.composition info' shape') →
      List.Forall₂ (VariantRel R N) variants variants' →
        R (resolvedAnyOf info shape variants) (resolvedAnyOf info' shape' variants')

namespace Congruence

variable {R : Node → Node → Prop} {T N : Value → Value → Prop} (C : Congruence R T N)
  {failures : Prop} {follow follow' : Value → Except Failure Node}
include C

omit C in
theorem settledInto_related {members members' : List Node}
    (hmembers : List.Forall₂ (fun member member' =>
      Simulates failures R (settled follow member) (settled follow' member')) members members')
    (habsorb : ∀ {m m' : Merged} {n n'}, R m.node m'.node → R n n' →
      Agree (fun next next' : Merged => R next.node next'.node) (m.absorb n) (m'.absorb n'))
    {merged merged' : Merged} (h : R merged.node merged'.node) :
    Simulates failures (fun last last' : Merged => R last.node last'.node)
      (settledInto follow merged members) (settledInto follow' merged' members') := by
  induction hmembers generalizing merged merged' with
  | nil => exact .ok h
  | @cons member member' rest rest' hmember hrest ih =>
      rw [settledInto, settledInto]
      refine hmember.bind fun resolved resolved' hresolved => ?_
      refine ((habsorb h hresolved).simulates failures).bind fun next next' hnext => ?_
      exact ih hnext

theorem settledVariants_related {members members' : List Node} (kind : CompositionKind)
    (number : Nat)
    (hmembers : List.Forall₂ (fun member member' => R member member' ∧
      Simulates failures R (settled follow member) (settled follow' member')) members members') :
    Simulates failures (List.Forall₂ (VariantRel R N))
      (settledVariants follow kind number members)
      (settledVariants follow' kind number members') := by
  induction hmembers generalizing number with
  | nil => exact .ok .nil
  | @cons member member' rest rest' hmember hrest ih =>
      rw [settledVariants, settledVariants]
      refine hmember.2.bind fun resolved resolved' hresolved => ?_
      refine (ih (number + 1)).bind fun others others' hothers => ?_
      exact .ok (.cons ⟨C.variantName kind number hmember.1 hresolved, hresolved⟩ hothers)

/-- Related compositions settle by their kind to related schemas, if their members settle to related
schemas. -/
theorem settledKind_related {info info' : NodeInfo} {shape shape' : CompositionShape Node}
    (h : R (.composition info shape) (.composition info' shape')) (hkind : shape.kind = shape'.kind)
    (hdiscriminator : shape.discriminator.isSome = shape'.discriminator.isSome)
    (hmembers : List.Forall₂ (fun member member' => R member member' ∧
      Simulates failures R (settled follow member) (settled follow' member'))
      shape.members shape'.members) :
    Simulates failures R (settledKind follow info shape) (settledKind follow' info' shape') := by
  unfold settledKind
  rw [hkind]
  cases shape'.kind with
  | allOf =>
      have hsettled := hmembers.imp fun _ _ hmember => hmember.2
      refine (settledInto_related hsettled C.absorb (C.start h)).bind ?_
      exact fun last last' hlast => .ok hlast
  | anyOf =>
      refine (C.settledVariants_related .anyOf 1 hmembers).bind ?_
      exact fun variants variants' hvariants => .ok (C.anyOf h hvariants)
  | oneOf =>
      cases hd : shape.discriminator with
      | none =>
          have hd' : shape'.discriminator = none := by
            rw [← Option.isNone_iff_eq_none, ← Option.not_isSome, ← hdiscriminator, hd]
            rfl
          rw [hd']
          exact .error fun _ => ⟨_, rfl, rfl⟩
      | some d =>
          rw [hd] at hdiscriminator
          obtain ⟨d', hd'⟩ := Option.isSome_iff_exists.mp hdiscriminator.symm
          rw [hd']
          refine (C.settledVariants_related .oneOf 1 hmembers).bind ?_
          exact fun variants variants' hvariants => (C.oneOf h hd hd' hvariants).simulates failures

/-- Related schemas settle to related schemas, if references to related targets are followed to
related schemas. -/
theorem settled_related {n n' : Node} (h : R n n')
    (hfollow : ∀ target ∈ n.follows, ∀ target' ∈ n'.follows, T target target' →
      Simulates failures R (follow target) (follow' target')) :
    Simulates failures R (settled follow n) (settled follow' n') := by
  induction n using nested generalizing n' with
  | hleaf n hn =>
      rw [settled_leaf follow hn, settled_leaf follow' (C.leaf h hn)]
      exact .ok h
  | href info target =>
      obtain ⟨info', target', rfl, htarget⟩ := C.ref h
      exact hfollow target (List.mem_singleton.mpr rfl) target' (List.mem_singleton.mpr rfl) htarget
  | hcomposition info shape ih =>
      obtain ⟨info', shape', rfl, hshape⟩ := C.composition h
      rw [settled_composition, settled_composition, ← hshape.defect, hshape.kind]
      cases hdefect : memberDefect? shape.rawMembers with
      | some defect => exact .error fun _ => ⟨_, rfl, rfl⟩
      | none =>
          refine ((C.identity h).simulates failures).bind fun _ _ _ => ?_
          refine C.settledKind_related h hshape.kind hshape.discriminator ?_
          -- the members are related only where the raw ones have no defect
          have hrelated := hshape.members hdefect
          refine List.forall₂_iff_get.mpr ⟨hrelated.length_eq, ?_⟩
          intro index hindex hindex'
          have hmember := hrelated.get hindex hindex'
          refine ⟨hmember, ih _ (List.getElem_mem _) hmember ?_⟩
          intro target htarget target' htarget'
          exact hfollow target
            (mem_follows_composition.mpr ⟨_, List.getElem_mem _, htarget⟩) target'
            (mem_follows_composition.mpr ⟨_, List.getElem_mem _, htarget'⟩)

end Congruence

/-- Being equal is a congruence. -/
theorem congruence_eq : Congruence Eq Eq Eq where
  leaf := fun h hn => h ▸ hn
  ref := fun h => ⟨_, _, h.symm, rfl⟩
  composition := fun h => ⟨_, _, h.symm, rfl, rfl, fun _ => List.forall₂_same.mpr fun _ _ => rfl, rfl⟩
  identity := by
    rintro info shape info' shape' h
    rw [h]
    exact .refl (fun _ => trivial) _
  start := by
    rintro info shape info' shape' h
    obtain ⟨rfl, rfl⟩ := Node.composition.inj h
    rfl
  absorb := by
    rintro ⟨info, shape⟩ ⟨info', shape'⟩ n n' h rfl
    obtain ⟨rfl, rfl⟩ := Node.object.inj h
    exact (Agree.refl (fun _ => rfl) (Merged.absorb ⟨info, shape⟩ n)).mono fun _ _ heq => heq ▸ rfl
  variantName := by
    rintro member member' n n' kind number rfl rfl
    rfl
  oneOf := by
    rintro info shape info' shape' d d' variants variants' h hd hd' hvariants
    obtain ⟨rfl, rfl⟩ := Node.composition.inj h
    obtain rfl : d = d' := Option.some.inj (hd.symm.trans hd')
    obtain rfl : variants = variants' := by
      refine List.forall₂_eq_eq_eq ▸ hvariants.imp ?_
      rintro ⟨name, schema⟩ ⟨name', schema'⟩ ⟨rfl, rfl⟩
      rfl
    exact .refl (fun _ => rfl) _
  anyOf := by
    rintro info shape info' shape' variants variants' h hvariants
    obtain ⟨rfl, rfl⟩ := Node.composition.inj h
    obtain rfl : variants = variants' := by
      refine List.forall₂_eq_eq_eq ▸ hvariants.imp ?_
      rintro ⟨name, schema⟩ ⟨name', schema'⟩ ⟨rfl, rfl⟩
      rfl
    rfl

section Likeness

theorem identity_ok {info : NodeInfo} {shape : CompositionShape Node}
    (h : (Node.composition info shape).Neat) :
    ∃ key, identity (.composition info shape) = .ok key := by
  obtain ⟨text, htext⟩ := Json.canonical_exists h.composition_parts.write
  refine ⟨s!"{shape.kind.keyword}:{text}", ?_⟩
  unfold identity canonicalText
  rw [htext]
  rfl

/-- Compositions that are like have as many members, and like ones. -/
theorem shapeRel_like {info info' : NodeInfo} {shape shape' : CompositionShape Node}
    (h : (Node.composition info shape).Like (.composition info' shape')) :
    ShapeRel Like shape shape' := by
  obtain ⟨-, hshape⟩ := compositionLike_of_alike h.neat h.neat' h.alike
  refine ⟨hshape.kind, hshape.defect, fun hdefect => ?_, ?_⟩
  · have halike := hshape.members hdefect
    refine List.forall₂_iff_get.mpr ⟨halike.length_eq, fun index hindex hindex' => ?_⟩
    exact ⟨h.neat.composition_parts.members _ (List.getElem_mem _),
      h.neat'.composition_parts.members _ (List.getElem_mem _), halike.get hindex hindex'⟩
  · have hlike := hshape.discriminator
    cases hd : shape.discriminator <;> cases hd' : shape'.discriminator <;> simp_all

/-- Being alike is a congruence. -/
theorem congruence_like : Congruence Like Value.Alike Value.Alike where
  leaf := by
    intro n n' h hn
    cases n' with
    | ref info' target' =>
        obtain ⟨info, target, rfl, -⟩ :=
          h.symm.alike.ref h.neat'.labelled.info h.neat.labelled.info
        exact absurd hn (by simp [isLeaf])
    | composition info' shape' =>
        obtain ⟨info, shape, rfl, -⟩ :=
          h.symm.alike.composition h.neat'.labelled.info h.neat.labelled.info
        exact absurd hn (by simp [isLeaf])
    | _ => rfl
  ref := fun h => h.alike.ref h.neat.labelled.info h.neat'.labelled.info
  composition := by
    intro info shape n' h
    obtain ⟨info', shape', rfl, -⟩ :=
      h.alike.composition h.neat.labelled.info h.neat'.labelled.info
    exact ⟨info', shape', rfl, shapeRel_like h⟩
  identity := by
    intro info shape info' shape' h
    obtain ⟨key, hkey⟩ := identity_ok h.neat
    obtain ⟨key', hkey'⟩ := identity_ok h.neat'
    rw [hkey, hkey']
    exact .ok trivial
  start := fun h => (Merged.start_like h).node
  absorb := by
    rintro ⟨info, shape⟩ ⟨info', shape'⟩ n n' h hn
    exact (Merged.absorb_congr (Merged.like_of_object h) hn).mono fun _ _ hlike => hlike.node
  variantName := fun kind number h hn => variantName_congr h hn kind number
  oneOf := by
    intro info shape info' shape' d d' variants variants' h hd hd' hvariants
    obtain ⟨-, hshape⟩ := compositionLike_of_alike h.neat h.neat' h.alike
    have hlike := hshape.discriminator
    rw [hd, hd'] at hlike
    cases hlike with
    | some hlike =>
        exact resolvedOneOf_congr h (hvariants.imp fun _ _ hv => ⟨hv.1, hv.2⟩) hd hlike
  anyOf := fun h hvariants => resolvedAnyOf_congr h (hvariants.imp fun _ _ hv => ⟨hv.1, hv.2⟩)

end Likeness

end Node

end SchemaGraph
