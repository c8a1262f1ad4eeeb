import SchemaGraph.Proofs.Schema.Declare

/-!
# Merging members that are alike

Merging, naming variants and building the resolved object give like results from like schemas, or
fail in the same way.
-/

namespace SchemaGraph

open Node

/-- Neat schemas that are alike. -/
structure Node.Like (n n' : Node) : Prop where
  neat : n.Neat
  neat' : n'.Neat
  alike : n.Alike n'

theorem Node.Neat.like {n : Node} (h : n.Neat) : n.Like n := ⟨h, h, .refl n⟩

theorem Node.Like.symm {n n' : Node} (h : n.Like n') : n'.Like n := ⟨h.neat', h.neat, h.alike.symm⟩

theorem Node.Like.trans {n n' n'' : Node} (h : n.Like n') (h' : n'.Like n'') : n.Like n'' :=
  ⟨h.neat, h'.neat', h.alike.trans h'.alike⟩

theorem Node.Like.info {n n' : Node} (h : n.Like n') : InfoLike n.info n'.info :=
  h.alike.info h.neat.labelled.info h.neat'.labelled.info

/-- An object whose properties and required names are neat. -/
structure Merged.Neat (m : Merged) : Prop where
  info : m.info.Neat
  properties : NeatProperties m.shape.properties
  required : ∀ name ∈ m.shape.required, name.isJson = true

/-- Neat objects whose parts are alike. -/
structure Merged.Like (m m' : Merged) : Prop where
  neat : m.Neat
  neat' : m'.Neat
  info : InfoLike m.info m'.info
  shape : ObjectLike m.shape m'.shape

namespace Merged

variable {m m' : Merged}

theorem Like.node (h : m.Like m') : m.node.Like m'.node where
  neat := .object h.neat.info h.neat.properties h.neat.required
  neat' := .object h.neat'.info h.neat'.properties h.neat'.required
  alike := alike_of_objectLike h.neat.info h.neat'.info h.neat.properties.1 h.neat'.properties.1
    h.info h.shape

/-- Objects that are like are merged objects that are like. -/
theorem like_of_object {info info' : NodeInfo} {shape shape' : ObjectShape Node}
    (h : (Node.object info shape).Like (.object info' shape')) :
    Merged.Like ⟨info, shape⟩ ⟨info', shape'⟩ := by
  cases h.neat with
  | leaf _ hobject _ => exact absurd rfl (hobject info shape)
  | object hinfo hproperties hrequired =>
      cases h.neat' with
      | leaf _ hobject _ => exact absurd rfl (hobject info' shape')
      | object hinfo' hproperties' hrequired' =>
          obtain ⟨hannotations, hshape⟩ :=
            objectLike_of_alike hinfo hinfo' hproperties.1 hproperties'.1 h.alike
          exact ⟨⟨hinfo, hproperties, hrequired⟩, ⟨hinfo', hproperties', hrequired'⟩,
            hannotations, hshape⟩

/-- Of schemas that are like, both are objects or none is. -/
theorem objects_of_like {n n' : Node} (h : n.Like n') :
    (∃ info shape info' shape', n = .object info shape ∧ n' = .object info' shape' ∧
      Merged.Like ⟨info, shape⟩ ⟨info', shape'⟩) ∨
    (∀ info shape, n ≠ .object info shape) ∧ ∀ info shape, n' ≠ .object info shape := by
  by_cases hobject : ∃ info shape, n = .object info shape
  · obtain ⟨info, shape, rfl⟩ := hobject
    obtain ⟨info', shape', rfl⟩ := h.alike.object h.neat.labelled.info h.neat'.labelled
    exact Or.inl ⟨info, shape, info', shape', rfl, rfl, like_of_object h⟩
  · refine Or.inr ⟨fun info shape heq => hobject ⟨info, shape, heq⟩, ?_⟩
    rintro info' shape' rfl
    obtain ⟨info, shape, heq⟩ := h.alike.symm.object h.neat'.labelled.info h.neat.labelled
    exact hobject ⟨info, shape, heq⟩

/-- What a composition itself declares. -/
theorem start_like {info info' : NodeInfo} {shape shape' : CompositionShape Node}
    (h : (Node.composition info shape).Like (.composition info' shape')) :
    (start info shape).Like (start info' shape') := by
  obtain ⟨hinfo, hshape⟩ := compositionLike_of_alike h.neat h.neat' h.alike
  have hneat := h.neat.composition_parts
  have hneat' := h.neat'.composition_parts
  exact
    { neat := ⟨hneat.info, hneat.properties, hneat.required⟩
      neat' := ⟨hneat'.info, hneat'.properties, hneat'.required⟩
      info := ⟨hinfo.metadata, hinfo.title, hinfo.description⟩
      shape := ⟨hshape.properties, hshape.required, .none, rfl, hshape.discriminator, .nil, .nil⟩ }

section Absorbing

theorem orElse_orElse (v w other : Value) :
    (v.orElse w).orElse other = (v.orElse .null).orElse (w.orElse other) := by
  unfold Value.orElse
  cases hv : v.truthy with
  | true => simp [hv]
  | false =>
      simp only [Bool.false_eq_true, if_false]
      cases w.truthy <;> simp [Value.truthy]

theorem alike_title {v v' w w' : Value} (h : Value.Alike (v.orElse .null) (v'.orElse .null))
    (h' : Value.Alike (w.orElse .null) (w'.orElse .null)) :
    Value.Alike ((v.orElse w).orElse .null) ((v'.orElse w').orElse .null) := by
  rw [orElse_orElse v w, orElse_orElse v' w']
  exact Value.alike_orElse h h'

/-- The annotations after a member was merged. -/
theorem absorbed_info {info info' : NodeInfo} {n n' : Node} (h : InfoLike info info')
    (hn : InfoLike n.info n'.info) :
    InfoLike
      { info with
        title := info.title.orElse n.info.title
        description := info.description.orElse n.info.description }
      { info' with
        title := info'.title.orElse n'.info.title
        description := info'.description.orElse n'.info.description } where
  metadata := h.metadata
  title := alike_title h.title hn.title
  description := alike_title h.description hn.description

theorem firstAdditional_part (merged new : Additional Node) :
    additionalPart (firstAdditional merged new) =
      (additionalPart merged).or (additionalPart new) := by
  cases merged with
  | schema node => rfl
  | value v => cases v <;> rfl

theorem or_like {α β : Type} {R : α → β → Prop} {o p : Option α} {o' p' : Option β}
    (h : Option.Rel R o o') (h' : Option.Rel R p p') : Option.Rel R (o.or p) (o'.or p') := by
  cases h with
  | some h => exact .some h
  | none => exact h'

/-- A member that is no object gives annotations only. -/
theorem absorb_other {m : Merged} {n : Node} (h : ∀ info shape, n ≠ .object info shape) :
    m.absorb n = .ok { m with info := { m.info with
      title := m.info.title.orElse n.info.title
      description := m.info.description.orElse n.info.description } } := by
  cases n with
  | object info shape => exact absurd rfl (h info shape)
  | _ => rfl

/-- Merging like members into like objects. -/
theorem absorb_congr (h : m.Like m') {n n' : Node} (hn : n.Like n') :
    Agree Merged.Like (m.absorb n) (m'.absorb n') := by
  have hinfo := absorbed_info h.info hn.info
  rcases objects_of_like hn with
    ⟨info, shape, info', shape', rfl, rfl, hgiven⟩ | ⟨hobject, hobject'⟩
  · have hdeclared := declare_congr h.neat.properties h.neat'.properties hgiven.neat.properties
      hgiven.neat'.properties h.shape.properties hgiven.shape.properties
    unfold absorb
    refine hdeclared.bind ?_
    rintro properties properties' ⟨hneat, hneat', hsimilar⟩
    obtain ⟨hrequired, hjson⟩ := Value.extendUnique_congr h.shape.required hgiven.shape.required
      h.neat.required hgiven.neat.required
    obtain ⟨-, hjson'⟩ := Value.extendUnique_congr (List.forall₂_same.mpr fun _ _ =>
      Value.alike_refl _) (List.forall₂_same.mpr fun _ _ => Value.alike_refl _) h.neat'.required
      hgiven.neat'.required
    refine .ok ⟨⟨h.neat.info, hneat, hjson⟩, ⟨h.neat'.info, hneat', hjson'⟩, hinfo, ?_⟩
    constructor
    case properties => exact hsimilar
    case required => exact hrequired
    case additional =>
      rw [firstAdditional_part, firstAdditional_part]
      exact or_like h.shape.additional hgiven.shape.additional
    case nullable => rw [h.shape.nullable, hgiven.shape.nullable]
    case discriminator =>
      have hor : ∀ o p : Option Discriminator, (o <|> p) = o.or p := by
        intro o p
        cases o <;> rfl
      rw [hor, hor]
      exact or_like h.shape.discriminator hgiven.shape.discriminator
    case oneOf => exact h.shape.oneOf
    case anyOf => exact h.shape.anyOf
  · rw [absorb_other hobject, absorb_other hobject']
    exact .ok ⟨⟨h.neat.info, h.neat.properties, h.neat.required⟩,
      ⟨h.neat'.info, h.neat'.properties, h.neat'.required⟩, hinfo, h.shape⟩

end Absorbing

end Merged

namespace Node

/-- Resolved variants that are like. -/
structure VariantMatch (v v' : Variant Node) : Prop where
  name : Value.Alike v.name v'.name
  schema : v.schema.Like v'.schema

theorem variantLike_of_match {variants variants' : List (Variant Node)}
    (h : List.Forall₂ VariantMatch variants variants') :
    List.Forall₂ VariantLike variants variants' :=
  h.imp fun _ _ hmatch => ⟨hmatch.name, hmatch.schema.alike⟩

section Naming

theorem refText_of_like {member member' : Node} (h : member.Like member') {info : NodeInfo}
    {target : String} (hmember : member = .ref info (.str target)) :
    ∃ info', member' = .ref info' (.str target) := by
  subst hmember
  obtain ⟨info', target', rfl, halike⟩ :=
    h.alike.ref h.neat.labelled.info h.neat'.labelled.info
  rw [(Value.alike_scalar_iff rfl target').mp halike]
  exact ⟨info', rfl⟩

/-- The name of a variant without a title. -/
def numberedName (kind : CompositionKind) (number : Nat) : String :=
  let label := match kind with
    | .anyOf => "Option"
    | _ => "Variant"
  s!"{label}{number}"

theorem variantName_other {member : Node} (h : ∀ info target, member ≠ .ref info (.str target))
    (kind : CompositionKind) (resolved : Node) (number : Nat) :
    variantName kind member resolved number =
      (member.info.title.orElse resolved.info.title).orElse (.str (numberedName kind number)) := by
  unfold variantName
  split
  · rename_i info target
    exact absurd rfl (h info target)
  · cases kind <;> rfl

/-- Like members get like names. -/
theorem variantName_congr {member member' resolved resolved' : Node} (h : member.Like member')
    (hresolved : resolved.Like resolved') (kind : CompositionKind) (number : Nat) :
    Value.Alike (variantName kind member resolved number)
      (variantName kind member' resolved' number) := by
  by_cases href : ∃ info target, member = .ref info (.str target)
  · obtain ⟨info, target, hmember⟩ := href
    obtain ⟨info', hmember'⟩ := refText_of_like h hmember
    subst hmember hmember'
    exact Value.alike_refl _
  · have hother : ∀ info target, member ≠ .ref info (.str target) :=
      fun info target heq => href ⟨info, target, heq⟩
    have hother' : ∀ info target, member' ≠ .ref info (.str target) := by
      intro info target heq
      obtain ⟨info', hmember⟩ := refText_of_like h.symm heq
      exact hother info' target hmember
    rw [variantName_other hother, variantName_other hother', Merged.orElse_orElse,
      Merged.orElse_orElse member'.info.title]
    refine Value.alike_orElse h.info.title ?_
    have htext : ∀ v : Value, ∀ text : String,
        v.orElse (.str text) = (v.orElse .null).orElse (.str text) := by
      intro v text
      unfold Value.orElse
      cases hv : v.truthy with
      | true => simp [hv]
      | false => simp [Value.truthy]
    rw [htext, htext resolved'.info.title]
    exact Value.alike_orElse hresolved.info.title (Value.alike_refl _)

end Naming

section Building

theorem neat_tagProperty (path : String) (name : Value) : (tagProperty path name).Labelled :=
  ⟨⟨trivial, fun _ h => absurd h (by simp)⟩, rfl, by simp, by simp⟩

theorem alike_tagProperty (path path' : String) (name : Value) :
    (tagProperty path name).Alike (tagProperty path' name) :=
  Value.alike_refl _

theorem atom_of_hashable {v : Value} (hjson : v.isJson = true) (h : v.hashable = true) :
    ∃ a, v.atom? = some a := by
  cases v with
  | null => exact ⟨_, rfl⟩
  | bool b => exact ⟨_, rfl⟩
  | int n => exact ⟨_, rfl⟩
  | str s => exact ⟨_, rfl⟩
  | double x =>
      have hfinite : x.isFinite = true := Binary64.isFinite_of_isMachine hjson
      exact ⟨.number x.value, by rw [Value.atom?, hfinite]; rfl⟩
  | list items => exact absurd h (by simp [Value.hashable])
  | map entries => exact absurd h (by simp [Value.hashable])
  | set members => exact absurd h (by simp [Value.hashable])
  | date day => exact absurd hjson (by simp [Value.isJson])
  | moment time => exact absurd hjson (by simp [Value.isJson])
  | bytes octets => exact absurd hjson (by simp [Value.isJson])

theorem propertyName_of_like {d d' : Discriminator} (h : DiscriminatorLike d d') :
    Value.Alike d.propertyName d'.propertyName := by
  have hpart : ∀ d : Discriminator, ∃ rest, d.write = .map ((.str "propertyName",
      d.propertyName) :: rest) ∧ Table.Keyed ((.str "propertyName", d.propertyName) :: rest) := by
    intro d
    unfold Discriminator.write
    split
    · exact ⟨[], rfl, Table.keyed_of_sublist (show ["propertyName"].Nodup by decide)
        (List.Sublist.refl _)⟩
    · exact ⟨[(.str "mapping", .map d.mapping)], rfl, Table.keyed_of_sublist
        (show ["propertyName", "mapping"].Nodup by decide) (List.Sublist.refl _)⟩
  obtain ⟨rest, hwrite, hkeyed⟩ := hpart d
  obtain ⟨rest', hwrite', -⟩ := hpart d'
  unfold DiscriminatorLike at h
  rw [hwrite, hwrite'] at h
  have hrel := Value.alike_at hkeyed h "propertyName"
  rw [Table.at_cons_str, Table.at_cons_str, if_pos rfl, if_pos rfl] at hrel
  cases hrel with
  | some halike => exact halike

theorem neatProperties_putNew {properties : Table Node} (h : NeatProperties properties)
    {name : Value} {a : Atom} (hname : name.atom? = some a) {n : Node} (hn : n.Labelled) :
    NeatProperties (properties.putNew name n) := by
  have hsingle : NeatProperties [(name, n)] := by
    refine ⟨⟨⟨a, hname, rfl⟩, trivial⟩, ?_⟩
    intro entry hentry
    rw [List.mem_singleton.mp hentry]
    exact hn
  exact Merged.neatProperties_putAllNew h hsingle

theorem neatRequired_extend {target names : List Value}
    (htarget : ∀ name ∈ target, name.isJson = true) (hnames : ∀ name ∈ names, name.isJson = true) :
    ∀ name ∈ Value.extendUnique target names, name.isJson = true :=
  (Value.extendUnique_congr (List.forall₂_same.mpr fun _ _ => Value.alike_refl _)
    (List.forall₂_same.mpr fun _ _ => Value.alike_refl _) htarget hnames).2

variable {info info' : NodeInfo} {shape shape' : CompositionShape Node}
  (h : (Node.composition info shape).Like (.composition info' shape'))
  {variants variants' : List (Variant Node)}
  (hvariants : List.Forall₂ VariantMatch variants variants')
include h hvariants

/-- A `oneOf` becomes like objects from like variants. -/
theorem resolvedOneOf_congr {d d' : Discriminator} (hd : shape.discriminator = some d)
    (hlike : DiscriminatorLike d d') :
    Agree Node.Like (orFail (resolvedOneOf info shape d variants))
      (orFail (resolvedOneOf info' shape' d' variants')) := by
  have hstart := Merged.start_like h
  have hname := propertyName_of_like hlike
  have hjson := h.neat.composition_parts.name d hd
  unfold resolvedOneOf
  dsimp only
  cases hhash : d.propertyName.hashable with
  | false =>
      rw [← Value.alike_hashable hname, hhash]
      exact .error rfl
  | true =>
      have heq : d'.propertyName = d.propertyName := Value.eq_of_alike_hashable hhash hname
      obtain ⟨a, ha⟩ := atom_of_hashable hjson hhash
      rw [heq, hhash]
      -- a name that may be a key is one and the same on both sides
      have hnew : ∀ v ∈ [d.propertyName], v.isJson = true := by
        intro v hv
        rw [List.mem_singleton.mp hv]
        exact hjson
      have hsame : List.Forall₂ Value.Alike [d.propertyName] [d.propertyName] :=
        .cons (Value.alike_refl _) .nil
      have hbuilt : Merged.Like
          ⟨(Merged.start info shape).info, { (Merged.start info shape).shape with
            properties := Table.putNew (Merged.start info shape).shape.properties d.propertyName
              (tagProperty info.path d.propertyName)
            required := Value.extendUnique (Merged.start info shape).shape.required
              [d.propertyName]
            oneOfVariants := variants }⟩
          ⟨(Merged.start info' shape').info, { (Merged.start info' shape').shape with
            properties := Table.putNew (Merged.start info' shape').shape.properties d.propertyName
              (tagProperty info'.path d.propertyName)
            required := Value.extendUnique (Merged.start info' shape').shape.required
              [d.propertyName]
            oneOfVariants := variants' }⟩ :=
        { neat := ⟨hstart.neat.info, neatProperties_putNew hstart.neat.properties ha
            (neat_tagProperty _ _), neatRequired_extend hstart.neat.required hnew⟩
          neat' := ⟨hstart.neat'.info, neatProperties_putNew hstart.neat'.properties ha
            (neat_tagProperty _ _), neatRequired_extend hstart.neat'.required hnew⟩
          info := hstart.info
          shape :=
            { properties := hstart.shape.properties.putNew hstart.neat.properties.1
                hstart.neat'.properties.1 ha (alike_tagProperty _ _ _)
              required := (Value.extendUnique_congr hstart.shape.required hsame
                hstart.neat.required hnew).1
              additional := hstart.shape.additional
              nullable := hstart.shape.nullable
              discriminator := hstart.shape.discriminator
              oneOf := variantLike_of_match hvariants
              anyOf := hstart.shape.anyOf } }
      exact .ok hbuilt.node

omit h hvariants in
/-- A variant that is no object offers nothing. -/
theorem offer_other {given : ObjectShape Node} {name : Value} {n : Node}
    (h : ∀ info shape, n ≠ .object info shape) : offer given ⟨name, n⟩ = given := by
  cases n with
  | object info shape => exact absurd rfl (h info shape)
  | _ => rfl

omit h in
theorem offer_congr {info info' : NodeInfo} {given given' : ObjectShape Node}
    (hgiven : Merged.Like ⟨info, given⟩ ⟨info', given'⟩) :
    Merged.Like ⟨info, variants.foldl offer given⟩ ⟨info', variants'.foldl offer given'⟩ := by
  induction hvariants generalizing given given' with
  | nil => exact hgiven
  | @cons v v' rest rest' hv hrest ih =>
      rw [List.foldl_cons, List.foldl_cons]
      refine ih ?_
      obtain ⟨name, n⟩ := v
      obtain ⟨name', n'⟩ := v'
      have hn := hv.schema
      rcases Merged.objects_of_like hn with
        ⟨infon, shapen, infon', shapen', rfl, rfl, hoffered⟩ | ⟨hobject, hobject'⟩
      · exact
          { neat := ⟨hgiven.neat.info,
              Merged.neatProperties_putAllNew hgiven.neat.properties hoffered.neat.properties,
              neatRequired_extend hgiven.neat.required hoffered.neat.required⟩
            neat' := ⟨hgiven.neat'.info,
              Merged.neatProperties_putAllNew hgiven.neat'.properties hoffered.neat'.properties,
              neatRequired_extend hgiven.neat'.required hoffered.neat'.required⟩
            info := hgiven.info
            shape :=
              { properties := hgiven.shape.properties.putAllNew hoffered.shape.properties
                  hgiven.neat.properties.1 hgiven.neat'.properties.1 hoffered.neat.properties.1
                  hoffered.neat'.properties.1
                required := (Value.extendUnique_congr hgiven.shape.required
                  hoffered.shape.required hgiven.neat.required hoffered.neat.required).1
                additional := hgiven.shape.additional
                nullable := hgiven.shape.nullable
                discriminator := hgiven.shape.discriminator
                oneOf := hgiven.shape.oneOf
                anyOf := hgiven.shape.anyOf } }
      · rw [offer_other hobject, offer_other hobject']
        exact hgiven

/-- An `anyOf` becomes like objects from like variants. -/
theorem resolvedAnyOf_congr :
    (resolvedAnyOf info shape variants).Like (resolvedAnyOf info' shape' variants') := by
  have hstart := Merged.start_like h
  have hgiven : Merged.Like
      ⟨(Merged.start info shape).info,
        { (Merged.start info shape).shape with anyOfVariants := variants }⟩
      ⟨(Merged.start info' shape').info,
        { (Merged.start info' shape').shape with anyOfVariants := variants' }⟩ :=
    { neat := ⟨hstart.neat.info, hstart.neat.properties, hstart.neat.required⟩
      neat' := ⟨hstart.neat'.info, hstart.neat'.properties, hstart.neat'.required⟩
      info := hstart.info
      shape :=
        { properties := hstart.shape.properties
          required := hstart.shape.required
          additional := hstart.shape.additional
          nullable := hstart.shape.nullable
          discriminator := hstart.shape.discriminator
          oneOf := hstart.shape.oneOf
          anyOf := variantLike_of_match hvariants } }
  exact (offer_congr hvariants hgiven).node

end Building

end Node

end SchemaGraph
