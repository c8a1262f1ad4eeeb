import SchemaGraph.Proofs.Resolve.Beside
import SchemaGraph.Proofs.Resolve.Turns

/-!
# The variants of a composition

A resolved `oneOf` or `anyOf` has one variant for each member, in order.  A variant carries what its
member settles to in its turn, and is called by the reference that the member is, by a title, or by
its number.

What a member settles to in its turn it settles to alone, too.  Where nothing is cached this is so if
references are found alike whatever was resolved before.  Where schemas are cached it is so up to the
order of keys, since a cached composition may stand for one that was written in another order.
-/

namespace SchemaGraph

open Resolving

/-- The variants that an object has of a composition. -/
def ObjectShape.variants {ν : Type} (shape : ObjectShape ν) : CompositionKind → List (Variant ν)
  | .allOf => []
  | .oneOf => shape.oneOfVariants
  | .anyOf => shape.anyOfVariants

/-- Only a reference can be followed. -/
theorem given_of_follow {d : Document} {budget : Nat} {path : List String} {target : Value}
    {world : World} {s t : Session} {n : Node}
    (h : follow d budget path target world s = (.ok n, t)) :
    ∃ x, target = .str x ∧ Reference.given target = .ok x := by
  cases budget with
  | zero => cases h
  | succ budget =>
      obtain ⟨x, u, hgiven, -⟩ := bind_eq_ok_run h
      have hx := (lift_eq_ok hgiven).1
      exact ⟨x, Reference.eq_of_given hx, hx⟩

namespace Node

/-- How the variant of a member is called. -/
structure Called (label : String) (member resolved : Node) (number : Nat) (name : Value) :
    Prop where
  /-- A reference is called by what stands behind its last slash. -/
  reference : ∀ info target, member = .ref info target → ∃ text front segment,
    target = .str text ∧ name = .str segment ∧ text.toList = front ++ segment.toList ∧
      '/' ∉ segment.toList ∧ (front = [] ∨ front.getLast? = some '/')
  /-- Another schema is called by the first title that is given. -/
  titled : member.isRef = false → ∀ title,
    [member.info.title, resolved.info.title].find? Value.truthy = some title → name = title
  /-- A schema without a title is called by its number. -/
  numbered : member.isRef = false → member.info.title.truthy = false →
    resolved.info.title.truthy = false → name = .str s!"{label}{number}"

/-- The label of a variant that has no name. -/
def variantLabel : CompositionKind → String
  | .anyOf => "Option"
  | _ => "Variant"

theorem called_variantName {kind : CompositionKind} {member resolved : Node} {number : Nat}
    (href : ∀ info target, member = .ref info target → ∃ text, target = .str text) :
    Called (variantLabel kind) member resolved number (variantName kind member resolved number) := by
  have hother : member.isRef = false → variantName kind member resolved number =
      (member.info.title.orElse resolved.info.title).orElse
        (.str s!"{variantLabel kind}{number}") := by
    intro hmember
    unfold variantName
    split
    · cases hmember
    · cases kind <;> rfl
  refine ⟨?_, ?_, ?_⟩
  · rintro info target rfl
    obtain ⟨text, rfl⟩ := href info target rfl
    obtain ⟨front, htext, hslash, hfront⟩ := Reference.schemaName_toList text
    exact ⟨text, front, _, rfl, rfl, htext, hslash, hfront⟩
  · intro hmember title htitle
    rw [hother hmember]
    have hfirst : [resolved.info.title].foldl Value.orElse member.info.title = title :=
      Value.foldl_orElse htitle
    have htruthy : title.truthy = true := List.find?_some htitle
    rw [List.foldl_cons, List.foldl_nil] at hfirst
    rw [hfirst]
    exact if_pos htruthy
  · intro hmember htitle htitle'
    rw [hother hmember]
    unfold Value.orElse
    simp [htitle, htitle']

section Turns

variable {act : Node → Resolving Node} {world : World} {s t : Session}
  {members resolved : List Node}

theorem InTurn.length_eq (h : InTurn act world s members resolved t) :
    resolved.length = members.length := by
  induction h with
  | nil => rfl
  | cons _ _ ih => rw [List.length_cons, List.length_cons, ih]

/-- What is settled in turn was settled in some session. -/
theorem InTurn.settled (h : InTurn act world s members resolved t) :
    List.Forall₂ (fun member n => ∃ u v, act member world u = (.ok n, v)) members resolved := by
  induction h with
  | nil => exact .nil
  | cons hn _ ih => exact .cons ⟨_, _, hn⟩ ih

/-- What is settled in turn is settled alone, if sessions of a kind settle the members alike. -/
theorem InTurn.alone {keeps : Session → Prop} {R : Node → Node → Prop}
    (h : InTurn act world s members resolved t) (hs : keeps s)
    (halike : ∀ member ∈ members, ∀ s, keeps s → keeps (act member world s).2 ∧
      ∀ n, (act member world s).1 = .ok n → ∀ s', keeps s' →
        ∃ n', (act member world s').1 = .ok n' ∧ R n n') :
    List.Forall₂ (fun member n => ∀ s', keeps s' →
      ∃ n', (act member world s').1 = .ok n' ∧ R n n') members resolved := by
  induction h with
  | nil => exact .nil
  | cons hn _ ih =>
      obtain ⟨hkept, hfirst⟩ := halike _ List.mem_cons_self _ hs
      rw [hn] at hkept hfirst
      exact .cons (hfirst _ rfl)
        (ih hkept fun member hmember => halike member (List.mem_cons_of_mem _ hmember))

end Turns

section Variants

variable {kind : CompositionKind} {members resolved : List Node}

theorem schema_variantsOf (h : resolved.length = members.length) (number : Nat) :
    (variantsOf kind number members resolved).map (·.schema) = resolved := by
  induction members generalizing resolved number with
  | nil =>
      rw [List.length_eq_zero_iff.mp h]
      rfl
  | cons member rest ih =>
      cases resolved with
      | nil => cases h
      | cons n resolved =>
          rw [variantsOf, List.map_cons, ih (Nat.succ.inj h)]

theorem getElem_variantsOf {number index : Nat} {v : Variant Node}
    (h : (variantsOf kind number members resolved)[index]? = some v) :
    ∃ member n, members[index]? = some member ∧ resolved[index]? = some n ∧
      v = ⟨variantName kind member n (number + index), n⟩ := by
  induction members generalizing resolved number index with
  | nil => exact absurd h (by simp [variantsOf])
  | cons member rest ih =>
      cases resolved with
      | nil => exact absurd h (by simp [variantsOf])
      | cons n resolved =>
          rw [variantsOf] at h
          cases index with
          | zero => exact ⟨member, n, rfl, rfl, (Option.some.inj h).symm⟩
          | succ index =>
              obtain ⟨member', n', hmember, hn, rfl⟩ := ih h
              refine ⟨member', n', hmember, hn, ?_⟩
              rw [Nat.add_right_comm]
              rfl

end Variants

/-- What a resolved `oneOf` or `anyOf` holds. -/
structure Varies (shape : CompositionShape Node) (resolved : List Node)
    (object : ObjectShape Node) : Prop where
  /-- There is one variant for each member, which carries what the member settles to. -/
  schemas : (object.variants shape.kind).map (·.schema) = resolved
  count : (object.variants shape.kind).length = shape.members.length
  others : ∀ kind, kind ≠ shape.kind → object.variants kind = []
  names : ∀ index member v, shape.members[index]? = some member →
    (object.variants shape.kind)[index]? = some v →
      Called (variantLabel shape.kind) member v.schema (index + 1) v.name
  tagged : shape.kind = .oneOf →
    ∃ d, shape.discriminator = some d ∧ Tagged shape d.propertyName object
  offers : shape.kind = .anyOf → Offers shape resolved object

theorem varies_of_variants {shape : CompositionShape Node} {resolved : List Node}
    {object : ObjectShape Node} (hlength : resolved.length = shape.members.length)
    (hvariants : object.variants shape.kind = variantsOf shape.kind 1 shape.members resolved)
    (hothers : ∀ kind, kind ≠ shape.kind → object.variants kind = [])
    (hrefs : ∀ member ∈ shape.members, ∀ info target, member = .ref info target →
      ∃ text, target = .str text)
    (htagged : shape.kind = .oneOf →
      ∃ d, shape.discriminator = some d ∧ Tagged shape d.propertyName object)
    (hoffers : shape.kind = .anyOf → Offers shape resolved object) : Varies shape resolved object := by
  have hschemas : (object.variants shape.kind).map (·.schema) = resolved := by
    rw [hvariants, schema_variantsOf hlength]
  refine ⟨hschemas, ?_, hothers, ?_, htagged, hoffers⟩
  · rw [← List.length_map (·.schema), hschemas, hlength]
  · intro index member v hmember hv
    rw [hvariants] at hv
    obtain ⟨member', n, hmember', -, rfl⟩ := getElem_variantsOf hv
    obtain rfl := Option.some.inj (hmember.symm.trans hmember')
    rw [Nat.add_comm index 1]
    exact called_variantName (hrefs member (List.mem_of_getElem? hmember))

section Compositions

variable {document : Document} {world : World} {info : NodeInfo} {shape : CompositionShape Node}
  {budget : Nat} {path : List String}

/-- A `oneOf` or `anyOf` that is not in the cache has the variants that its members settle to in
turn. -/
theorem varies_of_settleKind (hkind : shape.kind ≠ .allOf) {s t : Session} {n : Node}
    (h : settleKind (SchemaGraph.follow document budget path) document info shape world s =
      (.ok n, t)) :
    ∃ resolved object u,
      InTurn (settle (SchemaGraph.follow document budget path) document) world s shape.members
        resolved u ∧
      n = .object (Merged.start info shape).info object ∧ Varies shape resolved object := by
  -- a member whose target is no text would have failed in its turn
  have hrefs : ∀ {resolved u}, InTurn (settle (SchemaGraph.follow document budget path) document)
      world s shape.members resolved u → ∀ member ∈ shape.members, ∀ info target,
        member = .ref info target → ∃ text, target = .str text := by
    rintro resolved u hturn _ hmember info target rfl
    obtain ⟨index, hindex, hget⟩ := List.getElem_of_mem hmember
    obtain ⟨v, w, hrun⟩ := hturn.settled.get hindex (hturn.length_eq ▸ hindex)
    rw [List.get_eq_getElem, hget, settle_ref] at hrun
    obtain ⟨text, htext, -⟩ := given_of_follow hrun
    exact ⟨text, htext⟩
  unfold settleKind at h
  cases hshape : shape.kind with
  | allOf => exact absurd hshape hkind
  | oneOf =>
      rw [hshape] at h
      cases hd : shape.discriminator with
      | none =>
          rw [hd] at h
          cases h
      | some d =>
          rw [hd] at h
          obtain ⟨variants, u, hvariants, hbuild⟩ := bind_eq_ok_run h
          obtain ⟨resolved, hturn, rfl⟩ := settleVariants_eq_ok.mp hvariants
          obtain ⟨object, hn, hone, hany, htagged⟩ :=
            tagged_of_resolvedOneOf (check_eq_ok hbuild).1
          refine ⟨resolved, object, u, hturn, hn, varies_of_variants hturn.length_eq ?_ ?_
            (hrefs hturn) (fun _ => ⟨d, hd, htagged⟩) fun hother => ?_⟩
          · rw [hshape]
            exact hone
          · rw [hshape]
            intro kind hother
            cases kind with
            | allOf => rfl
            | oneOf => exact absurd rfl hother
            | anyOf => exact hany
          · rw [hshape] at hother
            cases hother
  | anyOf =>
      rw [hshape] at h
      obtain ⟨variants, u, hvariants, hbuild⟩ := bind_eq_ok_run h
      obtain ⟨resolved, hturn, rfl⟩ := settleVariants_eq_ok.mp hvariants
      obtain ⟨object, hn, hany, hone, hoffers⟩ :=
        offers_of_resolvedAnyOf info shape (variantsOf .anyOf 1 shape.members resolved)
      rw [schema_variantsOf hturn.length_eq] at hoffers
      refine ⟨resolved, object, u, hturn, ?_, varies_of_variants hturn.length_eq ?_ ?_
        (hrefs hturn) (fun hother => ?_) fun _ => hoffers⟩
      · rw [← hn]
        exact (Except.ok.inj (Prod.mk.inj hbuild).1).symm
      · rw [hshape]
        exact hany
      · rw [hshape]
        intro kind hother
        cases kind with
        | allOf => rfl
        | oneOf => exact hone
        | anyOf => exact absurd rfl hother
      · rw [hshape] at hother
        cases hother

/-- Where nothing is cached and references are found alike, members settle alone as in turn. -/
theorem alone_of_cold {keeps : Session → Prop} {known : String → Prop}
    {members resolved : List Node} {s t : Session}
    (h : InTurn (settle (SchemaGraph.follow document budget path) document) world s members
      resolved t) (P : Paired (Both keeps)) (hs : keeps s)
    (hfound : document.FoundBeside world (Both keeps) known)
    (hknown : ∀ target ∈ membersFollow members, ∀ x, Reference.given target = .ok x → known x) :
    List.Forall₂ (fun member n => ∀ s', keeps s' → ∃ t',
      settle (SchemaGraph.follow document budget path) document member world s' = (.ok n, t'))
      members resolved := by
  have halone := @InTurn.alone _ _ _ _ _ _ keeps Eq h hs fun member hmember s hs => by
    have hbeside : SettleBeside (Both keeps) Eq (SchemaGraph.follow document budget path)
        (SchemaGraph.follow document budget path) document world member member :=
      settleBeside_follow congruence_eq (fun _ => rfl) id P hfound rfl
        fun target htarget => hknown target (mem_membersFollow.mpr ⟨member, hmember, htarget⟩)
    refine ⟨(hbeside s s ⟨hs, hs⟩).1.1, fun n hn s' hs' => ?_⟩
    exact (hbeside s s' ⟨hs, hs'⟩).2.exists_ok hn
  refine halone.imp fun member n hn s' hs' => ?_
  obtain ⟨n', hn', rfl⟩ := hn s' hs'
  exact ⟨_, Prod.ext hn' rfl⟩

/-- In a document that refers only to itself, members settle in a session that caches nothing as each of
them settles alone in any such session. -/
theorem alone_of_plain {members resolved : List Node} {s t : Session}
    (h : InTurn (settle (SchemaGraph.follow document budget path) document) world s members
      resolved t) (hs : s.Cold) (hplain : document.Plain)
    (hlocal : ∀ x, .str x ∈ membersFollow members → document.IsLocal x) :
    List.Forall₂ (fun member n => ∀ s' : Session, s'.Cold → ∃ t',
      settle (SchemaGraph.follow document budget path) document member world s' = (.ok n, t'))
      members resolved := by
  refine alone_of_cold h paired_cold hs (foundBeside_of_plain hplain) fun target htarget x hx => ?_
  obtain rfl := Reference.eq_of_given hx
  exact ⟨hx, hlocal x htarget⟩

/-- A document with one schema. -/
def textDocument : Document :=
  ⟨Value.record [("components", Value.record [("schemas", Value.record
    [("Text", Value.record [("type", .str "string")])])])], "", 0⟩

/-- A reference to that schema settles in every session that caches nothing to what it settles to in
one. -/
theorem alone_of_plain_text :
    ∃ (world : World) (member n : Node), member.follows = [.str "#/components/schemas/Text"] ∧
      ∀ s : Session, s.Cold → ∃ t,
        settle (SchemaGraph.follow textDocument 2 []) textDocument member world s = (.ok n, t) := by
  let world : World := ⟨default, [], fun _ _ => (.int 0, .lost ""), true, []⟩
  let s : Session := Session.start { cache := { enabled := .bool false } } (.int 0, .int 0) 1
  let member : Node := .ref ⟨"#", [], .null, .null⟩ (.str "#/components/schemas/Text")
  have hsettled : ∃ n t, settle (SchemaGraph.follow textDocument 2 []) textDocument member world s =
      (.ok n, t) := ⟨_, _, rfl⟩
  obtain ⟨n, t, hsettled⟩ := hsettled
  have hs : s.Cold := Session.cold_start rfl _ _
  have hplain : textDocument.Plain :=
    ⟨by decide, fun x hx => absurd hx (by simp [show textDocument.raw.references = [] from rfl])⟩
  have hlocal : ∀ x, .str x ∈ membersFollow [member] → textDocument.IsLocal x := by
    intro x hx
    obtain rfl := Value.str.inj (List.mem_singleton.mp hx)
    intro parsed hparsed
    have hread : Reference.read? "#/components/schemas/Text" = some ⟨"", ["Text"]⟩ := by decide
    obtain rfl := Option.some.inj (hread.symm.trans hparsed)
    rfl
  have halone := alone_of_plain (.cons hsettled (.nil t)) hs hplain hlocal
  cases halone with
  | cons hmember _ => exact ⟨world, member, n, rfl, hmember⟩

/-- In sound sessions members settle alone as in turn, up to the order of keys. -/
theorem alone_of_sound {watch : Watch} {members resolved : List Node} {s t : Session}
    (h : InTurn (settle (SchemaGraph.follow document budget path) document) world s members
      resolved t) (hs : s.SoundFor watch document)
    (hwatch : watch.documents document.id = some document) (hplain : document.Plain)
    (hneat : ∀ member ∈ members, member.Neat)
    (hlocal : ∀ x, .str x ∈ membersFollow members → document.IsLocal x)
    (hleads : ∀ x, .str x ∈ membersFollow members → document.LeadsTo path x)
    (hbudget : document.fuel ≤ budget) :
    List.Forall₂ (fun member n => ∀ s', s'.SoundFor watch document → ∃ n' t',
      settle (SchemaGraph.follow document budget path) document member world s' = (.ok n', t') ∧
        n.Like n') members resolved := by
  -- both sessions mirror one calculation, so what is known of one carries over to the other
  have hmirrors : ∀ member ∈ members, MirrorsSettling (Session.SoundFor watch document)
      (fun _ => True) Like (SchemaGraph.follow document budget path) (document.remembered path)
      document world member := by
    intro member hmember
    refine mirrors_settle hwatch hplain (hneat member hmember) fun target htarget s hs => ?_
    have hin := mem_membersFollow.mpr ⟨member, hmember, htarget.follows⟩
    cases target with
    | str x =>
        have hcard : (insert x document.known \ path.toFinset).card < budget := by
          have hsub := Finset.card_le_card
            (Finset.sdiff_subset (s := insert x document.known) (t := path.toFinset))
          have hall := document.card_insert_known x
          unfold Document.fuel at hbudget
          omega
        exact (mirrors_follow world hwatch hplain (hlocal x hin) hcard hs).antitone
          fun _ => hleads x hin
    | _ => exact mirrors_follow_malformed rfl (lt_of_lt_of_le (Nat.succ_pos _) hbudget) hs
  have halone := @InTurn.alone _ _ _ _ _ _ (Session.SoundFor watch document) Like h hs
    fun member hmember s hs => by
      obtain ⟨hkept, htracks⟩ := hmirrors member hmember s hs
      refine ⟨hkept, fun n hn s' hs' => ?_⟩
      obtain ⟨b, hb, hlike⟩ := htracks.exists_ok hn
      obtain ⟨n', hn', hlike'⟩ :=
        ((hmirrors member hmember s' hs').2.agree.symm fun _ _ => Like.symm).exists_ok hb
      exact ⟨n', hn', hlike.trans hlike'⟩
  refine halone.imp fun member n hn s' hs' => ?_
  obtain ⟨n', hn', hlike⟩ := hn s' hs'
  exact ⟨n', _, Prod.ext hn' rfl, hlike⟩

/-- A resolved `oneOf` or `anyOf` has the variants that its members settle to, in their turns and
alone. -/
theorem variants_of_settle (hkind : shape.kind ≠ .allOf) {s t : Session} {n : Node}
    (hmissed : Missed document info shape s)
    (h : (Node.composition info shape).settle (SchemaGraph.follow document budget path) document
      world s = (.ok n, t)) :
    ∃ records u resolved object,
      InTurn (settle (SchemaGraph.follow document budget path) document) world
        (s.retracked records) shape.members resolved u ∧
      n = .object (Merged.start info shape).info object ∧ Varies shape resolved object ∧
      (∀ (keeps : Session → Prop) (known : String → Prop), Paired (Both keeps) → keeps s →
        document.FoundBeside world (Both keeps) known →
        (∀ target ∈ membersFollow shape.members, ∀ x, Reference.given target = .ok x → known x) →
        List.Forall₂ (fun member r => ∀ s', keeps s' → ∃ t',
          settle (SchemaGraph.follow document budget path) document member world s' = (.ok r, t'))
          shape.members resolved) ∧
      (∀ watch : Watch, s.SoundFor watch document →
        watch.documents document.id = some document → document.Plain →
        (Node.composition info shape).Neat →
        (∀ x, .str x ∈ membersFollow shape.members →
          document.IsLocal x ∧ document.LeadsTo path x) → document.fuel ≤ budget →
        List.Forall₂ (fun member r => ∀ s', s'.SoundFor watch document → ∃ r' t',
          settle (SchemaGraph.follow document budget path) document member world s' = (.ok r', t') ∧
            r.Like r') shape.members resolved) := by
  obtain ⟨records, u, hready, hrun⟩ := settleKind_of_missed hmissed h
  obtain ⟨resolved, object, v, hturn, hn, hvaries⟩ := varies_of_settleKind hkind hrun
  refine ⟨records, v, resolved, object, hturn, hn, hvaries, ?_, ?_⟩
  · intro keeps known P hs hfound hknown
    have hrecords := hready (P.left (t := s) ⟨hs, hs⟩).ready
    have hkept := (P.retracked (t := s) ⟨hs, hs⟩ hrecords hrecords).1
    exact alone_of_cold hturn P hkept hfound hknown
  · intro watch hs hwatch hplain hneat hlocal hbudget
    exact alone_of_sound hturn ⟨hs.1.retracked (hready hs.1.sane.ready), hs.2⟩ hwatch hplain
      hneat.composition_parts.members (fun x hx => (hlocal x hx).1) (fun x hx => (hlocal x hx).2)
      hbudget

/-- An object with a title and a text without one, told apart by a property. -/
def taggedSchema : Value :=
  Value.record [("oneOf", .list
    [Value.record [("type", .str "object"), ("title", .str "Named"),
      ("required", Value.texts ["id"])],
    Value.record [("type", .str "string")]]),
    ("discriminator", Value.record [("propertyName", .str "kind")])]

theorem taggedSchema_read :
    ∃ info shape d n, parse "" taggedSchema "#" = .ok (.composition info shape) ∧
      shape.kind = .oneOf ∧ memberDefect? shape.rawMembers = none ∧
      (∀ member ∈ shape.members, member.isLeaf = true) ∧ shape.discriminator = some d ∧
      resolvedOneOf info shape d (variantsOf .oneOf 1 shape.members shape.members) = .ok n :=
  ⟨_, _, _, _, rfl, rfl, rfl, by simp [isLeaf], rfl, rfl⟩

theorem variants_of_settle_tagged :
    ∃ (world : World) (document : Document) (s : Session) (info : NodeInfo)
      (shape : CompositionShape Node) (n : Node) (t : Session),
      parse "" taggedSchema "#" = .ok (.composition info shape) ∧ shape.kind ≠ .allOf ∧
      Missed document info shape s ∧
      (Node.composition info shape).settle (SchemaGraph.follow document 2 []) document world s =
        (.ok n, t) ∧
      ∃ records u resolved object,
        InTurn (settle (SchemaGraph.follow document 2 []) document) world (s.retracked records)
          shape.members resolved u ∧
        n = .object (Merged.start info shape).info object ∧ Varies shape resolved object := by
  let world : World := ⟨default, [], fun _ _ => (.int 0, .lost ""), true, []⟩
  let document : Document := ⟨.map [], "", 0⟩
  let s : Session := Session.start { cache := { enabled := .bool false } } (.int 0, .int 0) 1
  obtain ⟨info, shape, d, n, hparse, hkind, hdefect, hleaves, hd, hn⟩ := taggedSchema_read
  have hs : s.Cold := Session.cold_start rfl _ _
  have hmissed : Missed document info shape s := fun _ _ => rfl
  have hother : shape.kind ≠ .allOf := by simp [hkind]
  obtain ⟨key, hkey⟩ := identity_ok (sound_parse (by decide) hparse).1
  obtain ⟨t, -, hrun⟩ : ∃ t : Session, t.Cold ∧
      (Node.composition info shape).settle (SchemaGraph.follow document 2 []) document world s =
        (.ok n, t) := exists_settle_of_cold hs hdefect hkey fun u hu => by
      refine ⟨_, hs.retracked hu, ?_⟩
      unfold settleKind
      rw [hkind, hd]
      dsimp only
      rw [bind_apply, settleVariants_eq_ok.mpr ⟨_, inTurn_leaves hleaves, rfl⟩]
      dsimp only
      rw [hn]
      rfl
  obtain ⟨records, u, resolved, object, hturn, hobject, hvaries, -⟩ :=
    variants_of_settle hother hmissed hrun
  exact ⟨world, document, s, info, shape, n, t, hparse, hother, hmissed, hrun, records, u, resolved,
    object, hturn, hobject, hvaries⟩

end Compositions

end Node

end SchemaGraph
