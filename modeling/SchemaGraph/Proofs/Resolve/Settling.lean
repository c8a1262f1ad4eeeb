import SchemaGraph.Proofs.Runs
import SchemaGraph.Proofs.Outcome
import SchemaGraph.Proofs.Resolve.Sound

/-!
# Settling in a sound session

An operation mirrors a calculation without a session when its result goes along with that of the
calculation, and it keeps a property of sessions.  Mirroring is proved step by step: what follows
a step has to mirror what follows the step of the calculation, for related results.

Settling a schema of a document in a sound session mirrors settling it without a session, if
following each reference that the schema leads to does.  A composition that is served from the cache
is like the one that would have been built, and the one that is built may be remembered.
-/

namespace SchemaGraph

open Resolving

/-! ### Operations that mirror a calculation -/

theorem Tracks.antitone {α β : Type} {failures failures' : Prop} {R : α → β → Prop}
    {result : Except Failure α} {first : Except Failure β}
    (h : Simulates failures R result first) (himp : failures' → failures) :
    Simulates failures' R result first := by
  cases h with
  | ok hab => exact .ok hab
  | error hkind => exact .error fun hfailures => hkind (himp hfailures)

namespace Resolving

variable {α β γ δ : Type} {keeps : Session → Prop} {counts : Failure → Prop} {failures : Prop}

/-- Whether a run of an operation keeps a property of sessions and has a result that goes along with
that of a calculation, as far as failures count. -/
def MirrorsWhere (keeps : Session → Prop) (counts : Failure → Prop) (R : α → β → Prop)
    (act : Resolving α) (first : Except Failure β) (scene : Scene) (s : Session) : Prop :=
  Ensures act scene s fun result t => keeps t ∧ Tracks counts R result first

/-- Whether a run mirrors a calculation, where either all failures count or none. -/
abbrev Mirrors (keeps : Session → Prop) (failures : Prop) (R : α → β → Prop) (act : Resolving α)
    (first : Except Failure β) (scene : Scene) (s : Session) : Prop :=
  MirrorsWhere keeps (fun _ => failures) R act first scene s

variable {R : α → β → Prop} {act : Resolving α} {first : Except Failure β} {scene : Scene}
  {s : Session}

theorem mirrors_pure {a : α} {b : β} (hs : keeps s) (h : R a b) :
    MirrorsWhere keeps counts R (pure a) (.ok b) scene s :=
  ⟨hs, .ok h⟩

theorem mirrors_throw {failure failure' : Failure} (hs : keeps s)
    (h : failure.kind = failure'.kind) :
    MirrorsWhere keeps counts R (throw failure) (.error failure') scene s :=
  ⟨hs, .error fun _ => ⟨failure', rfl, h⟩⟩

theorem mirrors_lift {result : Except Failure α} (hs : keeps s)
    (h : Tracks counts R result first) :
    MirrorsWhere keeps counts R (lift result) first scene s := by
  unfold MirrorsWhere
  rw [ensures_lift]
  exact ⟨hs, h⟩

/-- Two steps mirror two steps, where the second ones start from what the first ones gave. -/
theorem MirrorsWhere.bind_ok {S : γ → δ → Prop} {next : α → Resolving γ}
    {next' : β → Except Failure δ} (h : MirrorsWhere keeps counts R act first scene s)
    (hnext : ∀ a b t, first = .ok b → R a b → keeps t →
      MirrorsWhere keeps counts S (next a) (next' b) scene t) :
    MirrorsWhere keeps counts S (act >>= next) (first >>= next') scene s := by
  refine Ensures.bind h ?_ ?_
  · rintro a t ⟨ht, hresult⟩
    obtain ⟨b, rfl, hab⟩ := hresult.exists_ok rfl
    exact hnext a b t rfl hab ht
  · rintro failure t ⟨ht, hresult⟩
    refine ⟨ht, .error fun hcounts => ?_⟩
    cases hresult with
    | error hkind =>
        obtain ⟨failure', rfl, heq⟩ := hkind hcounts
        exact ⟨failure', rfl, heq⟩

/-- Two steps mirror two steps. -/
theorem MirrorsWhere.bind {S : γ → δ → Prop} {next : α → Resolving γ} {next' : β → Except Failure δ}
    (h : MirrorsWhere keeps counts R act first scene s)
    (hnext : ∀ a b t, R a b → keeps t → MirrorsWhere keeps counts S (next a) (next' b) scene t) :
    MirrorsWhere keeps counts S (act >>= next) (first >>= next') scene s :=
  h.bind_ok fun a b t _ => hnext a b t

theorem MirrorsWhere.antitone {counts' : Failure → Prop}
    (h : MirrorsWhere keeps counts R act first scene s)
    (himp : ∀ failure, counts' failure → counts failure) :
    MirrorsWhere keeps counts' R act first scene s := by
  refine Ensures.mono h fun result t ht => ⟨ht.1, ?_⟩
  cases ht.2 with
  | ok hab => exact .ok hab
  | error hkind => exact .error fun hcounts => hkind (himp _ hcounts)

theorem Mirrors.antitone {failures' : Prop} (h : Mirrors keeps failures R act first scene s)
    (himp : failures' → failures) : Mirrors keeps failures' R act first scene s :=
  ⟨h.1, Tracks.antitone h.2 himp⟩

end Resolving

/-! ### Sound sessions -/

/-- A sound session in which the number of a document has been given away. -/
def Session.SoundFor (watch : Watch) (d : Document) (s : Session) : Prop :=
  s.Sound watch ∧ d.id < s.nextId

namespace Node

section Equations

/-- What settling a composition does once it is known not to be remembered. -/
def settleKind (follow : Value → Resolving Node) (document : Document) (info : NodeInfo)
    (shape : CompositionShape Node) : Resolving Node :=
  match shape.kind with
  | .allOf => do
    let merged ← settleInto follow document (Merged.start info shape) shape.members
    pure merged.node
  | .oneOf =>
    match shape.discriminator with
    | none => throw .missingDiscriminator
    | some d => do
      let variants ← settleVariants follow document .oneOf 1 shape.members
      check (resolvedOneOf info shape d variants)
  | .anyOf => do
    let variants ← settleVariants follow document .anyOf 1 shape.members
    pure (resolvedAnyOf info shape variants)

theorem settle_leaf (follow : Value → Resolving Node) (document : Document) {n : Node}
    (h : n.isLeaf = true) : n.settle follow document = pure n := by
  cases n with
  | ref info target => exact absurd h (by simp [isLeaf])
  | composition info shape => exact absurd h (by simp [isLeaf])
  | _ => simp [settle]

theorem settle_ref (follow : Value → Resolving Node) (document : Document) (info : NodeInfo)
    (target : Value) : (Node.ref info target).settle follow document = follow target := by
  rw [settle]

theorem settle_composition (follow : Value → Resolving Node) (document : Document)
    (info : NodeInfo) (shape : CompositionShape Node) :
    (Node.composition info shape).settle follow document =
      match memberDefect? shape.rawMembers with
      | some defect => throw (.badMembers shape.kind defect)
      | none => do
        let key := cacheKey document (← check (identity (.composition info shape)))
        match ← recallNode "composition" (·.compositions) key with
        | some node => return node
        | none =>
          let resolved ← settleKind follow document info shape
          keepComposition key resolved
          return resolved := by
  obtain ⟨kind, rawMembers, members, discriminator, properties, required⟩ := shape
  rw [settle]
  cases memberDefect? rawMembers with
  | some defect => rfl
  | none =>
      refine bind_congr fun key => bind_congr fun found => ?_
      cases found with
      | some n => rfl
      | none =>
          cases kind with
          | allOf => exact (bind_assoc _ _ _).symm
          | anyOf => exact (bind_assoc _ _ _).symm
          | oneOf =>
              cases discriminator with
              | none => rfl
              | some d => exact (bind_assoc _ _ _).symm

end Equations

section Members

variable {keeps : Session → Prop} {counts : Failure → Prop} {R : Node → Node → Prop}
  {T N : Value → Value → Prop} {follow : Value → Resolving Node}
  {calculate : Value → Except Failure Node} {document : Document} {scene : Scene}

/-- Whether settling a schema mirrors settling it without a session. -/
def MirrorsSettling (keeps : Session → Prop) (counts : Failure → Prop) (R : Node → Node → Prop)
    (follow : Value → Resolving Node) (calculate : Value → Except Failure Node)
    (document : Document) (scene : Scene) (n : Node) : Prop :=
  ∀ s, keeps s → MirrorsWhere keeps counts R (n.settle follow document) (n.settled calculate) scene s

variable (C : Congruence R T N)
include C

theorem mirrors_settleInto {members : List Node}
    (hmembers : ∀ member ∈ members,
      MirrorsSettling keeps counts R follow calculate document scene member)
    {merged merged' : Merged} (hmerged : R merged.node merged'.node) {s : Session}
    (hs : keeps s) :
    MirrorsWhere keeps counts (fun last last' : Merged => R last.node last'.node)
      (settleInto follow document merged members) (settledInto calculate merged' members)
      scene s := by
  induction members generalizing merged merged' s with
  | nil =>
      rw [settleInto, settledInto]
      exact mirrors_pure hs hmerged
  | cons member rest ih =>
      rw [settleInto, settledInto]
      refine (hmembers member List.mem_cons_self s hs).bind fun n n' t hn ht => ?_
      have habsorb := C.absorb hmerged hn
      refine (mirrors_lift ht (habsorb.tracks counts)).bind fun next next' u hnext hu => ?_
      exact ih (fun m hm => hmembers m (List.mem_cons_of_mem _ hm)) hnext hu

theorem mirrors_settleVariants {members : List Node} (hrefl : ∀ member ∈ members, R member member)
    (hmembers : ∀ member ∈ members,
      MirrorsSettling keeps counts R follow calculate document scene member)
    (kind : CompositionKind) (number : Nat) {s : Session} (hs : keeps s) :
    MirrorsWhere keeps counts (List.Forall₂ (VariantRel R N))
      (settleVariants follow document kind number members)
      (settledVariants calculate kind number members) scene s := by
  induction members generalizing number s with
  | nil =>
      rw [settleVariants, settledVariants]
      exact mirrors_pure hs .nil
  | cons member rest ih =>
      rw [settleVariants, settledVariants]
      refine (hmembers member List.mem_cons_self s hs).bind fun n n' t hn ht => ?_
      have hothers := ih (fun m hm => hrefl m (List.mem_cons_of_mem _ hm))
        (fun m hm => hmembers m (List.mem_cons_of_mem _ hm)) (number + 1) ht
      refine hothers.bind fun others others' u hothers hu => ?_
      have hname := C.variantName kind number (hrefl member List.mem_cons_self) hn
      exact mirrors_pure hu (.cons ⟨hname, hn⟩ hothers)

/-- Building a composition from its members. -/
theorem mirrors_settleKind {info : NodeInfo} {shape : CompositionShape Node}
    (hrefl : R (.composition info shape) (.composition info shape))
    (hrefls : ∀ member ∈ shape.members, R member member)
    (hmembers : ∀ member ∈ shape.members,
      MirrorsSettling keeps counts R follow calculate document scene member)
    {s : Session} (hs : keeps s) :
    MirrorsWhere keeps counts R (settleKind follow document info shape)
      (settledKind calculate info shape) scene s := by
  unfold settleKind settledKind
  cases shape.kind with
  | allOf =>
      refine (mirrors_settleInto C hmembers (C.start hrefl) hs).bind fun last last' t hlast ht => ?_
      exact mirrors_pure ht hlast
  | anyOf =>
      refine (mirrors_settleVariants C hrefls hmembers .anyOf 1 hs).bind ?_
      intro variants variants' t hvariants ht
      exact mirrors_pure ht (C.anyOf hrefl hvariants)
  | oneOf =>
      cases hd : shape.discriminator with
      | none => exact mirrors_throw hs rfl
      | some d =>
          refine (mirrors_settleVariants C hrefls hmembers .oneOf 1 hs).bind ?_
          intro variants variants' t hvariants ht
          exact mirrors_lift ht ((C.oneOf hrefl hd hd hvariants).tracks counts)

end Members

/-- Whether settling a schema may come to follow a target: a composition whose list of members has a
defect is not looked into. -/
inductive Pursues : Node → Value → Prop
  | ref (info : NodeInfo) (target : Value) : Pursues (.ref info target) target
  | member {info : NodeInfo} {shape : CompositionShape Node} {member : Node} {target : Value}
      (hdefect : memberDefect? shape.rawMembers = none) (hmember : member ∈ shape.members)
      (h : Pursues member target) : Pursues (.composition info shape) target

theorem Pursues.follows {n : Node} {target : Value} (h : n.Pursues target) :
    target ∈ n.follows := by
  induction h with
  | ref info target => exact List.mem_singleton.mpr rfl
  | member _ hmember _ ih => exact mem_follows_composition.mpr ⟨_, hmember, ih⟩

/-- Of two lists related one by one, everything in the first has its counterpart in the second. -/
theorem exists_related {α β : Type} {R : α → β → Prop} {as : List α} {bs : List β}
    (h : List.Forall₂ R as bs) {a : α} (ha : a ∈ as) : ∃ b ∈ bs, R a b := by
  induction h with
  | nil => exact absurd ha List.not_mem_nil
  | cons hab _ ih =>
      rcases List.mem_cons.mp ha with rfl | hin
      · exact ⟨_, List.mem_cons_self, hab⟩
      · obtain ⟨b, hb, hrelated⟩ := ih hin
        exact ⟨b, List.mem_cons_of_mem _ hb, hrelated⟩

/-- Schemas that are like come to follow the same references. -/
theorem Like.pursues {n n' : Node} (h : n.Like n') {x : String} (hx : n.Pursues (.str x)) :
    n'.Pursues (.str x) := by
  generalize htarget : Value.str x = target at hx
  induction hx generalizing n' with
  | ref info target =>
      subst htarget
      obtain ⟨info', target', rfl, halike⟩ := congruence_like.ref h
      rw [(Value.alike_scalar_iff rfl target').mp halike]
      exact .ref info' _
  | member hdefect hmember _ ih =>
      obtain ⟨info', shape', rfl, hshape⟩ := congruence_like.composition h
      obtain ⟨member', hmember', hlike⟩ := exists_related (hshape.members hdefect) hmember
      exact .member (hshape.defect ▸ hdefect) hmember' (ih hlike htarget)

section Sound

variable {watch : Watch} {d : Document} {path : List String}
  {failures : Prop} {follow : Value → Resolving Node} {scene : Scene}

/-- A schema of a document settles in a sound session as it settles where what can be followed alone
is remembered, if its references are followed so. -/
theorem mirrors_settle (hwatch : watch.documents d.id = some d) (hplain : d.Plain) {n : Node}
    (hneat : n.Neat) (hfollow : ∀ target, n.Pursues target → ∀ s, s.SoundFor watch d →
      Mirrors (Session.SoundFor watch d) failures Like (follow target)
        (d.remembered path target) scene s) :
    MirrorsSettling (Session.SoundFor watch d) (fun _ => failures) Like follow (d.remembered path) d
      scene n := by
  induction n using nested with
  | hleaf n hn =>
      intro s hs
      rw [settle_leaf follow d hn, settled_leaf (d.remembered path) hn]
      exact mirrors_pure hs hneat.like
  | href info target =>
      intro s hs
      rw [settle_ref, settled_ref]
      exact hfollow target (.ref info target) s hs
  | hcomposition info shape ih =>
      intro s hs
      have hneats := hneat.composition_parts.members
      obtain ⟨key, hkey⟩ := identity_ok hneat
      have hwhole := settled_composition (d.remembered path) info shape
      rw [settle_composition]
      cases hdefect : memberDefect? shape.rawMembers with
      | some defect =>
          rw [hdefect] at hwhole
          rw [hwhole]
          exact mirrors_throw hs rfl
      | none =>
          have hmembers : ∀ member ∈ shape.members,
              MirrorsSettling (Session.SoundFor watch d) (fun _ => failures) Like follow
                (d.remembered path) d scene member :=
            fun member hmember => ih member hmember (hneats member hmember) fun target htarget =>
              hfollow target (.member hdefect hmember htarget)
          rw [hdefect, hkey] at hwhole
          change settled _ _ = settledKind _ info shape at hwhole
          rw [hwhole, hkey]
          change Mirrors _ _ _ (recallNode _ _ (cacheKey d key) >>= _) _ _ _
          refine Ensures.bind_ok (ensures_recallNode hs.1.sane.ready (by decide) _ _) ?_
          rintro t ⟨u, hu, rfl⟩
          have ht : (s.retracked u).SoundFor watch d := ⟨hs.1.retracked hu, hs.2⟩
          cases hfound : s.caches.compositions.get? (cacheKey d key) with
          | some found =>
              -- the remembered composition was built from one that is like this one
              obtain ⟨m, hm, hlike⟩ :=
                settles_neat hplain hneat hkey (settles_of_recalled hs.1 hwatch hfound)
              rw [Document.settled_remembered_eq_ok.mpr hm] at hwhole
              rw [← hwhole]
              exact mirrors_pure ht hlike
          | none =>
              have hkind := mirrors_settleKind congruence_like hneat.like
                (fun member hmember => (hneats member hmember).like) hmembers ht
              refine Ensures.bind hkind ?_ fun failure v hresult => hresult
              rintro a v ⟨hv, hresult⟩
              obtain ⟨b, hb, hab⟩ := hresult.exists_ok rfl
              -- what is kept is like what the composition settles to without a memory
              have hcold := Document.settled_remembered_eq_ok.mp (hwhole.trans hb)
              have hkeep : watch.Keeps v.nextId (cacheKey d key)
                  fun d text => d.Settles text a :=
                Watch.keeps_of_right hwatch hv.2 ⟨info, shape, b, hneat, hkey, hcold, hab⟩
              refine Ensures.bind_ok (ensures_keepComposition hv.1.sane.ready
                (isOk_of_set hv.1.sane.compositions _ _)) ?_
              rintro w ⟨u', hu', rfl⟩
              refine ⟨⟨(hv.1.keptComposition hkeep).retracked hu', hv.2⟩, ?_⟩
              rw [hb]
              exact .ok hab

end Sound

end Node

end SchemaGraph
