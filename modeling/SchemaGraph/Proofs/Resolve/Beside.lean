import SchemaGraph.Proofs.Resolve.Calls
import SchemaGraph.Proofs.Resolve.Following

/-!
# Two runs side by side

Two operations that start from two sessions.  They go along with each other if the sessions that they
leave are related as those that they start from, and if their results are related or they fail in the
same way.  A relation of cold sessions that does not look at the records is kept by looking up and
remembering schemas; so related schemas settle to related ones, whatever the sessions, if references
are followed so.
-/

namespace SchemaGraph

namespace Resolving

variable {α β γ δ : Type}

/-- Whether two runs end in related sessions, with related results or failures of one kind. -/
def Beside (rel : Session → Session → Prop) (R : α → β → Prop) (act : Resolving α)
    (act' : Resolving β) (world : World) (s t : Session) : Prop :=
  rel (act world s).2 (act' world t).2 ∧ Agree R (act world s).1 (act' world t).1

/-- A relation of cold sessions that does not look at the records. -/
structure Paired (rel : Session → Session → Prop) : Prop where
  left : ∀ {s t}, rel s t → s.Cold
  right : ∀ {s t}, rel s t → t.Cold
  retracked : ∀ {s t} {u v : Tracker}, rel s t → u.Ready → v.Ready →
    rel (s.retracked u) (t.retracked v)

/-- Any two sessions of a kind. -/
def Both (keeps : Session → Prop) (s t : Session) : Prop := keeps s ∧ keeps t

theorem paired_both {keeps : Session → Prop} (hcold : ∀ s, keeps s → s.Cold)
    (hretracked : ∀ s (u : Tracker), keeps s → u.Ready → keeps (s.retracked u)) :
    Paired (Both keeps) where
  left := fun h => hcold _ h.1
  right := fun h => hcold _ h.2
  retracked := fun h hu hv => ⟨hretracked _ _ h.1 hu, hretracked _ _ h.2 hv⟩

theorem paired_cold : Paired (Both Session.Cold) :=
  paired_both (fun _ hs => hs) fun _ _ hs hu => hs.retracked hu

variable {rel : Session → Session → Prop} {R : α → β → Prop} {S : γ → δ → Prop}
  {act : Resolving α} {act' : Resolving β} {next : α → Resolving γ} {next' : β → Resolving δ}
  {world : World} {s t : Session}

theorem beside_pure (h : rel s t) {a : α} {b : β} (hab : R a b) :
    Beside rel R (pure a) (pure b) world s t :=
  ⟨h, .ok hab⟩

theorem beside_throw (h : rel s t) {failure failure' : Failure}
    (hkind : failure.kind = failure'.kind) :
    Beside rel R (throw failure) (throw failure') world s t :=
  ⟨h, .error hkind⟩

theorem beside_lift (h : rel s t) {result : Except Failure α} {result' : Except Failure β}
    (hagree : Agree R result result') : Beside rel R (lift result) (lift result') world s t := by
  cases hagree with
  | ok hab => exact beside_pure h hab
  | error hkind => exact beside_throw h hkind

/-- Two steps go along with two steps, where the second ones start from a result of the first. -/
theorem Beside.bind_run (h : Beside rel R act act' world s t)
    (hnext : ∀ a b s' t', act world s = (.ok a, s') → R a b → rel s' t' →
      Beside rel S (next a) (next' b) world s' t') :
    Beside rel S (act >>= next) (act' >>= next') world s t := by
  obtain ⟨hrel, hagree⟩ := h
  unfold Beside
  rw [bind_apply, bind_apply]
  rcases hrun : act world s with ⟨result, s'⟩
  rcases hrun' : act' world t with ⟨result', t'⟩
  rw [hrun, hrun'] at hrel hagree
  cases hagree with
  | ok hab => exact hnext _ _ s' t' hrun hab hrel
  | error hkind => exact ⟨hrel, .error hkind⟩

theorem Beside.bind (h : Beside rel R act act' world s t)
    (hnext : ∀ a b s' t', R a b → rel s' t' → Beside rel S (next a) (next' b) world s' t') :
    Beside rel S (act >>= next) (act' >>= next') world s t :=
  h.bind_run fun a b s' t' _ => hnext a b s' t'

/-- Operations that look at their sessions first. -/
theorem beside_get_bind {next : Session → Resolving γ} {next' : Session → Resolving δ}
    (h : Beside rel S (next s) (next' t) world s t) :
    Beside rel S (get >>= next) (get >>= next') world s t :=
  h

/-- Steps that change the records only. -/
theorem Paired.beside_records (P : Paired rel) (h : rel s t) {a : α} {b : β}
    (hact : Records act world s a) (hact' : Records act' world t b)
    (hnext : ∀ s' t', rel s' t' → Beside rel S (next a) (next' b) world s' t') :
    Beside rel S (act >>= next) (act' >>= next') world s t := by
  obtain ⟨u, hu, hrun⟩ := hact
  obtain ⟨v, hv, hrun'⟩ := hact'
  unfold Beside
  rw [bind_apply, bind_apply, hrun, hrun']
  exact hnext _ _ (P.retracked h hu hv)

end Resolving

open Resolving

namespace Node

section Settling

variable {rel : Session → Session → Prop} {R : Node → Node → Prop} {T N : Value → Value → Prop}
  {follow follow' : Value → Resolving Node} {document : Document} {world : World}

/-- Whether two schemas settle side by side, wherever they start. -/
def SettleBeside (rel : Session → Session → Prop) (R : Node → Node → Prop)
    (follow follow' : Value → Resolving Node) (document : Document) (world : World)
    (n n' : Node) : Prop :=
  ∀ s t, rel s t → Beside rel R (n.settle follow document) (n'.settle follow' document) world s t

variable (C : Congruence R T N)
include C

theorem beside_settleInto {members members' : List Node}
    (hmembers : List.Forall₂ (SettleBeside rel R follow follow' document world) members members')
    {merged merged' : Merged} (hmerged : R merged.node merged'.node) {s t : Session}
    (h : rel s t) :
    Beside rel (fun last last' : Merged => R last.node last'.node)
      (settleInto follow document merged members) (settleInto follow' document merged' members')
      world s t := by
  induction hmembers generalizing merged merged' s t with
  | nil =>
      rw [settleInto, settleInto]
      exact beside_pure h hmerged
  | cons hmember _ ih =>
      rw [settleInto, settleInto]
      refine (hmember s t h).bind fun n n' s' t' hn h' => ?_
      exact (beside_lift h' (C.absorb hmerged hn)).bind fun next next' _ _ hnext h' => ih hnext h'

theorem beside_settleVariants {members members' : List Node} (kind : CompositionKind)
    (number : Nat) (hmembers : List.Forall₂ (fun member member' => R member member' ∧
      SettleBeside rel R follow follow' document world member member') members members')
    {s t : Session} (h : rel s t) :
    Beside rel (List.Forall₂ (VariantRel R N)) (settleVariants follow document kind number members)
      (settleVariants follow' document kind number members') world s t := by
  induction hmembers generalizing number s t with
  | nil =>
      rw [settleVariants, settleVariants]
      exact beside_pure h .nil
  | cons hmember _ ih =>
      rw [settleVariants, settleVariants]
      refine (hmember.2 s t h).bind fun n n' s' t' hn h' => ?_
      refine (ih (number + 1) h').bind fun others others' s'' t'' hothers h'' => ?_
      exact beside_pure h'' (.cons ⟨C.variantName kind number hmember.1 hn, hn⟩ hothers)

/-- Building related compositions from their members. -/
theorem beside_settleKind {info info' : NodeInfo} {shape shape' : CompositionShape Node}
    (hshapes : R (.composition info shape) (.composition info' shape'))
    (hkind : shape.kind = shape'.kind)
    (hdiscriminator : shape.discriminator.isSome = shape'.discriminator.isSome)
    (hmembers : List.Forall₂ (fun member member' => R member member' ∧
      SettleBeside rel R follow follow' document world member member') shape.members shape'.members)
    {s t : Session} (h : rel s t) :
    Beside rel R (settleKind follow document info shape)
      (settleKind follow' document info' shape') world s t := by
  unfold settleKind
  rw [hkind]
  cases shape'.kind with
  | allOf =>
      have hsettled := hmembers.imp fun _ _ hmember => hmember.2
      refine (beside_settleInto C hsettled (C.start hshapes) h).bind ?_
      exact fun last last' s' t' hlast h' => beside_pure h' hlast
  | anyOf =>
      refine (beside_settleVariants C .anyOf 1 hmembers h).bind ?_
      exact fun variants variants' s' t' hvariants h' => beside_pure h' (C.anyOf hshapes hvariants)
  | oneOf =>
      cases hd : shape.discriminator with
      | none =>
          have hd' : shape'.discriminator = none := by
            rw [← Option.isNone_iff_eq_none, ← Option.not_isSome, ← hdiscriminator, hd]
            rfl
          rw [hd']
          exact beside_throw h rfl
      | some d =>
          rw [hd] at hdiscriminator
          obtain ⟨d', hd'⟩ := Option.isSome_iff_exists.mp hdiscriminator.symm
          rw [hd']
          refine (beside_settleVariants C .oneOf 1 hmembers h).bind ?_
          exact fun variants variants' s' t' hvariants h' =>
            beside_lift h' (C.oneOf hshapes hd hd' hvariants)

/-- Related schemas settle side by side, if references to related targets are followed so. -/
theorem settleBeside (P : Paired rel) {n n' : Node} (hn : R n n')
    (hfollow : ∀ target ∈ n.follows, ∀ target' ∈ n'.follows, T target target' → ∀ s t, rel s t →
      Beside rel R (follow target) (follow' target') world s t) :
    SettleBeside rel R follow follow' document world n n' := by
  -- induction on the schema on the left; the one on the right has its form by `C`
  induction n using nested generalizing n' with
  | hleaf n hleaf =>
      intro s t h
      rw [settle_leaf follow document hleaf, settle_leaf follow' document (C.leaf hn hleaf)]
      exact beside_pure h hn
  | href info target =>
      intro s t h
      obtain ⟨info', target', rfl, htarget⟩ := C.ref hn
      rw [settle_ref, settle_ref]
      exact hfollow target (List.mem_singleton.mpr rfl) target' (List.mem_singleton.mpr rfl) htarget
        s t h
  | hcomposition info shape ih =>
      intro s t h
      obtain ⟨info', shape', rfl, hshape⟩ := C.composition hn
      rw [settle_composition, settle_composition, ← hshape.defect]
      cases hdefect : memberDefect? shape.rawMembers with
      | some defect => exact beside_throw h rfl
      | none =>
          have hrelated := hshape.members hdefect
          have hmembers : List.Forall₂ (fun member member' => R member member' ∧
              SettleBeside rel R follow follow' document world member member')
              shape.members shape'.members := by
            refine List.forall₂_iff_get.mpr ⟨hrelated.length_eq, fun index hindex hindex' => ?_⟩
            have hmember := hrelated.get hindex hindex'
            refine ⟨hmember, ih _ (List.getElem_mem _) hmember ?_⟩
            intro target htarget target' htarget'
            exact hfollow target
              (mem_follows_composition.mpr ⟨_, List.getElem_mem _, htarget⟩) target'
              (mem_follows_composition.mpr ⟨_, List.getElem_mem _, htarget'⟩)
          refine (beside_lift h (C.identity hn)).bind fun key key' s' t' _ h' => ?_
          refine P.beside_records h' (records_recallComposition (P.left h') _)
            (records_recallComposition (P.right h') _) fun s' t' h' => ?_
          have hkind := beside_settleKind C hn hshape.kind hshape.discriminator hmembers h'
          refine hkind.bind fun m m' s'' t'' hm h'' => ?_
          refine P.beside_records h'' (records_keepComposition (P.left h'') _ _)
            (records_keepComposition (P.right h'') _ _) fun s' t' h' => ?_
          exact beside_pure h' hm

end Settling

end Node

section Following

variable {rel : Session → Session → Prop} {R : Node → Node → Prop} {T N : Value → Value → Prop}
  {d : Document} {world : World} {known : String → Prop}

/-- Whether references of a kind are found side by side, and lead to references of the kind only. -/
structure Document.FoundBeside (d : Document) (world : World) (rel : Session → Session → Prop)
    (known : String → Prop) : Prop where
  found : ∀ {x path s t}, known x → rel s t →
    Beside rel Eq (d.target x path) (d.target x path) world s t
  leads : ∀ {x path s n t}, known x → d.target x path world s = (.ok n, t) →
    ∀ target ∈ n.follows, ∀ y, Reference.given target = .ok y → known y

/-- A reference is followed side by side to related schemas, if the relation is kept by merging and
its targets are found so. -/
theorem beside_follow (C : Node.Congruence R T N) (hrefl : ∀ n, R n n)
    (htargets : ∀ {target target'}, T target target' → target = target') (P : Paired rel)
    (hfound : d.FoundBeside world rel known) {budget : Nat} {path : List String} {target : Value}
    (hknown : ∀ x, Reference.given target = .ok x → known x) {s t : Session} (h : rel s t) :
    Beside rel R (follow d budget path target) (follow d budget path target) world s t := by
  induction budget generalizing path target s t with
  | zero => exact beside_throw h rfl
  | succ budget ih =>
      rw [follow]
      cases hgiven : Reference.given target with
      | error failure => exact beside_throw h rfl
      | ok x =>
          change Beside rel R (if path.contains x then _ else _) (if path.contains x then _ else _)
            world s t
          split
          · exact beside_throw h rfl
          · refine P.beside_records h (records_recallReference (P.left h) _)
              (records_recallReference (P.right h) _) fun s t h => ?_
            refine beside_get_bind ?_
            rw [(P.left h).failure_none, (P.right h).failure_none]
            refine (hfound.found (hknown x hgiven) h).bind_run fun n n' s' t' hrun hn h' => ?_
            obtain rfl := hn
            have hsettled : Node.SettleBeside rel R (follow d budget (x :: path))
                (follow d budget (x :: path)) d world n n := by
              refine Node.settleBeside C P (hrefl n) fun target htarget target' _ hsame s t h => ?_
              rw [← htargets hsame]
              exact ih (hfound.leads (hknown x hgiven) hrun target htarget) h
            refine (hsettled s' t' h').bind fun m m' s t hm h => ?_
            refine P.beside_records h (records_keepReference (P.left h) _ _)
              (records_keepReference (P.right h) _ _) fun s t h => ?_
            exact beside_pure h hm

/-- Where all references lead to the document itself, they are found side by side. -/
theorem foundBeside_of_plain (hplain : d.Plain) :
    d.FoundBeside world rel fun x => Reference.given (.str x) = .ok x ∧ d.IsLocal x where
  found := by
    rintro x path s t ⟨hgiven, hlocal⟩ h
    rw [target_of_isLocal hgiven hlocal]
    exact beside_lift h (.refl (fun _ => rfl) _)
  leads := by
    rintro x path s n t ⟨hgiven, hlocal⟩ hrun target htarget y hy
    rw [target_of_isLocal hgiven hlocal] at hrun
    obtain rfl := Reference.eq_of_given hy
    exact ⟨hy, Document.isLocal_of_eager hplain ⟨n, (lift_eq_ok hrun).1, htarget⟩⟩

/-- Related schemas of a document settle side by side. -/
theorem settleBeside_follow (C : Node.Congruence R T N) (hrefl : ∀ n, R n n)
    (htargets : ∀ {target target'}, T target target' → target = target') (P : Paired rel)
    (hfound : d.FoundBeside world rel known) {budget : Nat} {path : List String} {n n' : Node}
    (hn : R n n')
    (hknown : ∀ target ∈ n.follows, ∀ x, Reference.given target = .ok x → known x) :
    Node.SettleBeside rel R (follow d budget path) (follow d budget path) d world n n' := by
  refine Node.settleBeside C P hn fun target htarget target' _ hsame s t h => ?_
  rw [← htargets hsame]
  exact beside_follow C hrefl htargets P hfound (hknown target htarget) h

end Following

end SchemaGraph
