import SchemaGraph.Proofs.Resolve.Following
import SchemaGraph.Proofs.Resolve.Normalizing
import SchemaGraph.Proofs.Schema.Twin

/-!
# Cycles below references

A reference of a document is acyclic if no reference that it leads to depends eagerly on itself.  What
is resolved is acyclic, and where a cycle is reported, a reference below depends on itself or leads back
to the path.

The caches may cut a resolution short, so they have to warrant as much: a reference is remembered only
if it is acyclic, and a composition only if all references below its members are, and below those of
every composition with the same identity.  Documents that refer to others are held to nothing.
-/

namespace SchemaGraph

open Relation Resolving

/-! ### Acyclic references -/

namespace Document

variable {d : Document} {x y : String} {path : List String}

/-- Whether no reference that a reference leads to depends eagerly on itself. -/
def Acyclic (d : Document) (x : String) : Prop :=
  ∀ z, ReflTransGen (Eager d.look) x z → ¬TransGen (Eager d.look) z z

/-- Whether a reference leads to one on a path, or to one that depends eagerly on itself. -/
def Cyclic (d : Document) (path : List String) (x : String) : Prop :=
  ∃ z, ReflTransGen (Eager d.look) x z ∧ (z ∈ path ∨ TransGen (Eager d.look) z z)

/-- Whether a reference is acyclic, if it and the document refer to the document only. -/
def Clear (d : Document) (x : String) : Prop := d.Plain → d.IsLocal x → d.Acyclic x

/-- Whether a target is a reference that is clear. -/
def ClearAt (d : Document) (target : Value) : Prop := ∃ x, target = .str x ∧ d.Clear x

/-- Whether a target is a reference that leads to a cycle, if it and the document refer to the document
only. -/
def CyclicAt (d : Document) (path : List String) (target : Value) : Prop :=
  ∃ x, target = .str x ∧ (d.Plain → d.IsLocal x → d.Cyclic path x)

/-- A reference is acyclic if all that it depends on are. -/
theorem acyclic_of_eager (h : ∀ y, Eager d.look x y → d.Acyclic y) : d.Acyclic x := by
  intro z hreach hcycle
  rcases ReflTransGen.cases_head hreach with heq | ⟨y, hxy, hyz⟩
  · -- a cycle through the reference itself goes on through one that it depends on
    subst heq
    obtain ⟨y, hxy, hyx⟩ := TransGen.head'_iff.mp hcycle
    exact h y hxy x hyx hcycle
  · exact h y hxy z hyz hcycle

/-- A cycle that is found below, on the longer path, is a cycle of the reference itself. -/
theorem cyclic_of_eager (heager : Eager d.look x y) (h : d.Cyclic (x :: path) y) :
    d.Cyclic path x := by
  obtain ⟨z, hreach, hz⟩ := h
  rcases hz with hmem | hcycle
  · rcases List.mem_cons.mp hmem with heq | hin
    · subst heq
      exact ⟨z, .refl, Or.inr (TransGen.head' heager hreach)⟩
    · exact ⟨z, .head heager hreach, Or.inl hin⟩
  · exact ⟨z, .head heager hreach, Or.inr hcycle⟩

end Document

/-! ### Schemas that lead to references of a kind -/

namespace Node

variable {good : String → Prop} {n : Node} {info info' : NodeInfo}
  {shape shape' : CompositionShape Node}

theorem Twin.symm {n m : Node} (h : Twin n m) : Twin m n := Json.SameTree.symm h

theorem Twin.trans {n m l : Node} (h : Twin n m) (h' : Twin m l) : Twin n l :=
  Json.SameTree.trans h h'

/-- Whether all references that a schema leads to at once are of a kind, and all those that schemas do
that are written alike. -/
def LeadsOnlyTo (good : String → Prop) (n : Node) : Prop :=
  ∀ m, m = n ∨ Twin n m → m.Sourced → ∀ x, .str x ∈ m.follows → good x

theorem LeadsOnlyTo.follows (h : n.LeadsOnlyTo good) (hn : n.Sourced) {x : String}
    (hx : .str x ∈ n.follows) : good x :=
  h n (Or.inl rfl) hn x hx

theorem leadsOnlyTo_leaf (hn : n.Sourced) (hleaf : n.isLeaf = true) : n.LeadsOnlyTo good := by
  intro m hm hsourced x hx
  -- what is written like a leaf is no reference and no composition
  rcases hm with heq | htwin
  · subst heq
    cases m with
    | ref info target => cases hleaf
    | composition info shape => cases hleaf
    | _ => cases hx
  · cases m with
    | ref info target =>
        obtain ⟨info', target', heq, -⟩ := htwin.symm.exists_ref hsourced.info hn.info
        subst heq
        cases hleaf
    | composition info shape =>
        obtain ⟨info', shape', heq, -⟩ := htwin.symm.exists_composition hsourced.info hn.info
        subst heq
        cases hleaf
    | _ => cases hx

theorem leadsOnlyTo_ref (hinfo : info.Marked) {x : String} (hx : good x) :
    (Node.ref info (.str x)).LeadsOnlyTo good := by
  intro m hm hsourced y hy
  rcases hm with heq | htwin
  · subst heq
    obtain rfl := Value.str.inj (List.mem_singleton.mp hy)
    exact hx
  · obtain ⟨info', target', heq, hsame⟩ := htwin.exists_ref hinfo hsourced.info
    subst heq
    rw [← List.mem_singleton.mp hy] at hsame
    rw [← hsame.text_inj]
    exact hx

theorem leadsOnlyTo_composition (hn : (Node.composition info shape).Sourced)
    (hdefect : memberDefect? shape.rawMembers = none)
    (h : ∀ member ∈ shape.members, member.LeadsOnlyTo good) :
    (Node.composition info shape).LeadsOnlyTo good := by
  intro m hm hsourced x hx
  rcases hm with heq | htwin
  · subst heq
    obtain ⟨member, hmember, hfollows⟩ := mem_follows_composition.mp hx
    exact (h member hmember).follows (hn.members member hmember) hfollows
  · obtain ⟨info', shape', heq, -⟩ := htwin.exists_composition hn.info hsourced.info
    subst heq
    obtain ⟨member', hmember', hfollows⟩ := mem_follows_composition.mp hx
    obtain ⟨member, hmember, htwins⟩ :=
      htwin.exists_member_of hn.info hsourced.info hdefect hmember'
    exact h member hmember member' (Or.inr htwins) (hsourced.members member' hmember') x hfollows

/-- Compositions with one identity lead to references of the same kinds. -/
theorem LeadsOnlyTo.of_identity (h : (Node.composition info shape).LeadsOnlyTo good) {key : String}
    (hkey : (Node.composition info shape).identity = .ok key)
    (hkey' : (Node.composition info' shape').identity = .ok key) :
    (Node.composition info' shape').LeadsOnlyTo good := by
  have htwin := twin_of_identity hkey hkey'
  intro m hm hsourced x hx
  rcases hm with heq | htwins
  · exact h m (Or.inr (heq ▸ htwin)) hsourced x hx
  · exact h m (Or.inr (htwin.trans htwins)) hsourced x hx

end Node

/-! ### What a run warrants -/

namespace Resolving

variable {α β : Type} {keeps : Session → Prop} {good : α → Prop} {good' : β → Prop} {cyclic : Prop}

/-- A result of a kind, or a failure that reports a cycle only where there is one. -/
inductive Warranted (good : α → Prop) (cyclic : Prop) : Except Failure α → Prop where
  | ok {a : α} (h : good a) : Warranted good cyclic (.ok a)
  | error {failure : Failure} (h : failure.kind = .circularReference → cyclic) :
      Warranted good cyclic (.error failure)

/-- Whether an operation keeps a property of sessions, gives results of a kind only, and reports cycles
only where there are any, unless it has stopped. -/
def Warrants (keeps : Session → Prop) (good : α → Prop) (cyclic : Prop) (act : Resolving α) : Prop :=
  ∀ (scene : Scene.Of keeps) s, keeps s → Ensures act scene s fun result t =>
    keeps t ∧ Warranted good (scene.isStopped t = true ∨ cyclic) result

/-- Whether an operation never reports a cycle, unless it has stopped. -/
def Blameless (act : Resolving α) : Prop :=
  ∀ (scene : Scene) s, scene.isStopped (act scene s).2 = false → Node.Harmless (act scene s).1

theorem Warranted.mono {good'' : α → Prop} {cyclic' : Prop} {result : Except Failure α}
    (h : Warranted good cyclic result) (hgood : ∀ a, good a → good'' a) (hcyclic : cyclic → cyclic') :
    Warranted good'' cyclic' result := by
  cases h with
  | ok h => exact .ok (hgood _ h)
  | error h => exact .error fun hkind => hcyclic (h hkind)

theorem Warrants.yields {act : Resolving α} (h : Warrants keeps good cyclic act) :
    Yields keeps good act := by
  intro world s hs
  refine (h world s hs).mono fun result t ht => ⟨ht.1, fun a ha => ?_⟩
  obtain ⟨-, hresult⟩ := ht
  rw [ha] at hresult
  cases hresult with
  | ok h => exact h

theorem Warrants.mono {good'' : α → Prop} {cyclic' : Prop} {act : Resolving α}
    (h : Warrants keeps good cyclic act) (hgood : ∀ a, good a → good'' a)
    (hcyclic : cyclic → cyclic') : Warrants keeps good'' cyclic' act := by
  intro world s hs
  exact (h world s hs).mono fun result t ht => ⟨ht.1, ht.2.mono hgood (Or.imp_right hcyclic)⟩

/-- What never reports a cycle warrants what it yields. -/
theorem Blameless.warrants {act : Resolving α} (h : Blameless act) (hyields : Yields keeps good act) :
    Warrants keeps good cyclic act := by
  intro world s hs
  refine ⟨(hyields world s hs).1, ?_⟩
  have hgood := (hyields world s hs).2
  have hharmless := h world s
  generalize (act world s).1 = result at hgood hharmless ⊢
  cases result with
  | ok a => exact .ok (hgood a rfl)
  | error failure =>
      refine .error fun hkind => ?_
      by_cases hstopped : world.isStopped (act world s).2 = true
      · exact Or.inl hstopped
      · exact absurd hkind (hharmless (Bool.eq_false_of_not_eq_true hstopped) failure rfl)

theorem warrants_pure {a : α} (h : good a) : Warrants keeps good cyclic (pure a) :=
  fun _ _ hs => ⟨hs, .ok h⟩

theorem warrants_throw {failure : Failure} (h : failure.kind = .circularReference → cyclic) :
    Warrants keeps good cyclic (throw failure : Resolving α) :=
  fun _ _ hs => ⟨hs, .error fun hkind => Or.inr (h hkind)⟩

theorem Warrants.bind {act : Resolving α} {next : α → Resolving β}
    (h : Warrants keeps good cyclic act) (hnext : ∀ a, good a → Warrants keeps good' cyclic (next a)) :
    Warrants keeps good' cyclic (act >>= next) := by
  intro world s hs
  apply Ensures.bind (h world s hs)
  · rintro a t ⟨ht, hresult⟩
    cases hresult with
    | ok ha => exact hnext a ha world t ht
  · rintro failure t ⟨ht, hresult⟩
    cases hresult with
    | error hkind => exact ⟨ht, .error hkind⟩

/-- An operation that looks at the session first. -/
theorem warrants_get_bind {next : Session → Resolving β}
    (h : ∀ s, keeps s → Warrants keeps good' cyclic (next s)) :
    Warrants keeps good' cyclic (get >>= next) := by
  intro world s hs
  rw [ensures_get_bind]
  exact h s hs world s hs

theorem blameless_lift {result : Except Failure α} (h : Node.Harmless result) :
    Blameless (lift result) := by
  intro scene s _
  cases result with
  | ok a => exact Node.harmless_ok a
  | error failure => exact h

theorem blameless_throw {failure : Failure} (h : failure.kind ≠ .circularReference) :
    Blameless (throw failure : Resolving α) :=
  fun _ _ _ => Node.harmless_error h

theorem blameless_check (result : Except Fault α) : Blameless (check result) :=
  blameless_lift (Node.harmless_orFail result)

theorem Blameless.bind {act : Resolving α} {next : α → Resolving β} (h : Blameless act)
    (hnext : ∀ a, Blameless (next a)) : Blameless (act >>= next) := by
  intro scene s
  have hfirst := h scene s
  rw [bind_apply]
  rcases hrun : act scene s with ⟨result, t⟩
  rw [hrun] at hfirst
  cases result with
  | ok a => exact hnext a scene t
  | error failure =>
      intro hrunning given hgiven
      exact hfirst hrunning given (by rw [Except.error.inj hgiven])

theorem blameless_get_bind {next : Session → Resolving β} (h : ∀ s, Blameless (next s)) :
    Blameless (get >>= next) := by
  intro scene s
  rw [bind_apply]
  exact h s scene s

theorem blameless_pure (a : α) : Blameless (pure a) := fun _ _ _ => Node.harmless_ok a

theorem blameless_modify (change : Session → Session) : Blameless (modify change : Resolving Unit) :=
  fun _ _ _ => Node.harmless_ok ()

/-- What is attempted does not fail. -/
theorem blameless_attempt (act : Resolving α) : Blameless (attempt act) := by
  intro scene s hrunning
  rw [attempt_scene_apply] at hrunning ⊢
  rcases hrun : act scene s with ⟨result, t⟩
  rw [hrun] at hrunning
  cases result with
  | ok a => exact Node.harmless_ok _
  | error failure =>
      dsimp only at hrunning ⊢
      split
      · rename_i hstopped
        rw [if_pos hstopped, hstopped] at hrunning
        cases hrunning
      · exact Node.harmless_ok _

theorem Blameless.timed {act : Resolving α} (h : Blameless act) (operation : Operation) :
    Blameless (timed operation act) := by
  intro scene s hrunning
  rw [timed_scene_apply] at hrunning ⊢
  refine h scene s ?_
  rcases clocked_cases (act scene s).2 scene operation s.clock with heq | heq
  · rwa [heq] at hrunning
  · rwa [heq] at hrunning

theorem blameless_track (change : Tracker → Except Fault Tracker) : Blameless (track change) := by
  unfold track
  apply blameless_get_bind
  intro s
  exact (blameless_check _).bind fun _ => blameless_modify _

theorem blameless_recallNode (name : String)
    (cache : Caches CacheKey String Node Failure Document → BoundedCache CacheKey Node)
    (key : CacheKey) : Blameless (recallNode name cache key) := by
  unfold recallNode
  refine Blameless.bind (Blameless.timed (blameless_get_bind fun s => blameless_pure _) _) fun found => ?_
  cases found with
  | some n => exact (blameless_track _).bind fun _ => blameless_pure _
  | none => exact (blameless_track _).bind fun _ => blameless_pure _

theorem blameless_keeping (name : String)
    (change : Caches CacheKey String Node Failure Document →
      Caches CacheKey String Node Failure Document × Except Fault Nat) :
    Blameless (evicting .fault name change) := by
  unfold evicting
  apply blameless_get_bind
  intro s
  dsimp only
  refine (blameless_modify _).bind fun _ => ?_
  cases (change s.caches).2 with
  | ok count => exact blameless_modify _
  | error fault => exact blameless_check (.error fault)

theorem blameless_trackSize (name : String)
    (cache : Caches CacheKey String Node Failure Document → BoundedCache CacheKey Node) :
    Blameless (trackSize name cache) := by
  unfold trackSize
  exact blameless_get_bind fun s => blameless_track _

theorem blameless_keepReference (key : CacheKey) (n : Node) : Blameless (keepReference key n) := by
  unfold keepReference
  exact ((blameless_keeping _ _).timed _).bind fun _ => blameless_trackSize _ _

theorem blameless_keepComposition (key : CacheKey) (n : Node) :
    Blameless (keepComposition key n) := by
  unfold keepComposition
  exact ((blameless_keeping _ _).timed _).bind fun _ => blameless_trackSize _ _

/-- Finding the schema that a reference names never reports a cycle. -/
theorem blameless_target (d : Document) (x : String) (path : List String) :
    Blameless (d.target x path) := by
  have houtside : Blameless (outsideTarget d x path) := by
    unfold outsideTarget
    refine (blameless_check _).bind fun depth => (blameless_attempt _).bind fun outcome => ?_
    cases outcome with
    | ok n => exact blameless_pure n
    | error cause =>
        refine blameless_get_bind fun s => (blameless_modify _).bind fun _ => ?_
        refine (blameless_check _).bind fun _ => blameless_throw ?_
        simp [Failure.kind]
  unfold Document.target
  cases hread : Reference.read? x with
  | none => exact blameless_throw (by simp [Failure.kind])
  | some parsed =>
      dsimp only
      refine (blameless_check _).bind fun outside => ?_
      split
      · exact houtside
      · have hlook := d.harmless_look x
        unfold Document.look at hlook
        rw [hread] at hlook
        exact blameless_lift hlook

end Resolving

/-! ### What is remembered warrants as much -/

/-- Whether all compositions that a text identifies lead to references of a kind only. -/
def Node.Identifies (good : String → Prop) (key : String) : Prop :=
  ∀ info shape, (Node.composition info shape).identity = .ok key →
    (Node.composition info shape).LeadsOnlyTo good

/-- A property of sessions in which only clear references of a document are remembered, only compositions
that lead to such references, and no cycles as failures; and which the remembering of such keeps. -/
structure Clearing (d : Document) (keeps : Session → Prop) : Prop extends Unrecorded keeps where
  reference : ∀ {s : Session} {x n}, keeps s →
    s.caches.references.get? (cacheKey d x) = some n → d.Clear x
  composition : ∀ {s : Session} {key n}, keeps s →
    s.caches.compositions.get? (cacheKey d key) = some n → Node.Identifies d.Clear key
  failure : ∀ {s : Session} {x failure}, keeps s →
    s.caches.failure? (cacheKey d x) = some failure → failure.kind ≠ .circularReference
  keptReference : ∀ {s : Session} x n, keeps s → d.Clear x → keeps (s.keptReference (cacheKey d x) n)
  keptComposition : ∀ {s : Session} key n, keeps s → Node.Identifies d.Clear key →
    keeps (s.keptComposition (cacheKey d key) n)
  keptFailure : ∀ {s : Session} x cause, keeps s →
    keeps (s.keptFailure (cacheKey d x) (.externalFailed x cause))

section Settling

variable {d : Document} {keeps : Session → Prop} {cyclic : Prop} {good : Node → Prop}
  {follow : Value → Resolving Node} {members : List Node}

/-- Merging members warrants what settling each of them does. -/
theorem warrants_settleInto (h : ∀ member ∈ members,
      Warrants keeps (fun _ => good member) cyclic (member.settle follow d)) (merged : Merged) :
    Warrants keeps (fun _ => ∀ member ∈ members, good member) cyclic
      (Node.settleInto follow d merged members) := by
  induction members generalizing merged with
  | nil =>
      rw [Node.settleInto]
      exact warrants_pure fun _ hmember => absurd hmember List.not_mem_nil
  | cons first rest ih =>
      obtain ⟨hfirst, hrest⟩ := List.forall_mem_cons.mp h
      rw [Node.settleInto]
      refine hfirst.bind fun n hgood => ?_
      -- members that conflict are no cycle
      have habsorb : Warrants keeps (fun _ : Merged => True) cyclic (lift (merged.absorb n)) := by
        refine (blameless_lift fun failure hfailure => ?_).warrants (keeping_lift _).yields
        rw [Merged.kind_of_absorb hfailure]
        simp
      refine habsorb.bind fun next _ => ?_
      exact (ih hrest next).mono (fun _ hothers => List.forall_mem_cons.mpr ⟨hgood, hothers⟩) id

theorem warrants_settleVariants (h : ∀ member ∈ members,
      Warrants keeps (fun _ => good member) cyclic (member.settle follow d)) (kind : CompositionKind)
    (number : Nat) :
    Warrants keeps (fun _ => ∀ member ∈ members, good member) cyclic
      (Node.settleVariants follow d kind number members) := by
  induction members generalizing number with
  | nil =>
      rw [Node.settleVariants]
      exact warrants_pure fun _ hmember => absurd hmember List.not_mem_nil
  | cons first rest ih =>
      obtain ⟨hfirst, hrest⟩ := List.forall_mem_cons.mp h
      rw [Node.settleVariants]
      refine hfirst.bind fun n hgood => (ih hrest (number + 1)).bind fun others hothers => ?_
      exact warrants_pure (List.forall_mem_cons.mpr ⟨hgood, hothers⟩)

theorem warrants_settleKind {shape : CompositionShape Node} (h : ∀ member ∈ shape.members,
      Warrants keeps (fun _ => good member) cyclic (member.settle follow d)) (info : NodeInfo) :
    Warrants keeps (fun _ => ∀ member ∈ shape.members, good member) cyclic
      (Node.settleKind follow d info shape) := by
  unfold Node.settleKind
  cases shape.kind with
  | allOf => exact (warrants_settleInto h _).bind fun merged hmembers => warrants_pure hmembers
  | anyOf => exact (warrants_settleVariants h _ _).bind fun variants hmembers => warrants_pure hmembers
  | oneOf =>
      cases shape.discriminator with
      | none => exact warrants_throw fun hkind => nomatch hkind
      | some discriminator =>
          refine (warrants_settleVariants h _ _).bind fun variants hmembers => ?_
          exact (blameless_check _).warrants (yields_check fun _ _ => hmembers)

end Settling

namespace Clearing

variable {d : Document} {keeps : Session → Prop} (h : Clearing d keeps)
include h

/-- A schema that is settled leads to clear references only, if following each reference shows that it is
clear.  A cycle is reported only where following a reference reports one. -/
theorem warrants_settle {follow : Value → Resolving Node} {cyclic : Prop} {n : Node} (hn : n.Sourced)
    (hfollow : ∀ target ∈ n.follows,
      Warrants keeps (fun _ => d.ClearAt target) cyclic (follow target)) :
    Warrants keeps (fun _ => n.LeadsOnlyTo d.Clear) cyclic (n.settle follow d) := by
  induction n using Node.nested with
  | hleaf n hleaf =>
      rw [Node.settle_leaf follow d hleaf]
      exact warrants_pure (Node.leadsOnlyTo_leaf hn hleaf)
  | href info target =>
      rw [Node.settle_ref]
      refine (hfollow target (List.mem_singleton.mpr rfl)).mono (fun _ htarget => ?_) id
      obtain ⟨x, heq, hx⟩ := htarget
      subst heq
      exact Node.leadsOnlyTo_ref hn.info hx
  | hcomposition info shape ih =>
      have hmembers : ∀ member ∈ shape.members, Warrants keeps
          (fun _ => member.LeadsOnlyTo d.Clear) cyclic (member.settle follow d) := by
        intro member hmember
        apply ih member hmember (hn.members member hmember)
        intro target htarget
        exact hfollow target (Node.mem_follows_composition.mpr ⟨member, hmember, htarget⟩)
      rw [Node.settle_composition]
      cases hdefect : Node.memberDefect? shape.rawMembers with
      | some defect => exact warrants_throw fun hkind => nomatch hkind
      | none =>
          dsimp only
          have hidentity : Warrants keeps
              (fun key => (Node.composition info shape).identity = .ok key) cyclic
              (check (Node.composition info shape).identity) :=
            (blameless_check _).warrants (yields_check fun _ hkey => hkey)
          refine hidentity.bind fun key hkey => ?_
          -- what is remembered was cleared when it was settled, in the same words at least
          have hrecall : Warrants keeps
              (fun found => ∀ m, found = some m → Node.Identifies d.Clear key) cyclic
              (recallNode "composition" (·.compositions) (cacheKey d key)) :=
            (blameless_recallNode _ _ _).warrants
              (h.yields_recallNode _ _ _ fun _ hs _ hfound => h.composition hs hfound)
          refine hrecall.bind fun found hfound => ?_
          cases found with
          | some m => exact warrants_pure (hfound m rfl info shape hkey)
          | none =>
              refine (warrants_settleKind hmembers info).bind fun m hcleared => ?_
              have hclear := Node.leadsOnlyTo_composition hn hdefect hcleared
              have hkeep : Keeping keeps (keepComposition (cacheKey d key) m) :=
                h.keeping_keepComposition fun _ hs =>
                  h.keptComposition key m hs fun _ _ hkey' => hclear.of_identity hkey hkey'
              refine ((blameless_keepComposition _ _).warrants hkeep.yields).bind fun _ _ => ?_
              exact warrants_pure hclear

/-- The schema that a reference names was read, and if the reference is one of the document, it is the
one that is found there. -/
theorem warrants_target {x : String} (hgiven : Reference.given (.str x) = .ok x) (path : List String)
    (cyclic : Prop) :
    Warrants keeps (fun n => n.Sourced ∧ (d.IsLocal x → d.look x = .ok n)) cyclic
      (d.target x path) := by
  refine (blameless_target d x path).warrants ?_
  have hsourced : Yields keeps Node.Sourced (d.target x path) :=
    yields_sourced_target h.inward (fun _ cause hs => h.keptFailure x cause hs) path
  intro world s hs
  refine ⟨(hsourced world s hs).1, fun n hn => ⟨(hsourced world s hs).2 n hn, fun hlocal => ?_⟩⟩
  rw [target_of_isLocal hgiven hlocal] at hn
  cases hlook : d.look x with
  | ok m =>
      rw [hlook] at hn
      exact hn
  | error failure =>
      rw [hlook] at hn
      cases hn

omit h in
/-- A reference is clear if its schema leads to clear references only. -/
theorem clear_of_leadsOnlyTo {x : String} {n : Node} (hn : n.Sourced)
    (hlook : d.IsLocal x → d.look x = .ok n) (hleads : n.LeadsOnlyTo d.Clear) : d.Clear x := by
  intro hplain hlocal
  apply Document.acyclic_of_eager
  intro y heager
  have hy : d.IsLocal y := Document.isLocal_of_eager hplain heager
  obtain ⟨n', hn', hfollows⟩ := heager
  obtain rfl := Except.ok.inj ((hlook hlocal).symm.trans hn')
  exact hleads.follows hn hfollows hplain hy

omit h in
/-- A cycle below a reference of its schema is one below the reference. -/
theorem cyclicAt_of_follows {x : String} {n : Node} (hlook : d.IsLocal x → d.look x = .ok n)
    {path : List String} {target : Value} (htarget : target ∈ n.follows)
    (hcyclic : d.CyclicAt (x :: path) target) : d.CyclicAt path (.str x) := by
  obtain ⟨y, heq, hy⟩ := hcyclic
  subst heq
  refine ⟨x, rfl, fun hplain hlocal => ?_⟩
  have heager : Eager d.look x y := ⟨n, hlook hlocal, htarget⟩
  exact Document.cyclic_of_eager heager (hy hplain (Document.isLocal_of_eager hplain heager))

/-- A reference that is followed is clear, and where a cycle is reported, there is one. -/
theorem warrants_follow (budget : Nat) (path : List String) (target : Value) :
    Warrants keeps (fun _ => d.ClearAt target) (d.CyclicAt path target)
      (follow d budget path target) := by
  induction budget generalizing path target with
  | zero => exact warrants_throw fun hkind => nomatch hkind
  | succ budget ih =>
      rw [follow]
      cases hgiven : Reference.given target with
      | error failure =>
          refine warrants_throw fun hkind => ?_
          rw [Reference.kind_of_given hgiven] at hkind
          cases hkind
      | ok x =>
          obtain rfl := Reference.eq_of_given hgiven
          change Warrants _ _ _ (if path.contains x then _ else _)
          split
          · rename_i hpath
            have hmem : x ∈ path := List.contains_iff_mem.mp hpath
            exact warrants_throw fun _ => ⟨x, rfl, fun _ _ => ⟨x, .refl, Or.inl hmem⟩⟩
          · have hrecall : Warrants keeps (fun found => ∀ m, found = some m → d.Clear x)
                (d.CyclicAt path (.str x))
                (recallNode "reference" (·.references) (cacheKey d x)) :=
              (blameless_recallNode _ _ _).warrants
                (h.yields_recallNode _ _ _ fun _ hs _ hfound => h.reference hs hfound)
            refine hrecall.bind fun found hfound => ?_
            cases found with
            | some m => exact warrants_pure ⟨x, rfl, hfound m rfl⟩
            | none =>
                refine warrants_get_bind fun s hs => ?_
                cases hfailure : s.caches.failure? (cacheKey d x) with
                | some failure =>
                    exact warrants_throw fun hkind => absurd hkind (h.failure hs hfailure)
                | none =>
                    refine (h.warrants_target hgiven path _).bind fun n hn => ?_
                    -- the references of the schema are followed on a path that is longer by this one
                    have hsettle : Warrants keeps (fun _ => n.LeadsOnlyTo d.Clear)
                        (d.CyclicAt path (.str x)) (n.settle (follow d budget (x :: path)) d) :=
                      h.warrants_settle hn.1 fun target htarget =>
                        (ih (x :: path) target).mono (fun _ hclear => hclear)
                          fun hcyclic => cyclicAt_of_follows hn.2 htarget hcyclic
                    refine hsettle.bind fun m hleads => ?_
                    have hclear : d.Clear x := clear_of_leadsOnlyTo hn.1 hn.2 hleads
                    have hkeep : Keeping keeps (keepReference (cacheKey d x) m) :=
                      h.keeping_keepReference fun _ hs => h.keptReference x m hs hclear
                    refine ((blameless_keepReference _ _).warrants hkeep.yields).bind fun _ _ => ?_
                    exact warrants_pure ⟨x, rfl, hclear⟩

theorem warrants_resolveReference (path : List String) (target : Value) :
    Warrants keeps (fun _ => d.ClearAt target) (d.CyclicAt path target)
      (resolveReference d path target) := by
  unfold resolveReference
  exact warrants_get_bind fun s _ => h.warrants_follow _ path target

/-- Resolving a schema that was read, or one in normal form, keeps what is cleared. -/
theorem keeping_resolveNode {n : Node} (hn : n.Known) : Keeping keeps (resolveNode d n) := by
  unfold resolveNode
  refine keeping_get.bind fun s => ?_
  rcases hn with hsourced | hnormal
  · have hfollow : ∀ target ∈ n.follows, Warrants keeps (fun _ => d.ClearAt target) True
        (follow d (pathBudget d s.externalSettings.maxDepth) [] target) :=
      fun target _ => (h.warrants_follow _ [] target).mono (fun _ hclear => hclear) fun _ => trivial
    exact (h.warrants_settle hsourced hfollow).yields.keeping
  · rw [Node.settle_leaf _ d hnormal.isLeaf]
    exact keeping_pure n

end Clearing

end SchemaGraph
