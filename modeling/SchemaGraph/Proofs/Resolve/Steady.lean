import SchemaGraph.Proofs.Keeping
import SchemaGraph.Proofs.Resolve.Stepwise

/-!
# What resolving keeps

A property of sessions is lasting for a document if it does not look at the records, and if looking
outside and writing under a key of the document keep it.  Resolving references and schemas of the
document keeps every lasting property, whatever the references lead to.  A property that looks neither
outside nor at the records is steady if writing under a key of the document keeps it.

Some properties are kept only as long as no other task has a turn while an operation waits.
-/

namespace SchemaGraph

open Resolving

namespace Session

/-- The session with a failure remembered, if failures are. -/
def keptFailure (s : Session) (key : CacheKey) (failure : Failure) : Session :=
  { s with caches := (s.caches.rememberFailure key failure).1 }

end Session

/-- A property of sessions that does not look at the records. -/
structure Untracked (keeps : Session → Prop) : Prop where
  records : ∀ {s : Session} {u : Tracker}, (s.tracker.Ready → u.Ready) → keeps s →
    keeps (s.retracked u)

/-- A property of sessions that looks neither outside nor at the records. -/
structure Unrecorded (keeps : Session → Prop) : Prop extends Untracked keeps where
  inward : Inward keeps

/-- A property of sessions that the writing of compositions of a document keeps. -/
structure Composing (d : Document) (keeps : Session → Prop) : Prop extends Untracked keeps where
  composition : ∀ {s : Session} text n, keeps s → keeps (s.keptComposition (cacheKey d text) n)

/-- A property of sessions that the steps of resolving in a document keep. -/
structure Lasting (d : Document) (keeps : Session → Prop) : Prop extends Composing d keeps where
  outside : ∀ reference base depth, Keeping keeps (External.resolve reference base depth)
  reference : ∀ {s : Session} x n, keeps s → keeps (s.keptReference (cacheKey d x) n)
  schema : ∀ {s : Session} name n, keeps s → keeps (s.keptSchema (cacheKey d name) n)
  failure : ∀ {s : Session} x failure, keeps s → keeps (s.keptFailure (cacheKey d x) failure)

/-- A property of sessions that looks neither outside nor at the records and that the writing under
the keys of a document keeps. -/
structure Steady (d : Document) (keeps : Session → Prop) : Prop extends Unrecorded keeps,
    Lasting d keeps where
  outside := External.keeping_resolve inward

namespace Untracked

variable {keeps : Session → Prop} (h : Untracked keeps)
include h

theorem keeps_clocked {s : Session} (hs : keeps s) (scene : Scene) (operation : Operation)
    (started : Binary64) : keeps (s.clocked scene operation started) := by
  rcases clocked_cases s scene operation started with heq | heq
  · rw [heq]
    exact hs
  · rw [heq]
    exact h.records (fun hready => hready.track operation started _) hs

theorem keeping_timed {α : Type} {act : Resolving α} (operation : Operation)
    (hact : Keeping keeps act) : Keeping keeps (timed operation act) := by
  intro scene s hs
  rw [timed_scene_apply]
  exact h.keeps_clocked (hact scene s hs) scene operation s.clock

theorem yields_timed {α : Type} {good : α → Prop} {act : Resolving α} (operation : Operation)
    (hact : Yields keeps good act) : Yields keeps good (timed operation act) := by
  intro scene s hs
  rw [ensures_timed_scene]
  exact (hact scene s hs).mono fun result t ht =>
    ⟨h.keeps_clocked ht.1 scene operation s.clock, ht.2⟩

theorem keeping_track {record : Tracker → Except Fault Tracker}
    (hrecord : ∃ name change, ∀ t : Tracker, record t = t.updateCache name change) :
    Keeping keeps (track record) := by
  obtain ⟨name, change, hrecord⟩ := hrecord
  unfold track
  refine keeping_get_bind fun scene s hs => ?_
  rw [hrecord]
  cases hu : s.tracker.updateCache name change with
  | error f => exact hs
  | ok u => exact h.records (fun hready => Tracker.updateCache_ready hready hu) hs

/-- What is recalled is what a cache holds. -/
theorem yields_recallNode {good : Node → Prop} (name : String)
    (cache : Caches CacheKey String Node Failure Document → BoundedCache CacheKey Node)
    (key : CacheKey) (hgood : ∀ s, keeps s → ∀ n, (cache s.caches).get? key = some n → good n) :
    Yields keeps (fun found => ∀ n, found = some n → good n) (recallNode name cache key) := by
  have hfound : Yields keeps (fun found => ∀ n, found = some n → good n)
      (do return (cache (← get).caches).get? key) := by
    exact yields_get.bind fun s hs => yields_pure fun n hn => hgood s hs n hn
  unfold recallNode
  refine (h.yields_timed _ hfound).bind fun found hgiven => ?_
  split
  · exact (h.keeping_track ⟨_, _, fun _ => rfl⟩).bind_yields fun _ => yields_pure hgiven
  · exact (h.keeping_track ⟨_, _, fun _ => rfl⟩).bind_yields fun _ => yields_pure hgiven

theorem keeping_recallNode (name : String)
    (cache : Caches CacheKey String Node Failure Document → BoundedCache CacheKey Node)
    (key : CacheKey) : Keeping keeps (recallNode name cache key) :=
  (h.yields_recallNode name cache key fun _ _ _ _ => trivial).keeping

theorem keeps_countEvictions {s : Session} (hs : keeps s) (evictions : List Eviction) :
    keeps (s.countEvictions evictions) := by
  refine h.records (u := (s.countEvictions evictions).tracker) (fun hready => ?_) hs
  obtain ⟨t, ht, heq⟩ := Session.countEvictions_eq hready evictions
  rw [heq]
  exact ht

theorem keeping_evicting {ε : Type} (fail : ε → Failure) (name : String)
    {change : Caches CacheKey String Node Failure Document →
      Caches CacheKey String Node Failure Document × Except ε Nat}
    (hchange : ∀ s : Session, keeps s → keeps { s with caches := (change s.caches).1 }) :
    Keeping keeps (evicting fail name change) := by
  unfold evicting
  refine keeping_get_bind fun scene s hs => ?_
  dsimp only
  rw [bind_apply]
  have hchanged := hchange s hs
  cases hresult : (change s.caches).2 with
  | ok count => exact h.keeps_countEvictions hchanged _
  | error e => exact hchanged

theorem keeping_trackSize (name : String)
    (cache : Caches CacheKey String Node Failure Document → BoundedCache CacheKey Node) :
    Keeping keeps (trackSize name cache) := by
  unfold trackSize
  exact keeping_get.bind fun s => h.keeping_track ⟨_, _, fun _ => rfl⟩

theorem keeping_keepReference {key : CacheKey} {n : Node}
    (hkept : ∀ s, keeps s → keeps (s.keptReference key n)) :
    Keeping keeps (keepReference key n) := by
  unfold keepReference
  refine (h.keeping_timed _ (h.keeping_evicting _ _ fun s hs => ?_)).bind fun _ =>
    h.keeping_trackSize _ _
  exact hkept s hs

theorem keeping_keepComposition {key : CacheKey} {n : Node}
    (hkept : ∀ s, keeps s → keeps (s.keptComposition key n)) :
    Keeping keeps (keepComposition key n) := by
  unfold keepComposition
  refine (h.keeping_timed _ (h.keeping_evicting _ _ fun s hs => ?_)).bind fun _ =>
    h.keeping_trackSize _ _
  exact hkept s hs

theorem keeping_keepSchema {key : CacheKey} {n : Node}
    (hkept : ∀ s, keeps s → keeps (s.keptSchema key n)) :
    Keeping keeps (keepSchema key n) := by
  unfold keepSchema
  refine (h.keeping_evicting _ _ fun s hs => ?_).bind fun _ => h.keeping_trackSize _ _
  exact hkept s hs

end Untracked

/-- What operations keep one after the other they keep together. -/
theorem sequential_keeping (keeps : Session → Prop) : Sequential fun _ => Keeping keeps where
  lift := keeping_lift
  bind := Keeping.bind

theorem sequential_preserves (keeps : Session → Prop) : Sequential fun _ => Preserves keeps where
  lift := fun result => (keeping_lift result).preserves
  bind := Preserves.bind

theorem Untracked.preserves_timed {α : Type} {keeps : Session → Prop} (h : Untracked keeps)
    {act : Resolving α} (operation : Operation) (hact : Preserves keeps act) :
    Preserves keeps (timed operation act) := by
  intro world s hs
  rw [timed_scene_apply]
  exact h.keeps_clocked (hact world s hs) world operation s.clock

namespace Composing

variable {d : Document} {keeps : Session → Prop} (h : Composing d keeps)
include h

theorem settlingSteps : SettlingSteps d fun _ => Keeping keeps where
  toSequential := sequential_keeping keeps
  recallComposition := h.keeping_recallNode _ _
  keepComposition := fun text n => h.keeping_keepComposition fun _ => h.composition text n

/-- Settling keeps what following each reference keeps. -/
theorem keeping_settle {follow : Value → Resolving Node} {n : Node}
    (hfollow : ∀ target ∈ n.follows, Keeping keeps (follow target)) :
    Keeping keeps (n.settle follow d) :=
  h.settlingSteps.settle hfollow

end Composing

/-- Finding the target of a reference keeps what looking for it in other documents keeps. -/
theorem keeping_target_of {d : Document} {keeps : Session → Prop} {x : String}
    (houtside : ∀ depth, Keeping keeps (External.resolve (.str x) d.source depth))
    (hfailure : ∀ s failure, keeps s → keeps (s.keptFailure (cacheKey d x) failure))
    (path : List String) : Keeping keeps (d.target x path) := by
  have hsought : Keeping keeps (outsideTarget d x path) := by
    unfold outsideTarget
    refine (keeping_check _).bind fun depth => ?_
    refine (houtside _).attempt.bind fun outcome => ?_
    split
    · exact keeping_pure _
    · rename_i cause
      refine keeping_get_bind fun scene s hs => ?_
      dsimp only
      rw [bind_apply]
      have hkept := hfailure s (.externalFailed x cause) hs
      exact (keeping_check _).bind (fun _ => keeping_throw _) scene _ hkept
  unfold Document.target
  split
  · exact keeping_throw _
  · refine (keeping_check _).bind fun outside => ?_
    split
    · exact hsought
    · exact keeping_lift _

namespace Lasting

variable {d : Document} {keeps : Session → Prop} (h : Lasting d keeps)
include h

theorem keeping_target (x : String) (path : List String) : Keeping keeps (d.target x path) :=
  keeping_target_of (h.outside _ _) (fun _ failure hs => h.failure x failure hs) path

theorem followingSteps : FollowingSteps d fun _ => Keeping keeps where
  toSettlingSteps := h.toComposing.settlingSteps
  look := fun _ hnext => keeping_get.bind hnext
  recallReference := h.keeping_recallNode _ _
  target := h.keeping_target
  keepReference := fun x n => h.keeping_keepReference fun _ => h.reference x n

/-- Following a reference keeps what is lasting. -/
theorem keeping_follow (budget : Nat) (path : List String) (target : Value) :
    Keeping keeps (follow d budget path target) :=
  h.followingSteps.follow budget path target

theorem keeping_resolveReference (path : List String) (target : Value) :
    Keeping keeps (resolveReference d path target) :=
  h.followingSteps.resolveReference path target

theorem keeping_resolveNode (n : Node) : Keeping keeps (resolveNode d n) :=
  h.followingSteps.resolveNode n

end Lasting

/-! ### Turns of other tasks -/

namespace Session

/-- Once the turn has passed from one task to another, it has. -/
theorem lasting_shared (d : Document) : Lasting d Shared where
  records := fun _ hs => hs
  composition := fun _ _ hs => hs
  outside := fun reference base depth => by
    refine External.keeping_resolve_distant (fun _ _ hs => hs) ?_ reference base depth
    exact ⟨fun _ _ hs => hs, fun _ hs => List.mem_cons_of_mem _ hs⟩
  reference := fun _ _ hs => hs
  schema := fun _ _ hs => hs
  failure := fun _ _ hs => hs

/-- Whether a session has a property, unless the turn has passed from one task to another. -/
def UnlessShared (keeps : Session → Prop) (s : Session) : Prop := ¬s.Shared → keeps s

end Session

section UnlessShared

variable {α : Type} {keeps keeps' : Session → Prop} {act : Resolving α}

/-- In all sessions with which an operation goes on, the turn has passed to another task. -/
def Scene.Of.unlessShared (scene : Scene.Of keeps) : Scene.Of (Session.UnlessShared keeps') :=
  { scene with resumes := fun entry hentry hfresh => absurd (scene.shared entry hentry) hfresh }

theorem keeping_unlessShared (hshared : Keeping Session.Shared act)
    (h : ∀ (scene : Scene.Of (Session.UnlessShared keeps)) s, keeps s →
      Session.UnlessShared keeps (act scene s).2) : Keeping (Session.UnlessShared keeps) act := by
  intro scene s hs
  by_cases hfresh : s.Shared
  · exact absurd (hshared { scene with resumes := scene.shared } s hfresh)
  · exact h scene s (hs hfresh)

theorem Inward.forgetful_unlessShared (h : Inward keeps) : Forgetful (Session.UnlessShared keeps) :=
  fun s external hs hfresh => h.forgetful s external (hs hfresh)

theorem Inward.distant_unlessShared (h : Inward keeps) : Distant (Session.UnlessShared keeps) where
  elapsed := fun clock sent hs hfresh => h.aloof _ clock sent _ (hs hfresh)
  noted := fun {s _} _ hs hfresh =>
    h.aloof s s.clock s.sent _ (hs fun hshared => hfresh (List.mem_cons_of_mem _ hshared))

/-- Looking outside keeps what does not look there, unless another task has a turn. -/
theorem Inward.keeping_unlessShared (h : Inward keeps) (reference : Value) (base : String)
    (depth : Value) : Keeping (Session.UnlessShared keeps) (External.resolve reference base depth) :=
  External.keeping_resolve_distant h.forgetful_unlessShared h.distant_unlessShared reference base depth

theorem Inward.keeping_load_unlessShared (h : Inward keeps) (location : String) :
    Keeping (Session.UnlessShared keeps) (External.load location) := by
  have hforgetful := h.forgetful_unlessShared
  have hdistant := h.distant_unlessShared
  exact External.keeping_load_of hdistant.timeless (External.keeping_fetch hdistant.remote)
    (External.keeping_recallDocument hforgetful) (External.keeping_keep hforgetful) location

theorem Composing.unlessShared {d : Document} (h : Composing d keeps) :
    Composing d (Session.UnlessShared keeps) where
  records := fun hready hs hfresh => h.records hready (hs hfresh)
  composition := fun text n hs hfresh => h.composition text n (hs hfresh)

end UnlessShared

end SchemaGraph
