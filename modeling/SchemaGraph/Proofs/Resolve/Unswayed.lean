import SchemaGraph.Proofs.External.Blind
import SchemaGraph.Proofs.Resolve.Balanced
import SchemaGraph.Proofs.Resolve.Stepwise

/-!
# Records do not sway

Resolving changes the records but is not swayed by them: in sessions that differ in their records only,
as long as these know all caches, the results are the same, and so are the sessions that are left, but
for their records.  So what resolving is known to do to the caches while everything is counted, it does
as well while nothing is.
-/

namespace SchemaGraph

open Resolving

namespace Resolving

variable {α β : Type}

/-- Whether an operation does the same whatever the records are, as long as they know all caches, and
leaves records that do. -/
def Unswayed (act : Resolving α) : Prop :=
  ∀ (world : World) (s : Session) (u : Tracker), s.tracker.Ready → u.Ready →
    ∃ v : Tracker, v.Ready ∧ act world (s.retracked u) = ((act world s).1, (act world s).2.retracked v)

/-- Records that know all caches go on to do so. -/
theorem Unswayed.ready {act : Resolving α} (h : Unswayed act) (world : World) {s : Session}
    (hs : s.tracker.Ready) : (act world s).2.tracker.Ready := by
  obtain ⟨v, hv, hrun⟩ := h world s s.tracker hs hs
  have hsame : (act world s).2 = (act world s).2.retracked v := congrArg Prod.snd hrun
  rw [hsame]
  exact hv

theorem Blind.unswayed {act : Resolving α} (h : Blind act) : Unswayed act :=
  fun world s u _ hu => ⟨u, hu, h world s u⟩

theorem unswayed_throw (failure : Failure) : Unswayed (throw failure : Resolving α) :=
  (blind_throw failure).unswayed

theorem unswayed_lift (result : Except Failure α) : Unswayed (lift result) :=
  (blind_lift result).unswayed

/-- An operation whose result is known and that changes the records only. -/
theorem unswayed_of_records {act : Resolving α} (result : Session → Except Failure α)
    (hresult : ∀ s u, result (s.retracked u) = result s)
    (h : ∀ world s, s.tracker.Ready → Ensures act world s fun outcome t =>
      outcome = result s ∧ ∃ v : Tracker, v.Ready ∧ t = s.retracked v) : Unswayed act := by
  intro world s u hs hu
  obtain ⟨hfirst, v, -, hleft⟩ := h world s hs
  obtain ⟨hsecond, w, hw, hleft'⟩ := h world (s.retracked u) hu
  refine ⟨w, hw, Prod.ext ?_ ?_⟩
  · rw [hsecond, hresult, hfirst]
  · rw [hleft', hleft]
    rfl

theorem Unswayed.bind {act : Resolving α} {next : α → Resolving β} (h : Unswayed act)
    (hnext : ∀ a, Unswayed (next a)) : Unswayed (act >>= next) := by
  intro world s u hs hu
  obtain ⟨v, hv, hrun⟩ := h world s u hs hu
  have hready := h.ready world hs
  rw [bind_apply, bind_apply, hrun]
  rcases hact : act world s with ⟨result, t⟩
  rw [hact] at hready
  cases result with
  | ok a => exact hnext a world t v hready hv
  | error failure => exact ⟨v, hv, rfl⟩

/-- An operation that looks at the session first, but not at the records. -/
theorem unswayed_get_bind {next : Session → Resolving β}
    (hsame : ∀ s u, next (s.retracked u) = next s) (h : ∀ s, Unswayed (next s)) :
    Unswayed (get >>= next) := by
  intro world s u hs hu
  rw [bind_apply, bind_apply]
  change ∃ v : Tracker, v.Ready ∧ next (s.retracked u) world (s.retracked u) =
    ((next s world s).1, (next s world s).2.retracked v)
  rw [hsame]
  exact h s world s u hs hu

theorem Unswayed.timed {act : Resolving α} (h : Unswayed act) (operation : Operation) :
    Unswayed (timed operation act) := by
  intro world s u hs hu
  obtain ⟨v, hv, hrun⟩ := h world s u hs hu
  rw [timed_apply, timed_apply, hrun]
  exact ⟨_, hv.track operation _ _, rfl⟩

section Caches

variable {name : String} (hname : name ∈ Caches.names)
  (cache : Caches CacheKey String Node Failure Document → BoundedCache CacheKey Node)
include hname

theorem unswayed_recallNode (key : CacheKey) : Unswayed (recallNode name cache key) := by
  apply unswayed_of_records fun s => .ok ((cache s.caches).get? key)
  · exact fun _ _ => rfl
  · exact fun world s hs => ensures_recallNode hs hname cache key

theorem unswayed_trackSize : Unswayed (trackSize name cache) := by
  apply unswayed_of_records fun _ => .ok ()
  · exact fun _ _ => rfl
  · exact fun world s hs => ensures_trackSize hs hname cache

end Caches

/-- What is evicted is counted, and that changes the records only. -/
theorem unswayed_evicting {ε : Type} (fail : ε → Failure) (name : String)
    (change : Caches CacheKey String Node Failure Document →
      Caches CacheKey String Node Failure Document × Except ε Nat) :
    Unswayed (evicting fail name change) := by
  unfold evicting
  apply unswayed_get_bind (fun _ _ => rfl)
  intro s
  dsimp only
  apply Unswayed.bind (blind_modify fun _ _ => rfl).unswayed
  intro _
  cases (change s.caches).2 with
  | error e => exact unswayed_throw _
  | ok count =>
      apply unswayed_of_records fun _ => .ok ()
      · exact fun _ _ => rfl
      · intro world t ht
        exact ⟨rfl, Session.countEvictions_eq ht _⟩

theorem unswayed_keepReference (key : CacheKey) (n : Node) : Unswayed (keepReference key n) := by
  unfold keepReference
  apply ((unswayed_evicting _ _ _).timed _).bind
  exact fun _ => unswayed_trackSize (by decide) _

theorem unswayed_keepComposition (key : CacheKey) (n : Node) :
    Unswayed (keepComposition key n) := by
  unfold keepComposition
  apply ((unswayed_evicting _ _ _).timed _).bind
  exact fun _ => unswayed_trackSize (by decide) _

end Resolving

/-- Finding the target of a reference does not look at the records. -/
theorem blind_target (d : Document) (x : String) (path : List String) :
    Blind (d.target x path) := by
  unfold Document.target
  cases Reference.read? x with
  | none => exact blind_throw _
  | some parsed =>
      apply (blind_check _).bind
      intro outside
      split
      · unfold outsideTarget
        apply (blind_check _).bind
        intro depth
        apply (External.blind_resolve _ _ _).attempt.bind
        intro outcome
        cases outcome with
        | ok n => exact blind_pure n
        | error cause =>
            apply blind_get_bind (fun _ _ => rfl)
            intro s
            apply Blind.bind (blind_modify fun _ _ => rfl)
            exact fun _ => (blind_check _).bind fun _ => blind_throw _
      · exact blind_lift _

/-- Records do not sway the steps of following. -/
theorem followingSteps_unswayed (d : Document) : FollowingSteps d fun _ => Unswayed where
  lift := unswayed_lift
  bind := Unswayed.bind
  recallComposition := unswayed_recallNode (by decide) _
  keepComposition := fun text n => unswayed_keepComposition (cacheKey d text) n
  look := unswayed_get_bind
  recallReference := unswayed_recallNode (by decide) _
  target := fun x path => (blind_target d x path).unswayed
  keepReference := fun x n => unswayed_keepReference (cacheKey d x) n

namespace Resolving

/-- What is not written into open caches while everything is counted is not written into them while
nothing is. -/
theorem Unswayed.vacant {α : Type} {act : Resolving α} (h : Unswayed act) {work : Session.Work}
    {good : α → Prop} (hbalanced : Balanced work good act) (world : World) {s : Session}
    (hready : s.tracker.Ready) (hopen : s.caches.Open) (hvacant : s.Vacant work) :
    (act world s).2.caches.Open ∧ (act world s).2.Vacant work := by
  have hstart : (Tracker.start true).Ready := Tracker.ready_start true
  obtain ⟨v, -, hrun⟩ := h world s (.start true) hready hstart
  have hcounting : (s.retracked (.start true)).Counting := ⟨Tracker.counting_start, hopen⟩
  have hleft := hbalanced world (s.retracked (.start true)) hcounting hvacant
  unfold Ensures at hleft
  rw [hrun] at hleft
  exact ⟨hleft.counting.caches, hleft.vacant⟩

end Resolving

end SchemaGraph
