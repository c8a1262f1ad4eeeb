import SchemaGraph.Proofs.Resolve.Unswayed
import SchemaGraph.Proofs.Store.Room

/-!
# What was resolved is found

A key is looked up before its schema is worked out, and written afterwards.  While it is worked on, the
key is not written by anything else.  So it is new when it is written at last, and a cache with room for
an entry then shows it, whatever the work has put into the cache or driven out of it before.

Looking it up again changes the records only, and of what these count only one more hit.
-/

namespace SchemaGraph

open Resolving

/-- Whether records count one more hit of a cache than others, if they count at all, and nothing else. -/
structure Tracker.HitOnce (name : String) (t u : Tracker) : Prop where
  enabled : u.enabled = t.enabled
  hit : t.enabled = true → ∃ c, Ordered.get? name t.caches = some c ∧
    Ordered.get? name u.caches = some { c with hits := c.hits + 1 }
  others : ∀ other, other ≠ name → Ordered.get? other u.caches = Ordered.get? other t.caches
  off : t.enabled = false → u.caches = t.caches

namespace Tracker

variable {name : String} {t u v : Tracker}

/-- The times that are recorded do not count. -/
theorem HitOnce.of_same (h : t.HitOnce name u) (henabled : t.enabled = v.enabled)
    (hcaches : t.caches = v.caches) : v.HitOnce name u where
  enabled := h.enabled.trans henabled
  hit := by
    rw [← henabled, ← hcaches]
    exact h.hit
  others := by
    rw [← hcaches]
    exact h.others
  off := by
    rw [← henabled, ← hcaches]
    exact h.off

theorem HitOnce.to_same (h : t.HitOnce name u) (henabled : v.enabled = u.enabled)
    (hcaches : v.caches = u.caches) : t.HitOnce name v where
  enabled := henabled.trans h.enabled
  hit := by
    rw [hcaches]
    exact h.hit
  others := by
    rw [hcaches]
    exact h.others
  off := by
    rw [hcaches]
    exact h.off

theorem hitOnce_recordHit (ht : t.Ready) (hname : name ∈ Caches.names) :
    ∃ u, t.recordHit name = .ok u ∧ t.HitOnce name u := by
  obtain ⟨c, hc⟩ := Option.isSome_iff_exists.mp (ht name hname)
  unfold recordHit updateCache
  cases henabled : t.enabled with
  | false =>
      refine ⟨t, rfl, rfl, fun hon => ?_, fun _ _ => rfl, fun _ => rfl⟩
      rw [henabled] at hon
      cases hon
  | true =>
      rw [hc]
      refine ⟨_, rfl, henabled.symm, fun _ => ⟨c, hc, ?_⟩, fun other hother => ?_, fun hoff => ?_⟩
      · rw [Ordered.get_write, if_pos rfl]
      · rw [Ordered.get_write, if_neg hother]
      · rw [henabled] at hoff
        cases hoff

end Tracker

/-- Whether a session differs from another only in its records, and these count one more hit of a cache
and nothing else. -/
structure Session.HitOnce (name : String) (s t : Session) : Prop where
  same : t = s.retracked t.tracker
  records : s.tracker.HitOnce name t.tracker

/-- The times that are recorded are not counted. -/
theorem Session.HitOnce.track {name : String} {s t : Session} (h : s.HitOnce name t)
    (operation : Operation) (started now : Binary64) :
    s.HitOnce name (t.retracked (t.tracker.track operation started now)) := by
  obtain ⟨henabled, hcaches⟩ := t.tracker.same_track operation started now
  constructor
  · rw [h.same]
    rfl
  · exact h.records.to_same henabled hcaches

namespace Resolving

/-- Serve a key from a shelf, or work out its schema and write it. -/
def recalled (shelf : Shelf) (key : CacheKey) (body : Resolving Node) : Resolving Node := do
  match ← recallNode shelf.name shelf.cache key with
  | some n => return n
  | none =>
    let n ← body
    keep shelf key n
    return n

/-- No key but one of a shelf. -/
def Only (shelf : Shelf) (key : CacheKey) : Session.Work :=
  Session.Work.add (fun _ _ => False) shelf key

variable {shelf : Shelf} {key : CacheKey} {world : World} {s t : Session} {n : Node}

theorem name_mem (shelf : Shelf) : shelf.name ∈ Caches.names := by
  cases shelf <;> decide

/-- Writing a schema succeeds only if the cache takes it. -/
theorem set_ok_of_evicting {fail : Fault → Failure} {name : String}
    {change : Caches CacheKey String Node Failure Document →
      Caches CacheKey String Node Failure Document × Except Fault Nat}
    (hrun : (evicting fail name change world s).1 = .ok ()) :
    ∃ count, (change s.caches).2 = .ok count := by
  cases hchange : (change s.caches).2 with
  | ok count => exact ⟨count, rfl⟩
  | error fault =>
      have herror : Ensures (evicting fail name change) world s fun result _ =>
          result = .error (fail fault) := by
        unfold evicting
        rw [ensures_get_bind]
        dsimp only
        rw [ensures_modify_bind, hchange]
        rfl
      cases hrun.symm.trans herror

/-- A schema that was written was taken by its cache, and nothing else has changed but the records. -/
theorem keep_eq_ok (hs : s.tracker.Ready) (hrun : keep shelf key n world s = (.ok (), t)) :
    (∃ count, ((shelf.cache s.caches).set key n).2 = .ok count) ∧ t.tracker.Ready ∧
      t.caches = shelf.replace s.caches ((shelf.cache s.caches).set key n).1 := by
  have htaken : ∃ count, ((shelf.cache s.caches).set key n).2 = .ok count := by
    cases shelf with
    | schema =>
        obtain ⟨_, u, hset, -⟩ := bind_eq_ok_run hrun
        exact set_ok_of_evicting (congrArg Prod.fst hset)
    | composition =>
        obtain ⟨_, u, hset, -⟩ := bind_eq_ok_run hrun
        rw [timed_apply] at hset
        exact set_ok_of_evicting (congrArg Prod.fst hset)
    | reference =>
        obtain ⟨_, u, hset, -⟩ := bind_eq_ok_run hrun
        rw [timed_apply] at hset
        exact set_ok_of_evicting (congrArg Prod.fst hset)
  obtain ⟨count, hcount⟩ := htaken
  have hok : ((shelf.cache s.caches).set key n).2.isOk = true := by
    rw [hcount]
    rfl
  have hkept : Ensures (keep shelf key n) world s fun result u =>
      let written := ((shelf.cache s.caches).set key n).1
      result = .ok () ∧ ∃ v : Tracker, v.Ready ∧
        u = ({ s with caches := shelf.replace s.caches written } : Session).retracked v := by
    cases shelf with
    | schema => exact ensures_keepSchema hs hok
    | composition => exact ensures_keepComposition hs hok
    | reference => exact ensures_keepReference hs hok
  unfold Ensures at hkept
  rw [hrun] at hkept
  obtain ⟨-, v, hv, rfl⟩ := hkept
  exact ⟨⟨count, hcount⟩, hv, rfl⟩

/-- What was served or written can be served again, if the cache has room and the work on the key never
writes the key. -/
theorem recalled_kept {body : Resolving Node} {good : Node → Prop} (hs : s.tracker.Ready)
    (hopen : s.caches.Open) (hroom : (shelf.cache s.caches).maxSize.HasRoom)
    (hunswayed : Unswayed body) (hbalanced : Balanced (Only shelf key) good body)
    (hbound : Keeping (fun u => (shelf.cache u.caches).maxSize.HasRoom) body)
    (hrun : recalled shelf key body world s = (.ok n, t)) :
    t.tracker.Ready ∧ (shelf.cache t.caches).get? key = some n := by
  obtain ⟨found, u, hrecall, hrest⟩ := bind_eq_ok_run hrun
  have hlooked : Ensures (recallNode shelf.name shelf.cache key) world s _ :=
    ensures_recallNode hs (name_mem shelf) shelf.cache key
  unfold Ensures at hlooked
  rw [hrecall] at hlooked
  obtain ⟨hfound, v, hv, rfl⟩ := hlooked
  obtain rfl := Except.ok.inj hfound
  have hv : (s.retracked v).tracker.Ready := hv
  cases hget : (shelf.cache s.caches).get? key with
  | some m =>
      rw [hget] at hrest
      obtain ⟨hm, rfl⟩ := Prod.mk.inj hrest
      rw [← Except.ok.inj hm]
      exact ⟨hv, hget⟩
  | none =>
      rw [hget] at hrest
      obtain ⟨m, w, hbody, hrest⟩ := bind_eq_ok_run hrest
      obtain ⟨_, x, hkeep, hrest⟩ := bind_eq_ok_run hrest
      obtain ⟨hm, rfl⟩ := Prod.mk.inj hrest
      obtain rfl := Except.ok.inj hm
      -- the key was missed, so it is new to the work, and the work leaves it so
      have hvacant : (s.retracked v).Vacant (Only shelf key) := by
        apply Session.Vacant.add
        · rintro _ _ hnone
          exact hnone.elim
        · exact BoundedCache.absent_of_miss (hopen shelf) hget
      have hleft := hunswayed.vacant hbalanced world hv hopen hvacant
      have hready := hunswayed.ready world hv
      have hstill := hbound world (s.retracked v) hroom
      rw [hbody] at hleft hready hstill
      obtain ⟨⟨count, htaken⟩, hkept, hcaches⟩ := keep_eq_ok hready hkeep
      refine ⟨hkept, ?_⟩
      rw [hcaches, Shelf.cache_replace, if_pos rfl]
      exact BoundedCache.get_set (hleft.1 shelf) hstill (hleft.2 shelf key (Or.inr ⟨rfl, rfl⟩)) htaken

/-- What a cache shows is served, and only one more hit is counted. -/
theorem ensures_recalled_hit (shelf : Shelf) (hs : s.tracker.Ready)
    (hfound : (shelf.cache s.caches).get? key = some n) (body : Resolving Node) (world : World) :
    Ensures (recalled shelf key body) world s fun result t =>
      result = .ok n ∧ s.HitOnce shelf.name t := by
  obtain ⟨v, hv, hhit⟩ := Tracker.hitOnce_recordHit (hs.track .cacheOperation s.clock s.clock)
    (name_mem shelf)
  obtain ⟨henabled, hcaches⟩ := s.tracker.same_track .cacheOperation s.clock s.clock
  have hrecall : Ensures (recallNode shelf.name shelf.cache key) world s fun result t =>
      result = .ok (some n) ∧ t = s.retracked v := by
    unfold recallNode
    rw [ensures_bind, ensures_timed, ensures_get_bind, ensures_pure, hfound]
    unfold After track
    dsimp only
    rw [ensures_bind, ensures_get_bind, ensures_check_ok_bind hv]
    exact ⟨rfl, rfl⟩
  apply hrecall.bind_ok
  rintro _ rfl
  exact ⟨rfl, rfl, hhit.of_same henabled hcaches⟩

end Resolving

/-- Whether a shelf leaves room for an entry. -/
def Session.Room (shelf : Shelf) (s : Session) : Prop := (shelf.cache s.caches).maxSize.HasRoom

/-- What is written has no part in the bounds. -/
theorem Session.steady_room (d : Document) (shelf : Shelf) : Steady d (Session.Room shelf) := by
  have hset : ∀ (s : Session) (other : Shelf) (key : CacheKey) (n : Node), s.Room shelf →
      ({ s with caches := other.replace s.caches ((other.cache s.caches).set key n).1 } :
        Session).Room shelf := by
    intro s other key n hs
    unfold Session.Room
    dsimp only
    rw [Shelf.cache_replace]
    split
    · rename_i heq
      rw [BoundedCache.maxSize_set, ← heq]
      exact hs
    · exact hs
  exact
    { records := fun _ hs => hs
      inward := fun _ _ _ _ _ hs => hs
      composition := fun text n hs => hset _ .composition _ n hs
      reference := fun x n hs => hset _ .reference _ n hs
      schema := fun name n hs => hset _ .schema _ n hs
      failure := by
        intro s x failure hs
        unfold Session.Room Session.keptFailure Caches.rememberFailure
        split
        · cases shelf <;> exact hs
        · exact hs }

section Following

variable (d : Document) (budget : Nat) (path : List String)

/-- What following does for a reference that is not kept. -/
def sought (x : String) : Resolving Node := do
  match (← get).caches.failure? (cacheKey d x) with
  | some failure => throw failure
  | none =>
    let n ← d.target x path
    n.settle (follow d budget (x :: path)) d

theorem follow_of_mem {target : Value} {x : String} (hgiven : Reference.given target = .ok x)
    (hx : x ∈ path) : follow d (budget + 1) path target = throw (.circularReference x) := by
  rw [follow_succ, hgiven]
  change (if path.contains x = true then _ else _) = _
  rw [if_pos (List.contains_iff_mem.mpr hx)]

theorem follow_eq_recalled {target : Value} {x : String} (hgiven : Reference.given target = .ok x)
    (hx : x ∉ path) : follow d (budget + 1) path target =
      recalled .reference (cacheKey d x) (sought d budget path x) := by
  have hpath : ¬path.contains x = true := fun hin => hx (List.contains_iff_mem.mp hin)
  rw [follow_succ, hgiven]
  change (if path.contains x = true then _ else _) = _
  rw [if_neg hpath]
  rfl

/-- Looking for the target of a reference does what the steps of following do. -/
theorem FollowingSteps.sought {P : (α : Type) → Resolving α → Prop} (h : FollowingSteps d P)
    (x : String) : P _ (SchemaGraph.sought d budget path x) := by
  unfold SchemaGraph.sought
  apply h.look (fun _ _ => rfl)
  intro s
  split
  · exact h.throw _
  · apply h.bind (h.target x path)
    exact fun n => h.settle fun target _ => h.follow budget (x :: path) target

/-- While the target of a reference is settled, the reference is on the path, so its key is not
written. -/
theorem balanced_sought (x : String) :
    Balanced (Only .reference (cacheKey d x)) (fun _ => True) (sought d budget path x) := by
  unfold sought
  apply balanced_get_bind
  intro world s hs hvacant
  split
  · exact balanced_throw _ world s hs hvacant
  · refine (balanced_target x path).bind (fun n hn => ?_) world s hs hvacant
    have hheld : Held (x :: path) (Settling d (Only .reference (cacheKey d x))) (Node.Twin n) := by
      apply Held.of_idle
      rintro key (hnone | ⟨hshelf, -⟩)
      · exact hnone
      · cases hshelf
    have hwork : ∀ y, Only .reference (cacheKey d x) .reference (cacheKey d y) → y ∈ x :: path := by
      rintro y (hnone | ⟨-, hkey⟩)
      · exact hnone.elim
      · rw [(CacheKey.mk.inj hkey).2]
        exact List.mem_cons_self
    apply (balanced_settle hn hwork hheld fun _ => balanced_follow budget (x :: path)).mono
    exact fun _ _ => trivial

end Following

section Repeated

variable {d : Document} {world : World} {s t : Session} {n : Node} {budget : Nat}

/-- A reference that was followed is kept. -/
theorem follow_kept (hs : s.tracker.Ready) (hopen : s.caches.Open) (hroom : s.Room .reference)
    {path : List String} {target : Value}
    (hrun : follow d budget path target world s = (.ok n, t)) :
    ∃ x, Reference.given target = .ok x ∧ x ∉ path ∧ t.tracker.Ready ∧
      t.caches.references.get? (cacheKey d x) = some n := by
  cases budget with
  | zero => cases hrun
  | succ budget =>
      cases hgiven : Reference.given target with
      | error failure =>
          rw [follow, hgiven] at hrun
          cases hrun
      | ok x =>
          by_cases hx : x ∈ path
          · rw [follow_of_mem d budget path hgiven hx] at hrun
            cases hrun
          · rw [follow_eq_recalled d budget path hgiven hx] at hrun
            have hsteady := Session.steady_room d .reference
            obtain ⟨hready, hkept⟩ := recalled_kept hs hopen hroom
              ((followingSteps_unswayed d).sought d budget path x) (balanced_sought d budget path x)
              (hsteady.followingSteps.sought d budget path x) hrun
            exact ⟨x, rfl, hx, hready, hkept⟩

theorem settle_eq_recalled {follow : Value → Resolving Node} {info : NodeInfo}
    {shape : CompositionShape Node} {key : String}
    (hdefect : Node.memberDefect? shape.rawMembers = none)
    (hkey : (Node.composition info shape).identity = .ok key) :
    (Node.composition info shape).settle follow d =
      recalled .composition (cacheKey d key) (Node.settleKind follow d info shape) := by
  rw [Node.settle_composition, hdefect, hkey]
  rfl

/-- While the members of a composition are settled, a composition written alike would be held up by a
reference that is on the path, so the key is not written. -/
theorem balanced_settling {info : NodeInfo} {shape : CompositionShape Node} {key : String}
    (hn : (Node.composition info shape).Sourced)
    (hdefect : Node.memberDefect? shape.rawMembers = none)
    (hkey : (Node.composition info shape).identity = .ok key) :
    Balanced (Only .composition (cacheKey d key)) (fun _ => ∀ member ∈ shape.members, True)
      (Node.settleKind (follow d budget []) d info shape) := by
  apply balanced_settleKind
  intro member hmember
  have hidle : Held [] (Settling d fun _ _ => False) (Node.Twin (.composition info shape)) :=
    Held.of_idle fun _ => id
  have hheld : Held [] (Settling d (Only .composition (cacheKey d key))) (Node.Twin member) := by
    unfold Only
    rw [settling_add]
    exact hidle.descend hn hdefect hkey hmember
  have hwork : ∀ x, Only .composition (cacheKey d key) .reference (cacheKey d x) → x ∈ [] := by
    rintro x (hnone | ⟨hshelf, -⟩)
    · exact hnone.elim
    · cases hshelf
  apply (balanced_settle (hn.members member hmember) hwork hheld fun _ => balanced_follow budget []).mono
  exact fun _ _ => trivial

/-- A composition that was settled is kept. -/
theorem settle_kept (hs : s.tracker.Ready) (hopen : s.caches.Open) (hroom : s.Room .composition)
    {info : NodeInfo} {shape : CompositionShape Node} (hn : (Node.composition info shape).Sourced)
    (hrun : (Node.composition info shape).settle (follow d budget []) d world s = (.ok n, t)) :
    ∃ key, Node.memberDefect? shape.rawMembers = none ∧
      (Node.composition info shape).identity = .ok key ∧ t.tracker.Ready ∧
        t.caches.compositions.get? (cacheKey d key) = some n := by
  cases hdefect : Node.memberDefect? shape.rawMembers with
  | some defect =>
      rw [Node.settle_composition, hdefect] at hrun
      cases hrun
  | none =>
      cases hkey : (Node.composition info shape).identity with
      | error fault =>
          rw [Node.settle_composition, hdefect, hkey] at hrun
          cases hrun
      | ok key =>
          rw [settle_eq_recalled hdefect hkey] at hrun
          have hsteady := Session.steady_room d .composition
          obtain ⟨hready, hkept⟩ := recalled_kept hs hopen hroom
            ((followingSteps_unswayed d).settleKind budget [] info shape)
            (balanced_settling hn hdefect hkey)
            (hsteady.followingSteps.settleKind budget [] info shape) hrun
          exact ⟨key, rfl, rfl, hready, hkept⟩

end Repeated

end SchemaGraph
