import SchemaGraph.Proofs.Counting

/-!
# Balanced operations

An operation is balanced for some keys that are being worked on if it starts and ends without them,
never makes a lost miss good and loses none when it succeeds.  A miss, the work on its key and the
writing of the key are balanced together, if the work is balanced for this key as well.
-/

namespace SchemaGraph

open Resolving Session

namespace Resolving

variable {α β : Type} {work : Work}

/-- What a run of a balanced operation leaves. -/
structure Balances (work : Work) (good : α → Prop) (s : Session) (result : Except Failure α)
    (t : Session) : Prop where
  counting : t.Counting
  vacant : t.Vacant work
  lost : ∀ shelf, s.lost shelf ≤ t.lost shelf
  success : ∀ a, result = .ok a → good a ∧ ∀ shelf, t.lost shelf = s.lost shelf

/-- Whether an operation never makes a lost miss good, and when it succeeds loses none and has a
result of a kind. -/
def Balanced (work : Work) (good : α → Prop) (act : Resolving α) : Prop :=
  ∀ (world : World) s, s.Counting → s.Vacant work → Ensures act world s (Balances work good s)

variable {good : α → Prop} {good' : β → Prop}

theorem Balanced.mono {other : α → Prop} {act : Resolving α} (h : Balanced work good act)
    (himp : ∀ a, good a → other a) : Balanced work other act := by
  intro world s hs hvacant
  obtain ⟨hcounting, hafter, hlost, hsuccess⟩ := h world s hs hvacant
  exact ⟨hcounting, hafter, hlost, fun a ha => ⟨himp a (hsuccess a ha).1, (hsuccess a ha).2⟩⟩

/-- An operation after which nothing has changed that bears on what is lost. -/
theorem balanced_level {act : Resolving α} (h : ∀ s, Keeping (Session.Level s) act)
    (hgood : ∀ (world : World) s a t, act world s = (.ok a, t) → good a) : Balanced work good act := by
  intro world s hs hvacant
  have hlevel := h s world s hs.level
  refine ⟨hlevel.counting hs, hlevel.vacant hvacant, fun shelf => (hlevel.lost shelf).ge, ?_⟩
  exact fun a ha => ⟨hgood world s a _ (Prod.ext ha rfl), hlevel.lost⟩

theorem balanced_aside {act : Resolving α} (h : ∀ s, Keeping (Session.Level s) act) :
    Balanced work (fun _ => True) act :=
  balanced_level h fun _ _ _ _ _ => trivial

theorem balanced_pure {a : α} (h : good a) : Balanced work good (pure a) := by
  refine fun world s hs hvacant => ⟨hs, hvacant, fun _ => le_rfl, fun b hb => ?_⟩
  rw [← Except.ok.inj hb]
  exact ⟨h, fun _ => rfl⟩

theorem balanced_throw (failure : Failure) : Balanced work good (throw failure : Resolving α) :=
  fun _ _ hs hvacant => ⟨hs, hvacant, fun _ => le_rfl, fun _ heq => nomatch heq⟩

theorem balanced_lift {result : Except Failure α} (h : ∀ a, result = .ok a → good a) :
    Balanced work good (lift result) := by
  cases result with
  | ok a => exact balanced_pure (h a rfl)
  | error failure => exact balanced_throw failure

theorem balanced_check {result : Except Fault α} (h : ∀ a, result = .ok a → good a) :
    Balanced work good (check result) := by
  cases result with
  | ok a => exact balanced_pure (h a rfl)
  | error f => exact balanced_throw _

theorem Balances.bind {s : Session} {act : Resolving α} {next : α → Resolving β} {world : World}
    (h : Ensures act world s (Balances work good s))
    (hnext : ∀ a, good a → Balanced work good' (next a)) :
    Ensures (act >>= next) world s (Balances work good' s) := by
  refine Ensures.bind h ?_ ?_
  · rintro a t ⟨hcounting, hvacant, hlost, hsuccess⟩
    obtain ⟨ha, hsame⟩ := hsuccess a rfl
    obtain ⟨hcounting', hvacant', hlost', hsuccess'⟩ := hnext a ha world t hcounting hvacant
    refine ⟨hcounting', hvacant', fun shelf => (hlost shelf).trans (hlost' shelf), fun b hb => ?_⟩
    exact ⟨(hsuccess' b hb).1, fun shelf => ((hsuccess' b hb).2 shelf).trans (hsame shelf)⟩
  · rintro failure t ⟨hcounting, hvacant, hlost, -⟩
    exact ⟨hcounting, hvacant, hlost, fun _ heq => nomatch heq⟩

theorem Balanced.bind {act : Resolving α} {next : α → Resolving β} (h : Balanced work good act)
    (hnext : ∀ a, good a → Balanced work good' (next a)) : Balanced work good' (act >>= next) :=
  fun world s hs hvacant => Balances.bind (h world s hs hvacant) hnext

/-- An operation that looks at the session first. -/
theorem balanced_get_bind {next : Session → Resolving β}
    (h : ∀ (world : World) s, s.Counting → s.Vacant work →
      Ensures (next s) world s (Balances work good' s)) : Balanced work good' (get >>= next) := by
  intro world s hs hvacant
  rw [ensures_get_bind]
  exact h world s hs hvacant

/-- What a balanced operation leaves stays balanced when nothing that bears on it changes. -/
theorem Balances.level {s t u : Session} {result : Except Failure α}
    (h : Balances work good s result t) (hlevel : t.Level u) : Balances work good s result u where
  counting := hlevel.counting h.counting
  vacant := hlevel.vacant h.vacant
  lost := fun shelf => (h.lost shelf).trans (hlevel.lost shelf).ge
  success := fun a ha => ⟨(h.success a ha).1, fun shelf =>
    (hlevel.lost shelf).trans ((h.success a ha).2 shelf)⟩

/-- Before a balanced operation too nothing that bears on it matters. -/
theorem Balances.since {s t u : Session} {result : Except Failure α}
    (h : Balances work good t result u) (hlevel : s.Level t) : Balances work good s result u where
  counting := h.counting
  vacant := h.vacant
  lost := fun shelf => (hlevel.lost shelf).ge.trans (h.lost shelf)
  success := fun a ha => ⟨(h.success a ha).1, fun shelf =>
    ((h.success a ha).2 shelf).trans (hlevel.lost shelf)⟩

theorem Balanced.timed {act : Resolving α} (h : Balanced work good act) (operation : Operation) :
    Balanced work good (timed operation act) := by
  intro world s hs hvacant
  rw [ensures_timed]
  refine (h world s hs hvacant).mono fun result t ht => ht.level ?_
  exact ht.counting.level.retracked (ht.counting.tracker.track operation s.clock t.clock)

/-- Recording what is neither a miss nor an eviction. -/
theorem keeping_track_beside {keeps : Session → Prop} (hcounting : ∀ t, keeps t → t.tracker.Counting)
    (hretracked : ∀ (t : Session) u, keeps t →
      (u.Counting ∧ ∀ shelf, u.expected shelf = t.tracker.expected shelf) → keeps (t.retracked u))
    {record : Tracker → Except Fault Tracker}
    {name : String} (change : CacheCounters → CacheCounters)
    (hrecord : ∀ t : Tracker, record t = t.updateCache name change)
    (hchange : ∀ c, (change c).misses = c.misses ∧ (change c).evictions = c.evictions) :
    Keeping keeps (track record) := by
  unfold track
  refine keeping_get_bind fun scene t ht => ?_
  rw [hrecord]
  cases hu : t.tracker.updateCache name change with
  | error f => exact ht
  | ok u => exact hretracked t u ht ((hcounting t ht).updateCache_same hchange hu)

theorem keeping_recordHit_level (name : String) (s : Session) :
    Keeping (Session.Level s) (track (·.recordHit name)) :=
  keeping_track_beside (fun _ ht => ht.tracker) (fun _ _ ht hu => ht.retracked hu)
    (fun c => { c with hits := c.hits + 1 }) (fun _ => rfl) fun _ => ⟨rfl, rfl⟩

theorem keeping_recordSize_level (name : String) (size maxSize : Value) (s : Session) :
    Keeping (Session.Level s) (track (·.recordSize name size maxSize)) :=
  keeping_track_beside (fun _ ht => ht.tracker) (fun _ _ ht hu => ht.retracked hu)
    (fun c => { c with size := size, maxSize := maxSize }) (fun _ => rfl) fun _ => ⟨rfl, rfl⟩

theorem keeping_trackSize_level (name : String)
    (cache : Caches CacheKey String Node Failure Document → BoundedCache CacheKey Node)
    (s : Session) : Keeping (Session.Level s) (trackSize name cache) := by
  unfold trackSize
  exact keeping_get.bind fun _ => keeping_recordSize_level _ _ _ s

section Writing

variable {world : World} {s : Session} {shelf : Shelf} {key : CacheKey}

/-- A miss that is recorded is lost until its key is written. -/
theorem ensures_miss (hs : s.Counting) (shelf : Shelf) :
    Ensures (track (·.recordMiss shelf.name)) world s fun result t =>
      result = .ok () ∧ t.Counting ∧ (∀ other : Shelf, other.cache t.caches = other.cache s.caches) ∧
        ∀ other, t.lost other = s.lost other + if other = shelf then 1 else 0 := by
  obtain ⟨u, hu⟩ := hs.tracker.updateCache_ok shelf fun c => { c with misses := c.misses + 1 }
  obtain ⟨hcounting, hexpected⟩ := hs.tracker.updateCache hu 1 fun c evicted _ hevicted =>
    ⟨evicted, hevicted, by
      change ((c.misses + 1 : ℕ) : ℤ) - evicted = c.misses - evicted + 1
      push_cast
      ring⟩
  unfold track
  rw [ensures_get_bind]
  refine (ensures_check_ok_bind hu _ _).mpr ?_
  refine ⟨rfl, ⟨hcounting, hs.caches⟩, fun _ => rfl, fun other => ?_⟩
  change u.expected other - ((other.cache s.caches).size : ℤ) =
    s.tracker.expected other - (other.cache s.caches).size + if other = shelf then 1 else 0
  rw [hexpected]
  by_cases heq : other = shelf
  · rw [if_pos (congrArg Shelf.name heq), if_pos heq]
    ring
  · rw [if_neg fun hname => heq (Shelf.name_inj hname), if_neg heq]
    ring

/-- Write a schema into one of the caches. -/
def keep (shelf : Shelf) (key : CacheKey) (n : Node) : Resolving Unit :=
  match shelf with
  | .schema => keepSchema key n
  | .composition => keepComposition key n
  | .reference => keepReference key n

/-- Writing a key that is not worked on puts no key that is worked on into a cache. -/
theorem vacant_replace {cache : BoundedCache CacheKey Node} {result : Except Fault Nat} {n : Node}
    (hvacant : s.Vacant work) (hfree : ¬work shelf key)
    (hcounted : BoundedCache.Counted ((shelf.cache s.caches).entries ++ [(key, n)]) cache result) :
    ∀ other k, work other k →
      ∀ m, (k, m) ∉ (other.cache (shelf.replace s.caches cache)).entries := by
  intro other k hk m hin
  rw [Shelf.cache_replace] at hin
  split at hin
  · rename_i heq
    subst heq
    rw [hcounted.2] at hin
    rcases List.mem_append.mp (List.mem_of_mem_drop hin) with hold | hnew
    · exact hvacant other k hk m hold
    · obtain ⟨rfl, -⟩ := Prod.mk.inj (List.mem_singleton.mp hnew)
      exact hfree hk
  · exact hvacant other k hk m hin

/-- Writing one entry more makes a cache larger by one less what it drops. -/
theorem size_replace {cache : BoundedCache CacheKey Node} {result : Except Fault Nat} {n : Node}
    (hcounted : BoundedCache.Counted ((shelf.cache s.caches).entries ++ [(key, n)]) cache result)
    (other : Shelf) : ((other.cache (shelf.replace s.caches cache)).size : ℤ) =
      (other.cache s.caches).size + if other = shelf then 1 - (BoundedCache.dropped result : ℤ)
        else 0 := by
  obtain ⟨hle, hentries⟩ := hcounted
  rw [Shelf.cache_replace]
  split
  · rename_i heq
    subst heq
    unfold BoundedCache.size
    rw [hentries, List.length_drop]
    rw [List.length_append, List.length_singleton] at hle ⊢
    omega
  · rw [add_zero]

variable (world) in
/-- Writing a key that is absent makes one lost miss good, also when it fails. -/
theorem ensures_evicting_set (hs : s.Counting) (hvacant : s.Vacant work)
    (habsent : ∀ n, (key, n) ∉ (shelf.cache s.caches).entries) (hfree : ¬work shelf key) (n : Node) :
    Ensures (evicting .fault shelf.name fun c =>
      (shelf.replace c ((shelf.cache c).set key n).1, ((shelf.cache c).set key n).2)) world s
        fun _ t => t.Counting ∧ t.Vacant work ∧
          ∀ other, t.lost other = s.lost other - if other = shelf then 1 else 0 := by
  have hcounted := BoundedCache.counted_set (hs.caches shelf) habsent n
  have henabled := BoundedCache.enabled_set (shelf.cache s.caches) key n
  unfold evicting
  rw [ensures_get_bind]
  dsimp only
  rw [ensures_modify_bind]
  generalize (shelf.cache s.caches).set key n = written at hcounted henabled ⊢
  obtain ⟨cache, result⟩ := written
  dsimp only at hcounted henabled ⊢
  have hopen : (shelf.replace s.caches cache).Open :=
    hs.caches.replace shelf (henabled.trans (hs.caches shelf))
  have hwritten := vacant_replace hvacant hfree hcounted
  have hsize := size_replace hcounted
  cases result with
  | error fault =>
      -- the entry stands, and no eviction was counted
      dsimp only
      rw [ensures_throw]
      refine ⟨⟨hs.tracker, hopen⟩, hwritten, fun other => ?_⟩
      change s.tracker.expected other - ((other.cache (shelf.replace s.caches cache)).size : ℤ) =
        s.tracker.expected other - (other.cache s.caches).size - if other = shelf then 1 else 0
      rw [hsize, BoundedCache.dropped, Nat.cast_zero, sub_zero]
      ring
  | ok count =>
      -- what the cache dropped is what the tracker counts
      dsimp only
      rw [ensures_modify]
      obtain ⟨hcounting, hexpected⟩ := Session.countEvictions_report
        (s := { s with caches := shelf.replace s.caches cache }) hs.tracker shelf count
      refine ⟨⟨hcounting, hopen⟩, hwritten, fun other => ?_⟩
      unfold Session.lost
      rw [hexpected]
      change s.tracker.expected other - _ - ((other.cache (shelf.replace s.caches cache)).size : ℤ) =
        s.tracker.expected other - _ - _
      rw [hsize, BoundedCache.dropped]
      split <;> ring

variable (world) in
/-- Writing a schema under a key that is absent makes one lost miss good, also when it fails. -/
theorem ensures_keep (hs : s.Counting) (hvacant : s.Vacant work)
    (habsent : ∀ n, (key, n) ∉ (shelf.cache s.caches).entries) (hfree : ¬work shelf key) (n : Node) :
    Ensures (keep shelf key n) world s fun _ t => t.Counting ∧ t.Vacant work ∧
      ∀ other, t.lost other = s.lost other - if other = shelf then 1 else 0 := by
  have hset := ensures_evicting_set world hs hvacant habsent hfree n
  have hsized : ∀ t : Session, (t.Counting ∧ t.Vacant work ∧
      ∀ other, t.lost other = s.lost other - if other = shelf then 1 else 0) →
      Ensures (trackSize shelf.name shelf.cache) world t fun _ u => u.Counting ∧ u.Vacant work ∧
        ∀ other, u.lost other = s.lost other - if other = shelf then 1 else 0 := by
    rintro t ⟨ht, hafter, hlost⟩
    have hlevel := keeping_trackSize_level shelf.name shelf.cache t world t ht.level
    exact ⟨hlevel.counting ht, hlevel.vacant hafter, fun other =>
      (hlevel.lost other).trans (hlost other)⟩
  have htimed : Ensures (timed .cacheOperation (evicting .fault shelf.name fun c =>
      (shelf.replace c ((shelf.cache c).set key n).1, ((shelf.cache c).set key n).2))) world s
        fun _ t => t.Counting ∧ t.Vacant work ∧
          ∀ other, t.lost other = s.lost other - if other = shelf then 1 else 0 := by
    rw [ensures_timed]
    refine hset.mono fun result t ht => ?_
    obtain ⟨hcounting, hafter, hlost⟩ := ht
    have hlevel := hcounting.level.retracked
      (hcounting.tracker.track .cacheOperation s.clock t.clock)
    exact ⟨hlevel.counting hcounting, hlevel.vacant hafter, fun other =>
      (hlevel.lost other).trans (hlost other)⟩
  cases shelf with
  | schema => exact Ensures.bind hset (fun _ t ht => hsized t ht) fun _ _ ht => ht
  | composition => exact Ensures.bind htimed (fun _ t ht => hsized t ht) fun _ _ ht => ht
  | reference => exact Ensures.bind htimed (fun _ t ht => hsized t ht) fun _ _ ht => ht

/-- A miss, the work on its key and the writing of the key. -/
theorem ensures_worked {body : Resolving Node} {good : Node → Prop} (hs : s.Counting)
    (hvacant : s.Vacant work) (habsent : ∀ n, (key, n) ∉ (shelf.cache s.caches).entries)
    (hbody : Balanced (work.add shelf key) good body) (hfree : ∀ n, good n → ¬work shelf key) :
    Ensures (do
      track (·.recordMiss shelf.name)
      let n ← body
      keep shelf key n
      return n) world s (Balances work good s) := by
  have hstays : ∀ shelf' key', work shelf' key' → (work.add shelf key) shelf' key' :=
    fun _ _ h => Or.inl h
  refine (ensures_miss hs shelf).bind_ok ?_
  rintro t ⟨ht, hcaches, hmissed⟩
  have hopened : t.Vacant (work.add shelf key) := by
    refine Vacant.add (fun other k hk n => ?_) fun n => ?_
    · rw [hcaches]
      exact hvacant other k hk n
    · rw [hcaches]
      exact habsent n
  refine Ensures.bind (hbody world t ht hopened) ?_ ?_
  · rintro n u ⟨hu, hafter, -, hsuccess⟩
    obtain ⟨hgood, hsame⟩ := hsuccess n rfl
    have hkept := ensures_keep world hu (hafter.mono hstays)
      (hafter shelf key (Or.inr ⟨rfl, rfl⟩)) (hfree n hgood) n
    -- the miss is one more lost, and what was written makes up for it
    have heven : ∀ v : Session, (v.Counting ∧ v.Vacant work ∧
        ∀ other, v.lost other = u.lost other - if other = shelf then 1 else 0) →
        ∀ other, v.lost other = s.lost other := by
      rintro v ⟨-, -, hlost⟩ other
      rw [hlost, hsame, hmissed]
      ring
    refine Ensures.bind hkept ?_ ?_
    · intro _ v hv
      refine ⟨hv.1, hv.2.1, fun other => (heven v hv other).ge, fun m hm => ?_⟩
      rw [← Except.ok.inj hm]
      exact ⟨hgood, heven v hv⟩
    · intro failure v hv
      exact ⟨hv.1, hv.2.1, fun other => (heven v hv other).ge, fun _ heq => nomatch heq⟩
  · rintro failure u ⟨hu, hafter, hlost, -⟩
    refine ⟨hu, hafter.mono hstays, fun other => ?_, fun _ heq => nomatch heq⟩
    refine le_trans ?_ (hlost other)
    rw [hmissed]
    split <;> omega

/-- Serving a key from a cache, or working on it and writing it. -/
theorem Balanced.recalled (shelf : Shelf) (key : CacheKey) {body : Resolving Node}
    {good : Node → Prop} (hbody : Balanced (work.add shelf key) good body)
    (hfree : ∀ n, good n → ¬work shelf key) (hhit : ¬work shelf key → ∀ n, good n) :
    Balanced work good (do
      match ← recallNode shelf.name shelf.cache key with
      | some n => return n
      | none =>
        let n ← body
        keep shelf key n
        return n) := by
  intro world s hs hvacant
  have hlook : Ensures (Resolving.timed .cacheOperation (do
      return (shelf.cache (← get).caches).get? key))
      world s fun result t => result = .ok ((shelf.cache s.caches).get? key) ∧ s.Level t := by
    rw [ensures_timed]
    exact ⟨rfl, hs.level.retracked (hs.tracker.track .cacheOperation s.clock s.clock)⟩
  unfold recallNode
  rw [bind_assoc]
  refine hlook.bind_ok fun t hlevel => ?_
  cases hfound : (shelf.cache s.caches).get? key with
  | some n =>
      -- a key that is worked on is not in its store, so this one is not worked on
      have hpresent : ¬work shelf key :=
        fun hwork => hvacant shelf key hwork n (BoundedCache.mem_of_get hfound)
      dsimp only
      rw [bind_assoc]
      refine Ensures.mono ?_ fun result u hu => Balances.since hu hlevel
      refine ((balanced_aside fun r => keeping_recordHit_level _ r).bind fun _ _ => ?_) world t
        (hlevel.counting hs) (hlevel.vacant hvacant)
      rw [pure_bind]
      exact balanced_pure (hhit hpresent n)
  | none =>
      have habsent : ∀ n, (key, n) ∉ (shelf.cache t.caches).entries := by
        rw [hlevel.caches]
        exact BoundedCache.absent_of_miss (hs.caches shelf) hfound
      dsimp only
      rw [bind_assoc]
      refine Ensures.mono ?_ fun result u hu => Balances.since hu hlevel
      exact ensures_worked (hlevel.counting hs) (hlevel.vacant hvacant) habsent hbody hfree

end Writing

end Resolving

end SchemaGraph
