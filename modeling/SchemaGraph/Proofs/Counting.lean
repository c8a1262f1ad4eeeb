import SchemaGraph.Proofs.Keeping
import SchemaGraph.Proofs.Store.Shelves

/-!
# Counters and entries

A cache that counts should hold as many entries as were missed and not evicted.  The misses that no
entry accounts for are lost.  An operation is balanced if it never makes a lost miss good, and loses
none when it succeeds.

Between a miss and the writing of the key anything may happen, and this key must still be absent
then.  So an operation is balanced for a set of keys that are being worked on: they are absent before
it and after it.
-/

namespace SchemaGraph

open Resolving

namespace Tracker

/-- Records that count for every shelf. -/
structure Counting (t : Tracker) : Prop where
  enabled : t.enabled = true
  counters : ∀ shelf : Shelf, ∃ c, Ordered.get? shelf.name t.caches = some c ∧
    ∃ evicted : Nat, c.evictions = .int evicted

/-- The number of entries that a shelf should hold: as many as were missed and not evicted. -/
def expected (t : Tracker) (shelf : Shelf) : Int :=
  match Ordered.get? shelf.name t.caches with
  | some ⟨_, misses, .int evicted, _, _⟩ => misses - evicted
  | _ => 0

variable {t u : Tracker}

theorem expected_eq {shelf : Shelf} {c : CacheCounters} {evicted : Int}
    (hc : Ordered.get? shelf.name t.caches = some c) (hevicted : c.evictions = .int evicted) :
    t.expected shelf = c.misses - evicted := by
  obtain ⟨hits, misses, evictions, size, maxSize⟩ := c
  dsimp only at hevicted
  subst hevicted
  unfold expected
  rw [hc]

theorem counting_start : (start true).Counting where
  enabled := rfl
  counters := fun shelf => ⟨{}, by cases shelf <;> rfl, 0, rfl⟩

/-- A change of the counters of one cache. -/
theorem Counting.updateCache (h : t.Counting) {name : String}
    {change : CacheCounters → CacheCounters} (hu : t.updateCache name change = .ok u) (moved : Int)
    (hchange : ∀ c, ∀ evicted : Nat, Ordered.get? name t.caches = some c →
      c.evictions = .int evicted → ∃ evicted' : Nat, (change c).evictions = .int evicted' ∧
        ((change c).misses : Int) - evicted' = c.misses - evicted + moved) :
    u.Counting ∧ ∀ shelf : Shelf,
      u.expected shelf = t.expected shelf + if shelf.name = name then moved else 0 := by
  unfold Tracker.updateCache at hu
  rw [h.enabled, if_neg (by decide)] at hu
  cases hcounters : Ordered.get? name t.caches with
  | none =>
      rw [hcounters] at hu
      cases hu
  | some counters =>
      rw [hcounters] at hu
      obtain rfl := Except.ok.inj hu
      have hget : ∀ shelf : Shelf, ∃ c, ∃ evicted : Nat,
          Ordered.get? shelf.name (Ordered.write name (change counters) t.caches) = some c ∧
            c.evictions = .int evicted ∧
              (c.misses : Int) - evicted =
                t.expected shelf + if shelf.name = name then moved else 0 := by
        intro shelf
        obtain ⟨c, hc, evicted, hevicted⟩ := h.counters shelf
        rw [Ordered.get_write, t.expected_eq hc hevicted]
        by_cases hname : shelf.name = name
        · rw [if_pos hname, if_pos hname]
          rw [hname, hcounters] at hc
          obtain rfl := Option.some.inj hc
          obtain ⟨evicted', hevicted', hmoved⟩ := hchange counters evicted hcounters hevicted
          exact ⟨_, evicted', rfl, hevicted', hmoved⟩
        · rw [if_neg hname, if_neg hname]
          exact ⟨c, evicted, hc, hevicted, (add_zero _).symm⟩
      refine ⟨⟨rfl, fun shelf => ?_⟩, fun shelf => ?_⟩
      · obtain ⟨c, evicted, hc, hevicted, -⟩ := hget shelf
        exact ⟨c, hc, evicted, hevicted⟩
      · obtain ⟨c, evicted, hc, hevicted, hexpected⟩ := hget shelf
        rw [← hexpected]
        exact expected_eq hc hevicted

theorem Counting.updateCache_ok (h : t.Counting) (shelf : Shelf)
    (change : CacheCounters → CacheCounters) : ∃ u, t.updateCache shelf.name change = .ok u := by
  obtain ⟨c, hc, -⟩ := h.counters shelf
  unfold Tracker.updateCache
  rw [h.enabled, if_neg (by decide), hc]
  exact ⟨_, rfl⟩

/-- What is recorded beside the counters does not matter. -/
theorem Counting.of_same (h : t.Counting) (henabled : u.enabled = t.enabled)
    (hcaches : u.caches = t.caches) :
    u.Counting ∧ ∀ shelf : Shelf, u.expected shelf = t.expected shelf := by
  refine ⟨⟨henabled.trans h.enabled, hcaches ▸ h.counters⟩, fun shelf => ?_⟩
  unfold expected
  rw [hcaches]

theorem same_track (t : Tracker) (operation : Operation) (started now : Binary64) :
    (t.track operation started now).enabled = t.enabled ∧
      (t.track operation started now).caches = t.caches := by
  unfold Tracker.track
  split <;> exact ⟨rfl, rfl⟩

theorem Counting.track (h : t.Counting) (operation : Operation) (started now : Binary64) :
    (t.track operation started now).Counting ∧
      ∀ shelf : Shelf, (t.track operation started now).expected shelf = t.expected shelf :=
  h.of_same (t.same_track operation started now).1 (t.same_track operation started now).2

/-- A change of counters that touches neither misses nor evictions. -/
theorem Counting.updateCache_same (h : t.Counting) {name : String}
    {change : CacheCounters → CacheCounters}
    (hchange : ∀ c, (change c).misses = c.misses ∧ (change c).evictions = c.evictions)
    (hu : t.updateCache name change = .ok u) :
    u.Counting ∧ ∀ shelf : Shelf, u.expected shelf = t.expected shelf := by
  obtain ⟨hcounting, hexpected⟩ := h.updateCache hu 0 fun c evicted _ hevicted =>
    ⟨evicted, (hchange c).2.trans hevicted, by rw [(hchange c).1, add_zero]⟩
  refine ⟨hcounting, fun shelf => ?_⟩
  rw [hexpected, ite_self, add_zero]

/-- Evicted entries are taken off what a shelf should hold. -/
theorem Counting.recordEviction (h : t.Counting) (shelf : Shelf) (count : Nat) :
    ∃ u, t.recordEviction shelf.name (.ofNat count) = .ok u ∧ u.Counting ∧
      ∀ other, u.expected other = t.expected other - if other = shelf then count else 0 := by
  obtain ⟨c, hc, evicted, hevicted⟩ := h.counters shelf
  obtain ⟨u, hu⟩ := h.updateCache_ok shelf
    fun c => { c with evictions := .int ((evicted : Int) + count) }
  have hchange : ∀ c', ∀ evicted' : Nat, Ordered.get? shelf.name t.caches = some c' →
      c'.evictions = .int evicted' → ∃ total : Nat,
        Number.int ((evicted : Int) + count) = .int total ∧
          (c'.misses : Int) - total = c'.misses - evicted' + -(count : Int) := by
    intro c' evicted' hc' hevicted'
    rw [hc, Option.some.injEq] at hc'
    subst hc'
    obtain rfl : evicted = evicted' := by
      simpa using Number.int.inj (hevicted.symm.trans hevicted')
    refine ⟨evicted + count, by push_cast; rfl, ?_⟩
    push_cast
    ring
  obtain ⟨hcounting, hexpected⟩ := h.updateCache hu (-(count : Int)) hchange
  refine ⟨u, ?_, hcounting, fun other => ?_⟩
  · unfold Tracker.recordEviction
    rw [hc]
    dsimp only
    rw [h.enabled, if_neg (by decide), hevicted]
    exact hu
  · rw [hexpected]
    by_cases heq : other = shelf
    · rw [if_pos (congrArg Shelf.name heq), if_pos heq]
      rfl
    · rw [if_neg fun hname => heq (Shelf.name_inj hname), if_neg heq]
      rfl

end Tracker

namespace Session

/-- A session whose records count and whose caches are on. -/
structure Counting (s : Session) : Prop where
  tracker : s.tracker.Counting
  caches : s.caches.Open

/-- The misses of a shelf that no entry accounts for. -/
def lost (s : Session) (shelf : Shelf) : Int :=
  s.tracker.expected shelf - (shelf.cache s.caches).size

theorem counting_start {config : Config} (hcache : config.cache.enabled.truthy = true)
    (hmetrics : config.metrics.enabled.truthy = true) (memory : Number × Number) (nextId : Nat) :
    (Session.start config memory nextId).Counting where
  tracker := by
    unfold Session.start
    dsimp only
    rw [hmetrics]
    exact Tracker.counting_start
  caches := fun shelf => by cases shelf <;> exact hcache

theorem lost_start (config : Config) (memory : Number × Number) (nextId : Nat) (shelf : Shelf) :
    (Session.start config memory nextId).lost shelf = 0 := by
  cases shelf <;> rfl

/-- Keys of shelves that are being worked on. -/
abbrev Work := Shelf → CacheKey → Prop

/-- Some keys with one more. -/
def Work.add (work : Work) (shelf : Shelf) (key : CacheKey) : Work :=
  fun other k => work other k ∨ other = shelf ∧ k = key

/-- Whether none of some keys is present. -/
def Vacant (work : Work) (s : Session) : Prop :=
  ∀ shelf key, work shelf key → ∀ n, (key, n) ∉ (shelf.cache s.caches).entries

variable {s t : Session} {work : Work}

theorem Vacant.mono {less : Work} (h : s.Vacant work)
    (hless : ∀ shelf key, less shelf key → work shelf key) : s.Vacant less :=
  fun shelf key hkey => h shelf key (hless shelf key hkey)

theorem Vacant.add (h : s.Vacant work) {shelf : Shelf} {key : CacheKey}
    (habsent : ∀ n, (key, n) ∉ (shelf.cache s.caches).entries) : s.Vacant (work.add shelf key) := by
  rintro other k (hwork | ⟨rfl, rfl⟩)
  · exact h other k hwork
  · exact habsent

/-- Whether two sessions have the same shelves and have counted the same for them. -/
structure Abreast (s t : Session) : Prop where
  enabled : t.tracker.enabled = s.tracker.enabled
  counters : t.tracker.caches = s.tracker.caches
  shelves : ∀ shelf : Shelf, shelf.cache t.caches = shelf.cache s.caches

/-- Whether nothing has changed that bears on what is lost. -/
structure Level (s t : Session) : Prop where
  tracker : t.tracker.Counting
  expected : ∀ shelf, t.tracker.expected shelf = s.tracker.expected shelf
  caches : ∀ shelf : Shelf, shelf.cache t.caches = shelf.cache s.caches

theorem Counting.level (h : s.Counting) : s.Level s := ⟨h.tracker, fun _ => rfl, fun _ => rfl⟩

namespace Level

variable (h : s.Level t)
include h

theorem counting (hs : s.Counting) : t.Counting :=
  ⟨h.tracker, fun shelf => by rw [h.caches]; exact hs.caches shelf⟩

theorem lost (shelf : Shelf) : t.lost shelf = s.lost shelf := by
  unfold Session.lost
  rw [h.expected, h.caches]

theorem vacant (hs : s.Vacant work) : t.Vacant work :=
  fun shelf key hkey => by rw [h.caches]; exact hs shelf key hkey

theorem retracked {u : Tracker}
    (hu : u.Counting ∧ ∀ shelf, u.expected shelf = t.tracker.expected shelf) :
    s.Level (t.retracked u) :=
  ⟨hu.1, fun shelf => (hu.2 shelf).trans (h.expected shelf), h.caches⟩

theorem of_abreast {v : Session} (hsame : t.Abreast v) : s.Level v := by
  obtain ⟨hcounting, hexpected⟩ := h.tracker.of_same hsame.enabled hsame.counters
  exact ⟨hcounting, fun shelf => (hexpected shelf).trans (h.expected shelf),
    fun shelf => (hsame.shelves shelf).trans (h.caches shelf)⟩

end Level

theorem inward_level (s : Session) : Inward (Level s) :=
  fun _ _ _ _ _ ht => ht.of_abreast ⟨rfl, rfl, fun _ => rfl⟩

theorem countEvictions_report (h : s.tracker.Counting) (shelf : Shelf) (count : Nat) :
    (s.countEvictions (Caches.report shelf.name count)).tracker.Counting ∧
      ∀ other, (s.countEvictions (Caches.report shelf.name count)).tracker.expected other =
        s.tracker.expected other - if other = shelf then count else 0 := by
  obtain ⟨u, hu, hcounting, hexpected⟩ := h.recordEviction shelf count
  by_cases hzero : count = 0
  · subst hzero
    refine ⟨h, fun other => ?_⟩
    rw [ite_self]
    exact (sub_zero _).symm
  · have htracker : (s.countEvictions (Caches.report shelf.name count)).tracker = u := by
      unfold countEvictions Caches.report
      rw [if_neg hzero]
      dsimp only [List.foldl]
      rw [hu]
    rw [htracker]
    exact ⟨hcounting, hexpected⟩

/-- Counting the evictions of all shelves takes them off what these should hold. -/
theorem countEvictions_reports (h : s.tracker.Counting) (counts : Shelf → Nat) :
    (s.countEvictions (Caches.reports counts)).tracker.Counting ∧
      ∀ shelf, (s.countEvictions (Caches.reports counts)).tracker.expected shelf =
        s.tracker.expected shelf - counts shelf := by
  have happend : ∀ (r : Session) (front back : List Eviction),
      r.countEvictions (front ++ back) = (r.countEvictions front).countEvictions back := by
    intro r front back
    unfold countEvictions
    rw [List.foldl_append]
  obtain ⟨h₁, hfirst⟩ := countEvictions_report h .schema (counts .schema)
  obtain ⟨h₂, hsecond⟩ := countEvictions_report h₁ .composition (counts .composition)
  obtain ⟨h₃, hthird⟩ := countEvictions_report h₂ .reference (counts .reference)
  unfold Caches.reports
  rw [happend, happend]
  refine ⟨h₃, fun shelf => ?_⟩
  refine (hthird shelf).trans ?_
  rw [hsecond, hfirst]
  cases shelf <;> simp

/-- Whether a session counts and has lost as much as another. -/
structure Even (s t : Session) : Prop where
  counting : t.Counting
  lost : ∀ shelf, t.lost shelf = s.lost shelf

theorem Counting.even (h : s.Counting) : s.Even s := ⟨h, fun _ => rfl⟩

theorem Even.trans {u : Session} (h : s.Even t) (h' : t.Even u) : s.Even u :=
  ⟨h'.counting, fun shelf => (h'.lost shelf).trans (h.lost shelf)⟩

theorem Level.even (h : s.Level t) (hs : s.Counting) : s.Even t := ⟨h.counting hs, h.lost⟩

/-- Dropping entries from the shelves and counting them loses nothing. -/
theorem even_evicted (hs : s.Counting) {caches : Caches CacheKey String Node Failure Document}
    {evictions : List Eviction} (h : s.caches.Evicted caches evictions) (hopen : caches.Open) :
    s.Even ({ s with caches := caches }.countEvictions evictions) := by
  obtain ⟨counts, rfl, hcounts⟩ := h
  obtain ⟨hcounting, hexpected⟩ :=
    countEvictions_reports (s := { s with caches := caches }) hs.tracker counts
  refine ⟨⟨hcounting, hopen⟩, fun shelf => ?_⟩
  obtain ⟨hle, heq⟩ := hcounts shelf
  unfold lost
  rw [hexpected]
  change s.tracker.expected shelf - counts shelf - ((shelf.cache caches).entries.length : ℤ) = _
  rw [heq, List.length_drop]
  unfold BoundedCache.size at hle ⊢
  omega

end Session

end SchemaGraph
