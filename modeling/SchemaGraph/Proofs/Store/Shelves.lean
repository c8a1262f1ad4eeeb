import SchemaGraph.Proofs.Store.Bounded
import SchemaGraph.Proofs.Store.Counted

/-!
# The caches that are counted

Three caches hold resolved schemas and report what they evict under their names.  Each is a shelf of
the whole.  Freeing memory, a new bound and turning caches on report for each shelf what was dropped
from it, also when they fail on the way.
-/

namespace SchemaGraph

/-- The caches that report what they evict. -/
inductive Shelf where
  | schema
  | composition
  | reference
  deriving DecidableEq, Repr

namespace Shelf

/-- The name under which a cache reports. -/
def name : Shelf → String
  | .schema => "schema"
  | .composition => "composition"
  | .reference => "reference"

theorem name_inj {shelf other : Shelf} (h : shelf.name = other.name) : shelf = other := by
  cases shelf <;> cases other <;> first | rfl | exact absurd h (by decide)

variable {κ ι ν φ δ : Type}

/-- The cache itself. -/
def cache (shelf : Shelf) (c : Caches κ ι ν φ δ) : BoundedCache κ ν :=
  match shelf with
  | .schema => c.schemas
  | .composition => c.compositions
  | .reference => c.references

/-- The caches with one of them replaced. -/
def replace (shelf : Shelf) (c : Caches κ ι ν φ δ) (cache : BoundedCache κ ν) :
    Caches κ ι ν φ δ :=
  match shelf with
  | .schema => { c with schemas := cache }
  | .composition => { c with compositions := cache }
  | .reference => { c with references := cache }

theorem cache_replace (shelf other : Shelf) (c : Caches κ ι ν φ δ) (b : BoundedCache κ ν) :
    other.cache (shelf.replace c b) = if other = shelf then b else other.cache c := by
  cases shelf <;> cases other <;> rfl

end Shelf

namespace Caches

variable {κ ι ν φ δ : Type}

/-- The reports of all shelves. -/
def reports (counts : Shelf → Nat) : List Eviction :=
  report "schema" (counts .schema) ++ report "composition" (counts .composition) ++
    report "reference" (counts .reference)

/-- Whether entries were dropped from each shelf of some caches, as many as were reported. -/
def Evicted (c c' : Caches κ ι ν φ δ) (evictions : List Eviction) : Prop :=
  ∃ counts : Shelf → Nat, evictions = reports counts ∧
    ∀ shelf : Shelf, counts shelf ≤ (shelf.cache c).size ∧
      (shelf.cache c').entries = (shelf.cache c).entries.drop (counts shelf)

theorem evicted_refl (c : Caches κ ι ν φ δ) : Evicted c c [] :=
  ⟨fun _ => 0, rfl, fun _ => ⟨Nat.zero_le _, rfl⟩⟩

/-- Counts for the shelves, one by one. -/
def shelfCounts (m n k : Nat) : Shelf → Nat
  | .schema => m
  | .composition => n
  | .reference => k

theorem evicted_of_counted {ε : Type} {c c' : Caches κ ι ν φ δ} {m n k : Except ε Nat}
    {evictions : List Eviction}
    (hevictions : evictions = reports (shelfCounts (BoundedCache.dropped m)
      (BoundedCache.dropped n) (BoundedCache.dropped k)))
    (hschemas : BoundedCache.Counted c.schemas.entries c'.schemas m)
    (hcompositions : BoundedCache.Counted c.compositions.entries c'.compositions n)
    (hreferences : BoundedCache.Counted c.references.entries c'.references k) :
    Evicted c c' evictions := by
  refine ⟨_, hevictions, fun shelf => ?_⟩
  cases shelf with
  | schema => exact hschemas
  | composition => exact hcompositions
  | reference => exact hreferences

theorem evicted_evictShare (c : Caches κ ι ν φ δ) :
    Evicted c (c.evictShare cleanupShare).1 (c.evictShare cleanupShare).2.1 := by
  have hschemas := c.schemas.counted_evictFraction cleanupShare
  have hcompositions := c.compositions.counted_evictFraction cleanupShare
  have hreferences := c.references.counted_evictFraction cleanupShare
  unfold evictShare
  generalize c.schemas.evictFraction cleanupShare = schemas at hschemas ⊢
  generalize c.compositions.evictFraction cleanupShare = compositions at hcompositions ⊢
  generalize c.references.evictFraction cleanupShare = references at hreferences ⊢
  obtain ⟨schemas, m | m⟩ := schemas
  · exact evicted_refl c
  obtain ⟨compositions, n | n⟩ := compositions
  · exact evicted_refl c
  obtain ⟨references, k | k⟩ := references
  · exact evicted_refl c
  exact evicted_of_counted rfl hschemas hcompositions hreferences

/-- A bound that is not below one drops from each shelf as much as is reported. -/
theorem evicted_shrinkAll (c : Caches κ ι ν φ δ) {bound : Value} {n : Number}
    (hnumber : bound.number = .ok n) (hbound : Number.lt n (.int 1) = false) :
    Evicted c (c.shrinkAll bound).1 (c.shrinkAll bound).2.1 := by
  have hschemas := c.schemas.counted_shrinkTo hnumber hbound
  have hcompositions := c.compositions.counted_shrinkTo hnumber hbound
  have hreferences := c.references.counted_shrinkTo hnumber hbound
  have hsame : ∀ cache : BoundedCache κ ν,
      BoundedCache.Counted cache.entries cache (Except.ok (ε := Fault) 0) :=
    fun cache => ⟨Nat.zero_le _, rfl⟩
  unfold shrinkAll
  dsimp only
  generalize c.schemas.shrinkTo bound = schemas at hschemas ⊢
  generalize c.compositions.shrinkTo bound = compositions at hcompositions ⊢
  generalize c.references.shrinkTo bound = references at hreferences ⊢
  obtain ⟨schemas, f | m⟩ := schemas
  · exact evicted_of_counted rfl hschemas (hsame _) (hsame _)
  obtain ⟨compositions, f | n⟩ := compositions
  · refine evicted_of_counted ?_ hschemas hcompositions (hsame _)
    exact ((List.append_nil _).trans (List.append_nil _)).symm
  obtain ⟨references, f | k⟩ := references
  · exact evicted_of_counted (List.append_nil _).symm hschemas hcompositions hreferences
  dsimp only
  split
  · exact evicted_of_counted rfl hschemas hcompositions hreferences
  · exact evicted_of_counted rfl hschemas hcompositions hreferences

/-- New settings drop from each shelf as much as is reported. -/
theorem evicted_configure (c : Caches κ ι ν φ δ) (enabled maxSize : Value) :
    Evicted c (c.configure enabled maxSize).1 (c.configure enabled maxSize).2.1 := by
  have hswitch : ∀ (c' : Caches κ ι ν φ δ) evictions, Evicted c c' evictions →
      Evicted c (if enabled.isNull then c' else c'.setEnabled enabled) evictions := by
    rintro c' evictions ⟨counts, hevictions, hcounts⟩
    refine ⟨counts, hevictions, fun shelf => ?_⟩
    split
    · exact hcounts shelf
    · cases shelf <;> exact hcounts _
  unfold configure
  dsimp only
  split
  · exact hswitch c [] (evicted_refl c)
  · split
    · exact evicted_refl c
    · rename_i n hnumber
      split
      · exact evicted_refl c
      · rename_i hbound
        have hshrunk := c.evicted_shrinkAll hnumber (by simpa using hbound)
        generalize c.shrinkAll maxSize = result at hshrunk ⊢
        obtain ⟨c', evictions, f | u⟩ := result
        · exact hshrunk
        · exact hswitch c' evictions hshrunk

section Enabled

variable {c : Caches κ ι ν φ δ}

/-- Whether all shelves show and take entries. -/
def Open (c : Caches κ ι ν φ δ) : Prop := ∀ shelf : Shelf, (shelf.cache c).enabled = true

theorem Open.replace (h : c.Open) (shelf : Shelf) {cache : BoundedCache κ ν}
    (hcache : cache.enabled = true) : (shelf.replace c cache).Open := by
  intro other
  rw [Shelf.cache_replace]
  split
  · exact hcache
  · exact h other

theorem enabled_evictShare (c : Caches κ ι ν φ δ) (fraction : Value) (shelf : Shelf) :
    (shelf.cache (c.evictShare fraction).1).enabled = (shelf.cache c).enabled := by
  have hsame : ∀ cache : BoundedCache κ ν, (cache.evictFraction fraction).1.enabled =
      cache.enabled := by
    intro cache
    obtain ⟨entries, result, heq, -⟩ := cache.evictFraction_cases fraction
    rw [heq]
  have hschemas := hsame c.schemas
  have hcompositions := hsame c.compositions
  have hreferences := hsame c.references
  unfold Caches.evictShare
  generalize c.schemas.evictFraction fraction = schemas at hschemas ⊢
  generalize c.compositions.evictFraction fraction = compositions at hcompositions ⊢
  generalize c.references.evictFraction fraction = references at hreferences ⊢
  obtain ⟨schemas, m | m⟩ := schemas
  · rfl
  obtain ⟨compositions, n | n⟩ := compositions
  · rfl
  obtain ⟨references, k | k⟩ := references
  · rfl
  cases shelf with
  | schema => exact hschemas
  | composition => exact hcompositions
  | reference => exact hreferences

theorem settings_evictShare (c : Caches κ ι ν φ δ) (fraction : Value) :
    (c.evictShare fraction).1.settings = c.settings := by
  unfold Caches.evictShare
  split <;> rfl

theorem Open.evictShare (h : c.Open) (fraction : Value) : (c.evictShare fraction).1.Open :=
  fun shelf => (enabled_evictShare c fraction shelf).trans (h shelf)

/-- A new bound keeps what depends on no more than which shelves are on and whether they should be. -/
theorem bounding_of_enabled {keeps : Caches κ ι ν φ δ → Prop}
    (h : ∀ {c c' : Caches κ ι ν φ δ}, c'.settings.enabled = c.settings.enabled →
      (∀ shelf : Shelf, (shelf.cache c').enabled = (shelf.cache c).enabled) → keeps c → keeps c')
    (v : Value) : Bounding v keeps := by
  refine ⟨h rfl fun shelf => ?_, h rfl fun shelf => ?_, h rfl fun shelf => ?_,
    h rfl fun shelf => ?_, h rfl fun shelf => ?_, h rfl fun shelf => ?_⟩
  all_goals
    cases shelf <;> first | rfl | exact BoundedCache.enabled_shrinkTo _ v

theorem open_bounding (v : Value) : Bounding v (Open : Caches κ ι ν φ δ → Prop) :=
  bounding_of_enabled (fun _ hsame h shelf => (hsame shelf).trans (h shelf)) v

/-- New settings that do not turn the caches off leave them on. -/
theorem Open.configure (h : c.Open) {enabled : Value}
    (henabled : enabled.isNull = true ∨ enabled.truthy = true) (maxSize : Value) :
    (c.configure enabled maxSize).1.Open := by
  refine keeps_configure (fun _ _ => open_bounding maxSize) (fun hnull c _ => ?_) h
  have htruthy := henabled.resolve_left (by simp [hnull])
  intro shelf
  cases shelf <;> exact htruthy

/-- Whether each shelf is on exactly if the settings say so. -/
def Switched (c : Caches κ ι ν φ δ) : Prop :=
  ∀ shelf : Shelf, (shelf.cache c).enabled = c.settings.enabled.truthy

theorem Switched.of_same (h : c.Switched) {c' : Caches κ ι ν φ δ}
    (hsettings : c'.settings.enabled = c.settings.enabled)
    (hsame : ∀ shelf : Shelf, (shelf.cache c').enabled = (shelf.cache c).enabled) :
    c'.Switched := by
  intro shelf
  rw [hsame shelf, hsettings]
  exact h shelf

theorem Switched.replace (h : c.Switched) (shelf : Shelf) {cache : BoundedCache κ ν}
    (hcache : cache.enabled = (shelf.cache c).enabled) : (shelf.replace c cache).Switched := by
  refine h.of_same (by cases shelf <;> rfl) fun other => ?_
  rw [Shelf.cache_replace]
  split
  · rename_i heq
    rw [hcache, heq]
  · rfl

theorem Switched.evictShare (h : c.Switched) (fraction : Value) :
    (c.evictShare fraction).1.Switched :=
  h.of_same (congrArg CacheSettings.enabled (settings_evictShare c fraction))
    (enabled_evictShare c fraction)

theorem Switched.configure (h : c.Switched) (enabled maxSize : Value) :
    (c.configure enabled maxSize).1.Switched := by
  have hbounding : Bounding maxSize (Switched : Caches κ ι ν φ δ → Prop) :=
    bounding_of_enabled (fun hsettings hsame h => h.of_same hsettings hsame) maxSize
  refine keeps_configure (fun _ _ => hbounding) (fun _ c _ shelf => ?_) h
  cases shelf <;> rfl

end Enabled

end Caches

end SchemaGraph
