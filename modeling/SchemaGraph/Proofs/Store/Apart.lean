import SchemaGraph.Proofs.Store.Bounded
import SchemaGraph.Proofs.Store.Counted

/-!
# Failures apart from what is resolved

The store of failures and the cache of references are turned on and off together, and no key stands in
both.  Dropping entries keeps this, and so does the writing of a key that the other store does not hold.
A store that is turned off takes nothing, so then it does not matter which key is written.
-/

namespace SchemaGraph

namespace BoundedCache

variable {κ α : Type}

theorem mem_keys_set [BEq κ] [LawfulBEq κ] {c : BoundedCache κ α} {key other : κ} {item : α}
    (h : other ∈ (c.set key item).1.keys) :
    c.enabled = true ∧ other = key ∨ other ∈ c.keys := by
  obtain ⟨entries, result, heq, hentries, hdisabled, -⟩ := c.set_cases key item
  rw [heq] at h
  obtain ⟨entry, hentry, rfl⟩ := List.mem_map.mp h
  cases henabled : c.enabled with
  | false =>
      rw [hdisabled henabled] at hentry
      exact Or.inr (List.mem_map_of_mem hentry)
  | true =>
      rcases hentries entry hentry with rfl | hin
      · exact Or.inl ⟨rfl, rfl⟩
      · exact Or.inr (List.mem_map_of_mem hin)

theorem not_mem_keys_of_miss [BEq κ] [LawfulBEq κ] {c : BoundedCache κ α} {key : κ}
    (h : c.get? key = none) (henabled : c.enabled = true) : key ∉ c.keys := by
  intro hkey
  obtain ⟨entry, hentry, rfl⟩ := List.mem_map.mp hkey
  exact absent_of_miss henabled h entry.2 hentry

theorem keys_shrinkTo (c : BoundedCache κ α) (bound : Value) :
    (c.shrinkTo bound).1.keys ⊆ c.keys := by
  obtain ⟨entries, result, heq, hless⟩ := c.shrinkTo_cases bound
  rw [heq]
  exact List.map_subset _ hless

theorem keys_evictFraction (c : BoundedCache κ α) (fraction : Value) :
    (c.evictFraction fraction).1.keys ⊆ c.keys := by
  obtain ⟨entries, result, heq, hless⟩ := c.evictFraction_cases fraction
  rw [heq]
  exact List.map_subset _ hless

end BoundedCache

namespace Caches

variable {κ ι ν φ δ : Type}

/-- Whether failures are told apart from what is resolved, and none is remembered if the settings say
so. -/
structure Apart (c : Caches κ ι ν φ δ) : Prop where
  references : c.references.enabled = c.settings.enabled.truthy
  failures : c.failures.enabled = c.settings.enabled.truthy
  forgotten : c.settings.cacheExternalFailures.truthy = false → c.failures.keys = []
  disjoint : List.Disjoint c.failures.keys c.references.keys

theorem apart_empty (settings : CacheSettings) : (empty settings : Caches κ ι ν φ δ).Apart :=
  ⟨rfl, rfl, fun _ => rfl, List.disjoint_nil_left _⟩

/-- Failures are remembered where the caches are on and the settings say so. -/
theorem truthy_cacheExternalFailures (c : Caches κ ι ν φ δ) :
    c.cacheExternalFailures.truthy =
      (c.settings.enabled.truthy && c.settings.cacheExternalFailures.truthy) := by
  unfold cacheExternalFailures Value.andThen
  cases henabled : c.settings.enabled.truthy with
  | false => exact henabled
  | true => rfl

namespace Apart

variable {c : Caches κ ι ν φ δ} (h : c.Apart)
include h

/-- Entries that are dropped. -/
theorem drop (references : BoundedCache κ ν) (failures : BoundedCache κ φ)
    (henabled : references.enabled = c.references.enabled ∧ failures.enabled = c.failures.enabled)
    (hkeys : references.keys ⊆ c.references.keys ∧ failures.keys ⊆ c.failures.keys) :
    ({ c with references := references, failures := failures } : Caches κ ι ν φ δ).Apart where
  references := henabled.1.trans h.references
  failures := henabled.2.trans h.failures
  forgotten := fun hoff => List.subset_nil.mp (h.forgotten hoff ▸ hkeys.2)
  disjoint := List.disjoint_of_subset_left hkeys.2 (List.disjoint_of_subset_right hkeys.1 h.disjoint)

theorem clearAll : c.clearAll.Apart :=
  ⟨h.references, h.failures, fun _ => rfl, List.disjoint_nil_left _⟩

theorem evictShare (fraction : Value) : (c.evictShare fraction).1.Apart := by
  have hkeys := c.references.keys_evictFraction fraction
  have henabled : (c.references.evictFraction fraction).1.enabled = c.references.enabled := by
    obtain ⟨entries, result, heq, -⟩ := c.references.evictFraction_cases fraction
    rw [heq]
  unfold Caches.evictShare
  split
  · rename_i heq
    rw [heq] at hkeys henabled
    have hdropped := h.drop _ c.failures ⟨henabled, rfl⟩ ⟨hkeys, List.Subset.refl _⟩
    exact ⟨hdropped.references, hdropped.failures, hdropped.forgotten, hdropped.disjoint⟩
  all_goals exact h

omit h in
theorem bounding (v : Value) : Bounding v (Apart : Caches κ ι ν φ δ → Prop) where
  bound := fun h => ⟨h.references, h.failures, h.forgotten, h.disjoint⟩
  schemas := fun h => ⟨h.references, h.failures, h.forgotten, h.disjoint⟩
  compositions := fun h => ⟨h.references, h.failures, h.forgotten, h.disjoint⟩
  references := fun {c} h => h.drop _ c.failures ⟨c.references.enabled_shrinkTo v, rfl⟩
    ⟨c.references.keys_shrinkTo v, List.Subset.refl _⟩
  failures := fun {c} h => h.drop c.references _ ⟨rfl, c.failures.enabled_shrinkTo v⟩
    ⟨List.Subset.refl _, c.failures.keys_shrinkTo v⟩
  documents := fun h => ⟨h.references, h.failures, h.forgotten, h.disjoint⟩

theorem configure (enabled maxSize : Value) : (c.configure enabled maxSize).1.Apart := by
  refine keeps_configure (fun _ _ => bounding maxSize) (fun _ c h => ?_) h
  exact ⟨rfl, rfl, h.forgotten, h.disjoint⟩

/-- A key that the store of failures does not hold may be written as resolved. -/
theorem setReference [BEq κ] [LawfulBEq κ] {key : κ} (item : ν)
    (habsent : c.settings.enabled.truthy = true → key ∉ c.failures.keys) :
    ({ c with references := (c.references.set key item).1 } : Caches κ ι ν φ δ).Apart where
  references := (c.references.enabled_set key item).trans h.references
  failures := h.failures
  forgotten := h.forgotten
  disjoint := by
    intro other hfailure hreference
    rcases BoundedCache.mem_keys_set hreference with ⟨henabled, rfl⟩ | hin
    · exact habsent (h.references.symm.trans henabled) hfailure
    · exact h.disjoint hfailure hin

/-- A key that the cache of references does not hold may be remembered as failed. -/
theorem rememberFailure [BEq κ] [LawfulBEq κ] {key : κ} (failure : φ)
    (habsent : c.settings.enabled.truthy = true → key ∉ c.references.keys) :
    (c.rememberFailure key failure).1.Apart := by
  unfold Caches.rememberFailure
  split
  · rename_i hcached
    rw [truthy_cacheExternalFailures, Bool.and_eq_true] at hcached
    refine ⟨h.references, (c.failures.enabled_set key failure).trans h.failures, ?_, ?_⟩
    · intro hoff
      rw [hcached.2] at hoff
      cases hoff
    · intro other hfailure hreference
      rcases BoundedCache.mem_keys_set hfailure with ⟨-, rfl⟩ | hin
      · exact habsent hcached.1 hreference
      · exact h.disjoint hin hreference
  · exact h

/-- A failure that is not found is not there, if the caches are on. -/
theorem not_mem_failures [BEq κ] [LawfulBEq κ] {key : κ} (hmiss : c.failure? key = none)
    (henabled : c.settings.enabled.truthy = true) : key ∉ c.failures.keys := by
  unfold failure? at hmiss
  rw [truthy_cacheExternalFailures, henabled, Bool.true_and] at hmiss
  cases hcached : c.settings.cacheExternalFailures.truthy with
  | false =>
      rw [h.forgotten hcached]
      exact List.not_mem_nil
  | true =>
      rw [if_pos hcached] at hmiss
      exact BoundedCache.not_mem_keys_of_miss hmiss (h.failures.trans henabled)

end Apart

end Caches

end SchemaGraph
