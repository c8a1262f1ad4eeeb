import SchemaGraph.Proofs.Store.Bounded
import SchemaGraph.Store.Caches

/-!
# Caches within their bounds

A cache whose bound is an integer and that is within it stays within it when an entry is written: there
is at most one entry too many then, and at least one is dropped.  Under a new bound as many entries are
dropped as no longer fit.  The other operations add nothing.
-/

namespace SchemaGraph

namespace BoundedCache

variable {κ α : Type}

/-- Whether a cache has an integer as its bound and is within it. -/
structure Within (c : BoundedCache κ α) (bound : Int) : Prop where
  maxSize : c.maxSize.number? = some (.int bound)
  size : (c.size : Int) ≤ bound

namespace Within

variable {c : BoundedCache κ α} {bound : Int}

/-- Dropping entries leaves a cache within its bound. -/
theorem dropOldest (h : c.Within bound) (count : Nat) : (c.dropOldest count).Within bound := by
  refine ⟨h.maxSize, ?_⟩
  have hlength : (c.dropOldest count).size = c.size - count := List.length_drop
  have hsize := h.size
  omega

theorem clear (h : c.Within bound) (hbound : 1 ≤ bound) : c.clear.Within bound := by
  refine ⟨h.maxSize, ?_⟩
  have hempty : c.clear.size = 0 := rfl
  omega

/-- One entry too many is made good by what is dropped. -/
theorem evictIfFull (hmax : c.maxSize.number? = some (.int bound)) (hbound : 1 ≤ bound)
    (hsize : (c.size : Int) ≤ bound + 1) : c.evictIfFull.1.Within bound := by
  have hover : c.overflow = .ok (if (c.size : Int) ≤ bound then 0 else max 1 (c.size / 10)) := by
    unfold overflow
    rw [Value.number_eq_ok.mpr hmax]
    change Except.ok (if Number.le (.int c.size) (.int bound) = true then _ else _) = _
    simp only [Number.le_int, decide_eq_true_eq]
  unfold BoundedCache.evictIfFull
  rw [hover]
  refine ⟨hmax, ?_⟩
  have hlength : ∀ count, (c.dropOldest count).size = c.size - count := fun _ => List.length_drop
  change ((c.dropOldest _).size : Int) ≤ bound
  rw [hlength]
  split
  · omega
  · have hone : 1 ≤ max 1 (c.size / 10) := Nat.le_max_left _ _
    omega

/-- Writing an entry leaves a cache within its bound. -/
theorem set [BEq κ] (h : c.Within bound) (hbound : 1 ≤ bound) (key : κ) (item : α) :
    (c.set key item).1.Within bound := by
  unfold BoundedCache.set
  split
  · refine evictIfFull h.maxSize hbound ?_
    have hlength := Ordered.length_write key item c.entries
    have hsize := h.size
    unfold BoundedCache.size at hsize ⊢
    dsimp only
    split at hlength <;> omega
  · exact h

/-- A cache is within a bound that was set. -/
theorem shrinkTo {v : Value} (hv : v.number? = some (.int bound)) (hbound : 1 ≤ bound) :
    (c.shrinkTo v).1.Within bound ∧ (c.shrinkTo v).2.isOk = true := by
  have hexcess : BoundedCache.excess { c with maxSize := v } v =
      .ok ((c.size : Int) - bound).toNat := by
    unfold BoundedCache.excess
    rw [Value.number_eq_ok.mpr hv]
    rfl
  unfold BoundedCache.shrinkTo
  dsimp only
  rw [hexcess]
  refine ⟨⟨hv, ?_⟩, rfl⟩
  have hlength : (BoundedCache.dropOldest { c with maxSize := v }
      ((c.size : Int) - bound).toNat).size = c.size - ((c.size : Int) - bound).toNat :=
    List.length_drop
  rw [hlength]
  omega

theorem evictFraction (h : c.Within bound) (fraction : Value) :
    (c.evictFraction fraction).1.Within bound := by
  unfold BoundedCache.evictFraction
  split
  · exact h.dropOldest _
  · exact h

end Within

end BoundedCache

namespace Caches

variable {κ ι ν φ δ : Type}

/-- Whether all caches are within the bound that the settings give, an integer that is not below
one. -/
structure Within (c : Caches κ ι ν φ δ) (bound : Int) : Prop where
  positive : 1 ≤ bound
  settings : c.settings.maxSize.number? = some (.int bound)
  schemas : c.schemas.Within bound
  compositions : c.compositions.Within bound
  references : c.references.Within bound
  failures : c.failures.Within bound
  documents : c.documents.Within bound

theorem within_empty {settings : CacheSettings} {bound : Int}
    (h : settings.maxSize.number? = some (.int bound)) (hbound : 1 ≤ bound) :
    (empty settings : Caches κ ι ν φ δ).Within bound := by
  have hempty : ((0 : Nat) : Int) ≤ bound := by omega
  exact ⟨hbound, h, ⟨h, hempty⟩, ⟨h, hempty⟩, ⟨h, hempty⟩, ⟨h, hempty⟩, ⟨h, hempty⟩⟩

namespace Within

variable {c : Caches κ ι ν φ δ} {bound : Int} (h : c.Within bound)
include h

theorem clearAll : c.clearAll.Within bound :=
  ⟨h.positive, h.settings, h.schemas.clear h.positive, h.compositions.clear h.positive,
    h.references.clear h.positive, h.failures.clear h.positive, h.documents.clear h.positive⟩

theorem setEnabled (flag : Value) : (c.setEnabled flag).Within bound :=
  ⟨h.positive, h.settings, ⟨h.schemas.maxSize, h.schemas.size⟩,
    ⟨h.compositions.maxSize, h.compositions.size⟩, ⟨h.references.maxSize, h.references.size⟩,
    ⟨h.failures.maxSize, h.failures.size⟩, h.documents⟩

theorem rememberFailure [BEq κ] (key : κ) (failure : φ) :
    (c.rememberFailure key failure).1.Within bound := by
  unfold Caches.rememberFailure
  split
  · exact { h with failures := h.failures.set h.positive key failure }
  · exact h

theorem evictShare (fraction : Value) : (c.evictShare fraction).1.Within bound := by
  have hschemas := h.schemas.evictFraction fraction
  have hcompositions := h.compositions.evictFraction fraction
  have hreferences := h.references.evictFraction fraction
  unfold Caches.evictShare
  split
  · rename_i heq heq' heq''
    rw [heq] at hschemas
    rw [heq'] at hcompositions
    rw [heq''] at hreferences
    exact ⟨h.positive, h.settings, hschemas, hcompositions, hreferences, h.failures, h.documents⟩
  all_goals exact h

omit h in
/-- Under a new bound all caches are within it. -/
theorem shrinkAll (c : Caches κ ι ν φ δ) {v : Value} (hv : v.number? = some (.int bound))
    (hbound : 1 ≤ bound) : (c.shrinkAll v).1.Within bound := by
  have hshrunk : ∀ {κ α : Type} (cache : BoundedCache κ α),
      ∃ count, (cache.shrinkTo v).2 = .ok count ∧ (cache.shrinkTo v).1.Within bound := by
    intro κ α cache
    obtain ⟨hwithin, hok⟩ := BoundedCache.Within.shrinkTo (c := cache) hv hbound
    cases hresult : (cache.shrinkTo v).2 with
    | ok count => exact ⟨count, rfl, hwithin⟩
    | error fault =>
        rw [hresult] at hok
        cases hok
  obtain ⟨_, hm, hschemas⟩ := hshrunk c.schemas
  obtain ⟨_, hn, hcompositions⟩ := hshrunk c.compositions
  obtain ⟨_, hk, hreferences⟩ := hshrunk c.references
  obtain ⟨_, hi, hfailures⟩ := hshrunk c.failures
  obtain ⟨_, -, hdocuments⟩ := hshrunk c.documents
  unfold Caches.shrinkAll
  dsimp only
  rw [hm, hn, hk, hi]
  exact ⟨hbound, hv, hschemas, hcompositions, hreferences, hfailures, hdocuments⟩

/-- Changing settings leaves all caches within the bound that the settings give then, unless the new
bound is a double. -/
theorem configure {enabled maxSize : Value} (hmax : ∀ x, maxSize.number? ≠ some (.double x)) :
    ∃ bound, (c.configure enabled maxSize).1.Within bound := by
  have hswitch : ∀ {c : Caches κ ι ν φ δ} {bound}, c.Within bound →
      (if enabled.isNull then c else c.setEnabled enabled).Within bound := by
    intro c bound h
    split
    · exact h
    · exact h.setEnabled enabled
  unfold Caches.configure
  dsimp only
  split
  · exact ⟨bound, hswitch h⟩
  · split
    · exact ⟨bound, h⟩
    · rename_i new hnumber
      split
      · exact ⟨bound, h⟩
      · rename_i hnew
        have hv := Value.number_eq_ok.mp hnumber
        cases new with
        | double x => exact absurd hv (hmax x)
        | int n =>
            have hshrunk := shrinkAll c hv (by simpa using hnew)
            split
            · rename_i heq
              rw [heq] at hshrunk
              exact ⟨n, hswitch hshrunk⟩
            · rename_i heq
              rw [heq] at hshrunk
              exact ⟨n, hshrunk⟩

end Within

end Caches

end SchemaGraph
