import SchemaGraph.Store.Bounded
import SchemaGraph.Store.Caches

/-!
# What a bounded cache holds

Whatever is done to a cache, it holds only entries that it held before and those that were written.
What it shows at a key is one of its entries, and a disabled cache shows nothing.  Where the bound is
a number, writing never fails.
-/

namespace SchemaGraph

namespace Ordered

variable {κ α : Type} [BEq κ] [LawfulBEq κ]

theorem mem_of_get {key : κ} {item : α} {entries : List (κ × α)}
    (h : get? key entries = some item) : (key, item) ∈ entries := by
  unfold get? at h
  obtain ⟨entry, hfound, rfl⟩ := Option.map_eq_some_iff.mp h
  have hkey : entry.1 = key := by simpa using List.find?_some hfound
  rw [← hkey]
  exact List.mem_of_find?_eq_some hfound

theorem mem_write {key : κ} {item : α} {entries : List (κ × α)} {entry : κ × α}
    (h : entry ∈ write key item entries) : entry = (key, item) ∨ entry ∈ entries := by
  induction entries with
  | nil => exact Or.inl (List.mem_singleton.mp h)
  | cons first rest ih =>
      obtain ⟨k, old⟩ := first
      rw [write] at h
      split at h
      · rename_i hkey
        rcases List.mem_cons.mp h with heq | hin
        · rw [eq_of_beq hkey] at heq
          exact Or.inl heq
        · exact Or.inr (List.mem_cons_of_mem _ hin)
      · rcases List.mem_cons.mp h with heq | hin
        · exact Or.inr (heq ▸ List.mem_cons_self)
        · rcases ih hin with heq | hin
          · exact Or.inl heq
          · exact Or.inr (List.mem_cons_of_mem _ hin)

/-- Writing a key makes no key absent. -/
theorem isSome_get_write {key other : κ} {item : α} {entries : List (κ × α)}
    (h : (get? other entries).isSome) : (get? other (write key item entries)).isSome := by
  induction entries with
  | nil => exact absurd h (by simp [get?])
  | cons first rest ih =>
      obtain ⟨k, old⟩ := first
      rw [write]
      by_cases hother : k = other
      · split
        · simp [get?, hother]
        · simp [get?, hother]
      · have hrest : (get? other rest).isSome := by
          simpa [get?, hother] using h
        split
        · simpa [get?, hother] using hrest
        · have hwritten := ih hrest
          simpa [get?, hother] using hwritten

end Ordered

theorem Value.number_eq_ok {v : Value} {n : Number} : v.number = .ok n ↔ v.number? = some n := by
  unfold Value.number
  cases v.number? <;> simp

namespace BoundedCache

variable {κ α : Type} [BEq κ] [LawfulBEq κ]

/-- Whether the bound of a cache is a number. -/
def IsBounded (c : BoundedCache κ α) : Prop := c.maxSize.number?.isSome

theorem mem_of_get {c : BoundedCache κ α} {key : κ} {item : α} (h : c.get? key = some item) :
    (key, item) ∈ c.entries := by
  unfold get? at h
  split at h
  · exact Ordered.mem_of_get h
  · cases h

omit [LawfulBEq κ] in
theorem get_of_disabled {c : BoundedCache κ α} (h : c.enabled = false) (key : κ) :
    c.get? key = none := by
  unfold get?
  rw [h]
  rfl

omit [LawfulBEq κ] in
theorem set_of_disabled {c : BoundedCache κ α} (h : c.enabled = false) (key : κ) (item : α) :
    c.set key item = (c, .ok 0) := by
  unfold set
  rw [h]
  rfl

omit [BEq κ] [LawfulBEq κ] in
theorem number_of_isBounded {c : BoundedCache κ α} (h : c.IsBounded) :
    ∃ n, c.maxSize.number = .ok n := by
  obtain ⟨n, hn⟩ := Option.isSome_iff_exists.mp h
  exact ⟨n, Value.number_eq_ok.mpr hn⟩

omit [BEq κ] [LawfulBEq κ] in
theorem evictIfFull_cases (c : BoundedCache κ α) :
    ∃ dropped result, c.evictIfFull = (c.dropOldest dropped, result) ∧
      (c.IsBounded → result.isOk = true) := by
  unfold evictIfFull
  cases hover : c.overflow with
  | ok count => exact ⟨count, .ok count, rfl, fun _ => rfl⟩
  | error fault =>
      refine ⟨0, .error fault, rfl, fun hbounded => ?_⟩
      obtain ⟨n, hn⟩ := number_of_isBounded hbounded
      unfold overflow at hover
      rw [hn] at hover
      cases hover

/-- What writing does: the entries are among those written and those that were there, and nothing
else of the cache changes. -/
theorem set_cases (c : BoundedCache κ α) (key : κ) (item : α) :
    ∃ entries result, c.set key item = ({ c with entries := entries }, result) ∧
      (∀ entry ∈ entries, entry = (key, item) ∨ entry ∈ c.entries) ∧
        (c.enabled = false → entries = c.entries) ∧ (c.IsBounded → result.isOk = true) := by
  unfold set
  by_cases henabled : c.enabled = true
  · rw [if_pos henabled]
    obtain ⟨dropped, result, heq, hok⟩ :=
      evictIfFull_cases ({ c with entries := Ordered.write key item c.entries })
    refine ⟨(Ordered.write key item c.entries).drop dropped, result, heq, ?_, ?_, hok⟩
    · intro entry hentry
      exact Ordered.mem_write (List.mem_of_mem_drop hentry)
    · intro hdisabled
      rw [henabled] at hdisabled
      cases hdisabled
  · rw [if_neg henabled]
    exact ⟨c.entries, .ok 0, rfl, fun _ h => Or.inr h, fun _ => rfl, fun _ => rfl⟩

omit [BEq κ] [LawfulBEq κ] in
theorem shrinkTo_cases (c : BoundedCache κ α) (bound : Value) :
    ∃ entries result, c.shrinkTo bound = ({ c with maxSize := bound, entries := entries }, result) ∧
      entries ⊆ c.entries := by
  unfold shrinkTo
  dsimp only
  split
  · exact ⟨_, _, rfl, fun _ h => List.mem_of_mem_drop h⟩
  · exact ⟨c.entries, _, rfl, fun _ h => h⟩

omit [BEq κ] [LawfulBEq κ] in
theorem evictFraction_cases (c : BoundedCache κ α) (fraction : Value) :
    ∃ entries result, c.evictFraction fraction = ({ c with entries := entries }, result) ∧
      entries ⊆ c.entries := by
  unfold evictFraction
  split
  · exact ⟨_, _, rfl, fun _ h => List.mem_of_mem_drop h⟩
  · exact ⟨c.entries, _, rfl, fun _ h => h⟩

end BoundedCache

/-!
### New settings of the caches

A new bound is set and then applied to one cache after the other, until one of them refuses it.  So a
property of the caches that each of these steps keeps holds wherever the changing of settings ends.
-/

namespace Caches

variable {κ ι ν φ δ : Type}

/-- A property of caches that the steps of giving them a new bound keep. -/
structure Bounding (v : Value) (keeps : Caches κ ι ν φ δ → Prop) : Prop where
  bound : ∀ {c}, keeps c → keeps { c with settings := { c.settings with maxSize := v } }
  schemas : ∀ {c}, keeps c → keeps { c with schemas := (c.schemas.shrinkTo v).1 }
  compositions : ∀ {c}, keeps c → keeps { c with compositions := (c.compositions.shrinkTo v).1 }
  references : ∀ {c}, keeps c → keeps { c with references := (c.references.shrinkTo v).1 }
  failures : ∀ {c}, keeps c → keeps { c with failures := (c.failures.shrinkTo v).1 }
  documents : ∀ {c}, keeps c → keeps { c with documents := (c.documents.shrinkTo v).1 }

variable {keeps : Caches κ ι ν φ δ → Prop} {c : Caches κ ι ν φ δ}

theorem Bounding.keeps_shrinkAll {v : Value} (h : Bounding v keeps) (hc : keeps c) :
    keeps (c.shrinkAll v).1 := by
  have hschemas := h.schemas (h.bound hc)
  have hcompositions := h.compositions hschemas
  have hreferences := h.references hcompositions
  have hfailures := h.failures hreferences
  have hdocuments := h.documents hfailures
  unfold shrinkAll
  dsimp only
  -- The caches that were not reached when one refused the bound are as they were.
  cases (c.schemas.shrinkTo v).2 with
  | error f => exact hschemas
  | ok m =>
      dsimp only
      cases (c.compositions.shrinkTo v).2 with
      | error f => exact hcompositions
      | ok n =>
          dsimp only
          cases (c.references.shrinkTo v).2 with
          | error f => exact hreferences
          | ok k =>
              dsimp only
              cases (c.failures.shrinkTo v).2 with
              | error f => exact hfailures
              | ok l => exact hdocuments

/-- New settings keep what a new bound and the turning on or off keep, as far as they are given. -/
theorem keeps_configure {enabled maxSize : Value}
    (hbound : ∀ n, maxSize.number = .ok n → Bounding maxSize keeps)
    (henabled : enabled.isNull = false → ∀ c, keeps c → keeps (c.setEnabled enabled))
    (hc : keeps c) : keeps (c.configure enabled maxSize).1 := by
  have hswitch : ∀ c : Caches κ ι ν φ δ, keeps c →
      keeps (if enabled.isNull then c else c.setEnabled enabled) := by
    intro c hc
    split
    · exact hc
    · rename_i hnull
      exact henabled (by simpa using hnull) c hc
  unfold configure
  dsimp only
  split
  · exact hswitch c hc
  · split
    · exact hc
    · rename_i n hnumber
      split
      · exact hc
      · have hshrunk := (hbound n hnumber).keeps_shrinkAll hc
        split
        · rename_i heq
          rw [heq] at hshrunk
          exact hswitch _ hshrunk
        · rename_i heq
          rw [heq] at hshrunk
          exact hshrunk

end Caches

end SchemaGraph
