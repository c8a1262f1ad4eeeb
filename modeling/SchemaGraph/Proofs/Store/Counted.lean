import SchemaGraph.Enumerate
import SchemaGraph.Proofs.Number.Rounded
import SchemaGraph.Proofs.Outcome
import SchemaGraph.Proofs.Store.Bounded

/-!
# Evictions are counted right

What a cache reports as evicted is what it dropped: when an entry was one too many, under a new
bound that is not below one, and when memory is freed.  Writing a key that is not there adds one
entry at the end before anything is dropped.
-/

namespace SchemaGraph

namespace Ordered

variable {κ α : Type} [BEq κ] [LawfulBEq κ]

theorem get_write [DecidableEq κ] (key other : κ) (item : α) (entries : List (κ × α)) :
    get? other (write key item entries) = if other = key then some item else get? other entries := by
  induction entries with
  | nil =>
      by_cases heq : other = key
      · simp [write, get?, heq]
      · simp [write, get?, heq, Ne.symm heq]
  | cons first rest ih =>
      obtain ⟨k, old⟩ := first
      rw [write]
      by_cases hk : k = key
      · subst hk
        rw [if_pos (beq_self_eq_true k)]
        by_cases heq : other = k
        · simp [get?, heq]
        · simp [get?, heq, Ne.symm heq]
      · rw [if_neg (by simpa using hk)]
        by_cases heq : other = k
        · subst heq
          simp [get?, hk]
        · have hskip : ∀ others : List (κ × α), get? other ((k, old) :: others) = get? other others :=
            fun others => by simp [get?, Ne.symm heq]
          rw [hskip, hskip, ih]

theorem write_absent {key : κ} {entries : List (κ × α)} (h : ∀ old, (key, old) ∉ entries)
    (item : α) : write key item entries = entries ++ [(key, item)] := by
  induction entries with
  | nil => rfl
  | cons first rest ih =>
      obtain ⟨k, old⟩ := first
      have hne : k ≠ key := by
        rintro rfl
        exact h old List.mem_cons_self
      rw [write, if_neg (by simpa using hne), List.cons_append,
        ih fun other hin => h other (List.mem_cons_of_mem _ hin)]

theorem absent_of_get {key : κ} {entries : List (κ × α)} (h : get? key entries = none) (old : α) :
    (key, old) ∉ entries := by
  intro hin
  unfold get? at h
  rw [Option.map_eq_none_iff, List.find?_eq_none] at h
  exact h _ hin (beq_self_eq_true key)

end Ordered

namespace BoundedCache

variable {κ α : Type}

/-- How many entries were dropped, by what was reported. -/
def dropped {ε : Type} : Except ε Nat → Nat
  | .ok count => count
  | .error _ => 0

/-- Whether a cache was left with some entries but for as many of the oldest ones as were
reported. -/
def Counted (entries : List (κ × α)) (c : BoundedCache κ α) {ε : Type} (result : Except ε Nat) :
    Prop :=
  dropped result ≤ entries.length ∧ c.entries = entries.drop (dropped result)

theorem overflow_le {c : BoundedCache κ α} {count : Nat} (hne : c.entries ≠ [])
    (h : c.overflow = .ok count) : count ≤ c.size := by
  have hpos : 0 < c.size := List.length_pos_of_ne_nil hne
  unfold overflow at h
  cases hbound : c.maxSize.number with
  | error fault =>
      rw [hbound] at h
      cases h
  | ok bound =>
      rw [hbound] at h
      rw [← Except.ok.inj h]
      split
      · exact Nat.zero_le _
      · exact max_le hpos (Nat.div_le_self _ _)

theorem absent_of_miss [BEq κ] [LawfulBEq κ] {c : BoundedCache κ α} (henabled : c.enabled = true)
    {key : κ} (h : c.get? key = none) (old : α) : (key, old) ∉ c.entries := by
  unfold get? at h
  rw [if_pos henabled] at h
  exact Ordered.absent_of_get h old

/-- Writing a key that is not there adds one entry, and what is dropped is reported. -/
theorem counted_set [BEq κ] [LawfulBEq κ] {c : BoundedCache κ α} (henabled : c.enabled = true)
    {key : κ} (habsent : ∀ old, (key, old) ∉ c.entries) (item : α) :
    Counted (c.entries ++ [(key, item)]) (c.set key item).1 (c.set key item).2 := by
  unfold set
  rw [if_pos henabled, Ordered.write_absent habsent]
  unfold evictIfFull
  cases hover : overflow { c with entries := c.entries ++ [(key, item)] } with
  | ok count => exact ⟨overflow_le (by simp) hover, rfl⟩
  | error fault => exact ⟨Nat.zero_le _, rfl⟩

theorem enabled_set [BEq κ] [LawfulBEq κ] (c : BoundedCache κ α) (key : κ) (item : α) :
    (c.set key item).1.enabled = c.enabled := by
  obtain ⟨entries, result, heq, -⟩ := c.set_cases key item
  rw [heq]

theorem enabled_shrinkTo (c : BoundedCache κ α) (bound : Value) :
    (c.shrinkTo bound).1.enabled = c.enabled := by
  obtain ⟨entries, result, heq, -⟩ := c.shrinkTo_cases bound
  rw [heq]

/-- There are no more entries too many than there are entries, unless the bound is a negative
integer. -/
theorem excess_le {c : BoundedCache κ α} {bound : Value} {n : Number} {count : Nat}
    (hnumber : bound.number = .ok n) (hbound : ∀ k, n = .int k → 0 ≤ k)
    (h : excess c bound = .ok count) : count ≤ c.size := by
  unfold excess at h
  rw [hnumber, bind_eq_ok] at h
  obtain ⟨_, hn, h⟩ := h
  rw [bind_eq_ok] at h
  obtain ⟨difference, hsub, h⟩ := h
  obtain rfl := Except.ok.inj hn
  cases n with
  | int k =>
      have hk : 0 ≤ k := hbound k rfl
      obtain rfl := Except.ok.inj hsub
      obtain rfl := Except.ok.inj h
      change ((c.size : ℤ) - k).toNat ≤ c.size
      omega
  | double x =>
      -- the difference is a double, so it counts nothing unless it is not positive
      have hdouble : ∃ y, difference = .double y := by
        unfold Number.sub Number.onDoubles at hsub
        dsimp only at hsub
        rw [bind_eq_ok] at hsub
        obtain ⟨left, -, hsub⟩ := hsub
        exact ⟨_, (Except.ok.inj hsub).symm⟩
      obtain ⟨y, rfl⟩ := hdouble
      dsimp only at h
      split at h
      · rw [← Except.ok.inj h]
        exact Nat.zero_le _
      · cases h

/-- Under a bound that is not below one, what is dropped is reported. -/
theorem counted_shrinkTo (c : BoundedCache κ α) {bound : Value} {n : Number}
    (hnumber : bound.number = .ok n) (hbound : Number.lt n (.int 1) = false) :
    Counted c.entries (c.shrinkTo bound).1 (c.shrinkTo bound).2 := by
  unfold shrinkTo
  dsimp only
  cases hcount : excess { c with maxSize := bound } bound with
  | ok count =>
      refine ⟨excess_le hnumber ?_ hcount, rfl⟩
      rintro k rfl
      have hk : 1 ≤ k := by simpa using hbound
      omega
  | error fault => exact ⟨Nat.zero_le _, rfl⟩

/-- A share of the entries is no more than there are. -/
theorem share_le {c : BoundedCache κ α} {fraction : Value} {count : Nat}
    (h : c.share fraction = .ok count) : count ≤ c.size := by
  have hmin : min c.size sizeLimit ≤ c.size := Nat.min_le_left _ _
  have hlimit : min c.size sizeLimit ≤ 2 ^ 52 :=
    (Nat.min_le_right _ _).trans (by decide)
  unfold share at h
  rw [bind_eq_ok] at h
  obtain ⟨f, -, h⟩ := h
  split at h
  · rename_i hbetween
    obtain ⟨hlow, hhigh⟩ := Bool.and_eq_true_iff.mp hbetween
    rw [bind_eq_ok] at h
    obtain ⟨product, hproduct, h⟩ := h
    rw [orFail_eq_ok] at hproduct
    generalize min c.size sizeLimit = size at hmin hlimit hproduct
    cases f with
    | int k =>
        obtain rfl := Except.ok.inj hproduct
        obtain rfl := Except.ok.inj h
        have hk : k = 0 ∨ k = 1 := by
          have hlow' : 0 ≤ k := by simpa using hlow
          have hhigh' : k ≤ 1 := by simpa using hhigh
          omega
        rcases hk with rfl | rfl
        · simp
        · simpa using hmin
    | double x =>
        -- the size is told as a double first
        have hdouble : product = .double ((Binary64.ofInt size).mul x) := by
          unfold Number.mul Number.onDoubles at hproduct
          dsimp only at hproduct
          rw [bind_eq_ok] at hproduct
          obtain ⟨y, hy, hproduct⟩ := hproduct
          have hint : Binary64.ofInt size = y := by
            unfold Number.toDouble at hy
            dsimp only at hy
            split at hy
            · cases hy
            · exact Except.ok.inj hy
          rw [hint]
          exact (Except.ok.inj hproduct).symm
        subst hdouble
        obtain rfl := Except.ok.inj h
        have hshare : x.compareInt? 1 ≠ some .gt := by
          intro hgt
          rw [Number.le, show Number.compare? (.double x) (.int 1) = some .gt from hgt] at hhigh
          cases hhigh
        cases hfloor : (Binary64.mul (Binary64.ofInt size) x).floor? with
        | none => exact Nat.zero_le _
        | some k =>
            have hk := Binary64.floor_share_le hlimit hshare hfloor
            change k.toNat ≤ c.size
            omega
  · cases h

/-- A share that lies between nothing and all of the entries can be told. -/
theorem share_ok (c : BoundedCache κ α) {fraction : Value} {n : Number}
    (hn : fraction.number? = some n) (hlow : Number.le (.int 0) n = true)
    (hhigh : Number.le n (.int 1) = true) : ∃ count, c.share fraction = .ok count := by
  have hsize : min c.size sizeLimit < 2 ^ 64 :=
    lt_of_le_of_lt (Nat.min_le_right _ _) (by decide)
  obtain ⟨x, hx⟩ := Number.toDouble_ok hsize
  have hproduct : ∃ product, Number.mul (.int (min c.size sizeLimit : Nat)) n = .ok product := by
    cases n with
    | int k => exact ⟨_, rfl⟩
    | double y =>
        unfold Number.mul Number.onDoubles
        dsimp only
        rw [hx]
        exact ⟨_, rfl⟩
  obtain ⟨product, hproduct⟩ := hproduct
  unfold share
  rw [Value.number_eq_ok.mpr hn]
  have hbetween : (Number.le (.int 0) n && Number.le n (.int 1)) = true := by rw [hlow, hhigh]; rfl
  cases product with
  | int k =>
      refine ⟨k.toNat, bind_eq_ok.mpr ⟨n, rfl, ?_⟩⟩
      rw [if_pos hbetween, hproduct]
      rfl
  | double y =>
      refine ⟨(y.floor?.getD 0).toNat, bind_eq_ok.mpr ⟨n, rfl, ?_⟩⟩
      rw [if_pos hbetween, hproduct]
      rfl

/-- When a share of the entries is dropped, what is dropped is reported. -/
theorem counted_evictFraction (c : BoundedCache κ α) (fraction : Value) :
    Counted c.entries (c.evictFraction fraction).1 (c.evictFraction fraction).2 := by
  unfold evictFraction
  cases hcount : c.share fraction with
  | ok count => exact ⟨share_le hcount, rfl⟩
  | error failure => exact ⟨Nat.zero_le _, rfl⟩

end BoundedCache

end SchemaGraph
