import SchemaGraph.Metrics.Report
import SchemaGraph.Proofs.Number.Signs

/-!
# The figures of a report

A report is made of the records of a tracker by divisions.  None of them is by zero: a rate of hits is
asked for only where there was a request, and the memory in use is positive.  A rate of hits and the share
of memory that is free again lie between nothing and one, exactly and as they are rounded.  All that can
go wrong is that an amount of memory is beyond the range of doubles.
-/

namespace SchemaGraph

open Binary64 (IsShare)

/-! ### Quotients -/

namespace Number

/-- A quotient, or zero where there is nothing to divide by. -/
def rate (x y : Number) : Except Fault Binary64 :=
  if y.isZero then .ok (Binary64.zero false) else div x y

theorem isZero_int {n : Int} (h : n ≠ 0) : (Number.int n).isZero = false :=
  beq_eq_false_iff_ne.mpr h

/-- A part of a whole can be divided by it. -/
theorem div_natCast {num den : Nat} (hden : 0 < den) (h : num ≤ den) :
    div (.int num) (.int den) = .ok (Binary64.ofFraction false num den) := by
  obtain ⟨hfinite, -⟩ := Binary64.isShare_ofFraction hden h
  unfold div
  rw [isZero_int (by omega), if_neg Bool.false_ne_true]
  dsimp only
  rw [decide_eq_false (show ¬(num : Int) < 0 by omega),
    decide_eq_false (show ¬(den : Int) < 0 by omega), bne_self_eq_false, Int.natAbs_natCast,
    Int.natAbs_natCast]
  split
  · rename_i heq
    rw [heq] at hfinite
    cases hfinite
  · rfl

theorem toDouble_of_isFinite {n : Int} (h : (Binary64.ofInt n).isFinite = true) :
    toDouble (.int n) = .ok (Binary64.ofInt n) := by
  unfold toDouble
  dsimp only
  split
  · rename_i heq
    rw [heq] at h
    cases h
  · rfl

end Number

/-! ### Counters -/

/-- Counters that are whole numbers. -/
structure Tally where
  hits : Nat := 0
  misses : Nat := 0
  evictions : Int := 0
  size : Int := 0
  maxSize : Int := 0

namespace Tally

/-- The counters of a tally. -/
def counters (y : Tally) : CacheCounters where
  hits := y.hits
  misses := y.misses
  evictions := .int y.evictions
  size := .int y.size
  maxSize := .int y.maxSize

/-- The sums of the counters of several tallies. -/
def total (tallies : List Tally) : Tally where
  hits := (tallies.map (·.hits)).sum
  misses := (tallies.map (·.misses)).sum
  evictions := (tallies.map (·.evictions)).sum
  size := (tallies.map (·.size)).sum
  maxSize := (tallies.map (·.maxSize)).sum

/-- The sums of the counters of two tallies. -/
def add (x y : Tally) : Tally where
  hits := x.hits + y.hits
  misses := x.misses + y.misses
  evictions := x.evictions + y.evictions
  size := x.size + y.size
  maxSize := x.maxSize + y.maxSize

theorem total_nil : total [] = {} := rfl

theorem total_cons (y : Tally) (tallies : List Tally) : total (y :: tallies) = y.add (total tallies) :=
  rfl

theorem add_empty (y : Tally) : y.add {} = y := by
  simp [add]

theorem empty_add (y : Tally) : add {} y = y := by
  simp [add]

theorem add_assoc (x y z : Tally) : (x.add y).add z = x.add (y.add z) := by
  simp [add, Nat.add_assoc, Int.add_assoc]

end Tally

/-- The counters of all caches together are the sums of their counters. -/
theorem Tracker.overall_of_tallies {t : Tracker} {names : List String} {tally : String → Tally}
    (h : t.caches = names.map fun name => (name, (tally name).counters)) :
    t.overall = .ok (Tally.total (names.map tally)).counters := by
  -- the sum starts from what has been added up before
  have hfold : ∀ (names : List String) (before : Tally),
      (names.map fun name => (name, (tally name).counters)).foldlM (fun total entry => do
        let c : CacheCounters := entry.2
        return { hits := total.hits + c.hits
                 misses := total.misses + c.misses
                 evictions := ← total.evictions.add c.evictions
                 size := ← Tracker.addValues total.size c.size
                 maxSize := ← Tracker.addValues total.maxSize c.maxSize }) before.counters =
        (.ok (before.add (Tally.total (names.map tally))).counters : Except Fault CacheCounters) := by
    intro names
    induction names with
    | nil =>
        intro before
        rw [List.map_nil, List.map_nil, Tally.total_nil, Tally.add_empty]
        rfl
    | cons name names ih =>
        intro before
        rw [List.map_cons, List.map_cons, Tally.total_cons, ← Tally.add_assoc, ← ih]
        rfl
  unfold Tracker.overall
  rw [h]
  exact (hfold names {}).trans (by rw [Tally.empty_add])

namespace CacheCounters

/-- A rate of hits is a share, exactly and as it is rounded. -/
theorem isShare_hitRate (c : CacheCounters) :
    IsShare ((c.hits : ℚ) / c.requests) ∧ c.hitRate.isFinite = true ∧ IsShare c.hitRate.value := by
  have hle : c.hits ≤ c.requests := Nat.le_add_right _ _
  refine ⟨⟨by positivity, div_le_one_of_le₀ (by exact_mod_cast hle) (by positivity)⟩, ?_⟩
  unfold hitRate
  split
  · exact ⟨rfl, by simp [IsShare, Binary64.zero, Binary64.value]⟩
  · rename_i hrequests
    exact Binary64.isShare_ofFraction (Nat.pos_of_ne_zero hrequests) hle

theorem rate_hits (c : CacheCounters) :
    Number.rate (.int c.hits) (.int c.requests) = .ok c.hitRate := by
  have hle : c.hits ≤ c.requests := Nat.le_add_right _ _
  unfold Number.rate hitRate
  by_cases hrequests : c.requests = 0
  · rw [if_pos hrequests, hrequests]
    rfl
  · rw [if_neg hrequests, Number.isZero_int (by omega), if_neg Bool.false_ne_true,
      Number.div_natCast (Nat.pos_of_ne_zero hrequests) hle]

end CacheCounters

/-! ### Times -/

theorem Binary64.ofInt_thousand : ofInt 1000 = .finite false 8796093022208000 (-43) := by
  decide

namespace Metrics

/-- All times that are added up. -/
def times (m : Metrics) : List Binary64 :=
  [m.totalProcessingTime, m.schemaResolutionTime, m.cacheOperationTime, m.memoryCleanupTime,
    m.streamingTime]

/-- Recording a time that is not negative leaves all times so. -/
theorem isNonneg_record {m : Metrics} (h : ∀ time ∈ m.times, time.IsNonneg) (operation : Operation)
    {duration : Binary64} (hduration : duration.IsNonneg) :
    ∀ time ∈ (m.record operation duration).times, time.IsNonneg := by
  simp only [times, List.forall_mem_cons, List.not_mem_nil, false_implies, implies_true, and_true]
    at h ⊢
  obtain ⟨htotal, hresolution, hcache, hcleanup, hstreaming⟩ := h
  cases operation with
  | schemaResolution =>
      exact ⟨htotal, hresolution.add hduration, hcache, hcleanup, hstreaming⟩
  | cacheOperation => exact ⟨htotal, hresolution, hcache.add hduration, hcleanup, hstreaming⟩
  | memoryCleanup => exact ⟨htotal, hresolution, hcache, hcleanup.add hduration, hstreaming⟩
  | streamingEnumeration => exact ⟨htotal, hresolution, hcache, hcleanup, hstreaming.add hduration⟩
  | totalProcessing => exact ⟨hduration, hresolution, hcache, hcleanup, hstreaming⟩

/-- The average time is not negative, as long as the number of schemas is within the range of
doubles. -/
theorem isNonneg_average {m : Metrics} (h : m.schemaResolutionTime.IsNonneg)
    (hcount : (Binary64.ofInt m.schemasProcessed).isFinite = true) : m.average.IsNonneg := by
  unfold average
  split
  · exact Binary64.isNonneg_zero false
  · cases hx : Binary64.ofInt m.schemasProcessed with
    | finite negative significand exponent =>
        obtain rfl := Binary64.sign_of_ofFraction hx
        rw [decide_eq_false (by omega)]
        exact h.div significand exponent
    | infinite negative =>
        rw [hx] at hcount
        cases hcount
    | nan =>
        rw [hx] at hcount
        cases hcount

theorem rate_average {m : Metrics}
    (hcount : (Binary64.ofInt m.schemasProcessed).isFinite = true) :
    Number.rate (.double m.schemaResolutionTime) (.int m.schemasProcessed) = .ok m.average := by
  unfold Number.rate average
  by_cases hnone : m.schemasProcessed = 0
  · rw [if_pos hnone, hnone]
    rfl
  · unfold Number.div
    rw [if_neg hnone, Number.isZero_int (by omega), if_neg Bool.false_ne_true,
      if_neg Bool.false_ne_true]
    dsimp only
    rw [Number.toDouble_of_isFinite hcount]
    rfl

/-- The processed schemas per second of a run, if it took time. -/
theorem rate_seconds {m : Metrics} {seconds : Binary64} (hseconds : seconds.IsNonneg)
    (hcount : (Binary64.ofInt m.schemasProcessed).isFinite = true) :
    Number.rate (.int m.schemasProcessed) (.double seconds) =
      .ok (if Number.lt (.int 0) (.double seconds) then
        (Binary64.ofInt m.schemasProcessed).div seconds else Binary64.zero false) := by
  rw [hseconds.zero_lt]
  unfold Number.rate Number.div
  change (if seconds.isZero then _ else if seconds.isZero then _ else _) = _
  cases seconds.isZero with
  | true => rfl
  | false =>
      rw [if_neg Bool.false_ne_true, if_neg Bool.false_ne_true]
      dsimp only
      rw [Number.toDouble_of_isFinite hcount]
      rfl

end Metrics

/-- The order of finite doubles is that of the rationals that they stand for. -/
theorem Number.value_le_of_le {x y : Binary64} (hx : x.isFinite = true) (hy : y.isFinite = true)
    (h : Number.le (.double x) (.double y) = true) : x.value ≤ y.value := by
  cases x with
  | infinite negative => cases hx
  | nan => cases hx
  | finite a m e =>
      cases y with
      | infinite negative => cases hy
      | nan => cases hy
      | finite b m' e' =>
          refine Binary64.le_of_compareScaled fun hgt => ?_
          unfold Number.le Number.compare? Binary64.compare? at h
          dsimp only at h
          rw [hgt] at h
          exact absurd h Bool.false_ne_true

/-- A clock that did not go back from one reading to another. -/
def NotAfter (started now : Binary64) : Prop :=
  started.isFinite = true ∧ now.isFinite = true ∧
    Number.le (.double started) (.double now) = true

instance (started now : Binary64) : Decidable (NotAfter started now) :=
  inferInstanceAs (Decidable (_ ∧ _ ∧ _))

/-- A duration is not negative if the clock did not go back. -/
theorem Tracker.isNonneg_duration {started now : Binary64} (h : NotAfter started now) :
    (Tracker.duration started now).IsNonneg := by
  obtain ⟨hstarted, hnow, hle⟩ := h
  unfold Tracker.duration
  rw [Binary64.ofInt_thousand]
  exact (Binary64.isNonneg_sub hnow hstarted (Number.value_le_of_le hstarted hnow hle)).mul
    (by decide) _

/-! ### Memory -/

namespace Number

theorem larger_int (a b : Int) : larger (.int a) (.int b) = .int (max a b) := by
  unfold larger
  rw [lt_int]
  by_cases h : a < b
  · rw [if_pos (decide_eq_true h), max_eq_right h.le]
  · rw [if_neg (by simpa using h), max_eq_left (not_lt.mp h)]

theorem log2_le_of_lt_pow {n : Nat} (k : Nat) (h : n < 2 ^ k) : Nat.log2 n ≤ k := by
  rw [Nat.log2_eq_log_two]
  exact (Nat.log_mono_right h.le).trans (Nat.log_pow (by decide) k).le

/-- Any double and any integer in the range of doubles can be told in megabytes. -/
theorem megabytes_ok {bytes : Number} (k : Nat) (hk : k ≤ 1024)
    (h : ∀ n, bytes = .int n → n.natAbs < 2 ^ k) : ∃ x, Report.megabytes bytes = .ok x := by
  have hdiv : ∃ x, div bytes (.int 1024) = .ok x := by
    cases bytes with
    | int n =>
        have hlog : Nat.log2 n.natAbs < Nat.log2 (Int.natAbs 1024) + 1022 := by
          have hbound := log2_le_of_lt_pow k (h n rfl)
          rw [show Nat.log2 (Int.natAbs 1024) = 10 by decide]
          omega
        unfold div
        rw [if_neg (by decide)]
        have hfinite := Binary64.ofFraction_ne_infinite_of_log2 hlog
          (decide (n < 0) != decide ((1024 : Int) < 0))
        dsimp only
        split
        · rename_i heq
          exact absurd heq (hfinite _)
        · exact ⟨_, rfl⟩
    | double x =>
        obtain ⟨y, hy⟩ := toDouble_ok (n := 1024) (by decide)
        unfold div
        rw [if_neg (by decide)]
        dsimp only
        rw [show Number.int 1024 = Number.int ((1024 : Nat) : Int) from rfl, hy]
        exact ⟨_, rfl⟩
  obtain ⟨x, hx⟩ := hdiv
  unfold Report.megabytes
  rw [hx]
  exact ⟨_, rfl⟩

/-- All that can go wrong with an amount of memory is that it is beyond the range of doubles. -/
theorem megabytes_cases {n : Int} (hn : 0 ≤ n) :
    (∃ x, Report.megabytes (.int n) = .ok x) ∨
      Report.megabytes (.int n) = .error .overflow ∧ 2 ^ 1024 ≤ n := by
  obtain ⟨bytes, rfl⟩ := Int.eq_ofNat_of_zero_le hn
  by_cases h : bytes < 2 ^ 1024
  · refine .inl (megabytes_ok 1024 le_rfl fun m hm => ?_)
    rwa [← Number.int.inj hm, Int.natAbs_natCast]
  · unfold Report.megabytes div
    rw [if_neg (by decide)]
    dsimp only
    split
    · exact .inr ⟨rfl, by exact_mod_cast not_lt.mp h⟩
    · exact .inl ⟨_, rfl⟩

end Number

namespace Report

/-- One minus the last of some readings over the greatest one; one if there are less than two. -/
def exactEfficiency (readings : List Int) : ℚ :=
  if 1 < readings.length then 1 - (readings.getLast?.getD 0 : ℚ) / (readings.max?.getD 0 : Int)
  else 1

/-- A positive reading over one that is not below it is rounded to a share. -/
theorem isShare_div {last greatest : Int} (hlast : 0 < last) (hle : last ≤ greatest) :
    IsShare ((last : ℚ) / greatest) ∧ ∃ x, Number.div (.int last) (.int greatest) = .ok x ∧
      x.isFinite = true ∧ IsShare x.value := by
  obtain ⟨num, rfl⟩ := Int.eq_ofNat_of_zero_le hlast.le
  obtain ⟨den, rfl⟩ := Int.eq_ofNat_of_zero_le (hlast.le.trans hle)
  have hpart : num ≤ den := by exact_mod_cast hle
  have hden : 0 < den := by omega
  refine ⟨⟨by positivity, div_le_one_of_le₀ (by exact_mod_cast hpart) (by positivity)⟩, ?_⟩
  exact ⟨_, Number.div_natCast hden hpart, Binary64.isShare_ofFraction hden hpart⟩

theorem foldl_larger (first : Int) (readings : List Int) :
    (readings.map Number.int).foldl Number.larger (.int first) =
      .int (readings.foldl max first) := by
  induction readings generalizing first with
  | nil => rfl
  | cons reading readings ih =>
      rw [List.map_cons, List.foldl_cons, Number.larger_int, ih, List.foldl_cons]

/-- The share of memory that is free again lies between nothing and one, exactly and as it is
rounded. -/
theorem efficiency_share {readings : List Int} (h : ∀ n ∈ readings, 0 < n) :
    IsShare (exactEfficiency readings) ∧ ∃ x, efficiency (readings.map .int) = .ok x ∧
      x.isFinite = true ∧ IsShare x.value := by
  have hone : (Binary64.ofInt 1).isFinite = true ∧ IsShare (Binary64.ofInt 1).value := by
    rw [Binary64.value_ofInt_one]
    exact ⟨by decide, zero_le_one, le_rfl⟩
  cases readings with
  | nil => exact ⟨by norm_num [exactEfficiency, IsShare], _, rfl, hone⟩
  | cons first rest =>
      cases rest with
      | nil => exact ⟨by norm_num [exactEfficiency, IsShare], _, rfl, hone⟩
      | cons second rest =>
          obtain ⟨last, hlast⟩ : ∃ last, (second :: rest).getLast? = some last :=
            ⟨_, List.getLast?_eq_getLast_of_ne_nil (List.cons_ne_nil second rest)⟩
          have hin : last ∈ first :: second :: rest :=
            List.mem_cons_of_mem _ (List.mem_of_getLast? hlast)
          have hle : last ≤ (second :: rest).foldl max first := by
            have hmax : (first :: second :: rest).max? = some ((second :: rest).foldl max first) := rfl
            exact (List.max?_eq_some_iff.mp hmax).2 last hin
          obtain ⟨⟨hlow, hhigh⟩, x, hx, hfinite, hshare⟩ := isShare_div (h last hin) hle
          have hexact : exactEfficiency (first :: second :: rest) =
              1 - (last : ℚ) / ((second :: rest).foldl max first : Int) := by
            unfold exactEfficiency
            rw [if_pos (by simp), List.getLast?_cons_cons, hlast]
            rfl
          rw [hexact]
          refine ⟨⟨by linarith, by linarith⟩, (Binary64.ofInt 1).sub x, ?_,
            Binary64.isShare_one_sub hfinite hshare⟩
          change (Number.div (((second :: rest).map Number.int).getLast?.getD (.int first))
            (((second :: rest).map Number.int).foldl Number.larger (.int first)) >>= fun q =>
              Except.ok ((Binary64.ofInt 1).sub q)) = _
          rw [foldl_larger, List.getLast?_map, hlast]
          change (Number.div (.int last) _ >>= _) = _
          rw [hx]
          rfl

end Report

end SchemaGraph
