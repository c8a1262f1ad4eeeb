import SchemaGraph.Proofs.Metrics.Recorded

/-!
# Reports are well defined

Whatever has been recorded, a report of it divides by nothing that is zero, and its figures fit
together: the peak is the greatest reading, the counters of all caches are sums, rates and shares lie
between nothing and one, and no time is negative.  There is a report unless an amount of memory is so
large that no double tells it.
-/

namespace SchemaGraph

open Binary64 (IsShare)

namespace Report

/-- The figures of a report that goes with some readings of the memory in use. -/
structure Consistent (r : Report) (readings : List Int) : Prop where
  snapshots : r.snapshots = readings.map .int
  peak : r.metrics.peakMemoryUsage = .int (readings.max?.getD 0)
  /-- The counters of all caches are the sums of those of the three caches. -/
  counters : ∃ tally : String → Tally,
    r.caches = Caches.names.map (fun name => (name, (tally name).counters)) ∧
      r.overall = (Tally.total (Caches.names.map tally)).counters
  /-- A rate of hits is the quotient of hits and requests, which is a share, as is what it is rounded
  to. -/
  hitRates : ∀ c ∈ r.overall :: r.caches.map (·.2),
    Number.rate (.int c.hits) (.int c.requests) = .ok c.hitRate ∧
      IsShare ((c.hits : ℚ) / c.requests) ∧ c.hitRate.isFinite = true ∧ IsShare c.hitRate.value
  efficiency : IsShare (exactEfficiency readings) ∧ r.memoryEfficiency.isFinite = true ∧
    IsShare r.memoryEfficiency.value
  times : ∀ time ∈ r.metrics.times, Number.le (.int 0) (.double time) = true
  /-- The average time and the number of schemas in a second are quotients, too. -/
  rates : (Binary64.ofInt r.metrics.schemasProcessed).isFinite = true →
    Number.rate (.double r.metrics.schemaResolutionTime) (.int r.metrics.schemasProcessed) =
        .ok r.metrics.average ∧
      Number.le (.int 0) (.double r.metrics.average) = true ∧
      Number.rate (.int r.metrics.schemasProcessed)
        (.double (r.metrics.totalProcessingTime.div (Binary64.ofInt 1000))) =
          .ok r.schemasPerSecond

variable {t : Tracker} {readings : List Int} {upcoming : List Binary64}

/-- A total time in seconds is not negative. -/
theorem isNonneg_seconds {time : Binary64} (h : time.IsNonneg) :
    (time.div (Binary64.ofInt 1000)).IsNonneg := by
  rw [Binary64.ofInt_thousand]
  exact h.div _ _

/-- The report of what has been recorded, while a positive amount of memory is in use. -/
theorem ofTracker_cases (h : t.Recorded readings upcoming) {resident : Int}
    (hresident : 0 < resident) :
    (∃ r, ofTracker t (.int resident) = .ok r ∧ r.Consistent readings) ∨
      ofTracker t (.int resident) = .error .overflow ∧
        ∃ n ∈ resident :: readings, 2 ^ 1024 ≤ n := by
  obtain ⟨tally, htally⟩ := h.counted
  have hoverall := Tracker.overall_of_tallies htally
  obtain ⟨hexact, efficiency, hefficiency, hfinite, hshare⟩ := efficiency_share h.positive
  rw [← h.snapshots] at hefficiency
  have htotal := h.times t.metrics.totalProcessingTime List.mem_cons_self
  have hresolution := h.times t.metrics.schemaResolutionTime
    (List.mem_cons_of_mem _ List.mem_cons_self)
  unfold ofTracker
  rw [hoverall, h.peak, hefficiency]
  have hpeak : 0 ≤ readings.max?.getD 0 := by
    cases hmax : readings.max? with
    | none => exact le_rfl
    | some greatest => exact (h.positive greatest (List.max?_mem hmax)).le
  obtain ⟨peak, hpeak⟩ | ⟨hpeak, hlarge⟩ := Number.megabytes_cases hpeak
  · obtain ⟨current, hcurrent⟩ | ⟨hcurrent, hlarge⟩ := Number.megabytes_cases hresident.le
    · rw [hpeak, hcurrent]
      refine .inl ⟨_, rfl, ?_⟩
      exact {
        snapshots := h.snapshots
        peak := h.peak
        counters := ⟨tally, htally, rfl⟩
        hitRates := fun c _ => ⟨c.rate_hits, c.isShare_hitRate⟩
        efficiency := ⟨hexact, hfinite, hshare⟩
        times := fun time htime => (h.times time htime).zero_le
        rates := fun hcount => ⟨Metrics.rate_average hcount,
          (Metrics.isNonneg_average hresolution hcount).zero_le,
          Metrics.rate_seconds (isNonneg_seconds htotal) hcount⟩ }
    · rw [hpeak, hcurrent]
      exact .inr ⟨rfl, resident, List.mem_cons_self, hlarge⟩
  · rw [hpeak]
    refine .inr ⟨rfl, readings.max?.getD 0, ?_, hlarge⟩
    -- a peak that large is one of the readings
    cases hmax : readings.max? with
    | none =>
        rw [hmax, Option.getD_none] at hlarge
        exact absurd hlarge (not_le.mpr (pow_pos two_pos 1024))
    | some greatest => exact List.mem_cons_of_mem _ (List.max?_mem hmax)

end Report

namespace Tracking

/-- Nothing is entered or recorded yet. -/
def start (enabled : Bool) : Tracking := { tracker := .start enabled }

theorem recorded_start (enabled : Bool) (upcoming : List Binary64) :
    (start enabled).Recorded { enabled := enabled } upcoming :=
  ⟨rfl, Tracker.recorded_start enabled upcoming, fun _ h => nomatch h⟩

/-- After every run with a clock that does not go back and with positive readings of the memory in
use, there is a report, its figures fit together, and no timer that is stopped then shows a negative
time.  All that can go wrong is that an amount of memory is of more octets than a double can
tell. -/
theorem report_run (enabled : Bool) (calls : List Tracker.Call) (now : Binary64) (resident : Int)
    (hclock : (calls.map (·.now) ++ [now]).Pairwise NotAfter)
    (hpositive : ∀ call ∈ calls, 0 < call.resident) (hresident : 0 < resident) :
    ((∃ r, Report.ofTracker ((start enabled).run calls).tracker (.int resident) = .ok r ∧
        r.Consistent (Noted.run { enabled := enabled } calls).readings) ∨
      Report.ofTracker ((start enabled).run calls).tracker (.int resident) = .error .overflow ∧
        ∃ n ∈ resident :: (Noted.run { enabled := enabled } calls).readings, 2 ^ 1024 ≤ n) ∧
      ∀ operation duration,
        (((start enabled).run calls).tracker.endTimer operation now).2 = .ok duration →
          Number.le (.int 0) (.double duration) = true := by
  have h := recorded_run (recorded_start enabled _) hclock hpositive
  refine ⟨Report.ofTracker_cases h.recorded hresident, fun operation duration hduration => ?_⟩
  exact (h.recorded.isNonneg_endTimer List.mem_cons_self hduration).zero_le

/-- A run of eight seconds: one block, two requests and three readings of the memory in use. -/
def briefRun : List Tracker.Call :=
  [⟨.ofInt 1, 100, .startTracking⟩, ⟨.ofInt 2, 120, .enter "schemaResolution"⟩,
    ⟨.ofInt 2, 120, .miss "schema"⟩, ⟨.ofInt 4, 300, .snapshot⟩, ⟨.ofInt 7, 300, .leave 0⟩,
    ⟨.ofInt 7, 300, .processed⟩, ⟨.ofInt 8, 250, .hit "schema"⟩, ⟨.ofInt 9, 150, .endTracking⟩]

theorem report_run_brief :
    ∃ r, Report.ofTracker ((start true).run briefRun).tracker (.int 160) = .ok r ∧
      r.Consistent [100, 300, 150] := by
  obtain ⟨hreport | ⟨-, n, hn, hlarge⟩, -⟩ :=
    report_run true briefRun (.ofInt 9) 160 (by decide) (by decide) (by decide)
  · exact hreport
  · have hsmall : ∀ m ∈ ([160, 100, 300, 150] : List ℤ), m ≤ 2 ^ 9 := by decide
    have hpow : (2 : ℤ) ^ 9 < 2 ^ 1024 := pow_lt_pow_right₀ one_lt_two (by decide)
    exact absurd (hlarge.trans (hsmall n hn)) (not_le.mpr hpow)

end Tracking

end SchemaGraph
