import SchemaGraph.Proofs.Metrics.Figures
import SchemaGraph.Proofs.Store.Counted

/-!
# What a tracker records along a run

A tracker is called in any order: timers are started and stopped, timed blocks are entered and left,
requests, evictions and sizes are recorded, memory is read, and the tracker is reset, switched on and
off.  A history notes on its own what has been read of the memory in use since the last reset.  Along
every run with a clock that does not go back, the readings and the greatest of them are those of the
history, every counter is a whole number, no time is negative, and what is still running was started no
later than the clock will ever show again (`recorded_run`).
-/

namespace SchemaGraph

/-! ### Entries under given keys -/

namespace Ordered

variable {κ α : Type} [DecidableEq κ] {keys : List κ} {key : κ}

theorem get_of_keys (keys : List κ) (item : κ → α) (key : κ) :
    get? key (keys.map fun k => (k, item k)) = if key ∈ keys then some (item key) else none := by
  induction keys with
  | nil => rfl
  | cons k keys ih =>
      by_cases heq : k = key
      · subst heq
        simp [get?]
      · have hskip : get? key ((k :: keys).map fun k => (k, item k)) =
            get? key (keys.map fun k => (k, item k)) := by
          simp [get?, heq]
        rw [hskip, ih]
        simp [Ne.symm heq]

/-- Writing at one of the keys changes the item of this key. -/
theorem write_of_keys (hdistinct : keys.Nodup) (hkey : key ∈ keys) (item : κ → α) (new : α) :
    write key new (keys.map fun k => (k, item k)) =
      keys.map fun k => (k, Function.update item key new k) := by
  induction keys with
  | nil => cases hkey
  | cons k keys ih =>
      rw [List.nodup_cons] at hdistinct
      rw [List.map_cons, List.map_cons, write]
      by_cases heq : k = key
      · subst heq
        rw [if_pos (beq_self_eq_true k), Function.update_self]
        congr 1
        refine List.map_congr_left fun other hother => ?_
        rw [Function.update_of_ne]
        rintro rfl
        exact hdistinct.1 hother
      · have hin : key ∈ keys := (List.mem_cons.mp hkey).resolve_left (Ne.symm heq)
        rw [if_neg (by simpa using heq), Function.update_of_ne heq, ih hdistinct.2 hin]

end Ordered

/-! ### One tracker -/

namespace Tracker

/-- What holds of a tracker after some readings of the memory in use, when its clock will only show
some times. -/
structure Recorded (t : Tracker) (readings : List Int) (upcoming : List Binary64) : Prop where
  snapshots : t.snapshots = readings.map .int
  peak : t.metrics.peakMemoryUsage = .int (readings.max?.getD 0)
  positive : ∀ n ∈ readings, 0 < n
  counted : ∃ tally : String → Tally,
    t.caches = Caches.names.map fun name => (name, (tally name).counters)
  times : ∀ time ∈ t.metrics.times, time.IsNonneg
  started : ∀ timer ∈ t.timers, ∀ now ∈ upcoming, NotAfter timer.2 now

theorem recorded_start (enabled : Bool) (upcoming : List Binary64) :
    (start enabled).Recorded [] upcoming where
  snapshots := rfl
  peak := rfl
  positive := fun _ h => nomatch h
  counted := ⟨fun _ => {}, rfl⟩
  times := by
    intro time htime
    simp only [start, Metrics.times, List.mem_cons, List.not_mem_nil, or_false, or_self] at htime
    rw [htime]
    exact Binary64.isNonneg_zero false
  started := fun _ h => nomatch h

@[simp] theorem enabled_startTimer (t : Tracker) (operation : String) (now : Binary64) :
    (t.startTimer operation now).enabled = t.enabled := by
  unfold startTimer
  split <;> rfl

@[simp] theorem enabled_recordDuration (t : Tracker) (operation : String) (duration : Binary64) :
    (t.recordDuration operation duration).enabled = t.enabled := by
  unfold recordDuration
  split <;> rfl

@[simp] theorem enabled_endTimer (t : Tracker) (operation : String) (now : Binary64) :
    (t.endTimer operation now).1.enabled = t.enabled := by
  unfold endTimer
  split
  · rfl
  · split
    · rfl
    · exact enabled_recordDuration _ _ _

@[simp] theorem enabled_snapshot (t : Tracker) (resident : Number) :
    (t.snapshot resident).enabled = t.enabled := by
  unfold snapshot
  split <;> rfl

@[simp] theorem enabled_startTracking (t : Tracker) (now : Binary64) (resident : Number) :
    (t.startTracking now resident).enabled = t.enabled := by
  simp [startTracking]

@[simp] theorem enabled_endTracking (t : Tracker) (now : Binary64) (resident : Number) :
    (t.endTracking now resident).enabled = t.enabled := by
  unfold endTracking
  split <;> simp

@[simp] theorem enabled_updateCache (t : Tracker) (cache : String)
    (change : CacheCounters → CacheCounters) :
    ((t.updateCache cache change).toOption.getD t).enabled = t.enabled := by
  unfold updateCache
  split
  · rfl
  · split <;> rfl

theorem enabled_bind {α : Type} {t : Tracker} {x : Except Fault α} {f : α → Except Fault Tracker}
    (h : ∀ a, ((f a).toOption.getD t).enabled = t.enabled) :
    ((x >>= f).toOption.getD t).enabled = t.enabled := by
  cases x with
  | error fault => rfl
  | ok a => exact h a

@[simp] theorem enabled_recordEviction (t : Tracker) (cache : String) (count : Value) :
    ((t.recordEviction cache count).toOption.getD t).enabled = t.enabled := by
  unfold recordEviction
  split
  · rfl
  · split
    · rfl
    · exact enabled_bind fun n => enabled_bind fun evictions => enabled_updateCache ..

@[simp] theorem enabled_recordProcessed (t : Tracker) : t.recordProcessed.enabled = t.enabled := by
  unfold recordProcessed
  split <;> rfl

namespace Recorded

variable {t : Tracker} {readings : List Int} {upcoming : List Binary64}

theorem of_subset (h : t.Recorded readings upcoming) {later : List Binary64}
    (hlater : later ⊆ upcoming) : t.Recorded readings later :=
  { h with started := fun timer htimer now hnow => h.started timer htimer now (hlater hnow) }

theorem switch (h : t.Recorded readings upcoming) (flag : Bool) :
    ({ t with enabled := flag } : Tracker).Recorded readings upcoming :=
  ⟨h.snapshots, h.peak, h.positive, h.counted, h.times, h.started⟩

/-! #### Timers -/

theorem startTimer (h : t.Recorded readings upcoming) (operation : String) {now : Binary64}
    (hnow : ∀ later ∈ upcoming, NotAfter now later) :
    (t.startTimer operation now).Recorded readings upcoming := by
  unfold Tracker.startTimer
  split
  · refine { h with started := fun timer htimer => ?_ }
    obtain rfl | hin := Ordered.mem_write htimer
    · exact hnow
    · exact h.started timer hin
  · exact h

/-- Recording a duration that is not negative. -/
theorem recordDuration (h : t.Recorded readings upcoming) (operation : String)
    {duration : Binary64} (hduration : duration.IsNonneg) :
    (t.recordDuration operation duration).Recorded readings upcoming := by
  unfold Tracker.recordDuration
  split
  · rename_i operation _
    refine { h with
      times := Metrics.isNonneg_record h.times operation hduration
      peak := ?_ }
    cases operation <;> exact h.peak
  · exact h

theorem endTimer (h : t.Recorded readings upcoming) (operation : String) {now : Binary64}
    (hnow : now ∈ upcoming) : (t.endTimer operation now).1.Recorded readings upcoming := by
  unfold Tracker.endTimer
  split
  · exact h
  · split
    · exact h
    · rename_i started hstarted
      have hless : ({ t with timers := Ordered.erase operation t.timers } : Tracker).Recorded
          readings upcoming :=
        { h with started := fun timer htimer =>
            h.started timer (List.mem_of_mem_filter htimer) }
      exact hless.recordDuration operation
        (isNonneg_duration (h.started _ (Ordered.mem_of_get hstarted) now hnow))

/-- Whatever timer is stopped, its duration is not negative. -/
theorem isNonneg_endTimer (h : t.Recorded readings upcoming) {operation : String} {now : Binary64}
    (hnow : now ∈ upcoming) {duration : Binary64}
    (hduration : (t.endTimer operation now).2 = .ok duration) : duration.IsNonneg := by
  unfold Tracker.endTimer at hduration
  split at hduration
  · obtain rfl := Except.ok.inj hduration
    exact Binary64.isNonneg_zero false
  · split at hduration
    · cases hduration
    · rename_i started hstarted
      obtain rfl := Except.ok.inj hduration
      exact isNonneg_duration (h.started _ (Ordered.mem_of_get hstarted) now hnow)

/-! #### Counters -/

/-- Changing the counters of a cache to others that are whole numbers; a cache without counters is
refused, and the tracker stays as it is. -/
theorem updateCache (h : t.Recorded readings upcoming) (cache : String)
    {change : CacheCounters → CacheCounters}
    (hchange : ∀ y : Tally, ∃ y' : Tally, change y.counters = y'.counters) :
    ((t.updateCache cache change).toOption.getD t).Recorded readings upcoming := by
  obtain ⟨tally, htally⟩ := h.counted
  unfold Tracker.updateCache
  split
  · exact h
  · rw [htally, Ordered.get_of_keys]
    by_cases hknown : cache ∈ Caches.names
    · rw [if_pos hknown]
      obtain ⟨y, hy⟩ := hchange (tally cache)
      have hwritten : Ordered.write cache (change (tally cache).counters)
          (Caches.names.map fun name => (name, (tally name).counters)) =
            Caches.names.map fun name => (name, (Function.update tally cache y name).counters) := by
        rw [hy, Ordered.write_of_keys (by decide) hknown]
        refine List.map_congr_left fun name _ => ?_
        by_cases heq : name = cache
        · subst heq
          rw [Function.update_self, Function.update_self]
        · rw [Function.update_of_ne heq, Function.update_of_ne heq]
      exact { h with counted := ⟨_, hwritten⟩ }
    · rw [if_neg hknown]
      exact h

theorem recordHit (h : t.Recorded readings upcoming) (cache : String) :
    ((t.recordHit cache).toOption.getD t).Recorded readings upcoming :=
  h.updateCache cache fun y => ⟨{ y with hits := y.hits + 1 }, rfl⟩

theorem recordMiss (h : t.Recorded readings upcoming) (cache : String) :
    ((t.recordMiss cache).toOption.getD t).Recorded readings upcoming :=
  h.updateCache cache fun y => ⟨{ y with misses := y.misses + 1 }, rfl⟩

theorem recordSize (h : t.Recorded readings upcoming) (cache : String) (size maxSize : Int) :
    ((t.recordSize cache (.int size) (.int maxSize)).toOption.getD t).Recorded readings upcoming :=
  h.updateCache cache fun y => ⟨{ y with size := size, maxSize := maxSize }, rfl⟩

theorem recordEviction (h : t.Recorded readings upcoming) (cache : String) (count : Int) :
    ((t.recordEviction cache (.int count)).toOption.getD t).Recorded readings upcoming := by
  obtain ⟨tally, htally⟩ := h.counted
  have hget : Ordered.get? cache t.caches =
      if cache ∈ Caches.names then some (tally cache).counters else none := by
    rw [htally, Ordered.get_of_keys]
  unfold Tracker.recordEviction
  rw [hget]
  by_cases hknown : cache ∈ Caches.names
  · rw [if_pos hknown]
    dsimp only
    split
    · exact h
    · exact h.updateCache cache fun y =>
        ⟨{ y with evictions := (tally cache).evictions + count }, rfl⟩
  · rw [if_neg hknown]
    exact h

theorem recordProcessed (h : t.Recorded readings upcoming) :
    t.recordProcessed.Recorded readings upcoming := by
  unfold Tracker.recordProcessed
  split
  · exact ⟨h.snapshots, h.peak, h.positive, h.counted, h.times, h.started⟩
  · exact h

/-! #### Memory -/

theorem snapshot (h : t.Recorded readings upcoming) {resident : Int} (hpositive : 0 < resident) :
    (t.snapshot (.int resident)).Recorded
      (if t.enabled then readings ++ [resident] else readings) upcoming := by
  unfold Tracker.snapshot
  by_cases henabled : t.enabled = true
  · rw [if_pos henabled, if_pos henabled]
    have hmax : (readings ++ [resident]).max?.getD 0 = max (readings.max?.getD 0) resident := by
      cases readings with
      | nil => exact (max_eq_right hpositive.le).symm
      | cons first rest =>
          change (rest ++ [resident]).foldl max first = max (rest.foldl max first) resident
          rw [List.foldl_append]
          rfl
    refine ⟨?_, ?_, ?_, h.counted, h.times, h.started⟩
    · rw [List.map_append, h.snapshots]
      rfl
    · change t.metrics.peakMemoryUsage.larger (.int resident) = _
      rw [h.peak, Number.larger_int, hmax]
    · intro n hn
      obtain hold | hnew := List.mem_append.mp hn
      · exact h.positive n hold
      · rwa [List.mem_singleton.mp hnew]
  · rw [if_neg henabled, if_neg henabled]
    exact h

theorem startTracking (h : t.Recorded readings upcoming) {now : Binary64}
    (hnow : ∀ later ∈ upcoming, NotAfter now later) {resident : Int} (hpositive : 0 < resident) :
    (t.startTracking now (.int resident)).Recorded
      (if t.enabled then readings ++ [resident] else readings) upcoming := by
  have hsnapshot := (h.startTimer Operation.totalProcessing.name hnow).snapshot hpositive
  rwa [enabled_startTimer] at hsnapshot

theorem endTracking (h : t.Recorded readings upcoming) {now : Binary64} (hnow : now ∈ upcoming)
    {resident : Int} (hpositive : 0 < resident) :
    (t.endTracking now (.int resident)).Recorded
      (if t.enabled then readings ++ [resident] else readings) upcoming := by
  unfold Tracker.endTracking
  dsimp only
  split
  · have hsnapshot := (h.endTimer Operation.totalProcessing.name hnow).snapshot hpositive
    rwa [enabled_endTimer] at hsnapshot
  · exact h.snapshot hpositive

end Recorded

/-- A call of a tracker.  A block is timed from where it is entered to where it is left; several blocks
may overlap. -/
inductive Action where
  | startTimer (operation : String)
  | endTimer (operation : String)
  | enter (operation : String)
  /-- Leave a block; they are counted from the one that was entered last. -/
  | leave (block : Nat)
  | hit (cache : String)
  | miss (cache : String)
  | evicted (cache : String) (count : Int)
  | sized (cache : String) (size maxSize : Int)
  | processed
  | snapshot
  | startTracking
  | endTracking
  | reset
  | switch (flag : Bool)

end Tracker

/-! ### Runs -/

/-- A call, with what the clock shows and the memory in use at that time. -/
structure Tracker.Call where
  now : Binary64
  resident : Int
  action : Tracker.Action

/-- A tracker, and the blocks that are entered, each with the time of its entry if it is measured. -/
structure Tracking where
  tracker : Tracker
  blocks : List (String × Option Binary64) := []

namespace Tracking

/-- One call.  A call that is refused leaves the tracker as it is. -/
def step (s : Tracking) (call : Tracker.Call) : Tracking :=
  let t := s.tracker
  match call.action with
  | .startTimer operation => { s with tracker := t.startTimer operation call.now }
  | .endTimer operation => { s with tracker := (t.endTimer operation call.now).1 }
  | .enter operation =>
    { s with blocks := (operation, if t.enabled then some call.now else none) :: s.blocks }
  | .leave block =>
    match s.blocks[block]? with
    | some (operation, some started) =>
      { tracker := t.recordDuration operation (Tracker.duration started call.now)
        blocks := s.blocks.eraseIdx block }
    | _ => { s with blocks := s.blocks.eraseIdx block }
  | .hit cache => { s with tracker := (t.recordHit cache).toOption.getD t }
  | .miss cache => { s with tracker := (t.recordMiss cache).toOption.getD t }
  | .evicted cache count =>
    { s with tracker := (t.recordEviction cache (.int count)).toOption.getD t }
  | .sized cache size maxSize =>
    { s with tracker := (t.recordSize cache (.int size) (.int maxSize)).toOption.getD t }
  | .processed => { s with tracker := t.recordProcessed }
  | .snapshot => { s with tracker := t.snapshot (.int call.resident) }
  | .startTracking => { s with tracker := t.startTracking call.now (.int call.resident) }
  | .endTracking => { s with tracker := t.endTracking call.now (.int call.resident) }
  | .reset => { s with tracker := t.reset }
  | .switch flag => { s with tracker := { t with enabled := flag } }

/-- A block that is left right after it was entered is one tracked operation. -/
theorem track_of_block (s : Tracking) (operation : Operation) (started now : Binary64)
    (resident resident' : Int) :
    (s.step ⟨started, resident, .enter operation.name⟩).step ⟨now, resident', .leave 0⟩ =
      { s with tracker := s.tracker.track operation started now } := by
  have hname : Operation.ofName? operation.name = some operation := by
    cases operation <;> rfl
  unfold step Tracker.track
  by_cases henabled : s.tracker.enabled = true
  · simp [henabled, Tracker.recordDuration, hname]
  · simp [henabled]

/-- The calls of a run, one after the other. -/
def run (s : Tracking) (calls : List Tracker.Call) : Tracking := calls.foldl step s

end Tracking

/-- The history of a run: whether anything is recorded, and what has been read of the memory in use
since the last reset. -/
structure Noted where
  enabled : Bool
  readings : List Int := []

namespace Noted

/-- The history after one more call. -/
def step (n : Noted) (call : Tracker.Call) : Noted :=
  match call.action with
  | .snapshot | .startTracking | .endTracking =>
    if n.enabled then { n with readings := n.readings ++ [call.resident] } else n
  | .reset => { n with readings := [] }
  | .switch flag => { n with enabled := flag }
  | _ => n

/-- The history after several calls. -/
def run (n : Noted) (calls : List Tracker.Call) : Noted := calls.foldl step n

end Noted

namespace Tracking

/-- What holds of a tracker and its blocks after a history, when the clock will only show some
times. -/
structure Recorded (s : Tracking) (n : Noted) (upcoming : List Binary64) : Prop where
  enabled : s.tracker.enabled = n.enabled
  recorded : s.tracker.Recorded n.readings upcoming
  entered : ∀ block ∈ s.blocks, ∀ started, block.2 = some started →
    ∀ now ∈ upcoming, NotAfter started now

variable {s : Tracking} {n : Noted} {upcoming : List Binary64} {call : Tracker.Call}

/-- A call keeps what holds, if the clock will not go back behind it. -/
theorem recorded_step (h : s.Recorded n (call.now :: upcoming))
    (hclock : ∀ later ∈ upcoming, NotAfter call.now later) (hpositive : 0 < call.resident) :
    (s.step call).Recorded (n.step call) upcoming := by
  obtain ⟨henabled, hrecorded, hentered⟩ := h
  have hnow : call.now ∈ call.now :: upcoming := List.mem_cons_self
  have hlater : upcoming ⊆ call.now :: upcoming := List.subset_cons_self _ _
  have hlast := hrecorded.of_subset hlater
  have hblocks : ∀ block ∈ s.blocks, ∀ started, block.2 = some started →
      ∀ now ∈ upcoming, NotAfter started now :=
    fun block hblock started hstarted now hin =>
      hentered block hblock started hstarted now (hlater hin)
  -- what has been read of the memory is told apart by whether it is recorded
  have hread : ∀ t : Tracker, t.enabled = s.tracker.enabled →
      t.Recorded (if s.tracker.enabled then n.readings ++ [call.resident] else n.readings) upcoming →
      Recorded { s with tracker := t }
        (if n.enabled then { n with readings := n.readings ++ [call.resident] } else n) upcoming := by
    intro t ht hrecorded
    rw [henabled] at ht hrecorded
    by_cases hon : n.enabled = true
    · rw [if_pos hon] at hrecorded ⊢
      exact ⟨ht, hrecorded, hblocks⟩
    · rw [if_neg hon] at hrecorded ⊢
      exact ⟨ht, hrecorded, hblocks⟩
  obtain ⟨now, resident, action⟩ := call
  cases action with
  | startTimer operation =>
      exact ⟨(Tracker.enabled_startTimer ..).trans henabled, hlast.startTimer operation hclock,
        hblocks⟩
  | endTimer operation =>
      exact ⟨(Tracker.enabled_endTimer ..).trans henabled,
        (hrecorded.endTimer operation hnow).of_subset hlater, hblocks⟩
  | enter operation =>
      refine ⟨henabled, hlast, fun block hblock started hstarted => ?_⟩
      obtain rfl | hold := List.mem_cons.mp hblock
      · by_cases hon : s.tracker.enabled = true
        · obtain rfl : now = started := by simpa [hon] using hstarted
          exact hclock
        · simp [hon] at hstarted
      · exact hblocks block hold started hstarted
  | leave block =>
      have hfewer : ∀ other ∈ s.blocks.eraseIdx block, ∀ started, other.2 = some started →
          ∀ now ∈ upcoming, NotAfter started now :=
        fun other hin => hblocks other (List.mem_of_mem_eraseIdx hin)
      unfold step
      dsimp only
      split
      · rename_i operation started hblock
        have hduration := Tracker.isNonneg_duration
          (hentered _ (List.mem_of_getElem? hblock) started rfl now hnow)
        exact ⟨(Tracker.enabled_recordDuration ..).trans henabled,
          hlast.recordDuration operation hduration, hfewer⟩
      · exact ⟨henabled, hlast, hfewer⟩
  | hit cache =>
      exact ⟨(Tracker.enabled_updateCache ..).trans henabled, hlast.recordHit cache, hblocks⟩
  | miss cache =>
      exact ⟨(Tracker.enabled_updateCache ..).trans henabled, hlast.recordMiss cache, hblocks⟩
  | evicted cache count =>
      exact ⟨(Tracker.enabled_recordEviction ..).trans henabled, hlast.recordEviction cache count,
        hblocks⟩
  | sized cache size maxSize =>
      exact ⟨(Tracker.enabled_updateCache ..).trans henabled, hlast.recordSize cache size maxSize,
        hblocks⟩
  | processed =>
      exact ⟨(Tracker.enabled_recordProcessed _).trans henabled, hlast.recordProcessed, hblocks⟩
  | snapshot => exact hread _ (Tracker.enabled_snapshot ..) (hlast.snapshot hpositive)
  | startTracking =>
      exact hread _ (Tracker.enabled_startTracking ..) (hlast.startTracking hclock hpositive)
  | endTracking =>
      exact hread _ (Tracker.enabled_endTracking ..)
        ((hrecorded.endTracking hnow hpositive).of_subset hlater)
  | reset => exact ⟨henabled, Tracker.recorded_start _ _, hblocks⟩
  | switch flag => exact ⟨rfl, hlast.switch flag, hblocks⟩

/-- A run keeps what holds, if its clock does not go back. -/
theorem recorded_run {calls : List Tracker.Call}
    (h : s.Recorded n (calls.map (·.now) ++ upcoming))
    (hclock : (calls.map (·.now) ++ upcoming).Pairwise NotAfter)
    (hpositive : ∀ call ∈ calls, 0 < call.resident) :
    (s.run calls).Recorded (n.run calls) upcoming := by
  induction calls generalizing s n with
  | nil => exact h
  | cons call calls ih =>
      rw [List.map_cons, List.cons_append, List.pairwise_cons] at hclock
      rw [List.forall_mem_cons] at hpositive
      exact ih (recorded_step h hclock.1 hpositive.1) hclock.2 hpositive.2

end Tracking

end SchemaGraph
