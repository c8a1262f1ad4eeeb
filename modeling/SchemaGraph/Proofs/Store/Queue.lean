import SchemaGraph.Proofs.Store.Counted

/-!
# Bounded caches are queues

A cache is told in any order to show, to take and to drop entries, to hide them and to show them
again, and to be content with another bound.  Whatever is done to it, a new key goes to the end, a key
that is present keeps its place, and what is dropped are the oldest entries, as many as are reported.
So what it shows at a key is what was last written there since the key was last absent
(`isQueue_after`).
-/

namespace SchemaGraph

namespace Ordered

/-- Writing at a key that is present replaces its item and moves nothing. -/
theorem write_present {κ α : Type} [BEq κ] [LawfulBEq κ] {key : κ} {entries : List (κ × α)}
    (hdistinct : (entries.map (·.1)).Nodup) (hkey : key ∈ entries.map (·.1)) (item : α) :
    write key item entries =
      entries.map fun entry => if entry.1 == key then (key, item) else entry := by
  induction entries with
  | nil => cases hkey
  | cons first rest ih =>
      obtain ⟨k, old⟩ := first
      rw [List.map_cons, List.nodup_cons] at hdistinct
      rw [write, List.map_cons]
      by_cases hhere : k = key
      · subst hhere
        have hrest : ∀ entry ∈ rest, (if entry.1 == k then (k, item) else entry) = entry := by
          intro entry hentry
          refine if_neg fun heq => hdistinct.1 ?_
          rw [← eq_of_beq heq]
          exact List.mem_map.mpr ⟨entry, hentry, rfl⟩
        rw [if_pos (beq_self_eq_true k), if_pos (beq_self_eq_true k), List.map_congr_left hrest,
          List.map_id']
      · have hin : key ∈ rest.map (·.1) := (List.mem_cons.mp hkey).resolve_left (Ne.symm hhere)
        rw [if_neg (by simpa using hhere), if_neg (by simpa using hhere), ih hdistinct.2 hin]

end Ordered

namespace BoundedCache

variable {κ α : Type} [BEq κ]

/-- What is done to a cache. -/
inductive Action (κ α : Type) where
  | get (key : κ)
  | set (key : κ) (item : α)
  | clear
  | evictIfFull
  | evictFraction (fraction : Value)
  | shrinkTo (bound : Value)
  | setEnabled (flag : Bool)
  | setMaxSize (bound : Value)

/-- The cache after an action. -/
def after (c : BoundedCache κ α) : Action κ α → BoundedCache κ α
  | .get _ => c
  | .set key item => (c.set key item).1
  | .clear => c.clear
  | .evictIfFull => c.evictIfFull.1
  | .evictFraction fraction => (c.evictFraction fraction).1
  | .shrinkTo bound => (c.shrinkTo bound).1
  | .setEnabled flag => { c with enabled := flag }
  | .setMaxSize bound => { c with maxSize := bound }

/-- The number of entries that an action reports as evicted, unless it fails. -/
def report (c : BoundedCache κ α) : Action κ α → Except Failure Nat
  | .set key item => orFail (c.set key item).2
  | .evictIfFull => orFail c.evictIfFull.2
  | .evictFraction fraction => (c.evictFraction fraction).2
  | .shrinkTo bound => orFail (c.shrinkTo bound).2
  | .get _ | .clear | .setEnabled _ | .setMaxSize _ => .ok 0

/-- The entries of a cache when an action has written and before it evicts any: a new key stands at
the end and a key that was there in its place. -/
def written (c : BoundedCache κ α) : Action κ α → List (κ × α)
  | .set key item =>
      if c.enabled then
        if c.keys.contains key then
          c.entries.map fun entry => if entry.1 == key then (key, item) else entry
        else c.entries ++ [(key, item)]
      else c.entries
  | .clear => []
  | _ => c.entries

/-- The cache after some actions, one after the other. -/
def afterAll (c : BoundedCache κ α) (actions : List (Action κ α)) : BoundedCache κ α :=
  actions.foldl after c

/-- How many entries some actions report as evicted. -/
def reported (c : BoundedCache κ α) : List (Action κ α) → Nat
  | [] => 0
  | action :: rest => dropped (c.report action) + (c.after action).reported rest

/-- How many entries are no longer there when they should be after what was written. -/
def evicted (c : BoundedCache κ α) : List (Action κ α) → Nat
  | [] => 0
  | action :: rest =>
      ((c.written action).length - (c.after action).size) + (c.after action).evicted rest

/-- Whether an item is what was last written at a key since the key was last absent.  What a disabled
cache is given does not count. -/
def LastWritten (start : BoundedCache κ α) (actions : List (Action κ α)) (key : κ) (item : α) :
    Prop :=
  ∃ earlier later, actions = earlier ++ .set key item :: later ∧
    (start.afterAll earlier).enabled = true ∧
    (∀ next, next <+: later → key ∈ (start.afterAll (earlier ++ .set key item :: next)).keys) ∧
    ∀ next rest other, later = next ++ .set key other :: rest →
      (start.afterAll (earlier ++ .set key item :: next)).enabled = false

/-- Whether a bound is a number that is not negative. -/
def NonNegative (bound : Value) : Prop :=
  ∃ n, bound.number? = some n ∧ Number.le (.int 0) n = true

/-- Whether an action sets no negative bound. -/
def Action.Sound : Action κ α → Prop
  | .shrinkTo bound | .setMaxSize bound => NonNegative bound
  | _ => True

/-- Whether an action is given what it asks for: an integer as the bound to shrink to, and a fraction
between nothing and all of it. -/
def Action.Accepted : Action κ α → Prop
  | .shrinkTo bound => ∃ n, bound.number? = some (.int n)
  | .evictFraction fraction => ∃ n, fraction.number? = some n ∧
      Number.le (.int 0) n = true ∧ Number.le n (.int 1) = true
  | _ => True

/-- A cache that acts as a queue after some actions. -/
structure IsQueue (start : BoundedCache κ α) (actions : List (Action κ α)) : Prop where
  /-- The next action writes in order and then drops as many of the oldest entries as it reports. -/
  order : ∀ action : Action κ α, action.Sound →
    ((start.afterAll actions).after action).entries =
      ((start.afterAll actions).written action).drop
        (dropped ((start.afterAll actions).report action))
  /-- It reports no more than there is. -/
  bounded : ∀ action : Action κ α, action.Sound →
    dropped ((start.afterAll actions).report action) ≤
      ((start.afterAll actions).written action).length
  /-- It fails only if it is not given what it asks for. -/
  answered : ∀ action : Action κ α, action.Sound → action.Accepted →
    ∃ count, (start.afterAll actions).report action = .ok count
  /-- While it is enabled, it shows what was last written. -/
  shown : (start.afterAll actions).enabled = true → ∀ key item,
    (start.afterAll actions).get? key = some item ↔ LastWritten start actions key item
  /-- It shows nothing at a key that is absent. -/
  hidden : ∀ key, key ∉ (start.afterAll actions).keys → (start.afterAll actions).get? key = none
  /-- What was reported is what was evicted. -/
  counted : start.reported actions = start.evicted actions
  /-- Writing leaves it within its bound, or no larger than it was. -/
  size : ∀ key item n, (start.afterAll actions).maxSize.number? = some n →
    Number.le (.int ((start.afterAll actions).set key item).1.size) n = true ∨
      ((start.afterAll actions).set key item).1.size ≤ (start.afterAll actions).size

/-! ### One action -/

/-- What holds of a cache all along: its keys are distinct and its bound is not negative. -/
structure Orderly (c : BoundedCache κ α) : Prop where
  distinct : c.keys.Nodup
  bound : NonNegative c.maxSize

theorem dropped_orFail (result : Except Fault Nat) : dropped (orFail result) = dropped result := by
  cases result <;> rfl

section Evicting

variable {c : BoundedCache κ α}

omit [BEq κ] in
/-- A cache with such a bound drops entries only if it is beyond it, and then at least one. -/
theorem overflow_of_nonNegative (hbound : NonNegative c.maxSize) :
    ∃ count, c.overflow = .ok count ∧ count ≤ c.size ∧
      ∀ n, c.maxSize.number? = some n →
        Number.le (.int c.size) n = true ∧ count = 0 ∨ 1 ≤ count := by
  obtain ⟨n, hn, hle⟩ := hbound
  have hover : c.overflow =
      .ok (if Number.le (.int c.size) n then 0 else max 1 (c.size / 10)) := by
    unfold overflow
    rw [Value.number_eq_ok.mpr hn]
    rfl
  refine ⟨_, hover, ?_, ?_⟩
  · by_cases hempty : c.entries = []
    · have hsize : c.size = 0 := congrArg List.length hempty
      rw [hsize, Int.natCast_zero, if_pos hle]
    · exact overflow_le hempty hover
  · intro n' hn'
    obtain rfl : n = n' := Option.some.inj (hn ▸ hn')
    split
    · exact Or.inl ⟨‹_›, rfl⟩
    · exact Or.inr (Nat.le_max_left _ _)

omit [BEq κ] in
theorem counted_evictIfFull (hbound : NonNegative c.maxSize) :
    Counted c.entries c.evictIfFull.1 c.evictIfFull.2 := by
  obtain ⟨count, hover, hle, -⟩ := overflow_of_nonNegative hbound
  unfold evictIfFull
  rw [hover]
  exact ⟨hle, rfl⟩

omit [BEq κ] in
theorem counted_shrinkTo_of_nonNegative {bound : Value} (hbound : NonNegative bound) :
    Counted c.entries (c.shrinkTo bound).1 (c.shrinkTo bound).2 := by
  obtain ⟨n, hn, hle⟩ := hbound
  unfold shrinkTo
  dsimp only
  cases hcount : excess { c with maxSize := bound } bound with
  | ok count =>
      refine ⟨excess_le (Value.number_eq_ok.mpr hn) ?_ hcount, rfl⟩
      rintro k rfl
      simpa using hle
  | error fault => exact ⟨Nat.zero_le _, rfl⟩

end Evicting

section Writing

variable [LawfulBEq κ] {c : BoundedCache κ α}

/-- Writing in a cache with distinct keys is done in order. -/
theorem write_eq_written (hdistinct : c.keys.Nodup) (henabled : c.enabled = true) (key : κ)
    (item : α) : Ordered.write key item c.entries = c.written (.set key item) := by
  rw [written, if_pos henabled]
  split
  · rename_i hkey
    exact Ordered.write_present hdistinct (List.contains_iff_mem.mp hkey) item
  · rename_i hkey
    refine Ordered.write_absent (fun old hin => hkey ?_) item
    exact List.contains_iff_mem.mpr (List.mem_map_of_mem hin)

/-- What an action leaves to be evicted is what it is given, under the key that it is given, or was
there before. -/
theorem mem_written {action : Action κ α} {key : κ} {item : α}
    (h : (key, item) ∈ c.written action) :
    (action = .set key item ∧ c.enabled = true) ∨
      ((key, item) ∈ c.entries ∧ ∀ other, action = .set key other → c.enabled = false) := by
  cases action with
  | clear => cases h
  | set key' item' =>
      rw [written] at h
      split at h
      · rename_i henabled
        split at h
        · obtain ⟨entry, hentry, heq⟩ := List.mem_map.mp h
          split at heq
          · obtain ⟨rfl, rfl⟩ := Prod.mk.inj heq
            exact Or.inl ⟨rfl, henabled⟩
          · rename_i hne
            subst heq
            refine Or.inr ⟨hentry, fun other hother => absurd ?_ hne⟩
            rw [(Action.set.inj hother).1]
            exact beq_self_eq_true key
        · rename_i habsent
          rcases List.mem_append.mp h with hin | hin
          · refine Or.inr ⟨hin, fun other hother => absurd ?_ habsent⟩
            rw [(Action.set.inj hother).1]
            exact List.contains_iff_mem.mpr (List.mem_map_of_mem hin)
          · obtain ⟨rfl, rfl⟩ := Prod.mk.inj (List.mem_singleton.mp hin)
            exact Or.inl ⟨rfl, henabled⟩
      · rename_i hdisabled
        exact Or.inr ⟨h, fun _ _ => Bool.eq_false_iff.mpr hdisabled⟩
  | _ => exact Or.inr ⟨h, fun _ hother => nomatch hother⟩

theorem distinct_written (hdistinct : c.keys.Nodup) (action : Action κ α) :
    ((c.written action).map (·.1)).Nodup := by
  cases action with
  | clear => exact List.nodup_nil
  | set key item =>
      rw [written]
      split
      · split
        · -- the keys stay where they were
          have hkeys : (c.entries.map fun entry =>
              if entry.1 == key then (key, item) else entry).map (·.1) = c.keys := by
            rw [List.map_map]
            refine List.map_congr_left fun entry _ => ?_
            rw [Function.comp_apply]
            split
            · rename_i hkey
              exact (eq_of_beq hkey).symm
            · rfl
          rw [hkeys]
          exact hdistinct
        · rename_i habsent
          rw [List.map_append, List.nodup_append]
          refine ⟨hdistinct, List.nodup_singleton _, ?_⟩
          rintro k hin k' hin' rfl
          obtain rfl := List.mem_singleton.mp hin'
          exact habsent (List.contains_iff_mem.mpr hin)
      · exact hdistinct
  | _ => exact hdistinct

/-- An action writes in order and then drops as many of the oldest entries as it reports. -/
theorem counted_after (h : c.Orderly) {action : Action κ α} (haction : action.Sound) :
    Counted (c.written action) (c.after action) (c.report action) := by
  cases action with
  | get key => exact ⟨Nat.zero_le _, rfl⟩
  | clear => exact ⟨Nat.zero_le _, rfl⟩
  | setEnabled flag => exact ⟨Nat.zero_le _, rfl⟩
  | setMaxSize bound => exact ⟨Nat.zero_le _, rfl⟩
  | evictFraction fraction => exact c.counted_evictFraction fraction
  | evictIfFull =>
      rw [Counted, report, dropped_orFail]
      exact counted_evictIfFull h.bound
  | shrinkTo bound =>
      rw [Counted, report, dropped_orFail]
      exact counted_shrinkTo_of_nonNegative haction
  | set key item =>
      rw [Counted, report, dropped_orFail]
      by_cases henabled : c.enabled = true
      · rw [← write_eq_written h.distinct henabled, after, set, if_pos henabled]
        exact counted_evictIfFull
          (c := { c with entries := Ordered.write key item c.entries }) h.bound
      · rw [after, set, if_neg henabled, written, if_neg henabled]
        exact ⟨Nat.zero_le _, rfl⟩

theorem Orderly.after (h : c.Orderly) {action : Action κ α} (haction : action.Sound) :
    (c.after action).Orderly := by
  constructor
  · rw [keys, (counted_after h haction).2]
    exact (distinct_written h.distinct action).sublist ((List.drop_sublist _ _).map _)
  · cases action with
    | shrinkTo bound =>
        obtain ⟨entries, result, heq, -⟩ := c.shrinkTo_cases bound
        rw [BoundedCache.after, heq]
        exact haction
    | setMaxSize bound => exact haction
    | set key item =>
        obtain ⟨entries, result, heq, -⟩ := c.set_cases key item
        rw [BoundedCache.after, heq]
        exact h.bound
    | evictIfFull =>
        obtain ⟨dropped, result, heq, -⟩ := c.evictIfFull_cases
        rw [BoundedCache.after, heq]
        exact h.bound
    | evictFraction fraction =>
        obtain ⟨entries, result, heq, -⟩ := c.evictFraction_cases fraction
        rw [BoundedCache.after, heq]
        exact h.bound
    | _ => exact h.bound

omit [BEq κ] [LawfulBEq κ] in
theorem evictIfFull_ok (hbound : NonNegative c.maxSize) :
    ∃ count, c.evictIfFull.2 = .ok count := by
  obtain ⟨count, hover, -⟩ := overflow_of_nonNegative hbound
  unfold evictIfFull
  rw [hover]
  exact ⟨count, rfl⟩

omit [LawfulBEq κ] in
/-- An action that is given what it asks for does not fail. -/
theorem report_of_accepted (h : c.Orderly) {action : Action κ α} (haccepted : action.Accepted) :
    ∃ count, c.report action = .ok count := by
  cases action with
  | set key item =>
      simp only [report, orFail_eq_ok]
      rw [set]
      split
      · exact evictIfFull_ok (c := { c with entries := _ }) h.bound
      · exact ⟨0, rfl⟩
  | evictIfFull =>
      simp only [report, orFail_eq_ok]
      exact evictIfFull_ok h.bound
  | evictFraction fraction =>
      obtain ⟨n, hn, hlow, hhigh⟩ := haccepted
      obtain ⟨count, hcount⟩ := c.share_ok hn hlow hhigh
      rw [report, evictFraction, hcount]
      exact ⟨count, rfl⟩
  | shrinkTo bound =>
      obtain ⟨n, hn⟩ := haccepted
      refine ⟨((c.size : Int) - n).toNat, ?_⟩
      rw [report, orFail_eq_ok, shrinkTo, excess, Value.number_eq_ok.mpr hn]
      rfl
  | _ => exact ⟨0, rfl⟩

omit [LawfulBEq κ] in
/-- Writing leaves a cache within its bound, or no larger than it was. -/
theorem size_set_le (h : c.Orderly) (key : κ) (item : α) {n : Number}
    (hn : c.maxSize.number? = some n) :
    Number.le (.int (c.set key item).1.size) n = true ∨ (c.set key item).1.size ≤ c.size := by
  rw [set]
  split
  · have hlength : (Ordered.write key item c.entries).length ≤ c.size + 1 := by
      rw [Ordered.length_write, size]
      split <;> omega
    obtain ⟨count, hover, -, hdrop⟩ :=
      overflow_of_nonNegative (c := { c with entries := Ordered.write key item c.entries }) h.bound
    rw [evictIfFull, hover]
    change Number.le (.int ((Ordered.write key item c.entries).drop count).length) n = true ∨
      ((Ordered.write key item c.entries).drop count).length ≤ c.size
    rw [List.length_drop]
    -- one entry too many is made good by the one that is dropped at least
    rcases hdrop n hn with ⟨hwithin, rfl⟩ | hone
    · exact Or.inl hwithin
    · exact Or.inr (by omega)
  · exact Or.inr le_rfl

end Writing

/-! ### A sequence of actions -/

section Run

variable [LawfulBEq κ] {c start : BoundedCache κ α} {actions : List (Action κ α)}

omit [BEq κ] [LawfulBEq κ] in
theorem item_unique (hdistinct : c.keys.Nodup) {key : κ} {item other : α}
    (h : (key, item) ∈ c.entries) (h' : (key, other) ∈ c.entries) : item = other :=
  (Prod.mk.inj (List.inj_on_of_nodup_map hdistinct h h' rfl)).2

theorem mem_iff_get (hdistinct : c.keys.Nodup) {key : κ} {item : α} :
    (key, item) ∈ c.entries ↔ Ordered.get? key c.entries = some item := by
  refine ⟨fun hin => ?_, Ordered.mem_of_get⟩
  cases hget : Ordered.get? key c.entries with
  | none => exact absurd hin (Ordered.absent_of_get hget item)
  | some other => rw [item_unique hdistinct hin (Ordered.mem_of_get hget)]

omit [LawfulBEq κ] in
theorem afterAll_append (start : BoundedCache κ α) (earlier later : List (Action κ α)) :
    start.afterAll (earlier ++ later) = (start.afterAll earlier).afterAll later :=
  List.foldl_append

theorem Orderly.afterAll (h : c.Orderly) (hsound : ∀ action ∈ actions, action.Sound) :
    (c.afterAll actions).Orderly := by
  induction actions generalizing c with
  | nil => exact h
  | cons action rest ih =>
      exact ih (h.after (hsound action List.mem_cons_self))
        fun other hin => hsound other (List.mem_cons_of_mem _ hin)

omit [LawfulBEq κ] in
/-- What one more action does to what was last written. -/
theorem lastWritten_concat {action : Action κ α} {key : κ} {item : α} :
    LastWritten start (actions ++ [action]) key item ↔
      key ∈ ((start.afterAll actions).after action).keys ∧
        (action = .set key item ∧ (start.afterAll actions).enabled = true ∨
          LastWritten start actions key item ∧
            ∀ other, action = .set key other → (start.afterAll actions).enabled = false) := by
  have hlast : ∀ earlier : List (Action κ α),
      start.afterAll (earlier ++ [action]) = (start.afterAll earlier).after action :=
    fun earlier => afterAll_append start earlier [action]
  constructor
  · rintro ⟨earlier, later, heq, henabled, hkeys, hlater⟩
    -- the last writing is the new action, or it stands before it
    rcases List.eq_nil_or_concat later with rfl | ⟨before, final, rfl⟩
    · obtain ⟨rfl, hset⟩ := List.append_inj' heq rfl
      obtain rfl := List.singleton_inj.mp hset
      refine ⟨?_, Or.inl ⟨rfl, henabled⟩⟩
      rw [← hlast]
      exact hkeys [] List.prefix_rfl
    · rw [List.concat_eq_append] at heq hkeys hlater
      rw [← List.cons_append, ← List.append_assoc] at heq
      obtain ⟨rfl, hfinal⟩ := List.append_inj' heq rfl
      obtain rfl := List.singleton_inj.mp hfinal
      refine ⟨?_, Or.inr ⟨⟨earlier, before, rfl, henabled, ?_, ?_⟩, ?_⟩⟩
      · have hwhole := hkeys _ List.prefix_rfl
        rwa [← List.cons_append, ← List.append_assoc, hlast] at hwhole
      · exact fun next hnext => hkeys next (hnext.trans (List.prefix_append _ _))
      · rintro next rest other rfl
        exact hlater next (rest ++ [action]) other (by simp)
      · rintro other rfl
        exact hlater before [] other rfl
  · rintro ⟨hkey, ⟨rfl, henabled⟩ | ⟨⟨earlier, later, rfl, henabled, hkeys, hlater⟩, haction⟩⟩
    · refine ⟨actions, [], rfl, henabled, ?_, ?_⟩
      · intro next hnext
        rwa [List.prefix_nil.mp hnext, hlast]
      · intro next rest other heq
        exact absurd heq.symm (by simp)
    · refine ⟨earlier, later ++ [action], by simp, henabled, ?_, ?_⟩
      · intro next hnext
        rcases List.prefix_concat_iff.mp hnext with rfl | hshort
        · rwa [← List.cons_append, ← List.append_assoc, hlast]
        · exact hkeys next hshort
      · intro next rest other heq
        rcases List.eq_nil_or_concat rest with rfl | ⟨before, final, rfl⟩
        · obtain ⟨rfl, hset⟩ := List.append_inj' heq rfl
          exact haction other (List.singleton_inj.mp hset)
        · rw [List.concat_eq_append, ← List.cons_append, ← List.append_assoc] at heq
          exact hlater next before other (List.append_inj' heq rfl).1

/-- The entries of a cache that was empty are those that were last written. -/
theorem mem_iff_lastWritten (h : start.Orderly) (hempty : start.entries = [])
    (hsound : ∀ action ∈ actions, action.Sound) {key : κ} {item : α} :
    (key, item) ∈ (start.afterAll actions).entries ↔ LastWritten start actions key item := by
  induction actions using List.reverseRecOn generalizing item with
  | nil =>
      change (key, item) ∈ start.entries ↔ _
      rw [hempty]
      refine ⟨fun hin => absurd hin List.not_mem_nil, ?_⟩
      rintro ⟨earlier, later, heq, -⟩
      exact absurd heq.symm (by simp)
  | append_singleton earlier action ih =>
      have hearlier : (start.afterAll earlier).Orderly :=
        h.afterAll fun other hin => hsound other (List.mem_append_left _ hin)
      have haction : action.Sound := hsound action (by simp)
      have hold : ∀ {item}, (key, item) ∈ (start.afterAll earlier).entries ↔
          LastWritten start earlier key item :=
        ih fun other hin => hsound other (List.mem_append_left _ hin)
      have hleft : ∀ {item}, (key, item) ∈ ((start.afterAll earlier).after action).entries →
          action = .set key item ∧ (start.afterAll earlier).enabled = true ∨
            (key, item) ∈ (start.afterAll earlier).entries ∧
              ∀ other, action = .set key other → (start.afterAll earlier).enabled = false := by
        intro item hin
        rw [(counted_after hearlier haction).2] at hin
        exact mem_written (List.mem_of_mem_drop hin)
      rw [afterAll_append, lastWritten_concat, ← hold]
      change (key, item) ∈ ((start.afterAll earlier).after action).entries ↔ _
      refine ⟨fun hin => ⟨List.mem_map_of_mem hin, hleft hin⟩, ?_⟩
      rintro ⟨hkey, hwritten⟩
      obtain ⟨⟨_, other⟩, hin, rfl⟩ := List.mem_map.mp hkey
      -- what stands at the key is the only item that can stand there
      suffices heq : other = item by rwa [← heq]
      rcases hleft hin with ⟨hset, henabled⟩ | ⟨hother, hdisabled⟩
      · rcases hwritten with ⟨hset', -⟩ | ⟨-, hdisabled⟩
        · exact (Action.set.inj (hset ▸ hset')).2
        · exact absurd henabled (by rw [hdisabled other hset]; exact Bool.false_ne_true)
      · rcases hwritten with ⟨hset, henabled⟩ | ⟨hitem, -⟩
        · exact absurd henabled (by rw [hdisabled item hset]; exact Bool.false_ne_true)
        · exact item_unique hearlier.distinct hother hitem

/-- What some actions report as evicted is what they evict. -/
theorem reported_eq_evicted (h : c.Orderly) (hsound : ∀ action ∈ actions, action.Sound) :
    c.reported actions = c.evicted actions := by
  induction actions generalizing c with
  | nil => rfl
  | cons action rest ih =>
      have haction := hsound action List.mem_cons_self
      obtain ⟨hle, hentries⟩ := counted_after h haction
      have hsize : (c.after action).size =
          (c.written action).length - dropped (c.report action) := by
        rw [size, hentries, List.length_drop]
      rw [reported, evicted, hsize, Nat.sub_sub_self hle,
        ih (h.after haction) fun other hin => hsound other (List.mem_cons_of_mem _ hin)]

end Run

/-- Whatever is done to a cache that was empty, it acts as a queue. -/
theorem isQueue_after [LawfulBEq κ] (name : String) {bound : Value} (enabled : Bool)
    (hbound : NonNegative bound) {actions : List (Action κ α)}
    (hsound : ∀ action ∈ actions, action.Sound) :
    IsQueue (empty name bound enabled) actions := by
  have hstart : (empty name bound enabled : BoundedCache κ α).Orderly :=
    ⟨List.nodup_nil, hbound⟩
  have hnow := hstart.afterAll hsound
  refine ⟨fun action haction => (counted_after hnow haction).2,
    fun action haction => (counted_after hnow haction).1,
    fun action _ haccepted => report_of_accepted hnow haccepted, ?_, ?_,
    reported_eq_evicted hstart hsound, fun key item n hn => size_set_le hnow key item hn⟩
  · intro henabled key item
    rw [get?, if_pos henabled, ← mem_iff_get hnow.distinct]
    exact mem_iff_lastWritten hstart rfl hsound
  · intro key habsent
    rw [get?]
    split
    · cases hget : Ordered.get? key _ with
      | none => rfl
      | some item => exact absurd (List.mem_map_of_mem (Ordered.mem_of_get hget)) habsent
    · rfl

/-- Two entries, the older of which is dropped and then written while the cache is disabled. -/
def shrunkActions : List (Action String Nat) :=
  [.set "a" 1, .set "b" 2, .shrinkTo (.int 1), .setEnabled false, .set "a" 3, .setEnabled true]

theorem isQueue_after_shrunk :
    NonNegative (.int 2) ∧ (∀ action ∈ shrunkActions, action.Sound) ∧
      IsQueue (empty "schema" (.int 2) true) shrunkActions ∧
      (empty "schema" (.int 2) true : BoundedCache String Nat).reported shrunkActions = 1 ∧
      ((empty "schema" (.int 2) true).afterAll shrunkActions).entries = [("b", 2)] := by
  have hbound : NonNegative (.int 2) := ⟨.int 2, rfl, by decide⟩
  have hsound : ∀ action ∈ shrunkActions, action.Sound := by
    intro action haction
    simp only [shrunkActions, List.mem_cons, List.not_mem_nil, or_false] at haction
    rcases haction with rfl | rfl | rfl | rfl | rfl | rfl
    · trivial
    · trivial
    · exact ⟨.int 1, rfl, by decide⟩
    all_goals trivial
  exact ⟨hbound, hsound, isQueue_after "schema" true hbound hsound, by decide, by decide⟩

end BoundedCache

end SchemaGraph
