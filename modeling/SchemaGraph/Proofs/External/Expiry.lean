import SchemaGraph.Proofs.External.Accesses
import SchemaGraph.Proofs.Number.Bounds

/-!
# Kept documents expire

A document that was read or fetched is kept under its location with the time at which it was.  It is
given again until it is older than a limit; then it is dropped, and loaded anew it goes to the end.
So the documents stand in the order in which they were loaded, although they are only ever dropped at
the front and added at the end, and those that are evicted are the oldest ones
(`isExpiringQueue_afterCalls`).

What one call for a document does is said once, by the three ways in which it can end (`Loading`);
everything about a sequence of calls follows from that.  Times are finite doubles, which are ordered
like the rationals that they stand for.
-/

namespace SchemaGraph

open Resolving

/-- Settings with which documents are kept, up to some age and as many as a bound allows. -/
structure ExternalSettings.Limits (settings : ExternalSettings) (ttl bound : Number) : Prop where
  enabled : settings.cacheEnabled.truthy = true
  lifetime : settings.cacheTtlSeconds.number = .ok ttl
  room : settings.maxCacheSize.number = .ok bound
  nonneg : Number.le (.int 0) bound = true

/-- Whether the age of a document is not above a limit. -/
def Loaded.Fresh (ttl : Number) (now : Binary64) (loaded : Loaded) : Prop :=
  Number.lt ttl (.double (now.sub loaded.time)) = false

/-- Whether a number of entries is the least that has to be dropped so that the others are within a
bound. -/
structure Trims (bound : Number) (size dropped : Nat) : Prop where
  fits : Number.le (.int (size - dropped : Nat)) bound = true
  least : ∀ fewer < dropped, Number.lt bound (.int (size - fewer : Nat)) = true

namespace Ordered

variable {κ α : Type} [BEq κ] [LawfulBEq κ]

theorem mem_erase {key : κ} {entry : κ × α} {entries : List (κ × α)} :
    entry ∈ erase key entries ↔ entry ∈ entries ∧ entry.1 ≠ key := by
  simp [erase]

theorem erase_absent {key : κ} {entries : List (κ × α)} (h : get? key entries = none) :
    erase key entries = entries := by
  unfold erase
  rw [List.filter_eq_self]
  intro entry hentry
  have hne : entry.1 ≠ key := by
    intro heq
    exact absent_of_get h entry.2 (heq ▸ hentry)
  simpa using hne

end Ordered

namespace External

variable {world : World} {s : Session} {ttl bound : Number}

/-- A kept document is found until it is too old, and then it is dropped. -/
theorem recallDocument_apply (h : s.externalSettings.Limits ttl bound) (location : String)
    (world : World) :
    (∃ loaded, Ordered.get? location s.external = some loaded ∧ loaded.Fresh ttl s.clock ∧
      recallDocument location world s = (.ok (some loaded.raw), s)) ∨
    ((∀ loaded, Ordered.get? location s.external = some loaded → ¬loaded.Fresh ttl s.clock) ∧
      recallDocument location world s =
        (.ok none, { s with external := Ordered.erase location s.external })) := by
  -- the store is turned on, so the test for it can be left out of the run
  have hrun : recallDocument location world s =
      ((Ordered.get? location s.external).elim (return none) fun loaded => do
        if ← check (isStale s.externalSettings loaded.time s.clock) then
          modify fun s => { s with external := Ordered.erase location s.external }
          return none
        else return some loaded.raw : Resolving (Option Value)) world s := by
    unfold recallDocument
    rw [bind_apply]
    change (if !s.externalSettings.cacheEnabled.truthy then _ else _ :
      Resolving (Option Value)) world s = _
    rw [h.enabled]
    cases Ordered.get? location s.external <;> rfl
  rw [hrun]
  cases hstored : Ordered.get? location s.external with
  | none =>
    right
    rw [Ordered.erase_absent hstored]
    exact ⟨fun loaded heq => absurd heq (Option.some_ne_none loaded).symm, rfl⟩
  | some loaded =>
    have hstale : isStale s.externalSettings loaded.time s.clock =
        .ok (Number.lt ttl (.double (s.clock.sub loaded.time))) := by
      unfold isStale
      rw [h.lifetime]
      rfl
    rw [Option.elim_some, hstale]
    by_cases hfresh : loaded.Fresh ttl s.clock
    · left
      have hage : Number.lt ttl (.double (s.clock.sub loaded.time)) = false := hfresh
      rw [hage]
      exact ⟨loaded, rfl, hfresh, rfl⟩
    · right
      have hage : Number.lt ttl (.double (s.clock.sub loaded.time)) = true := by
        simpa [Loaded.Fresh] using hfresh
      rw [hage]
      refine ⟨?_, rfl⟩
      intro other heq
      rwa [← Option.some.inj heq]

/-- Keeping a document drops as many of the oldest ones as are too many. -/
theorem ensures_keep_trimmed (h : s.externalSettings.Limits ttl bound) (location : String)
    (raw : Value) :
    Ensures (keep location raw) world s fun result t => result = .ok () ∧
      ∃ dropped, Trims bound (Ordered.write location ⟨s.clock, raw⟩ s.external).length dropped ∧
        t = { s with
          external := (Ordered.write location ⟨s.clock, raw⟩ s.external).drop dropped } := by
  have hwithin : ∀ size : Nat, Number.lt bound (.int size) = false →
      Number.le (.int size) bound = true := by
    intro size hsize
    obtain hle | hnan := Number.le_or_nan hsize
    · exact hle
    · have hnonneg := h.nonneg
      rw [hnan] at hnonneg
      cases hnonneg
  unfold keep
  rw [ensures_get_bind, h.enabled, if_pos rfl]
  dsimp only
  rw [ensures_set_bind, ensures_check_ok_bind h.room, List.head?_filter]
  generalize Ordered.write location ⟨s.clock, raw⟩ s.external = entries
  cases hfound : (List.range (entries.length + 1)).find? fun dropped =>
      !Number.lt bound (.int (entries.length - dropped : Nat)) with
  | none =>
    -- to drop all entries is always enough
    have hall := List.find?_eq_none.mp hfound entries.length (List.mem_range.mpr (by omega))
    rw [Nat.sub_self] at hall
    exact absurd (Number.not_lt_of_le h.nonneg) (by simpa using hall)
  | some dropped =>
    obtain ⟨hfits, -, hleast⟩ := List.find?_range_eq_some.mp hfound
    refine ⟨rfl, dropped, ⟨hwithin _ (by simpa using hfits), ?_⟩, rfl⟩
    intro fewer hfewer
    simpa using hleast fewer hfewer

/-- What loading gives, and what it does to the kept documents. -/
inductive Loading (ttl bound : Number) (location : String) (s : Session) :
    Except Failure Value → Session → Prop where
  /-- A document that is kept and fresh is given, and nothing is done. -/
  | found {loaded : Loaded} (hstored : Ordered.get? location s.external = some loaded)
      (hfresh : loaded.Fresh ttl s.clock) : Loading ttl bound location s (.ok loaded.raw) s
  /-- A document is read or fetched, found sound, and kept. -/
  | loaded {raw : Value} {t : Session} {dropped : Nat}
      (hmiss : ∀ loaded, Ordered.get? location s.external = some loaded →
        ¬loaded.Fresh ttl s.clock)
      (hsound : defect? location raw = none) (hreached : s.accesses < t.accesses)
      (htrims : Trims bound
        (Ordered.erase location s.external ++ [(location, Loaded.mk t.clock raw)]).length dropped)
      (hexternal : t.external =
        (Ordered.erase location s.external ++ [(location, Loaded.mk t.clock raw)]).drop dropped) :
      Loading ttl bound location s (.ok raw) t
  /-- Nothing is given, and nothing is kept for it. -/
  | failed {failure : Failure} {t : Session}
      (hmiss : ∀ loaded, Ordered.get? location s.external = some loaded →
        ¬loaded.Fresh ttl s.clock)
      (hexternal : t.external = Ordered.erase location s.external) :
      Loading ttl bound location s (.error failure) t

/-- A text that was asked for is parsed and checked, and the document is kept. -/
theorem ensures_text {act : Resolving String} {location : String}
    (h : s.externalSettings.Limits ttl bound) (hreaching : Reaching act)
    (hdistant : ∀ {keeps : Session → Prop}, Distant keeps → Keeping keeps act)
    (hmiss : ∀ loaded, Ordered.get? location s.external = some loaded →
      ¬loaded.Fresh ttl s.clock)
    {u : Session} (hu : u = { s with external := Ordered.erase location s.external }) :
    Ensures (do
        let text ← act
        let raw ← lift (parse location text)
        match defect? location raw with
        | some obstacle => throw (.unavailable obstacle)
        | none =>
          keep location raw
          return raw)
      world u (Loading ttl bound location s) := by
  have hkeeping : Keeping (fun t => t.external = Ordered.erase location s.external ∧
      t.externalSettings = s.externalSettings) act :=
    hdistant { elapsed := fun _ _ hs => hs, noted := fun _ hs => hs }
  have hstart : u.external = Ordered.erase location s.external ∧
      u.externalSettings = s.externalSettings := by
    rw [hu]
    exact ⟨rfl, rfl⟩
  have haccesses : u.accesses = s.accesses := by
    rw [hu]
    rfl
  apply Ensures.bind ((hkeeping.ensures hstart).and (hreaching world u))
  · rintro text t ⟨⟨hexternal, hsettings⟩, -, hreached⟩
    cases hparse : parse location text with
    | error failure => exact .failed hmiss hexternal
    | ok raw =>
      rw [ensures_lift_ok_bind rfl]
      cases hdefect : defect? location raw with
      | some obstacle => exact .failed hmiss hexternal
      | none =>
        -- the old document was dropped when it was looked for, so the new one goes to the end
        have habsent : ∀ old, (location, old) ∉ t.external := by
          intro old hold
          rw [hexternal] at hold
          exact (Ordered.mem_erase.mp hold).2 rfl
        apply Ensures.bind_ok (ensures_keep_trimmed (hsettings ▸ h) location raw)
        rintro u ⟨dropped, htrims, rfl⟩
        rw [Ordered.write_absent habsent, hexternal] at htrims ⊢
        exact .loaded hmiss hdefect (haccesses ▸ hreached text rfl) htrims rfl
  · rintro failure t ⟨⟨hexternal, -⟩, -⟩
    exact .failed hmiss hexternal

/-- Loading a document is one of three things. -/
theorem ensures_load_loading (h : s.externalSettings.Limits ttl bound) (location : String) :
    Ensures (load location) world s (Loading ttl bound location s) := by
  unfold load
  rw [ensures_bind]
  unfold Ensures
  rcases recallDocument_apply h location world with
    ⟨loaded, hstored, hfresh, hrun⟩ | ⟨hmiss, hrun⟩
  · rw [hrun]
    exact .found hstored hfresh
  · rw [hrun]
    unfold After
    dsimp only
    split
    · exact ensures_text h (reaching_fetch location) (fun hd => keeping_fetch hd.remote location) hmiss
        rfl
    · exact ensures_text h (reaching_readFile location) (fun hd => keeping_readFile hd.timeless location)
        hmiss rfl

/-- A call for a document: the world in which it is made, the time at which it is, and the location. -/
structure Call where
  world : World
  clock : Binary64
  location : String

namespace Call

variable (c : Call) (s : Session)

/-- The session in which a call is made. -/
def before : Session := { s with clock := c.clock }

/-- What a call gives. -/
def result : Except Failure Value := (load c.location c.world (c.before s)).1

/-- The session after a call. -/
def after : Session := (load c.location c.world (c.before s)).2

/-- Whether the clock does not go back before a call and while it is made. -/
def Forward : Prop :=
  s.clock.value ≤ c.clock.value ∧ c.clock.value ≤ (c.after s).clock.value

/-- Whether a call is answered with a document without asking for a text outside. -/
def Answered (raw : Value) : Prop :=
  c.result s = .ok raw ∧ (c.after s).accesses = s.accesses

/-- Whether a call loads a document: it asks for it outside and gives it, and the load is over at the
time of the document. -/
def Loads (loaded : Loaded) : Prop :=
  c.result s = .ok loaded.raw ∧ s.accesses < (c.after s).accesses ∧
    loaded.time = (c.after s).clock

end Call

/-- The session after some calls, one after the other. -/
def afterCalls (s : Session) (calls : List Call) : Session := calls.foldl (fun s c => c.after s) s

/-- Whether the clock never goes back along some calls. -/
def AllForward : Session → List Call → Prop
  | _, [] => True
  | s, c :: rest => c.Forward s ∧ AllForward (c.after s) rest

/-- Whether a document was loaded for a location by one of some calls, and none was by a later one. -/
def LastLoaded (start : Session) (calls : List Call) (location : String) (loaded : Loaded) : Prop :=
  ∃ earlier c later, calls = earlier ++ c :: later ∧ c.location = location ∧
    c.Loads (afterCalls start earlier) loaded ∧
      ∀ next other rest, later = next ++ other :: rest → other.location = location →
        ∀ newer, ¬other.Loads (afterCalls start (earlier ++ c :: next)) newer

/-- Documents that are kept as a queue of a bounded size, from which they expire. -/
structure IsExpiringQueue (ttl bound : Number) (start : Session) (calls : List Call) : Prop where
  /-- The locations are distinct. -/
  distinct : ((afterCalls start calls).external.map (·.1)).Nodup
  /-- The documents stand in the order in which they were loaded. -/
  ordered : (afterCalls start calls).external.Pairwise fun older newer =>
    older.2.time.value ≤ newer.2.time.value
  /-- There are no more than allowed. -/
  within : Number.le (.int (afterCalls start calls).external.length) bound = true
  /-- No document lacks what is required. -/
  sound : ∀ entry ∈ (afterCalls start calls).external, defect? entry.1 entry.2.raw = none
  /-- A document is the one that was last loaded for its location. -/
  latest : ∀ location loaded,
    Ordered.get? location (afterCalls start calls).external = some loaded →
      LastLoaded start calls location loaded
  /-- The next call is answered without asking outside exactly if there is a document that is not too
  old, and then with it. -/
  answered : ∀ (c : Call) raw, c.Answered (afterCalls start calls) raw ↔
    ∃ loaded, Ordered.get? c.location (afterCalls start calls).external = some loaded ∧
      loaded.Fresh ttl c.clock ∧ loaded.raw = raw
  /-- A call that is answered so changes nothing. -/
  undisturbed : ∀ (c : Call) raw, c.Answered (afterCalls start calls) raw →
    (c.after (afterCalls start calls)).external = (afterCalls start calls).external
  /-- A document that is loaded goes to the end, and no more are dropped at the front than are too
  many. -/
  loading : ∀ (c : Call) loaded, c.Loads (afterCalls start calls) loaded →
    ∃ dropped, Trims bound (Ordered.erase c.location (afterCalls start calls).external ++
        [(c.location, loaded)]).length dropped ∧
      (c.after (afterCalls start calls)).external =
        (Ordered.erase c.location (afterCalls start calls).external ++
          [(c.location, loaded)]).drop dropped
  /-- What is evicted is not newer than what stays. -/
  oldest : ∀ c : Call, c.Forward (afterCalls start calls) →
    ∀ old ∈ (afterCalls start calls).external, old.1 ≠ c.location →
      old ∉ (c.after (afterCalls start calls)).external →
        ∀ kept ∈ (c.after (afterCalls start calls)).external,
          old.2.time.value ≤ kept.2.time.value
  /-- A call that fails keeps nothing, and drops at most the document at its location, if that is too
  old. -/
  failing : ∀ (c : Call) failure, c.result (afterCalls start calls) = .error failure →
    (c.after (afterCalls start calls)).external = (afterCalls start calls).external ∨
      (∃ loaded, Ordered.get? c.location (afterCalls start calls).external = some loaded ∧
        ¬loaded.Fresh ttl c.clock) ∧
      (c.after (afterCalls start calls)).external =
        Ordered.erase c.location (afterCalls start calls).external

/-! ### One call -/

/-- What holds of a session all along. -/
structure Shelf (ttl bound : Number) (s : Session) : Prop where
  limits : s.externalSettings.Limits ttl bound
  distinct : (s.external.map (·.1)).Nodup
  ordered : s.external.Pairwise fun older newer => older.2.time.value ≤ newer.2.time.value
  past : ∀ entry ∈ s.external, entry.2.time.value ≤ s.clock.value
  within : Number.le (.int s.external.length) bound = true
  sound : ∀ entry ∈ s.external, defect? entry.1 entry.2.raw = none

section Call

variable {c : Call}

theorem Call.loading (h : s.externalSettings.Limits ttl bound) :
    Loading ttl bound c.location (c.before s) (c.result s) (c.after s) :=
  ensures_load_loading (s := c.before s) h c.location

/-- The settings are not changed by a call. -/
theorem Call.limits_after (h : s.externalSettings.Limits ttl bound) :
    (c.after s).externalSettings.Limits ttl bound := by
  have hinward : Inward fun t => t.externalSettings.Limits ttl bound := fun _ _ _ _ _ ht => ht
  exact keeping_load hinward c.location c.world (c.before s) h

section Grown

variable (h : Shelf ttl bound s) (location : String) (raw : Value)
include h

/-- With one more document, which was loaded now, the documents still stand in order. -/
theorem Shelf.ordered_grown {now : Binary64} (hnow : s.clock.value ≤ now.value) :
    (Ordered.erase location s.external ++ [(location, Loaded.mk now raw)]).Pairwise
      fun older newer => older.2.time.value ≤ newer.2.time.value := by
  rw [List.pairwise_append]
  refine ⟨h.ordered.sublist List.filter_sublist, List.pairwise_singleton _ _, ?_⟩
  intro older holder newer hnewer
  rw [List.mem_singleton.mp hnewer]
  exact (h.past older (Ordered.mem_erase.mp holder).1).trans hnow

/-- Their locations are still distinct, since none is left at the location of the new one. -/
theorem Shelf.distinct_grown (now : Binary64) :
    ((Ordered.erase location s.external ++ [(location, Loaded.mk now raw)]).map (·.1)).Nodup := by
  rw [List.map_append, List.nodup_append]
  refine ⟨h.distinct.sublist (List.filter_sublist.map _), List.nodup_singleton _, ?_⟩
  intro old hold new hnew heq
  obtain ⟨entry, hentry, rfl⟩ := List.mem_map.mp hold
  exact (Ordered.mem_erase.mp hentry).2 (heq.trans (List.mem_singleton.mp hnew))

end Grown

/-- One call keeps the documents in order. -/
theorem Shelf.after (h : Shelf ttl bound s) (hc : c.Forward s) : Shelf ttl bound (c.after s) := by
  obtain ⟨hstart, hend⟩ := hc
  have hlimits := Call.limits_after (c := c) h.limits
  have hloading := Call.loading (c := c) h.limits
  have hnow : s.clock.value ≤ (c.after s).clock.value := hstart.trans hend
  generalize c.result s = result at hloading
  generalize c.after s = t at hloading hlimits hnow ⊢
  cases hloading with
  | found hstored hfresh =>
    exact ⟨hlimits, h.distinct, h.ordered, fun entry hentry => (h.past entry hentry).trans hstart,
      h.within, h.sound⟩
  | failed hmiss hexternal =>
    have hsublist : t.external.Sublist s.external := by
      rw [hexternal]
      exact List.filter_sublist
    constructor
    case limits => exact hlimits
    case distinct => exact h.distinct.sublist (hsublist.map _)
    case ordered => exact h.ordered.sublist hsublist
    case past => exact fun entry hentry => (h.past entry (hsublist.subset hentry)).trans hnow
    case sound => exact fun entry hentry => h.sound entry (hsublist.subset hentry)
    case within =>
      exact Number.le_int_of_le (by exact_mod_cast hsublist.length_le) h.within
  | loaded hmiss hsound hreached htrims hexternal =>
    rename_i raw dropped
    change t.external = (Ordered.erase c.location s.external ++ _).drop dropped at hexternal
    have hgrown : ∀ entry ∈ t.external,
        entry ∈ s.external ∧ entry.1 ≠ c.location ∨ entry = (c.location, ⟨t.clock, raw⟩) := by
      intro entry hentry
      rw [hexternal] at hentry
      obtain hold | hnew := List.mem_append.mp (List.mem_of_mem_drop hentry)
      · exact Or.inl (Ordered.mem_erase.mp hold)
      · exact Or.inr (List.mem_singleton.mp hnew)
    -- to evict documents at the front disturbs nothing that holds of all of them
    constructor
    case limits => exact hlimits
    case distinct =>
      rw [hexternal]
      exact (h.distinct_grown c.location raw t.clock).sublist ((List.drop_sublist _ _).map _)
    case ordered =>
      rw [hexternal]
      exact (h.ordered_grown c.location raw hnow).sublist (List.drop_sublist _ _)
    case past =>
      intro entry hentry
      obtain ⟨hold, -⟩ | rfl := hgrown entry hentry
      · exact (h.past entry hold).trans hnow
      · exact le_rfl
    case sound =>
      intro entry hentry
      obtain ⟨hold, -⟩ | rfl := hgrown entry hentry
      · exact h.sound entry hold
      · exact hsound
    case within =>
      rw [hexternal, List.length_drop]
      exact htrims.fits

/-- What is evicted by a call is not newer than what stays. -/
theorem Shelf.oldest (h : Shelf ttl bound s) (hc : c.Forward s) {old : String × Loaded}
    (hold : old ∈ s.external) (hother : old.1 ≠ c.location) (hgone : old ∉ (c.after s).external)
    {kept : String × Loaded} (hkept : kept ∈ (c.after s).external) :
    old.2.time.value ≤ kept.2.time.value := by
  have hnow : s.clock.value ≤ (c.after s).clock.value := hc.1.trans hc.2
  have hloading := Call.loading (c := c) h.limits
  generalize c.result s = result at hloading
  generalize c.after s = t at hloading hnow hgone hkept
  cases hloading with
  | found hstored hfresh => exact absurd hold hgone
  | failed hmiss hexternal =>
    rw [hexternal] at hgone
    exact absurd (Ordered.mem_erase.mpr ⟨hold, hother⟩) hgone
  | loaded hmiss hsound hreached htrims hexternal =>
    rename_i raw dropped
    have hgrown := h.ordered_grown c.location raw hnow
    rw [hexternal] at hgone hkept
    have hwhole : old ∈ Ordered.erase c.location s.external ++ [(c.location, ⟨t.clock, raw⟩)] :=
      List.mem_append_left _ (Ordered.mem_erase.mpr ⟨hold, hother⟩)
    -- what is gone was in front of what is left
    rw [← List.take_append_drop dropped (Ordered.erase c.location s.external ++ _)] at hgrown hwhole
    obtain hfront | hrest := List.mem_append.mp hwhole
    · exact (List.pairwise_append.mp hgrown).2.2 old hfront kept hkept
    · exact absurd hrest hgone

/-- A call is answered without asking outside exactly with a document that is kept and not too old. -/
theorem Call.answered_iff (h : s.externalSettings.Limits ttl bound) {raw : Value} :
    c.Answered s raw ↔ ∃ loaded, Ordered.get? c.location s.external = some loaded ∧
      loaded.Fresh ttl c.clock ∧ loaded.raw = raw := by
  have hloading := Call.loading (c := c) h
  unfold Answered
  generalize c.result s = result at hloading ⊢
  generalize c.after s = t at hloading ⊢
  constructor
  · intro hanswered
    obtain ⟨hraw, hsame⟩ := hanswered
    cases hloading with
    | found hstored hfresh => exact ⟨_, hstored, hfresh, Except.ok.inj hraw⟩
    | failed hmiss hexternal => cases hraw
    | loaded hmiss hsound hreached htrims hexternal => exact absurd hsame hreached.ne'
  · intro hkept
    obtain ⟨loaded, hstored, hfresh, rfl⟩ := hkept
    cases hloading with
    | found hstored' hfresh' =>
      rw [Option.some.inj (hstored'.symm.trans hstored)]
      exact ⟨rfl, rfl⟩
    | failed hmiss hexternal => exact absurd hfresh (hmiss loaded hstored)
    | loaded hmiss hsound hreached htrims hexternal => exact absurd hfresh (hmiss loaded hstored)

theorem Call.undisturbed (h : s.externalSettings.Limits ttl bound) {raw : Value}
    (hanswered : c.Answered s raw) : (c.after s).external = s.external := by
  obtain ⟨hraw, hsame⟩ := hanswered
  have hloading := Call.loading (c := c) h
  generalize c.result s = result at hloading hraw
  generalize c.after s = t at hloading hsame ⊢
  cases hloading with
  | found hstored hfresh => rfl
  | failed hmiss hexternal => cases hraw
  | loaded hmiss hsound hreached htrims hexternal => exact absurd hsame hreached.ne'

/-- A document that is loaded goes to the end, and as many are dropped at the front as are too many. -/
theorem Call.grown_of_loads (h : s.externalSettings.Limits ttl bound) {loaded : Loaded}
    (hloads : c.Loads s loaded) :
    ∃ dropped, Trims bound
        (Ordered.erase c.location s.external ++ [(c.location, loaded)]).length dropped ∧
      (c.after s).external =
        (Ordered.erase c.location s.external ++ [(c.location, loaded)]).drop dropped := by
  obtain ⟨hraw, hreached, htime⟩ := hloads
  obtain ⟨time, raw⟩ := loaded
  have hloading := Call.loading (c := c) h
  generalize c.result s = result at hloading hraw
  generalize c.after s = t at hloading hreached htime ⊢
  cases hloading with
  | found hstored hfresh => exact absurd rfl hreached.ne
  | failed hmiss hexternal => cases hraw
  | loaded hmiss hsound hreached' htrims hexternal =>
    cases hraw
    subst htime
    exact ⟨_, htrims, hexternal⟩

/-- A call that fails drops at most the document at its location. -/
theorem Call.external_of_failed (h : s.externalSettings.Limits ttl bound) {failure : Failure}
    (hfailed : c.result s = .error failure) :
    (c.after s).external = s.external ∨
      (∃ loaded, Ordered.get? c.location s.external = some loaded ∧ ¬loaded.Fresh ttl c.clock) ∧
      (c.after s).external = Ordered.erase c.location s.external := by
  have hloading := Call.loading (c := c) h
  generalize c.result s = result at hloading hfailed
  generalize c.after s = t at hloading ⊢
  cases hloading with
  | found hstored hfresh => cases hfailed
  | loaded hmiss hsound hreached htrims hexternal => cases hfailed
  | failed hmiss hexternal =>
    cases hstored : Ordered.get? c.location s.external with
    | none =>
      left
      exact hexternal.trans (Ordered.erase_absent hstored)
    | some loaded => exact Or.inr ⟨⟨loaded, rfl, hmiss loaded hstored⟩, hexternal⟩

/-- What is kept after a call was loaded by it, or was kept before and not loaded anew. -/
theorem Call.loads_or_kept (h : s.externalSettings.Limits ttl bound) {location : String}
    {loaded : Loaded}
    (hin : (location, loaded) ∈ (c.after s).external) :
    c.location = location ∧ c.Loads s loaded ∨
      (location, loaded) ∈ s.external ∧ (c.location = location → ∀ newer, ¬c.Loads s newer) := by
  have hloading := Call.loading (c := c) h
  unfold Loads
  generalize c.result s = result at hloading ⊢
  generalize c.after s = t at hloading hin ⊢
  cases hloading with
  | found hstored hfresh =>
    right
    refine ⟨hin, ?_⟩
    rintro - newer ⟨-, hreached, -⟩
    exact absurd rfl hreached.ne
  | failed hmiss hexternal =>
    right
    rw [hexternal] at hin
    refine ⟨(Ordered.mem_erase.mp hin).1, ?_⟩
    rintro - newer ⟨hraw, -⟩
    cases hraw
  | loaded hmiss hsound hreached htrims hexternal =>
    rw [hexternal] at hin
    obtain hold | hnew := List.mem_append.mp (List.mem_of_mem_drop hin)
    · right
      obtain ⟨hkept, hne⟩ := Ordered.mem_erase.mp hold
      exact ⟨hkept, fun heq => absurd heq.symm hne⟩
    · left
      obtain ⟨rfl, rfl⟩ := Prod.mk.inj (List.mem_singleton.mp hnew)
      exact ⟨rfl, rfl, hreached, rfl⟩

end Call

/-! ### Calls in turn -/

section Calls

variable {start : Session} {calls : List Call} {c : Call} {location : String} {loaded : Loaded}

theorem afterCalls_concat (start : Session) (calls : List Call) (c : Call) :
    afterCalls start (calls ++ [c]) = c.after (afterCalls start calls) := by
  unfold afterCalls
  rw [List.foldl_append]
  rfl

theorem Shelf.afterCalls (h : Shelf ttl bound start) (hforward : AllForward start calls) :
    Shelf ttl bound (afterCalls start calls) := by
  induction calls generalizing start with
  | nil => exact h
  | cons c rest ih => exact ih (h.after hforward.1) hforward.2

theorem limits_afterCalls (h : start.externalSettings.Limits ttl bound) (calls : List Call) :
    (afterCalls start calls).externalSettings.Limits ttl bound := by
  induction calls generalizing start with
  | nil => exact h
  | cons c rest ih => exact ih (Call.limits_after h)

/-- A call that loads a document is the last one that did. -/
theorem lastLoaded_loads (hlocation : c.location = location)
    (hloads : c.Loads (afterCalls start calls) loaded) :
    LastLoaded start (calls ++ [c]) location loaded := by
  refine ⟨calls, c, [], rfl, hlocation, hloads, ?_⟩
  intro next other rest heq
  exact absurd heq.symm (by simp)

/-- A further call that loads nothing for the location makes no difference. -/
theorem LastLoaded.concat (h : LastLoaded start calls location loaded)
    (hother : c.location = location → ∀ newer, ¬c.Loads (afterCalls start calls) newer) :
    LastLoaded start (calls ++ [c]) location loaded := by
  obtain ⟨earlier, loading, later, rfl, hlocation, hloads, hlater⟩ := h
  refine ⟨earlier, loading, later ++ [c], by simp, hlocation, hloads, ?_⟩
  intro next other rest heq hsame
  -- a later call is the further one, or one of those that came before it
  obtain rfl | ⟨before, final, rfl⟩ := List.eq_nil_or_concat rest
  · obtain ⟨rfl, hfinal⟩ := List.append_inj' heq rfl
    obtain rfl := List.singleton_inj.mp hfinal
    exact hother hsame
  · rw [List.concat_eq_append, ← List.cons_append, ← List.append_assoc] at heq
    exact hlater next other before (List.append_inj' heq rfl).1 hsame

/-- Every document that is kept was last loaded for its location. -/
theorem lastLoaded_of_kept (h : start.externalSettings.Limits ttl bound)
    (hempty : start.external = []) (hin : (location, loaded) ∈ (afterCalls start calls).external) :
    LastLoaded start calls location loaded := by
  -- from the end, since the last call decides what is kept
  induction calls using List.reverseRecOn with
  | nil =>
    rw [show (afterCalls start []).external = [] from hempty] at hin
    cases hin
  | append_singleton earlier c ih =>
    rw [afterCalls_concat] at hin
    obtain ⟨hlocation, hloads⟩ | ⟨hkept, hother⟩ :=
      Call.loads_or_kept (limits_afterCalls h earlier) hin
    · exact lastLoaded_loads hlocation hloads
    · exact (ih hkept).concat hother

end Calls

/-- Calls for documents keep them as a queue of a bounded size, from which they expire. -/
theorem isExpiringQueue_afterCalls {start : Session} {calls : List Call}
    (hlimits : start.externalSettings.Limits ttl bound) (hempty : start.external = [])
    (hforward : AllForward start calls) : IsExpiringQueue ttl bound start calls := by
  have hstart : Shelf ttl bound start := by
    constructor
    case limits => exact hlimits
    case within =>
      rw [hempty]
      exact hlimits.nonneg
    all_goals simp [hempty]
  have hshelf := hstart.afterCalls hforward
  constructor
  case distinct => exact hshelf.distinct
  case ordered => exact hshelf.ordered
  case within => exact hshelf.within
  case sound => exact hshelf.sound
  case latest =>
    intro location loaded hstored
    exact lastLoaded_of_kept hlimits hempty (Ordered.mem_of_get hstored)
  case answered => exact fun c raw => Call.answered_iff hshelf.limits
  case undisturbed => exact fun c raw => Call.undisturbed hshelf.limits
  case loading => exact fun c loaded => Call.grown_of_loads hshelf.limits
  case oldest =>
    intro c hc old hold hother hgone kept hkept
    exact hshelf.oldest hc hold hother hgone hkept
  case failing => exact fun c failure => Call.external_of_failed hshelf.limits

/-- A world with one document at two places. -/
def shelfWorld : World where
  workingDirectory := ⟨1, []⟩
  files := ["/a.json", "/b.json"].map fun place => (Path.read place, .file
    "\x7b\"openapi\":3,\"info\":\x7b\"title\":1,\"version\":1\x7d\x7d".toUTF8.toList)
  reply := fun _ _ => (.int 0, .lost "ConnectError")
  followsRedirects := true

/-- A session that keeps one document. -/
def shelfStart : Session :=
  Session.start { external := { maxCacheSize := .int 1 } } (.int 0, .int 0) 0

/-- Calls of which the second one evicts a document, the third one is answered with a kept document and
the last one finds it too old. -/
def shelfCalls : List Call :=
  [⟨shelfWorld, Binary64.ofInt 1, "/a.json"⟩, ⟨shelfWorld, Binary64.ofInt 2, "/b.json"⟩,
    ⟨shelfWorld, Binary64.ofInt 3, "/b.json"⟩, ⟨shelfWorld, Binary64.ofInt 400, "/b.json"⟩]

theorem isExpiringQueue_afterCalls_reloaded :
    shelfStart.externalSettings.Limits (.double (Binary64.ofInt 300)) (.int 1) ∧
      shelfStart.external = [] ∧ AllForward shelfStart shelfCalls ∧
      IsExpiringQueue (.double (Binary64.ofInt 300)) (.int 1) shelfStart shelfCalls ∧
      (afterCalls shelfStart shelfCalls).external.map (·.1) = ["/b.json"] ∧
      (afterCalls shelfStart shelfCalls).accesses = 3 := by
  have hlimits : shelfStart.externalSettings.Limits (.double (Binary64.ofInt 300)) (.int 1) :=
    ⟨rfl, rfl, rfl, by decide⟩
  have hforward : AllForward shelfStart shelfCalls := by
    simp only [AllForward, shelfCalls, Call.Forward]
    decide +kernel
  exact ⟨hlimits, rfl, hforward, isExpiringQueue_afterCalls hlimits rfl hforward,
    by decide +kernel⟩

end External

end SchemaGraph
