import SchemaGraph.Proofs.Engine.History
import SchemaGraph.Proofs.Store.Counted

/-!
# Refused settings

A bound of the caches and a share to be evicted are looked at before anything changes: if they are
refused, the caches, their settings and what was counted are as before, whatever else was asked for.

A threshold of memory cleanup is looked at after cleanup was turned on or off.  So a refused threshold
leaves everything as it was exactly if the switch was not given or stood as it was given.
-/

namespace SchemaGraph

open Resolving

namespace BoundedCache

variable {κ α : Type}

/-- A share is refused exactly if it is a number that does not lie between nothing and all. -/
theorem share_refused_iff {c : BoundedCache κ α} {fraction : Value} {refusal : Refusal} :
    c.share fraction = .error (.refused refusal) ↔
      refusal = .evictionFraction fraction ∧ ∃ n, fraction.number? = some n ∧
        (Number.le (.int 0) n && Number.le n (.int 1)) = false := by
  cases hnumber : fraction.number? with
  | none =>
      have hmissing : fraction.number = .error .typeMismatch := by
        unfold Value.number
        rw [hnumber]
      unfold share
      rw [hmissing]
      constructor
      · intro h
        cases h
      · rintro ⟨-, n, hn, -⟩
        cases hn
  | some n =>
      cases hbetween : (Number.le (.int 0) n && Number.le n (.int 1)) with
      | true =>
          obtain ⟨hlow, hhigh⟩ := Bool.and_eq_true_iff.mp hbetween
          obtain ⟨count, hcount⟩ := c.share_ok hnumber hlow hhigh
          rw [hcount]
          constructor
          · intro h
            cases h
          · rintro ⟨-, n', hn', houtside⟩
            obtain rfl := Option.some.inj hn'
            rw [hbetween] at houtside
            cases houtside
      | false =>
          have hrefused : c.share fraction = .error (.refused (.evictionFraction fraction)) := by
            unfold share
            rw [Value.number_eq_ok.mpr hnumber]
            change (if (Number.le (.int 0) n && Number.le n (.int 1)) = true then _ else _) = _
            rw [hbetween]
            rfl
          rw [hrefused]
          constructor
          · intro h
            cases h
            exact ⟨rfl, n, rfl, hbetween⟩
          · rintro ⟨rfl, -⟩
            rfl

/-- A cache from which a share is refused is left as it was. -/
theorem evictFraction_refused {c c' : BoundedCache κ α} {fraction : Value} {refusal : Refusal}
    (h : c.evictFraction fraction = (c', .error (.refused refusal))) :
    c' = c ∧ refusal = .evictionFraction fraction ∧ ∃ n, fraction.number? = some n ∧
      (Number.le (.int 0) n && Number.le n (.int 1)) = false := by
  unfold evictFraction at h
  cases hshare : c.share fraction with
  | ok count =>
      rw [hshare] at h
      cases h
  | error failure =>
      rw [hshare] at h
      cases h
      exact ⟨rfl, share_refused_iff.mp hshare⟩

end BoundedCache

namespace Caches

variable {κ ι ν φ δ : Type} {c c' : Caches κ ι ν φ δ} {evictions : List Eviction} {refusal : Refusal}

/-- A share of the caches is refused if it is a number that does not lie between nothing and all, and
then nothing is dropped from any of them. -/
theorem evictShare_refused {fraction : Value}
    (h : c.evictShare fraction = (c', evictions, .error (.refused refusal))) :
    c' = c ∧ evictions = [] ∧ refusal = .evictionFraction fraction ∧ ∃ n, fraction.number? = some n ∧
      (Number.le (.int 0) n && Number.le n (.int 1)) = false := by
  unfold evictShare at h
  split at h
  · cases h
  · rename_i hschemas
    cases h
    exact ⟨rfl, rfl, (BoundedCache.evictFraction_refused hschemas).2⟩
  · rename_i hcompositions _
    cases h
    exact ⟨rfl, rfl, (BoundedCache.evictFraction_refused hcompositions).2⟩
  · rename_i hreferences _ _
    cases h
    exact ⟨rfl, rfl, (BoundedCache.evictFraction_refused hreferences).2⟩

theorem evictShare_refused_two :
    let c := (Session.start {} (.int 1, .int 1) 1).caches
    ∃ c' evictions, c.evictShare (.int 2) =
        (c', evictions, .error (.refused (.evictionFraction (.int 2)))) ∧
      c' = c ∧ evictions = [] := by
  intro c
  have hrun : c.evictShare (.int 2) = (c, [], .error (.refused (.evictionFraction (.int 2)))) := rfl
  obtain ⟨hsame, hnone, -⟩ := evictShare_refused hrun
  exact ⟨c, [], hrun, hsame, hnone⟩

/-- A bound is refused if it is a number below one, and before anything has changed; what fails later is
not refused. -/
theorem configure_refused {enabled maxSize : Value}
    (h : (c.configure enabled maxSize).2.2 = .error (.refused refusal)) :
    c.configure enabled maxSize = (c, [], .error (.refused refusal)) ∧
      refusal = .cacheBound maxSize ∧
        ∃ n, maxSize.number? = some n ∧ Number.lt n (.int 1) = true := by
  cases hrun : c.configure enabled maxSize with
  | mk c' rest =>
      obtain ⟨evictions, result⟩ := rest
      rw [hrun] at h
      obtain rfl : result = .error (.refused refusal) := h
      unfold configure at hrun
      dsimp only at hrun
      split at hrun
      · cases hrun
      · split at hrun
        · cases hrun
        · rename_i bound hbound
          split at hrun
          · rename_i hlow
            cases hrun
            exact ⟨rfl, rfl, bound, Value.number_eq_ok.mp hbound, hlow⟩
          · split at hrun
            · cases hrun
            · cases hrun

end Caches

namespace Engine

variable {world : World} {s t : Session} {refusal : Refusal}

/-- Settings of the caches are refused if the bound is a number below one, and leave the session as it
was then. -/
theorem configureCaching_refused {enabled maxSize : Value}
    (h : configureCaching enabled maxSize world s = (.error (.refused refusal), t)) :
    t = s ∧ refusal = .cacheBound maxSize ∧
      ∃ n, maxSize.number? = some n ∧ Number.lt n (.int 1) = true := by
  have hrun : Ensures (configureCaching enabled maxSize) world s fun result u =>
      result = .error (.refused refusal) → u = s ∧ refusal = .cacheBound maxSize ∧
        ∃ n, maxSize.number? = some n ∧ Number.lt n (.int 1) = true := by
    unfold configureCaching
    rw [ensures_get_bind]
    dsimp only
    rw [ensures_modify_bind, ensures_lift]
    intro hresult
    obtain ⟨hconfigured, hbound⟩ := Caches.configure_refused hresult
    rw [hconfigured]
    exact ⟨rfl, hbound⟩
  unfold Ensures at hrun
  rw [h] at hrun
  exact hrun rfl

theorem configureCaching_refused_zero :
    let s := new {} 0 0 1
    ∃ t, configureCaching (.bool false) (.int 0) emptyWorld s =
      (.error (.refused (.cacheBound (.int 0))), t) ∧ t = s := by
  intro s
  have hrun : ∃ t, configureCaching (.bool false) (.int 0) emptyWorld s =
      (.error (.refused (.cacheBound (.int 0))), t) := ⟨_, rfl⟩
  obtain ⟨t, hrun⟩ := hrun
  exact ⟨t, hrun, (configureCaching_refused hrun).1⟩

/-- The session with memory cleanup turned on or off; null leaves it as it is. -/
def switchedCleanup (enabled : Value) (s : Session) : Session :=
  if enabled.isNull then s
  else { s with memorySettings := { s.memorySettings with enabled := enabled } }

theorem switchedCleanup_eq_iff {enabled : Value} :
    switchedCleanup enabled s = s ↔ enabled.isNull = true ∨ enabled = s.memorySettings.enabled := by
  unfold switchedCleanup
  split
  · rename_i hnull
    exact ⟨fun _ => Or.inl hnull, fun _ => rfl⟩
  · rename_i hgiven
    constructor
    · intro hsame
      exact Or.inr (congrArg (fun u : Session => u.memorySettings.enabled) hsame)
    · rintro (hnull | rfl)
      · exact absurd hnull hgiven
      · rfl

/-- Memory cleanup is turned on or off before the other settings are looked at. -/
theorem ensures_configureMemory {enabled threshold streaming : Value}
    {post : Except Failure Unit → Session → Prop} :
    Ensures (configureMemory enabled threshold streaming) world s post ↔
      Ensures (configureMemory .null threshold streaming) world (switchedCleanup enabled s) post := by
  unfold configureMemory switchedCleanup
  dsimp only
  cases enabled.isNull with
  | true => exact Iff.rfl
  | false => exact ensures_modify_bind _ _ _

/-- A threshold is refused if it is a number below zero, and what was done before is that memory cleanup
was turned on or off.  So the session is as it was exactly if the switch was not given, or was given as it
stood. -/
theorem configureMemory_refused {enabled threshold streaming : Value}
    (h : configureMemory enabled threshold streaming world s = (.error (.refused refusal), t)) :
    (∃ n, threshold.number? = some n ∧ Number.lt n (.int 0) = true) ∧
      refusal = .memoryThreshold threshold ∧ t = switchedCleanup enabled s ∧
        (t = s ↔ enabled.isNull = true ∨ enabled = s.memorySettings.enabled) := by
  have hrun : Ensures (configureMemory enabled threshold streaming) world s fun result u =>
      result = .error (.refused refusal) →
        (∃ n, threshold.number? = some n ∧ Number.lt n (.int 0) = true) ∧
          refusal = .memoryThreshold threshold ∧ u = switchedCleanup enabled s := by
    -- the switch is set before the threshold is looked at
    rw [ensures_configureMemory]
    generalize switchedCleanup enabled s = switched
    have hstreaming : ∀ u : Session, Ensures (if (!streaming.isNull) = true then
        modify fun s =>
          { s with memorySettings := { s.memorySettings with streamingMode := streaming } }
        else pure ()) world u fun result _ => result = .ok () := by
      intro u
      split
      · rfl
      · rfl
    unfold configureMemory
    dsimp only
    rw [if_neg (by decide)]
    split
    · cases hnumber : threshold.number with
      | error fault =>
          rw [ensures_check_error_bind rfl]
          intro hresult
          cases hresult
      | ok n =>
          rw [ensures_check_ok_bind rfl]
          split
          · rename_i hnegative
            intro hresult
            cases hresult
            exact ⟨⟨n, Value.number_eq_ok.mp hnumber, hnegative⟩, rfl, rfl⟩
          · rw [ensures_modify_bind]
            refine (hstreaming _).mono ?_
            rintro result u rfl hresult
            cases hresult
    · refine (hstreaming _).mono ?_
      rintro result u rfl hresult
      cases hresult
  unfold Ensures at hrun
  rw [h] at hrun
  obtain ⟨hnegative, hrefusal, rfl⟩ := hrun rfl
  exact ⟨hnegative, hrefusal, rfl, switchedCleanup_eq_iff⟩

/-- A threshold below zero is refused, and yet memory cleanup is on. -/
theorem configureMemory_refused_negative :
    let s := new {} 0 0 1
    ∃ t, configureMemory (.bool true) (.int (-1)) .null emptyWorld s =
        (.error (.refused (.memoryThreshold (.int (-1)))), t) ∧
      t = switchedCleanup (.bool true) s ∧ t ≠ s := by
  intro s
  have hrun : ∃ t, configureMemory (.bool true) (.int (-1)) .null emptyWorld s =
      (.error (.refused (.memoryThreshold (.int (-1)))), t) := ⟨_, rfl⟩
  obtain ⟨t, hrun⟩ := hrun
  obtain ⟨-, -, hswitched, hsame⟩ := configureMemory_refused hrun
  refine ⟨t, hrun, hswitched, ?_⟩
  rw [ne_eq, hsame]
  rintro (hnull | hgiven)
  · cases hnull
  · cases hgiven

end Engine

end SchemaGraph
