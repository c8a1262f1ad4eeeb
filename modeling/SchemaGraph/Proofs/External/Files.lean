import SchemaGraph.Proofs.Outcome
import SchemaGraph.Proofs.Resolve.Caching

/-!
# Documents that are files

A document at a file path is what the world holds there, whether it is read or was kept from an
earlier reading.  It is always given where documents can be kept.
-/

namespace SchemaGraph

open Resolving

/-- Whether documents can be kept with such settings: none are, or there are numbers for how many and
for how long, and that for how many is not negative. -/
def ExternalSettings.CanKeep (settings : ExternalSettings) : Prop :=
  settings.cacheEnabled.truthy = true →
    (∃ bound, settings.maxCacheSize.number = .ok bound ∧ Number.lt bound (.int 0) = false) ∧
      ∃ limit, settings.cacheTtlSeconds.number = .ok limit

namespace World

/-- The text of the file at a path. -/
def textAt? (w : World) (location : String) : Option String :=
  if location.toList.contains (Char.ofNat 0) then none
  else (w.read (Path.read location)).toOption

/-- The document that stands at a file path, if there is one that can be referred to. -/
def documentAt? (w : World) (location : String) : Option Value :=
  match w.textAt? location with
  | none => none
  | some text =>
    match External.parse location text with
    | .error _ => none
    | .ok raw => if (External.defect? location raw).isSome then none else some raw

theorem isFile_of_read {w : World} {p : Path} {text : String} (h : w.read p = .ok text) :
    w.isFile p = true := by
  unfold read at h
  rw [bind_eq_ok] at h
  obtain ⟨entry, hentry, h⟩ := h
  unfold isFile
  rw [hentry]
  cases entry with
  | directory => cases h
  | _ => rfl

section Standing

variable {w : World} {location text : String} {raw : Value}

/-- No document stands where there is no text. -/
theorem documentAt_unread (h : w.textAt? location = none) : w.documentAt? location = none := by
  unfold documentAt?
  rw [h]

/-- No document stands where the text is not one of a value. -/
theorem documentAt_unparsed (htext : w.textAt? location = some text) {failure : Failure}
    (hparse : External.parse location text = .error failure) : w.documentAt? location = none := by
  unfold documentAt?
  rw [htext]
  dsimp only
  rw [hparse]

/-- Where the text is one of a value, it stands there as a document unless it lacks something. -/
theorem documentAt_parsed (htext : w.textAt? location = some text)
    (hparse : External.parse location text = .ok raw) :
    w.documentAt? location = if (External.defect? location raw).isSome then none else some raw := by
  unfold documentAt?
  rw [htext]
  dsimp only
  rw [hparse]

end Standing

end World

/-- Whether the documents kept of files are those that stand there. -/
def Session.KeptRight (world : World) (s : Session) : Prop :=
  ∀ location loaded, (location, loaded) ∈ s.external → Location.isUrl location = false →
    world.documentAt? location = some loaded.raw

/-- Whether a result is what is expected; where it is not sure to be given, it may be missing. -/
structure Gives {α : Type} (sure : Prop) (expected : Option α) (result : Except Failure α) : Prop where
  right : ∀ a, result = .ok a → expected = some a
  found : sure → ∀ a, expected = some a → result = .ok a

namespace Gives

variable {α : Type} {sure : Prop} {expected : Option α}

theorem ok {a : α} (h : expected = some a) : Gives sure expected (.ok a) :=
  ⟨fun _ heq => Except.ok.inj heq ▸ h, fun _ _ heq => congrArg Except.ok (Option.some.inj (h ▸ heq))⟩

theorem none (failure : Failure) : Gives sure (Option.none : Option α) (.error failure) :=
  ⟨fun _ heq => (nomatch heq), fun _ _ heq => (nomatch heq)⟩

/-- A failure where nothing is sure. -/
theorem unsure {failure : Failure} (h : ¬sure) : Gives sure expected (.error failure) :=
  ⟨fun _ heq => (nomatch heq), fun hsure => absurd hsure h⟩

end Gives

namespace External

variable {world : World} {s : Session} {location : String} {raw : Value}

/-- What is left of a session by working with files: all but the kept documents and the trace. -/
def SameBut (s t : Session) : Prop :=
  ∃ external trace, t = { s with external := external, trace := trace }

theorem SameBut.refl (s : Session) : SameBut s s := ⟨s.external, s.trace, rfl⟩

theorem SameBut.trans {s t u : Session} (h : SameBut s t) (h' : SameBut t u) : SameBut s u := by
  obtain ⟨external, trace, rfl⟩ := h
  obtain ⟨external', trace', rfl⟩ := h'
  exact ⟨external', trace', rfl⟩

/-- Reading a file gives its text. -/
theorem ensures_readFile (location : String) (hs : s.KeptRight world) :
    Ensures (readFile location) world s fun result t =>
      t.KeptRight world ∧ SameBut s t ∧ result.toOption = world.textAt? location := by
  unfold readFile World.textAt?
  rw [ensures_bind, ensures_read]
  unfold After
  dsimp only
  rw [ensures_await_bind]
  by_cases hnull : location.toList.contains (Char.ofNat 0) = true
  · rw [if_pos hnull, if_pos hnull]
    exact ⟨hs, .refl s, rfl⟩
  rw [if_neg hnull, if_neg hnull]
  cases hread : world.read (Path.read location) with
  | ok text =>
      rw [World.isFile_of_read hread]
      exact ⟨hs, ⟨s.external, _, rfl⟩, rfl⟩
  | error f =>
      cases world.isFile (Path.read location) with
      | false => exact ⟨hs, .refl s, rfl⟩
      | true =>
          change Ensures (emit _ >>= _) _ _ _
          unfold emit
          rw [ensures_modify_bind]
          dsimp only
          split
          · exact ⟨hs, ⟨s.external, _, rfl⟩, rfl⟩
          · exact ⟨hs, ⟨s.external, _, rfl⟩, rfl⟩

/-- A document that was kept is the one that stands there. -/
theorem ensures_recallDocument (hs : s.KeptRight world) (hurl : Location.isUrl location = false) :
    Ensures (recallDocument location) world s fun result t =>
      t.KeptRight world ∧ SameBut s t ∧
        (∀ raw, result = .ok (some raw) → world.documentAt? location = some raw) ∧
          (s.externalSettings.CanKeep → ∃ found, result = .ok found) := by
  have hnone : ∀ t : Session, t.KeptRight world → SameBut s t →
      t.KeptRight world ∧ SameBut s t ∧
        (∀ raw, (.ok none : Except Failure (Option Value)) = .ok (some raw) →
          world.documentAt? location = some raw) ∧
            (s.externalSettings.CanKeep → ∃ found, (.ok none : Except Failure (Option Value)) =
              .ok found) :=
    fun t ht hsame => ⟨ht, hsame, fun _ heq => (nomatch heq), fun _ => ⟨none, rfl⟩⟩
  unfold recallDocument
  rw [ensures_get_bind]
  cases henabled : s.externalSettings.cacheEnabled.truthy with
  | false => exact hnone s hs (.refl s)
  | true =>
      rw [if_neg (by simp)]
      cases hfound : Ordered.get? location s.external with
      | none => exact hnone s hs (.refl s)
      | some loaded =>
          dsimp only
          have hraw := hs location loaded (Ordered.mem_of_get hfound) hurl
          cases hlimit : s.externalSettings.cacheTtlSeconds.number with
          | error fault =>
              have hstale : isStale s.externalSettings loaded.time s.clock = .error fault := by
                unfold isStale
                rw [hlimit]
                rfl
              rw [hstale]
              -- an age limit that is no number fails, which the settings exclude if they allow keeping
              refine ⟨hs, .refl s, fun _ heq => (nomatch heq), fun hkeep => ?_⟩
              obtain ⟨-, limit, heq⟩ := hkeep henabled
              rw [hlimit] at heq
              cases heq
          | ok limit =>
              have hstale : isStale s.externalSettings loaded.time s.clock =
                  .ok (Number.lt limit (.double (s.clock.sub loaded.time))) := by
                unfold isStale
                rw [hlimit]
                rfl
              rw [hstale]
              cases Number.lt limit (.double (s.clock.sub loaded.time)) with
              | false =>
                  refine ⟨hs, .refl s, fun raw heq => ?_, fun _ => ⟨_, rfl⟩⟩
                  rw [hraw, Option.some.inj (Except.ok.inj heq)]
              | true =>
                  -- a document that is too old is dropped and then read anew
                  refine hnone _ (fun l kept hin => ?_) ⟨_, s.trace, rfl⟩
                  exact hs l kept ((List.mem_filter.mp hin).1)

/-- Keeping the document that stands at a file path. -/
theorem ensures_keep (hs : s.KeptRight world)
    (hraw : Location.isUrl location = false → world.documentAt? location = some raw) :
    Ensures (keep location raw) world s fun result t =>
      t.KeptRight world ∧ SameBut s t ∧ (s.externalSettings.CanKeep → result = .ok ()) := by
  unfold keep
  rw [ensures_get_bind]
  cases henabled : s.externalSettings.cacheEnabled.truthy with
  | false => exact ⟨hs, .refl s, fun _ => rfl⟩
  | true =>
      rw [if_pos rfl]
      dsimp only
      have hwritten : ∀ l kept, (l, kept) ∈ Ordered.write location ⟨s.clock, raw⟩ s.external →
          Location.isUrl l = false → world.documentAt? l = some kept.raw := by
        intro l kept hin hl
        rcases Ordered.mem_write hin with heq | hold
        · obtain ⟨rfl, rfl⟩ := Prod.mk.inj heq
          exact hraw hl
        · exact hs l kept hold hl
      cases hbound : s.externalSettings.maxCacheSize.number with
      | error fault =>
          refine ⟨hwritten, ⟨_, s.trace, rfl⟩, fun hkeep => ?_⟩
          obtain ⟨⟨bound, heq, -⟩, -⟩ := hkeep henabled
          rw [hbound] at heq
          cases heq
      | ok bound =>
          rw [ensures_set_bind, ensures_bind, ensures_check, orFail]
          unfold After
          dsimp only
          split
          · exact ⟨fun l kept hin => hwritten l kept (List.mem_of_mem_drop hin),
              ⟨_, s.trace, rfl⟩, fun _ => rfl⟩
          · rename_i hempty
            refine ⟨fun _ _ hin => absurd hin List.not_mem_nil, ⟨_, s.trace, rfl⟩, fun hkeep => ?_⟩
            obtain ⟨⟨bound', heq, hpositive⟩, -⟩ := hkeep henabled
            obtain rfl := Except.ok.inj (hbound.symm.trans heq)
            -- dropping all documents always fits
            have hall : (Ordered.write location ⟨s.clock, raw⟩ s.external).length ∈
                (List.range ((Ordered.write location ⟨s.clock, raw⟩ s.external).length + 1)).filter
                  fun dropped => !Number.lt bound
                    (.int ((Ordered.write location ⟨s.clock, raw⟩ s.external).length -
                      dropped : Nat)) := by
              refine List.mem_filter.mpr ⟨List.mem_range.mpr (Nat.lt_succ_self _), ?_⟩
              rw [Nat.sub_self]
              simpa using hpositive
            rw [List.head?_eq_none_iff.mp hempty] at hall
            exact absurd hall List.not_mem_nil

/-- Loading a file gives the document that stands there. -/
theorem ensures_load (hs : s.KeptRight world) (hurl : Location.isUrl location = false) :
    Ensures (load location) world s fun result t =>
      t.KeptRight world ∧ SameBut s t ∧
        Gives s.externalSettings.CanKeep (world.documentAt? location) result := by
  unfold load
  refine Ensures.bind (ensures_recallDocument hs hurl) ?_ ?_
  · rintro found t ⟨ht, hsame, hright, -⟩
    cases found with
    | some raw => exact ⟨ht, hsame, .ok (hright raw rfl)⟩
    | none =>
        dsimp only
        rw [hurl, if_neg (by simp)]
        refine Ensures.bind (ensures_readFile location ht) ?_ ?_
        · rintro text u ⟨hu, hsame', htext⟩
          cases hparse : parse location text with
          | error failure =>
              rw [World.documentAt_unparsed htext.symm hparse]
              exact ⟨hu, hsame.trans hsame', .none failure⟩
          | ok raw =>
              have hdocument := World.documentAt_parsed htext.symm hparse
              rw [ensures_lift_ok_bind rfl]
              cases hdefect : defect? location raw with
              | some obstacle =>
                  rw [hdefect, if_pos (by simp)] at hdocument
                  rw [hdocument]
                  exact ⟨hu, hsame.trans hsame', .none _⟩
              | none =>
                  rw [hdefect, if_neg (by simp)] at hdocument
                  have hsettings : u.externalSettings = s.externalSettings := by
                    obtain ⟨external, trace, rfl⟩ := hsame.trans hsame'
                    rfl
                  -- the document is found; only keeping it may still fail
                  refine Ensures.bind (ensures_keep hu fun _ => hdocument) ?_ ?_
                  · rintro - v ⟨hv, hsame'', -⟩
                    exact ⟨hv, (hsame.trans hsame').trans hsame'', .ok hdocument⟩
                  · rintro failure v ⟨hv, hsame'', hsure⟩
                    refine ⟨hv, (hsame.trans hsame').trans hsame'', .unsure fun hkeep => ?_⟩
                    exact nomatch hsure (hsettings ▸ hkeep)
        · rintro failure u ⟨hu, hsame', htext⟩
          rw [World.documentAt_unread htext.symm]
          exact ⟨hu, hsame.trans hsame', .none failure⟩
  -- looking among the kept documents fails only where the settings allow no keeping
  · rintro failure t ⟨ht, hsame, -, hsure⟩
    refine ⟨ht, hsame, .unsure fun hkeep => ?_⟩
    obtain ⟨found, heq⟩ := hsure hkeep
    cases heq

end External

end SchemaGraph
