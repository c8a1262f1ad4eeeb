import SchemaGraph.Proofs.Resolve.Followed
import SchemaGraph.Proofs.Resolve.Steady
import SchemaGraph.Proofs.Store.Apart

/-!
# Telling failures from what is resolved

A reference is remembered as failed only if no schema is kept for it, and a schema is kept for it only
if it is not remembered as failed.  Between looking a reference up and keeping its schema, many other
references may fail, but not this one: it is on the path of all that is followed in the meantime.  So
the references of the path that were looked up and are still awaited are never remembered as failed.

All this holds unless the turn passes to another task while a reference is awaited: the other task may
look the same reference up, and fail where the first one does not.
-/

namespace SchemaGraph

open Resolving

/-- Whether a failure may be remembered under a key: that of a well-formed reference which could not be
resolved in another document. -/
def Failure.StandsAt (failure : Failure) (key : CacheKey) : Prop :=
  Reference.given (.str key.subject) = .ok key.subject ∧
    ∃ cause, failure = .externalFailed key.subject cause

namespace Session

/-- Whether failures are told from what is resolved, and each one stands under its reference. -/
structure Discerns (s : Session) : Prop where
  ready : s.tracker.Ready
  apart : s.caches.Apart
  failures : ∀ entry ∈ s.caches.failures.entries, entry.2.StandsAt entry.1

/-- Whether, besides, no awaited reference of a document is remembered as failed. -/
structure Awaits (d : Document) (awaited : List String) (s : Session) : Prop
    extends s.Discerns where
  absent : s.caches.settings.enabled.truthy = true →
    ∀ x ∈ awaited, cacheKey d x ∉ s.caches.failures.keys

variable {d : Document} {x : String} {awaited : List String} {s : Session}

theorem Discerns.awaits (h : s.Discerns) (d : Document) : s.Awaits d [] :=
  ⟨h, fun _ _ hx => nomatch hx⟩

theorem discerns_start (config : Config) (memory : Number × Number) (nextId : Nat) :
    (Session.start config memory nextId).Discerns :=
  ⟨Tracker.ready_start _, Caches.apart_empty _, fun _ h => nomatch h⟩

theorem untracked_awaits (d : Document) (awaited : List String) :
    Untracked (Session.Awaits d awaited) where
  records := fun hready h => ⟨⟨hready h.ready, h.apart, h.failures⟩, h.absent⟩

theorem composing_awaits (d : Document) (awaited : List String) :
    Composing d (Session.Awaits d awaited) where
  toUntracked := untracked_awaits d awaited
  composition := fun _ _ h =>
    ⟨⟨h.ready, ⟨h.apart.references, h.apart.failures, h.apart.forgotten, h.apart.disjoint⟩,
      h.failures⟩, h.absent⟩

namespace Awaits

theorem tail (h : s.Awaits d (x :: awaited)) : s.Awaits d awaited :=
  ⟨h.toDiscerns, fun henabled y hy => h.absent henabled y (List.mem_cons_of_mem _ hy)⟩

/-- A reference that was looked up in vain is awaited. -/
theorem cons (h : s.Awaits d awaited) (hmiss : s.caches.failure? (cacheKey d x) = none) :
    s.Awaits d (x :: awaited) := by
  refine ⟨h.toDiscerns, fun henabled y hy => ?_⟩
  rcases List.mem_cons.mp hy with rfl | hin
  · exact h.apart.not_mem_failures hmiss henabled
  · exact h.absent henabled y hin

/-- The schema of an awaited reference may be kept. -/
theorem keptReference (h : s.Awaits d (x :: awaited)) (n : Node) :
    (s.keptReference (cacheKey d x) n).Awaits d (x :: awaited) :=
  ⟨⟨h.ready, h.apart.setReference n fun henabled => h.absent henabled x List.mem_cons_self,
    h.failures⟩, h.absent⟩

/-- A reference for which no schema is kept may be remembered as failed, if it is no longer awaited. -/
theorem keptFailure (h : s.Awaits d awaited) (hx : x ∉ awaited)
    (hgiven : Reference.given (.str x) = .ok x) (cause : Failure)
    (hmiss : s.caches.settings.enabled.truthy = true → cacheKey d x ∉ s.caches.references.keys) :
    (s.keptFailure (cacheKey d x) (.externalFailed x cause)).Awaits d awaited := by
  have hapart := h.apart.rememberFailure (.externalFailed x cause) hmiss
  unfold Session.keptFailure
  by_cases hcached : s.caches.cacheExternalFailures.truthy = true
  · obtain ⟨entries, result, heq, hentries, -⟩ :=
      s.caches.failures.set_cases (cacheKey d x) (.externalFailed x cause)
    unfold Caches.rememberFailure at hapart ⊢
    rw [if_pos hcached, heq] at hapart ⊢
    refine ⟨⟨h.ready, hapart, ?_⟩, fun henabled y hy hkey => ?_⟩
    · intro entry hentry
      rcases hentries entry hentry with rfl | hin
      · exact ⟨hgiven, cause, rfl⟩
      · exact h.failures entry hin
    · obtain ⟨entry, hentry, hat⟩ := List.mem_map.mp hkey
      rcases hentries entry hentry with rfl | hin
      · exact hx ((CacheKey.mk.inj hat).2 ▸ hy)
      · exact h.absent henabled y hy (hat ▸ List.mem_map_of_mem hin)
  · unfold Caches.rememberFailure
    rw [if_neg hcached]
    exact h

end Awaits

end Session

namespace Reference

/-- What is given as a reference is its text. -/
theorem given_text {target : Value} {x : String} (h : given target = .ok x) :
    given (.str x) = .ok x := by
  rw [eq_of_given h] at h
  exact h

end Reference

section Following

variable {d : Document} {x : String} {awaited path : List String} {s : Session}

/-- Looking for an awaited reference outside of the document: where this fails, it is no longer
awaited. -/
theorem ensures_outsideTarget_awaits (scene : Scene.Of (Session.UnlessShared (Session.Awaits d awaited)))
    (hs : s.Awaits d (x :: awaited)) (hx : x ∉ awaited) (hgiven : Reference.given (.str x) = .ok x)
    (hmiss : s.caches.settings.enabled.truthy = true → cacheKey d x ∉ s.caches.references.keys)
    (path : List String) :
    Ensures (outsideTarget d x path) scene s fun result t =>
      t.UnlessShared (Session.Awaits d awaited) ∧
        ∀ n, result = .ok n → t.UnlessShared (Session.Awaits d (x :: awaited)) := by
  unfold outsideTarget
  cases hdepth : d.outsideCount path with
  | error f =>
      rw [ensures_check_error_bind rfl]
      exact ⟨fun _ => hs.tail, fun _ h => nomatch h⟩
  | ok depth =>
      rw [ensures_check_ok_bind rfl]
      have hkept : Keeping (Session.UnlessShared fun t : Session => t.Awaits d (x :: awaited) ∧
          (t.caches.settings.enabled.truthy = true → cacheKey d x ∉ t.caches.references.keys))
          (attempt (External.resolve (.str x) d.source (.ofNat depth))) := by
        refine (Inward.keeping_unlessShared ?_ _ _ _).attempt
        exact fun t _ _ _ _ ht => ⟨⟨⟨ht.1.ready, ht.1.apart, ht.1.failures⟩, ht.1.absent⟩, ht.2⟩
      have hsought : Ensures (attempt (External.resolve (.str x) d.source (.ofNat depth))) scene s
          fun _ t => t.UnlessShared fun t => t.Awaits d (x :: awaited) ∧
            (t.caches.settings.enabled.truthy = true → cacheKey d x ∉ t.caches.references.keys) :=
        hkept scene.unlessShared s fun _ => ⟨hs, hmiss⟩
      refine hsought.bind ?_ fun failure t ht =>
        ⟨fun hfresh => (ht hfresh).1.tail, fun _ h => nomatch h⟩
      rintro (cause | n) t ht
      · -- The failure is remembered, so the reference must not be among the awaited ones any more.
        dsimp only
        rw [ensures_get_bind, ensures_modify_bind]
        have hfailed : (t.keptFailure (cacheKey d x) (.externalFailed x cause)).UnlessShared
            (Session.Awaits d awaited) := by
          intro hfresh
          obtain ⟨hawaits, hmiss⟩ := ht hfresh
          exact hawaits.tail.keptFailure hx hgiven cause hmiss
        have hkeeping : Keeping (Session.UnlessShared (Session.Awaits d awaited)) (check
            (t.caches.rememberFailure (cacheKey d x) (.externalFailed x cause)).2 >>= fun _ =>
              throw (Failure.externalFailed x cause) : Resolving Node) :=
          (keeping_check _).bind fun _ => keeping_throw _
        refine Ensures.and (hkeeping scene _ hfailed) ?_
        rw [ensures_bind, ensures_check]
        cases (t.caches.rememberFailure (cacheKey d x) (.externalFailed x cause)).2 with
        | ok u => exact fun _ h => nomatch h
        | error f => exact fun _ h => nomatch h
      · exact ⟨fun hfresh => (ht hfresh).1.tail, fun _ _ hfresh => (ht hfresh).1⟩

theorem ensures_target_awaits (scene : Scene.Of (Session.UnlessShared (Session.Awaits d awaited)))
    (hs : s.Awaits d (x :: awaited)) (hx : x ∉ awaited) (hgiven : Reference.given (.str x) = .ok x)
    (hmiss : s.caches.settings.enabled.truthy = true → cacheKey d x ∉ s.caches.references.keys)
    (path : List String) :
    Ensures (d.target x path) scene s fun result t =>
      t.UnlessShared (Session.Awaits d awaited) ∧
        ∀ n, result = .ok n → t.UnlessShared (Session.Awaits d (x :: awaited)) := by
  unfold Document.target
  split
  · exact ⟨fun _ => hs.tail, fun _ h => nomatch h⟩
  · rename_i parsed _
    cases houtside : d.isOutside parsed.location with
    | error f =>
        rw [ensures_check_error_bind rfl]
        exact ⟨fun _ => hs.tail, fun _ h => nomatch h⟩
    | ok outside =>
        rw [ensures_check_ok_bind rfl]
        cases outside with
        | true => exact ensures_outsideTarget_awaits scene hs hx hgiven hmiss path
        | false => exact (ensures_lift _ _).mpr ⟨fun _ => hs.tail, fun _ _ _ => hs⟩

/-- While a reference is followed, failures are told from what is resolved, and the awaited references
of its path are not remembered as failed, unless another task has a turn. -/
theorem keeping_follow_awaits (d : Document) (budget : Nat) {awaited path : List String}
    (hpath : awaited ⊆ path) (target : Value) :
    Keeping (Session.UnlessShared (Session.Awaits d awaited)) (follow d budget path target) := by
  induction budget generalizing awaited path target with
  | zero => exact keeping_fault _
  | succ budget ih =>
      refine keeping_unlessShared ((Session.lasting_shared d).keeping_follow _ _ _) fun scene s hs => ?_
      change Ensures _ scene s fun _ t => t.UnlessShared (Session.Awaits d awaited)
      rw [follow]
      cases hgiven : Reference.given target with
      | error failure =>
          rw [ensures_lift_error_bind rfl]
          exact fun _ => hs
      | ok x =>
          rw [ensures_lift_ok_bind rfl]
          by_cases hvisited : path.contains x = true
          · rw [if_pos hvisited]
            exact fun _ => hs
          · rw [if_neg hvisited]
            -- The awaited references are on the path, which no reference is followed on twice.
            have hx : x ∉ awaited := fun hin => hvisited (List.contains_iff_mem.mpr (hpath hin))
            dsimp only
            refine (ensures_recallNode hs.ready (by decide) _ _).bind_ok ?_
            rintro _ ⟨u, hu, rfl⟩
            have ht : (s.retracked u).Awaits d awaited :=
              (Session.untracked_awaits d awaited).records (fun _ => hu) hs
            cases hfound : s.caches.references.get? (cacheKey d x) with
            | some n => exact fun _ => ht
            | none =>
                dsimp only
                rw [ensures_get_bind]
                cases hfailure : (s.retracked u).caches.failure? (cacheKey d x) with
                | some failure => exact fun _ => ht
                | none =>
                    -- From here to the end the reference is awaited.
                    have hmiss : s.caches.settings.enabled.truthy = true →
                        cacheKey d x ∉ s.caches.references.keys := fun henabled =>
                      BoundedCache.not_mem_keys_of_miss hfound
                        (hs.apart.references.trans henabled)
                    refine (ensures_target_awaits scene (ht.cons hfailure) hx
                      (Reference.given_text hgiven) hmiss path).bind ?_ fun _ _ h => h.1
                    rintro n t ⟨-, hawaits⟩
                    have hrest : Keeping (Session.UnlessShared (Session.Awaits d (x :: awaited))) (do
                        let resolved ← n.settle (follow d budget (x :: path)) d
                        keepReference (cacheKey d x) resolved
                        return resolved) := by
                      have hcomposing := (Session.composing_awaits d (x :: awaited)).unlessShared
                      refine Keeping.bind ?_ fun resolved => ?_
                      · exact hcomposing.keeping_settle fun target _ =>
                          ih (List.cons_subset_cons x hpath) target
                      · exact (hcomposing.keeping_keepReference fun v hv hfresh =>
                          (hv hfresh).keptReference resolved).bind fun _ => keeping_pure _
                    exact fun hfresh => (hrest scene.unlessShared t (hawaits n rfl) hfresh).tail

end Following

end SchemaGraph
