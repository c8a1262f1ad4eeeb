import SchemaGraph.Resolve

/-!
# Runs of operations

What holds of the result and of the session that an operation leaves.  The rules below take an
operation apart from its first step on, so that a proof about it runs along its text.
-/

namespace SchemaGraph

namespace Resolving

variable {α β : Type}

/-- What a run of an operation leaves: its result and the session after it. -/
def Ensures (act : Resolving α) (scene : Scene) (s : Session)
    (post : Except Failure α → Session → Prop) : Prop :=
  post (act scene s).1 (act scene s).2

/-- What is left to be shown after the first of two operations: of the second one if there is a
result, and of the failure itself if there is none. -/
def After (scene : Scene) (next : α → Resolving β) (post : Except Failure β → Session → Prop) :
    Except Failure α → Session → Prop
  | .ok a, s => Ensures (next a) scene s post
  | .error failure, s => post (.error failure) s

variable {scene : Scene} {s : Session}

/-- Two steps in turn, where the scene is no longer asked. -/
theorem step_apply (act : ExceptT Failure (StateM Session) α)
    (next : α → ExceptT Failure (StateM Session) β) (s : Session) :
    (act >>= next) s =
      match act s with
      | (.ok a, t) => next a t
      | (.error failure, t) => (.error failure, t) := by
  change ExceptT.bind act next s = _
  unfold ExceptT.bind ExceptT.mk
  change StateT.bind act _ s = _
  unfold StateT.bind
  rcases hrun : act s with ⟨result, t⟩
  cases result with
  | ok a => rfl
  | error failure => rfl

theorem tryCatch_apply (act : ExceptT Failure (StateM Session) α)
    (handle : Failure → ExceptT Failure (StateM Session) α) (s : Session) :
    tryCatch act handle s =
      match act s with
      | (.ok a, t) => (.ok a, t)
      | (.error failure, t) => handle failure t := by
  change ExceptT.tryCatch act handle s = _
  unfold ExceptT.tryCatch ExceptT.mk
  change StateT.bind act _ s = _
  unfold StateT.bind
  rcases hrun : act s with ⟨result, t⟩
  cases result with
  | ok a => rfl
  | error failure => rfl

theorem bind_apply (act : Resolving α) (next : α → Resolving β) (scene : Scene) (s : Session) :
    (act >>= next) scene s =
      match act scene s with
      | (.ok a, t) => next a scene t
      | (.error failure, t) => (.error failure, t) :=
  step_apply (act scene) (fun a => next a scene) s

/-- An operation that has stopped has no result that could be handed on. -/
theorem attempt_scene_apply (act : Resolving α) (scene : Scene) (s : Session) :
    attempt act scene s =
      match act scene s with
      | (.ok a, t) => (.ok (.ok a), t)
      | (.error failure, t) =>
        if scene.isStopped t then (.error failure, t) else (.ok (.error failure), t) := by
  unfold attempt
  refine (tryCatch_apply _ _ s).trans ?_
  rw [bind_apply]
  rcases hrun : act scene s with ⟨result, t⟩
  cases result with
  | ok a => rfl
  | error failure =>
      change (if scene.isStopped t then throw failure else pure (.error failure) :
        Resolving (Except Failure α)) scene t = if scene.isStopped t then _ else _
      split
      · rfl
      · rfl

theorem attempt_apply (act : Resolving α) (world : World) (s : Session) :
    attempt act world s = (.ok (act world s).1, (act world s).2) := by
  rw [attempt_scene_apply]
  rcases hrun : act world s with ⟨result, t⟩
  cases result with
  | ok a => rfl
  | error failure => rfl

theorem timed_scene_apply (operation : Operation) (act : Resolving α) (scene : Scene) (s : Session) :
    timed operation act scene s =
      ((act scene s).1, (act scene s).2.clocked scene operation s.clock) := by
  unfold timed
  refine (step_apply _ _ s).trans ?_
  refine (tryCatch_apply _ _ s).trans ?_
  rw [step_apply]
  rcases hrun : act scene s with ⟨result, t⟩
  cases result with
  | ok a => rfl
  | error failure => rfl

theorem timed_apply (operation : Operation) (act : Resolving α) (world : World) (s : Session) :
    timed operation act world s =
      ((act world s).1,
        { (act world s).2 with
          tracker := (act world s).2.tracker.track operation s.clock (act world s).2.clock }) :=
  timed_scene_apply operation act world s

/-- Either the time of an operation is recorded, or nothing is. -/
theorem clocked_cases (s : Session) (scene : Scene) (operation : Operation) (started : Binary64) :
    s.clocked scene operation started = s ∨ s.clocked scene operation started =
      { s with tracker := s.tracker.track operation started s.clock } := by
  unfold Session.clocked
  split
  · exact Or.inl rfl
  · exact Or.inr rfl

/-- An operation that has to wait goes on with the session that is known, or stops, or is not kept
waiting. -/
theorem await_scene_apply (scene : Scene) (s : Session) :
    await scene s =
      match Ordered.get? s.trace.length scene.resumed with
      | some t => (.ok (), t)
      | none =>
        if scene.halts then (.error (.fault .emptyQueue), { s with trace := .paused :: s.trace })
        else (.ok (), s) := by
  unfold await
  rw [bind_apply]
  change (get >>= _ : Resolving Unit) scene s = _
  rw [bind_apply]
  change (match Ordered.get? s.trace.length scene.resumed with
    | some t => set t
    | none => if scene.halts then _ else _ : Resolving Unit) scene s = _
  cases Ordered.get? s.trace.length scene.resumed with
  | some t => rfl
  | none =>
      cases hhalts : scene.halts with
      | true => rfl
      | false => rfl

/-- An operation that runs alone does not wait. -/
theorem await_apply (world : World) (s : Session) : await world s = (.ok (), s) := rfl

section Rules

theorem ensures_pure (a : α) (post : Except Failure α → Session → Prop) :
    Ensures (pure a) scene s post ↔ post (.ok a) s :=
  Iff.rfl

theorem ensures_throw (failure : Failure) (post : Except Failure α → Session → Prop) :
    Ensures (throw failure) scene s post ↔ post (.error failure) s :=
  Iff.rfl

theorem ensures_bind (act : Resolving α) (next : α → Resolving β)
    (post : Except Failure β → Session → Prop) :
    Ensures (act >>= next) scene s post ↔ Ensures act scene s (After scene next post) := by
  unfold Ensures
  rw [bind_apply]
  rcases act scene s with ⟨result, t⟩
  cases result with
  | ok a => rfl
  | error failure => rfl

theorem ensures_get_bind (next : Session → Resolving β)
    (post : Except Failure β → Session → Prop) :
    Ensures (get >>= next) scene s post ↔ Ensures (next s) scene s post := by
  rw [ensures_bind]
  exact Iff.rfl

theorem ensures_modify_bind (change : Session → Session) (next : Unit → Resolving β)
    (post : Except Failure β → Session → Prop) :
    Ensures (modify change >>= next) scene s post ↔ Ensures (next ()) scene (change s) post := by
  rw [ensures_bind]
  exact Iff.rfl

theorem ensures_set_bind (t : Session) (next : Unit → Resolving β)
    (post : Except Failure β → Session → Prop) :
    Ensures (set t >>= next) scene s post ↔ Ensures (next ()) scene t post := by
  rw [ensures_bind]
  exact Iff.rfl

theorem ensures_lift_ok_bind {result : Except Failure α} {a : α} (h : result = .ok a)
    (next : α → Resolving β) (post : Except Failure β → Session → Prop) :
    Ensures (lift result >>= next) scene s post ↔ Ensures (next a) scene s post := by
  rw [ensures_bind, h]
  exact Iff.rfl

theorem ensures_lift_error_bind {result : Except Failure α} {failure : Failure}
    (h : result = .error failure) (next : α → Resolving β)
    (post : Except Failure β → Session → Prop) :
    Ensures (lift result >>= next) scene s post ↔ post (.error failure) s := by
  rw [ensures_bind, h]
  exact Iff.rfl

theorem ensures_check_ok_bind {result : Except Fault α} {a : α} (h : result = .ok a)
    (next : α → Resolving β) (post : Except Failure β → Session → Prop) :
    Ensures (check result >>= next) scene s post ↔ Ensures (next a) scene s post :=
  ensures_lift_ok_bind (h ▸ rfl) next post

theorem ensures_check_error_bind {result : Except Fault α} {fault : Fault}
    (h : result = .error fault) (next : α → Resolving β)
    (post : Except Failure β → Session → Prop) :
    Ensures (check result >>= next) scene s post ↔ post (.error (.fault fault)) s :=
  ensures_lift_error_bind (h ▸ rfl) next post

theorem ensures_read (post : Except Failure Scene → Session → Prop) :
    Ensures read scene s post ↔ post (.ok scene) s :=
  Iff.rfl

theorem ensures_modify (change : Session → Session) (post : Except Failure Unit → Session → Prop) :
    Ensures (modify change) scene s post ↔ post (.ok ()) (change s) :=
  Iff.rfl

theorem ensures_lift (result : Except Failure α) (post : Except Failure α → Session → Prop) :
    Ensures (lift result) scene s post ↔ post result s := by
  cases result with
  | ok a => exact Iff.rfl
  | error failure => exact Iff.rfl

theorem ensures_check (result : Except Fault α) (post : Except Failure α → Session → Prop) :
    Ensures (check result) scene s post ↔ post (orFail result) s :=
  ensures_lift _ _

theorem ensures_await_bind {world : World} (next : Unit → Resolving β)
    (post : Except Failure β → Session → Prop) :
    Ensures (await >>= next) world s post ↔ Ensures (next ()) world s post := by
  rw [ensures_bind]
  exact Iff.rfl

theorem ensures_attempt {world : World} (act : Resolving α)
    (post : Except Failure (Except Failure α) → Session → Prop) :
    Ensures (attempt act) world s post ↔ Ensures act world s fun result t => post (.ok result) t := by
  unfold Ensures
  rw [attempt_apply]

theorem ensures_timed_scene (operation : Operation) (act : Resolving α)
    (post : Except Failure α → Session → Prop) :
    Ensures (timed operation act) scene s post ↔
      Ensures act scene s fun result t => post result (t.clocked scene operation s.clock) := by
  unfold Ensures
  rw [timed_scene_apply]

theorem ensures_timed {world : World} (operation : Operation) (act : Resolving α)
    (post : Except Failure α → Session → Prop) :
    Ensures (timed operation act) world s post ↔
      Ensures act world s fun result t =>
        post result { t with tracker := t.tracker.track operation s.clock t.clock } :=
  ensures_timed_scene operation act post

theorem Ensures.mono {act : Resolving α} {post post' : Except Failure α → Session → Prop}
    (h : Ensures act scene s post) (himp : ∀ result t, post result t → post' result t) :
    Ensures act scene s post' :=
  himp _ _ h

theorem Ensures.and {act : Resolving α} {post post' : Except Failure α → Session → Prop}
    (h : Ensures act scene s post) (h' : Ensures act scene s post') :
    Ensures act scene s fun result t => post result t ∧ post' result t :=
  ⟨h, h'⟩

/-- Two operations in turn: what the first one ensures is what the second one starts from. -/
theorem Ensures.bind {act : Resolving α} {next : α → Resolving β}
    {mid : Except Failure α → Session → Prop} {post : Except Failure β → Session → Prop}
    (h : Ensures act scene s mid) (hok : ∀ a t, mid (.ok a) t → Ensures (next a) scene t post)
    (herror : ∀ failure t, mid (.error failure) t → post (.error failure) t) :
    Ensures (act >>= next) scene s post := by
  rw [ensures_bind]
  refine h.mono ?_
  intro result t hmid
  cases result with
  | ok a => exact hok a t hmid
  | error failure => exact herror failure t hmid

/-- After an operation that is sure to give some result. -/
theorem Ensures.bind_ok {act : Resolving α} {next : α → Resolving β} {a : α} {mid : Session → Prop}
    {post : Except Failure β → Session → Prop}
    (h : Ensures act scene s fun result t => result = .ok a ∧ mid t)
    (hnext : ∀ t, mid t → Ensures (next a) scene t post) :
    Ensures (act >>= next) scene s post := by
  refine h.bind ?_ ?_
  · rintro b t ⟨heq, hmid⟩
    rw [Except.ok.inj heq]
    exact hnext t hmid
  · rintro failure t ⟨heq, -⟩
    cases heq

end Rules

end Resolving

end SchemaGraph
