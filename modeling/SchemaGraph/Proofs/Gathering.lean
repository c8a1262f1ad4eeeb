import SchemaGraph.Proofs.Keeping

/-!
# Several tasks at once

Several tasks come to their ends by steps of single tasks: one of them goes on to where it has to wait
next, or to its end.  What every step keeps holds at the end, whatever turns the tasks take; and of the
results is known what is known of the result of each task, wherever it started and with whatever sessions
it went on.

Without turns the tasks run one after the other.
-/

namespace SchemaGraph

namespace Resolving

variable {α β : Type}

/-- The runs of a task: in a session it starts, or it goes on with it from where it has waited. -/
inductive Progress.Runs (world : World) : Progress α → Session → Scene → Session → Prop
  | ready (s : Session) (halts : Bool) : Runs world .ready s { world with resumed := [], halts } s
  | waiting (start : Session) (resumed : List (Nat × Session)) (since : Nat) (s : Session)
      (halts : Bool) : Runs world (.waiting start resumed since) s
        { world with resumed := resumed ++ [(since, s.turned)], halts } start

/-- The tasks and the session to which steps of single tasks lead. -/
inductive Gathering (run : β → Resolving α) (world : World) (items : List β) (s : Session) :
    List (β × Progress α) → Session → Prop
  | start : Gathering run world items s (items.map fun item => (item, .ready)) s
  | turn {before after : List (β × Progress α)} {item : β} {progress : Progress α} {t : Session} :
      Gathering run world items s (before ++ (item, progress) :: after) t →
      Gathering run world items s (before ++ (item, (progress.advance world (run item) t).1) :: after)
        (progress.advance world (run item) t).2
  | finish {before after : List (β × Progress α)} {item : β} {progress : Progress α} {t : Session} :
      Gathering run world items s (before ++ (item, progress) :: after) t →
      Gathering run world items s
        (before ++ (item, .ended (progress.finish world (run item) t).1) :: after)
        (progress.finish world (run item) t).2

section Steps

variable {run : β → Resolving α} {world : World} {items : List β} {s t : Session}
  {before tasks : List (β × Progress α)}

theorem gathering_giveTurn (h : Gathering run world items s (before ++ tasks) t) (number : Nat) :
    Gathering run world items s (before ++ (giveTurn run world number tasks t).1)
      (giveTurn run world number tasks t).2 := by
  induction tasks generalizing before number with
  | nil =>
      rw [giveTurn]
      exact h
  | cons task rest ih =>
      obtain ⟨item, progress⟩ := task
      cases number with
      | zero =>
          rw [giveTurn]
          exact h.turn
      | succ number =>
          rw [giveTurn]
          have hrest : Gathering run world items s (before ++ [(item, progress)] ++ rest) t := by
            rwa [List.append_assoc]
          have hlater := ih hrest number
          rwa [List.append_assoc] at hlater

theorem gathering_giveTurns (h : Gathering run world items s tasks t) (turns : List Nat) :
    Gathering run world items s (giveTurns run world turns tasks t).1
      (giveTurns run world turns tasks t).2 := by
  induction turns generalizing tasks t with
  | nil => exact h
  | cons number rest ih =>
      have hturn : Gathering run world items s ([] ++ (giveTurn run world number tasks t).1)
          (giveTurn run world number tasks t).2 := gathering_giveTurn h number
      exact ih hturn

/-- When all tasks have gone on to their ends, their results are what they ended with. -/
theorem gathering_finishAll (h : Gathering run world items s (before ++ tasks) t) :
    Gathering run world items s
      (before ++ (finishAll run world tasks t).1.map fun entry => (entry.1, .ended entry.2))
      (finishAll run world tasks t).2 := by
  induction tasks generalizing before t with
  | nil =>
      rw [finishAll]
      exact h
  | cons task rest ih =>
      obtain ⟨item, progress⟩ := task
      rw [finishAll]
      have hfinished := h.finish
      rw [List.append_cons] at hfinished
      have hlater := ih hfinished
      rwa [List.append_assoc] at hlater

/-- Steps of single tasks lead to what the tasks end with. -/
theorem ensures_gather (run : β → Resolving α) (items : List β) (scene : Scene) (s : Session) :
    Ensures (gather run items) scene s fun result t => ∃ results, result = .ok results ∧
      Gathering run scene.toWorld items s (results.map fun entry => (entry.1, .ended entry.2)) t := by
  have hturns : Gathering run scene.toWorld items s ([] ++ _) _ :=
    gathering_giveTurns Gathering.start scene.turns
  exact ⟨_, rfl, gathering_finishAll hturns⟩

end Steps

/-! ### What steps keep -/

section Sound

variable {run : β → Resolving α} {world : World} {items : List β} {keeps : Session → Prop}
  {good : β → Except Failure α → Prop}

/-- Whether a task was in sessions of a kind only, and what it ended with, if it has ended, is of a
kind. -/
inductive Progress.Sound (keeps : Session → Prop) (good : Except Failure α → Prop) :
    Progress α → Prop
  | ready : Sound keeps good .ready
  | waiting {start : Session} {resumed : List (Nat × Session)} {since : Nat} (hstart : keeps start)
      (hresumed : ∀ entry ∈ resumed, keeps entry.2 ∧ entry.2.Shared) :
      Sound keeps good (.waiting start resumed since)
  | ended {result : Except Failure α} (h : good result) : Sound keeps good (.ended result)

/-- Whether an operation keeps a property of sessions, and what it gives if it has not stopped is of a
kind, be it a result or a failure. -/
def Settles (keeps : Session → Prop) (good : Except Failure α → Prop) (act : Resolving α) : Prop :=
  ∀ (scene : Scene.Of keeps) s, keeps s →
    Ensures act scene s fun result t => keeps t ∧ (scene.isStopped t = false → good result)

variable (hturned : ∀ s, keeps s → keeps s.turned)
include hturned

/-- A task goes on with sessions of the kind. -/
theorem Progress.resumed_turned {s : Session} {resumed : List (Nat × Session)} {since : Nat}
    (hresumed : ∀ entry ∈ resumed, keeps entry.2 ∧ entry.2.Shared) (hs : keeps s) :
    ∀ entry ∈ resumed ++ [(since, s.turned)], keeps entry.2 ∧ entry.2.Shared := by
  intro entry hentry
  rcases List.mem_append.mp hentry with hearlier | hlast
  · exact hresumed entry hearlier
  · rw [List.mem_singleton.mp hlast]
    exact ⟨hturned s hs, List.mem_cons_self⟩

/-- A task runs from a session of the kind, and goes on with such sessions. -/
theorem Progress.Sound.runs {good : Except Failure α → Prop} {progress : Progress α}
    {s start : Session} {scene : Scene} (h : progress.Sound keeps good) (hs : keeps s)
    (hruns : progress.Runs world s scene start) :
    keeps start ∧ ∃ kept : Scene.Of keeps, kept.toScene = scene := by
  cases hruns with
  | ready s halts => exact ⟨hs, ⟨{ world with resumed := [], halts }, by simp, by simp⟩, rfl⟩
  | waiting start resumed since s halts =>
      cases h with
      | waiting hstart hresumed =>
          have hlater : ∀ entry ∈ resumed ++ [(since, s.turned)], keeps entry.2 ∧ entry.2.Shared :=
            resumed_turned hturned hresumed hs
          refine ⟨hstart, ⟨{ world with resumed := resumed ++ [(since, s.turned)], halts }, ?_, ?_⟩, rfl⟩
          · exact fun entry hentry => (hlater entry hentry).1
          · exact fun entry hentry => (hlater entry hentry).2

theorem Progress.sound_ofRun {good : Except Failure α → Prop} {start : Session}
    {resumed : List (Nat × Session)} {outcome : Except Failure α × Session} (hstart : keeps start)
    (hresumed : ∀ entry ∈ resumed, keeps entry.2 ∧ entry.2.Shared) (hkept : keeps outcome.2)
    (hgood : outcome.2.pausedAt? = none → good outcome.1) :
    (ofRun start resumed outcome).1.Sound keeps good ∧ keeps (ofRun start resumed outcome).2 := by
  obtain ⟨result, t⟩ := outcome
  unfold ofRun
  dsimp only at hkept hgood ⊢
  cases hpaused : t.pausedAt? with
  | some since => exact ⟨.waiting hstart hresumed, hturned t hkept⟩
  | none => exact ⟨.ended (hgood hpaused), hkept⟩

theorem Progress.sound_advance {good : Except Failure α → Prop} {act : Resolving α}
    (hact : Settles keeps good act) {progress : Progress α} {s : Session}
    (h : progress.Sound keeps good) (hs : keeps s) :
    (progress.advance world act s).1.Sound keeps good ∧ keeps (progress.advance world act s).2 := by
  have hrun : ∀ {scene start}, progress.Runs world s scene start → scene.halts = true →
      keeps (act scene start).2 ∧
        ((act scene start).2.pausedAt? = none → good (act scene start).1) := by
    rintro scene start hruns hhalts
    obtain ⟨hstart, kept, rfl⟩ := h.runs hturned hs hruns
    obtain ⟨hkept, hgood⟩ := hact kept start hstart
    refine ⟨hkept, fun hpaused => hgood ?_⟩
    unfold Scene.isStopped
    rw [hpaused, Option.isSome_none, Bool.and_false]
  cases progress with
  | ready =>
      obtain ⟨hkept, hgood⟩ := hrun (.ready s true) rfl
      exact sound_ofRun hturned hs (fun _ hentry => absurd hentry List.not_mem_nil) hkept hgood
  | waiting start resumed since =>
      cases h with
      | waiting hstart hresumed =>
          obtain ⟨hkept, hgood⟩ := hrun (.waiting start resumed since s true) rfl
          exact sound_ofRun hturned hstart (resumed_turned hturned hresumed hs) hkept hgood
  | ended result => exact ⟨h, hs⟩

theorem Progress.sound_finish {good : Except Failure α → Prop} {act : Resolving α}
    (hact : Settles keeps good act) {progress : Progress α} {s : Session}
    (h : progress.Sound keeps good) (hs : keeps s) :
    good (progress.finish world act s).1 ∧ keeps (progress.finish world act s).2 := by
  have hrun : ∀ {scene start}, progress.Runs world s scene start → scene.halts = false →
      good (act scene start).1 ∧ keeps (act scene start).2 := by
    intro scene start hruns hhalts
    obtain ⟨hstart, kept, rfl⟩ := h.runs hturned hs hruns
    obtain ⟨hkept, hgood⟩ := hact kept start hstart
    refine ⟨hgood ?_, hkept⟩
    unfold Scene.isStopped
    rw [hhalts, Bool.false_and]
  cases progress with
  | ready => exact hrun (.ready s false) rfl
  | waiting start resumed since => exact hrun (.waiting start resumed since s false) rfl
  | ended result =>
      cases h with
      | ended h => exact ⟨h, hs⟩

omit hturned

/-- What a list of tasks is about does not change when one of them goes on. -/
theorem replaced_items {before after : List (β × Progress α)} {item : β}
    {progress progress' : Progress α}
    (h : (before ++ (item, progress) :: after).map Prod.fst = items) :
    (before ++ (item, progress') :: after).map Prod.fst = items := by
  rw [← h, List.map_append, List.map_append, List.map_cons, List.map_cons]

theorem forall_replaced {before after : List (β × Progress α)} {item : β}
    {progress progress' : Progress α} {known : β × Progress α → Prop}
    (h : ∀ task ∈ before ++ (item, progress) :: after, known task) (hnew : known (item, progress')) :
    ∀ task ∈ before ++ (item, progress') :: after, known task := by
  intro task htask
  rcases List.mem_append.mp htask with hbefore | hlater
  · exact h task (List.mem_append_left _ hbefore)
  · rcases List.mem_cons.mp hlater with heq | hafter
    · rw [heq]
      exact hnew
    · exact h task (List.mem_append_right before (List.mem_cons_of_mem _ hafter))

theorem turned_task {before after : List (β × Progress α)} {item : β} {progress : Progress α}
    {known : β × Progress α → Prop} (hitems : (before ++ (item, progress) :: after).map Prod.fst = items)
    (h : ∀ task ∈ before ++ (item, progress) :: after, known task) :
    item ∈ items ∧ known (item, progress) := by
  have hin : (item, progress) ∈ before ++ (item, progress) :: after :=
    List.mem_append_right before List.mem_cons_self
  refine ⟨?_, h _ hin⟩
  rw [← hitems]
  exact List.mem_map_of_mem hin

variable (hrun : ∀ item ∈ items, Settles keeps (good item) (run item))
include hturned hrun

/-- What every run of a single task keeps, all steps of the tasks keep. -/
theorem Gathering.sound {s t : Session} {tasks : List (β × Progress α)}
    (h : Gathering run world items s tasks t) (hs : keeps s) :
    keeps t ∧ tasks.map Prod.fst = items ∧ ∀ task ∈ tasks, task.2.Sound keeps (good task.1) := by
  induction h with
  | start =>
      refine ⟨hs, ?_, fun task htask => ?_⟩
      · rw [List.map_map]
        exact List.map_id items
      · obtain ⟨item, -, heq⟩ := List.mem_map.mp htask
        rw [← heq]
        exact .ready
  | turn _ ih =>
      obtain ⟨ht, hitems, htasks⟩ := ih
      obtain ⟨hitem, hprogress⟩ := turned_task hitems htasks
      obtain ⟨hsound, hkept⟩ := Progress.sound_advance hturned (hrun _ hitem) hprogress ht
      exact ⟨hkept, replaced_items hitems, forall_replaced htasks hsound⟩
  | finish _ ih =>
      obtain ⟨ht, hitems, htasks⟩ := ih
      obtain ⟨hitem, hprogress⟩ := turned_task hitems htasks
      obtain ⟨hgood, hkept⟩ := Progress.sound_finish hturned (hrun _ hitem) hprogress ht
      exact ⟨hkept, replaced_items hitems, forall_replaced htasks (.ended hgood)⟩

/-- What every run of a single task keeps holds when all have ended, and each of them has ended with what
is known of its results. -/
theorem ensures_gather_of_settles {scene : Scene} {s : Session} (hs : keeps s) :
    Ensures (gather run items) scene s fun result t => keeps t ∧ ∃ results, result = .ok results ∧
      results.map Prod.fst = items ∧ ∀ entry ∈ results, good entry.1 entry.2 := by
  refine (ensures_gather run items scene s).mono ?_
  rintro result t ⟨results, hresult, hgathering⟩
  obtain ⟨ht, hitems, htasks⟩ := hgathering.sound hturned hrun hs
  refine ⟨ht, results, hresult, ?_, fun entry hentry => ?_⟩
  · rw [← hitems, List.map_map]
    rfl
  · have hsound := htasks (entry.1, .ended entry.2) (List.mem_map_of_mem (f := fun entry =>
      (entry.1, Progress.ended entry.2)) hentry)
    cases hsound with
    | ended h => exact h

end Sound

section Rules

variable {run : β → Resolving α} {items : List β} {keeps : Session → Prop} {good : β → α → Prop}
  (hturned : ∀ s, keeps s → keeps s.turned)
include hturned

theorem yields_gather (hrun : ∀ item ∈ items, Yields keeps (good item) (run item)) :
    Yields keeps (fun results => ∀ entry ∈ results, ∀ a, entry.2 = .ok a → good entry.1 a)
      (gather run items) := by
  intro scene s hs
  have hsettles : ∀ item ∈ items,
      Settles keeps (fun result => ∀ a, result = .ok a → good item a) (run item) :=
    fun item hitem scene s hs => ⟨(hrun item hitem scene s hs).1, fun _ => (hrun item hitem scene s hs).2⟩
  refine (ensures_gather_of_settles hturned hsettles hs).mono ?_
  rintro result t ⟨ht, results, hresult, -, hgood⟩
  refine ⟨ht, fun given hgiven => ?_⟩
  obtain rfl := Except.ok.inj (hresult.symm.trans hgiven)
  exact hgood

theorem keeping_gather (hrun : ∀ item ∈ items, Keeping keeps (run item)) :
    Keeping keeps (gather run items) :=
  have hyields : ∀ item ∈ items, Yields keeps (fun _ => True) (run item) :=
    fun item hitem => (hrun item hitem).yields
  (yields_gather hturned hyields).keeping

end Rules

/-! ### One after the other -/

section OneByOne

/-- Whether tasks ran one after the other, each in the session that the one before left, whatever became
of it. -/
inductive OneByOne (run : β → Resolving α) (world : World) :
    Session → List β → List (β × Except Failure α) → Session → Prop
  | nil (s : Session) : OneByOne run world s [] [] s
  | cons {s t u : Session} {item : β} {rest : List β} {result : Except Failure α}
      {results : List (β × Except Failure α)} (hresult : run item world s = (result, t))
      (hrest : OneByOne run world t rest results u) :
      OneByOne run world s (item :: rest) ((item, result) :: results) u

variable (run : β → Resolving α) {world : World}

theorem oneByOne_finishAll (items : List β) (s : Session) :
    OneByOne run world s items (finishAll run world (items.map fun item => (item, .ready)) s).1
      (finishAll run world (items.map fun item => (item, .ready)) s).2 := by
  induction items generalizing s with
  | nil => exact .nil s
  | cons item rest ih => exact .cons rfl (ih _)

/-- Where no turns are given, the tasks run to their ends one after the other. -/
theorem ensures_gather_oneByOne (hturns : world.turns = []) (items : List β) (s : Session) :
    Ensures (gather run items) world s fun result t =>
      ∃ results, result = .ok results ∧ OneByOne run world s items results t := by
  unfold Ensures gather
  rw [hturns]
  exact ⟨_, rfl, oneByOne_finishAll run items s⟩

end OneByOne

end Resolving

end SchemaGraph
