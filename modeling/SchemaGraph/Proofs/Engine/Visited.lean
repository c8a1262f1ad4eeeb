import SchemaGraph.Proofs.Engine.Groups
import SchemaGraph.Proofs.Engine.Reachable
import SchemaGraph.Proofs.Engine.Compositions
import SchemaGraph.Proofs.Resolve.Repeated
import SchemaGraph.Proofs.Resolve.Visited

/-!
# Visited references on an engine

A reference is resolved with a set of references that are regarded as being followed already.  On an
engine that caches nothing, a larger set only adds cycles: whatever is resolved with it is resolved
alike with a smaller one, and what only the smaller one resolves meets a reference that was added.

On an engine that caches, a reference that is itself regarded as being followed is a cycle all the same.
One that leads to such a reference may be recalled instead; but then it is resolved to what it resolves
to alone, so no cycle of the document is ever hidden.
-/

namespace SchemaGraph.Engine

open Resolving

variable {subject : Subject} {asked : Asked} {d : Document} {world : World} {s t : Session}

/-- Where nothing is cached, a reference of a document that refers only to itself resolves to what the
calculation without a session gives. -/
theorem reference_result (hs : s.Cold) (hopen : subject.open world s = (.ok d, t))
    (hplain : d.Plain) (hasked : asked.IsLocal d) {visited : Value} {path : List String}
    (hvisited : visitedPath visited = .ok path) :
    (reference subject asked visited world s).1 = asked.target >>= d.resolved path := by
  have ht : t.Cold := by
    obtain ⟨documents, nextId, rfl⟩ := opened_of_open hopen
    exact ⟨hs.ready, hs.references, hs.compositions, hs.failures⟩
  unfold reference
  rw [timed_apply]
  dsimp only
  rw [bind_apply, hopen]
  dsimp only
  rw [bind_apply]
  cases htarget : asked.target with
  | error failure => rfl
  | ok target =>
      have hlocal : ∀ x, target = .str x → d.IsLocal x := by
        rintro x rfl
        exact hasked x htarget
      have hcalculates : Calculates (resolveReference d path target) (d.resolved path target) world t :=
        calculates_resolveReference hplain path hlocal ht
      obtain ⟨u, -, hrun⟩ := hcalculates
      have hfollow : (check (visitedPath visited) >>= fun path => resolveReference d path target)
          world t = (d.resolved path target, t.retracked u) := by
        rw [bind_apply, hvisited]
        exact hrun
      exact congrArg Prod.fst hfollow

/-- Wherever engines that cache nothing resolve a reference of a document that refers only to itself,
more visited references can only add cycles.  If the reference is resolved with some of them, it is
resolved alike with fewer.  If it is resolved with fewer only, then with more of them the failure is a
cycle through one that was added.  The two engines may have lived differently, in different worlds, and
know the document by different numbers. -/
theorem visited_adds_cycles {subject' : Subject} {world' : World} {s' t' : Session} {number : Nat}
    (hs : Reachable s) (hs' : Reachable s')
    (hdisabled : s.caches.settings.enabled.truthy = false)
    (hdisabled' : s'.caches.settings.enabled.truthy = false)
    (hopen : subject.open world s = (.ok d, t))
    (hopen' : subject'.open world' s' = (.ok { d with id := number }, t'))
    (hplain : d.Plain) (hasked : asked.IsLocal d) {visited visited' : Value}
    {wide narrow : List String} (hwide : visitedPath visited = .ok wide)
    (hnarrow : visitedPath visited' = .ok narrow) (hsub : narrow ⊆ wide) :
    let more := (reference subject asked visited world s).1
    let fewer := (reference subject' asked visited' world' s').1
    (∀ n, more = .ok n → fewer = .ok n) ∧
      ∀ n failure, fewer = .ok n → more = .error failure →
        ∃ x, x ∈ wide ∧ x ∉ narrow ∧ failure = .circularReference x := by
  intro more fewer
  have hmore : more = asked.target >>= d.resolved wide :=
    reference_result (hs.inOrder.cold hdisabled) hopen hplain hasked hwide
  -- neither what a document declares nor where its references lead depends on its number
  have hfewer : fewer = asked.target >>= d.resolved narrow :=
    reference_result (hs'.inOrder.cold hdisabled') hopen' ⟨hplain.json, hplain.isLocal⟩ hasked hnarrow
  have hparts : PartsAt (Added wide narrow) more fewer := by
    rw [hmore, hfewer]
    apply (PartsAt.refl asked.target).bind
    exact d.resolved_parts hsub
  constructor
  · intro n hok
    exact hparts.narrow_ok hok
  · intro n failure hok herror
    obtain ⟨x, ⟨hin, hnew⟩, hx⟩ := hparts.wide_error hok herror
    exact ⟨x, hin, hnew, hx⟩

/-- An alias that is resolved while nothing is followed, and is not while its target is. -/
theorem visited_adds_cycles_alias :
    let s := lived turnedOff (new {} 0 0 1)
    let asked := Asked.value (.str "#/components/schemas/Alias")
    let more := (reference aliasSubject asked (.list [.str "#/components/schemas/Text"]) emptyWorld s).1
    let fewer := (reference (.document aliasDocument) asked (.list []) emptyWorld s).1
    (∀ n, more = .ok n → fewer = .ok n) ∧
      ∀ n failure, fewer = .ok n → more = .error failure →
        ∃ x, x ∈ ["#/components/schemas/Text"] ∧ x ∉ [] ∧ failure = .circularReference x := by
  have hdisabled : (lived turnedOff (new {} 0 0 1)).caches.settings.enabled.truthy = false := by
    decide +kernel
  have hreachable : Reachable (lived turnedOff (new {} 0 0 1)) := ⟨_, _, _, _, _, rfl⟩
  have hplain : aliasDocument.Plain := ⟨plain_alias.json, plain_alias.isLocal⟩
  have hasked : (Asked.value (.str "#/components/schemas/Alias")).IsLocal aliasDocument :=
    isLocal_askAlias.2
  have hopen : ∃ t, aliasSubject.open emptyWorld (lived turnedOff (new {} 0 0 1)) =
      (.ok aliasDocument, t) := ⟨_, rfl⟩
  obtain ⟨t, hopen⟩ := hopen
  exact visited_adds_cycles hreachable hreachable hdisabled hdisabled hopen rfl hplain hasked rfl rfl
    (List.nil_subset _)

/-- A reference that is regarded as being followed is a cycle, whatever is recalled. -/
theorem reference_of_visited {x : String} (hopen : subject.open world s = (.ok d, t))
    (htarget : asked.target = .ok (.str x)) (hx : Reference.given (.str x) = .ok x) {visited : Value}
    {path : List String} (hvisited : visitedPath visited = .ok path) (hin : x ∈ path) :
    (reference subject asked visited world s).1 = .error (.circularReference x) := by
  have hresolve : resolveReference d path (.str x) world t =
      (throw (.circularReference x) : Resolving Node) world t := by
    unfold resolveReference pathBudget
    rw [bind_apply]
    -- there is always budget for the first reference, and it is compared with the path at once
    exact congrFun (congrFun (follow_of_mem d _ path hx hin) world) t
  unfold reference
  rw [timed_apply]
  dsimp only
  rw [bind_apply, hopen]
  dsimp only
  rw [bind_apply, htarget]
  have hfollow : (check (visitedPath visited) >>= fun path => resolveReference d path (.str x))
      world t = (throw (.circularReference x) : Resolving Node) world t := by
    rw [bind_apply, hvisited]
    exact hresolve
  exact congrArg Prod.fst hfollow

/-- What an engine resolves a reference to while others are regarded as being followed is what the
reference resolves to alone. -/
theorem alone_of_visited {library : Library} {subject : Subject} (hholds : library.Holds subject)
    (hplain : subject.content.Plain) (past : Past library subject)
    (hasked : asked.IsLocal subject.content) {visited : Value} {n : Node}
    (h : (reference subject asked visited past.world past.session).1 = .ok n) :
    ∃ target m, asked.target = .ok target ∧ subject.content.resolved [] target = .ok m ∧
      n.Alike m := by
  have hmirrors : Mirrors (Session.Fit (library.watchOnly subject)) (visitedPath visited = .ok [])
      Node.Like (reference subject asked visited) (calculatedReference subject asked visited)
      past.world past.session :=
    mirrors_reference (past.fit hholds) (Library.watched_watchOnly hholds) hplain hasked
  obtain ⟨m, hm, hlike⟩ := hmirrors.2.exists_ok h
  obtain ⟨target, htarget, hm⟩ := bind_eq_ok.mp hm
  obtain ⟨path, -, hm⟩ := bind_eq_ok.mp hm
  exact ⟨target, m, htarget, Document.remembered_eq_ok.mp hm, hlike.alike⟩

/-- A reference that is itself regarded as being followed is a cycle, whatever is recalled.  If others are
regarded so, the reference may be recalled, but then it is what it resolves to alone: a reference that is
on a cycle of the document is never resolved. -/
theorem reference_visited {library : Library} {subject : Subject} (hholds : library.Holds subject)
    (hplain : subject.content.Plain) (past : Past library subject)
    (hasked : asked.IsLocal subject.content)
    (hopen : subject.open past.world past.session = (.ok d, t)) {visited : Value}
    {path : List String} (hvisited : visitedPath visited = .ok path) {x : String}
    (htarget : asked.target = .ok (.str x)) (hx : Reference.given (.str x) = .ok x) :
    let outcome := (reference subject asked visited past.world past.session).1
    (x ∈ path → outcome = .error (.circularReference x)) ∧
      ∀ n, outcome = .ok n →
        ∃ m, subject.content.resolved [] (.str x) = .ok m ∧ n.Alike m := by
  intro outcome
  refine ⟨fun hin => reference_of_visited hopen htarget hx hvisited hin, fun n hn => ?_⟩
  obtain ⟨target, m, htarget', hm, halike⟩ := alone_of_visited hholds hplain past hasked hn
  obtain rfl := Except.ok.inj (htarget.symm.trans htarget')
  exact ⟨m, hm, halike⟩

/-- An engine that has resolved the alias. -/
def warmPast : Past aliasLibrary aliasSubject where
  config := {}
  typed := typed_default
  resident := 0
  virtual := 0
  life := [(emptyWorld, askAlias)]
  admitted := by
    intro step hstep other hother
    obtain rfl := List.mem_singleton.mp hstep
    obtain rfl := Option.some.inj hother
    exact ⟨rfl, fun _ => isLocal_askAlias⟩
  world := emptyWorld

/-- The alias is a cycle while it is followed itself.  While its target is followed it is recalled, and is
what it is alone. -/
theorem reference_visited_alias :
    let asked := Asked.value (.str "#/components/schemas/Alias")
    let outcome := fun visited =>
      (reference aliasSubject asked (.list [.str visited]) emptyWorld warmPast.session).1
    outcome "#/components/schemas/Alias" = .error (.circularReference "#/components/schemas/Alias") ∧
      ∃ n m, outcome "#/components/schemas/Text" = .ok n ∧
        aliasSubject.content.resolved [] (.str "#/components/schemas/Alias") = .ok m ∧
          n.Alike m := by
  intro asked outcome
  have hholds : aliasLibrary.Holds aliasSubject := rfl
  have hopen : ∃ d t, aliasSubject.open warmPast.world warmPast.session = (.ok d, t) := ⟨_, _, rfl⟩
  obtain ⟨d, t, hopen⟩ := hopen
  have hrecalled : ∃ n, outcome "#/components/schemas/Text" = .ok n := ⟨_, rfl⟩
  obtain ⟨n, hn⟩ := hrecalled
  have hown := reference_visited hholds plain_alias warmPast isLocal_askAlias.2 hopen
    (show visitedPath (.list [.str "#/components/schemas/Alias"]) = .ok _ from rfl) rfl rfl
  have htarget := reference_visited hholds plain_alias warmPast isLocal_askAlias.2 hopen
    (show visitedPath (.list [.str "#/components/schemas/Text"]) = .ok _ from rfl) rfl rfl
  obtain ⟨m, hm, halike⟩ := htarget.2 n hn
  exact ⟨hown.1 List.mem_cons_self, n, m, hn, hm, halike⟩

end SchemaGraph.Engine
