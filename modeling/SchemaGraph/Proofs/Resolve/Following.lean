import SchemaGraph.Proofs.Resolve.Settling

/-!
# Following in a sound session

Following a reference of a document that refers only to itself, in a sound session, mirrors
following it where everything that can be followed alone is remembered.  The budget has to be greater
than the number of references of the document that are not on the path.
-/

namespace SchemaGraph

open Resolving

variable {watch : Watch} {d : Document} {path : List String}
  {scene : Scene} {s : Session}

/-- A target that is no reference fails at once, with and without a session. -/
theorem mirrors_follow_malformed {failures : Prop} {target : Value} {failure : Failure}
    (h : Reference.given target = .error failure) {budget : Nat} (hbudget : 0 < budget)
    (hs : s.SoundFor watch d) :
    Mirrors (Session.SoundFor watch d) failures Node.Like (follow d budget path target)
      (d.remembered path target) scene s := by
  have hcold : d.remembered path target = .error failure := by
    unfold Document.remembered
    rw [Document.resolved_error h, Document.resolved_error h]
  cases budget with
  | zero => exact absurd hbudget (Nat.lt_irrefl 0)
  | succ budget =>
      rw [follow, h, hcold]
      exact mirrors_throw hs rfl

/-- What a reference to the document itself names. -/
theorem target_of_isLocal {x : String} (hgiven : Reference.given (.str x) = .ok x)
    (hlocal : d.IsLocal x) (path : List String) : d.target x path = lift (d.look x) := by
  obtain ⟨parsed, hread⟩ := Option.isSome_iff_exists.mp (Reference.given_eq_ok.mp hgiven)
  unfold Document.target Document.look
  rw [hread]
  dsimp only
  rw [hlocal parsed hread]
  rfl

variable (scene) in
/-- Following a reference of the document mirrors following it with a memory. -/
theorem mirrors_follow (hwatch : watch.documents d.id = some d) (hplain : d.Plain) {budget : Nat}
    {x : String} (hlocal : d.IsLocal x) (hbudget : (insert x d.known \ path.toFinset).card < budget)
    (hs : s.SoundFor watch d) :
    Mirrors (Session.SoundFor watch d) (d.LeadsTo path x) Node.Like
      (follow d budget path (.str x)) (d.remembered path (.str x)) scene s := by
  induction budget generalizing path x s with
  | zero => exact absurd hbudget (Nat.not_lt_zero _)
  | succ budget ih =>
      cases hgiven : Reference.given (.str x) with
      | error failure => exact mirrors_follow_malformed hgiven (Nat.succ_pos budget) hs
      | ok text =>
          obtain rfl := Value.str.inj (Reference.eq_of_given hgiven)
          rw [follow, hgiven]
          change Ensures (if path.contains x = true then _ else _) _ _ _
          by_cases hpath : x ∈ path
          · rw [if_pos (List.contains_iff_mem.mpr hpath)]
            refine ⟨hs, .error fun hleads => ⟨.circularReference x, ?_, rfl⟩⟩
            rw [hleads.remembered_eq, Document.resolved_eq hgiven, if_pos hpath]
          rw [if_neg fun hin => hpath (List.contains_iff_mem.mp hin)]
          refine Ensures.bind_ok (ensures_recallNode hs.1.sane.ready (by decide) _ _) ?_
          rintro t ⟨u, hu, rfl⟩
          have ht : (s.retracked u).SoundFor watch d := ⟨hs.1.retracked hu, hs.2⟩
          cases hfound : s.caches.references.get? (cacheKey d x) with
          | some found =>
              -- what the cache holds is like what the reference settles to
              obtain ⟨m, hm, hlike⟩ := follows_of_recalled hs.1 hwatch hfound
              rw [Document.remembered_eq_ok.mpr hm]
              exact mirrors_pure ht hlike
          | none =>
              dsimp only
              rw [ensures_get_bind, failure_none ht.1 hwatch x]
              dsimp only
              rw [target_of_isLocal hgiven hlocal path]
              cases hn : d.look x with
              | error failure =>
                  refine ⟨ht, .error fun hleads => ⟨failure, ?_, rfl⟩⟩
                  rw [hleads.remembered_eq, Document.resolved_eq hgiven, if_neg hpath, hn]
                  rfl
              | ok n =>
                  rw [ensures_lift_ok_bind rfl]
                  have hpositive : 0 < budget := (Nat.zero_le _).trans_lt
                    ((card_sdiff_insert hpath).trans_le (Nat.le_of_lt_succ hbudget))
                  -- a reference that settling follows is one of the document, so there is one less
                  -- off the path
                  have hfollow : ∀ target ∈ n.follows, ∀ t, t.SoundFor watch d →
                      Mirrors (Session.SoundFor watch d) (d.LeadsTo path x) Node.Like
                        (follow d budget (x :: path) target) (d.remembered (x :: path) target)
                        scene t := by
                    intro target htarget t ht
                    cases target with
                    | str y =>
                        have heager : Eager d.look x y := ⟨n, hn, htarget⟩
                        have hy := Document.mem_known_of_eager heager
                        have hcard : (insert y d.known \ (x :: path).toFinset).card < budget := by
                          rw [Finset.insert_eq_of_mem hy]
                          exact (card_sdiff_insert hpath).trans_le (Nat.le_of_lt_succ hbudget)
                        exact (ih (Document.isLocal_of_eager hplain heager) hcard ht).antitone
                          fun hleads => hleads.eager heager
                    | _ => exact mirrors_follow_malformed rfl hpositive ht
                  have hsettle := Node.mirrors_settle hwatch hplain
                    (Document.neat_look hplain.json hn)
                    (fun target htarget => hfollow target htarget.follows) _ ht
                  refine Ensures.bind hsettle ?_ ?_
                  · rintro a v ⟨hv, hresult⟩
                    -- the result is like what is remembered for the reference, so it may be kept
                    have hgives := Document.simulates_remembered hgiven hpath hn hresult
                    obtain ⟨m, hm, hlike⟩ := hgives.exists_ok rfl
                    have hkeep : watch.Keeps v.nextId (cacheKey d x)
                        fun d x => d.Follows x a :=
                      Watch.keeps_of_right hwatch hv.2
                        ⟨m, Document.remembered_eq_ok.mp hm, hlike⟩
                    refine Ensures.bind_ok (ensures_keepReference hv.1.sane.ready
                      (isOk_of_set hv.1.sane.references _ _)) ?_
                    rintro w ⟨u', hu', rfl⟩
                    exact ⟨⟨(hv.1.keptReference hkeep).retracked hu', hv.2⟩, hgives⟩
                  · rintro failure v ⟨hv, hresult⟩
                    exact ⟨hv, Document.simulates_remembered hgiven hpath hn hresult⟩

section Whole

variable {target : Value}

theorem lt_pathBudget (d : Document) (path : List String) (x : String) (maxDepth : Value) :
    (insert x d.known \ path.toFinset).card < pathBudget d maxDepth := by
  have hsub := Finset.card_le_card
    (Finset.sdiff_subset (s := insert x d.known) (t := path.toFinset))
  have hall := d.card_insert_known x
  unfold pathBudget
  omega

variable (path scene) in
/-- Resolving a reference of the document mirrors following it with a memory. -/
theorem mirrors_resolveReference (hwatch : watch.documents d.id = some d) (hplain : d.Plain)
    (hlocal : ∀ x, target = .str x → d.IsLocal x) (hs : s.SoundFor watch d) :
    Mirrors (Session.SoundFor watch d) (∀ x, target = .str x → d.LeadsTo path x) Node.Like
      (resolveReference d path target) (d.remembered path target) scene s := by
  unfold resolveReference
  change Ensures (get >>= _) _ _ _
  rw [ensures_get_bind]
  cases target with
  | str x =>
      have hfollow := mirrors_follow scene hwatch hplain (hlocal x rfl)
        (lt_pathBudget d path x s.externalSettings.maxDepth) hs
      exact hfollow.antitone fun hleads => hleads x rfl
  | _ => exact mirrors_follow_malformed rfl (Nat.succ_pos _) hs

variable (scene) in
/-- Resolving a schema whose references lead to the document mirrors settling it. -/
theorem mirrors_resolveNode (hwatch : watch.documents d.id = some d) (hplain : d.Plain) {n : Node}
    (hneat : n.Neat) (hlocal : ∀ x, n.Pursues (.str x) → d.IsLocal x)
    (hs : s.SoundFor watch d) :
    Mirrors (Session.SoundFor watch d) True Node.Like (resolveNode d n)
      (n.settled (d.resolved [])) scene s := by
  unfold resolveNode
  change Ensures (get >>= _) _ _ _
  rw [ensures_get_bind]
  have hfollow : ∀ target, n.Pursues target → ∀ t, t.SoundFor watch d →
      Mirrors (Session.SoundFor watch d) True Node.Like
        (follow d (pathBudget d s.externalSettings.maxDepth) [] target)
        (d.remembered [] target) scene t := by
    intro target htarget t ht
    cases target with
    | str x =>
        have hmirrors := mirrors_follow scene hwatch hplain (hlocal x htarget)
          (lt_pathBudget d [] x s.externalSettings.maxDepth) ht
        exact hmirrors.antitone fun _ => Document.leadsTo_nil
    | _ => exact mirrors_follow_malformed rfl (Nat.succ_pos _) ht
  have hsettle := Node.mirrors_settle hwatch hplain hneat hfollow s hs
  rwa [show d.remembered [] = d.resolved [] from funext d.remembered_nil] at hsettle

end Whole

end SchemaGraph
