import SchemaGraph.Proofs.External.Files
import SchemaGraph.Proofs.Location.Place
import SchemaGraph.Proofs.Resolve.Followed
import SchemaGraph.Proofs.Resolve.Settling

/-!
# Resolving without caches

Where resolved schemas are not cached, resolving a reference of a document that stands at a file path
mirrors following it without a session: a schema is found in the registry of the document, or in a
document that stands at another file path.  The only thing that can go wrong besides is that there
are more references into other documents on a path than the settings allow, and that is said by the
failure.
-/

namespace SchemaGraph

open Relation Resolving

/-- The value that a pointer names in the document at a file path. -/
def World.valueAt? (w : World) (location : String) (segments : List String) : Option Value :=
  (w.documentAt? location).bind fun raw =>
    (Pointer.walk (External.schemasOf raw) segments).toOption

/-- The schema that a pointer names in the document at a file path, as seen from outside of it. -/
def World.schemaAt? (w : World) (location : String) (segments : List String) (fragment : String) :
    Option Node :=
  (w.valueAt? location segments).bind fun v =>
    (Node.parse location v s!"{location}#{fragment}").toOption

theorem World.schemaAt_none {w : World} {location : String} (h : w.documentAt? location = none)
    (segments : List String) (fragment : String) :
    w.schemaAt? location segments fragment = none := by
  unfold schemaAt? valueAt?
  rw [h]
  rfl

theorem World.schemaAt_some {w : World} {location : String} {raw : Value}
    (h : w.documentAt? location = some raw) (segments : List String) (fragment : String) :
    w.schemaAt? location segments fragment =
      (Pointer.walk (External.schemasOf raw) segments).toOption.bind fun v =>
        (Node.parse location v s!"{location}#{fragment}").toOption := by
  unfold schemaAt? valueAt?
  rw [h]
  rfl

/-- The schema that a reference names, where every document stands at a file path. -/
def Document.find (w : World) (d : Document) (x : String) : Except Failure Node :=
  match Reference.read? x with
  | none => .error (.malformedReference x)
  | some parsed =>
    match Location.join d.source parsed.location with
    | .error fault => .error (.fault fault)
    | .ok location =>
      if location = d.source then d.localTarget x parsed.segments
      else match w.schemaAt? location parsed.segments (Reference.fragment x) with
        | some n => .ok n
        | none => .error (.externalFailed x (.referenceNotFound x))

/-- Whether a reference, if it is well formed, names a document by a file path. -/
def Document.NamesFile (d : Document) (x : String) : Prop :=
  ∀ parsed, Reference.read? x = some parsed →
    ∀ location, Location.join d.source parsed.location = .ok location →
      Location.isUrl location = false

/-- A session in which neither resolved schemas nor failures are cached, and the documents that are
kept of files are those that stand there. -/
structure Session.Uncached (world : World) (settings : ExternalSettings) (s : Session) : Prop where
  ready : s.tracker.Ready
  references : s.caches.references.enabled = false
  compositions : s.caches.compositions.enabled = false
  failures : s.caches.cacheExternalFailures.truthy = false
  settings : s.externalSettings = settings
  kept : s.KeptRight world

/-- Whether a failure says that there are too many references into other documents on a path. -/
def Failure.isTooDeep : Failure → Bool
  | .externalFailed _ (.unavailable (.tooDeep _ _)) => true
  | _ => false

/-- Whether a reference is followed along paths on which a limit allows all references to lead into
other documents. -/
def Document.Shallow (world : World) (d : Document) (limit : Int) (path : List String)
    (target : Value) : Prop :=
  ∃ fuel m, followed (d.find world) fuel path target = .ok m ∧ (path.length + fuel : Int) ≤ limit + 1

namespace Document.Shallow

variable {world : World} {d : Document} {limit : Int} {path : List String}

theorem length_le {target : Value} (h : d.Shallow world limit path target) :
    (path.length : Int) ≤ limit := by
  obtain ⟨fuel, m, hm, hle⟩ := h
  obtain ⟨less, -, -, rfl, -⟩ := followed_eq_ok hm
  omega

/-- What a reference leads to is followed along shorter paths. -/
theorem step {x : String} {n : Node} {target : Value} (h : d.Shallow world limit path (.str x))
    (hn : d.find world x = .ok n) (htarget : target ∈ n.follows) :
    d.Shallow world limit (x :: path) target := by
  obtain ⟨fuel, m, hm, hle⟩ := h
  obtain ⟨less, x', n', rfl, heq, -, -, hn', hsettled⟩ := followed_eq_ok hm
  obtain rfl := Value.str.inj heq
  obtain rfl := Except.ok.inj (hn'.symm.trans hn)
  obtain ⟨m', hm'⟩ := Node.follows_of_settled hsettled target htarget
  refine ⟨less, m', hm', ?_⟩
  rw [List.length_cons]
  omega

end Document.Shallow

namespace Session

variable {world : World} {settings : ExternalSettings} {s : Session}

/-- An engine starts without cached schemas; where caching is disabled, it stays so. -/
theorem uncached_start {config : Config} (hcache : config.cache.enabled.truthy = false)
    (memory : Number × Number) (nextId : Nat) :
    (Session.start config memory nextId).Uncached world config.external := by
  have hcold := cold_start hcache memory nextId
  exact ⟨hcold.ready, hcold.references, hcold.compositions, hcold.failures, rfl,
    fun _ _ hin => nomatch hin⟩

namespace Uncached

variable (h : s.Uncached world settings)
include h

theorem retracked {t : Tracker} (ht : t.Ready) : (s.retracked t).Uncached world settings :=
  ⟨ht, h.references, h.compositions, h.failures, h.settings, h.kept⟩

theorem of_sameBut {t : Session} (hsame : External.SameBut s t) (hkept : t.KeptRight world) :
    t.Uncached world settings := by
  obtain ⟨external, trace, rfl⟩ := hsame
  exact ⟨h.ready, h.references, h.compositions, h.failures, h.settings, hkept⟩

theorem cold : s.Cold := ⟨h.ready, h.references, h.compositions, h.failures⟩

theorem keptReference (key : CacheKey) (node : Node) :
    (s.keptReference key node).Uncached world settings := by
  rw [h.cold.keptReference]
  exact h

theorem keptComposition (key : CacheKey) (node : Node) :
    (s.keptComposition key node).Uncached world settings := by
  rw [h.cold.keptComposition]
  exact h

end Uncached

end Session

variable {world : World} {settings : ExternalSettings} {d : Document} {s : Session}

namespace Document

section Outside

/-- Where every item can be tested, those that pass can be counted. -/
theorem length_filterM {test : String → Except Fault Bool} (h : ∀ x, ∃ passes, test x = .ok passes)
    (items : List String) :
    ∃ count ≤ items.length,
      (do return (← items.filterM test).length : Except Fault Nat) = .ok count := by
  have hfound : ∀ before : List String, ∃ found, items.filterAuxM test before = .ok found ∧
      found.length ≤ before.length + items.length := by
    induction items with
    | nil => exact fun before => ⟨before, rfl, Nat.le_refl _⟩
    | cons x rest ih =>
        intro before
        obtain ⟨passes, hpasses⟩ := h x
        rw [List.filterAuxM, hpasses]
        obtain ⟨found, hfound, hlength⟩ := ih (bif passes then x :: before else before)
        refine ⟨found, hfound, hlength.trans ?_⟩
        cases passes <;> simp only [cond_false, cond_true, List.length_cons] <;> omega
  obtain ⟨found, hfound, hlength⟩ := hfound []
  rw [List.length_nil, Nat.zero_add, ← List.length_reverse] at hlength
  exact ⟨_, hlength, bind_eq_ok.mpr ⟨found.reverse, bind_eq_ok.mpr ⟨found, hfound, rfl⟩, rfl⟩⟩

variable (hsource : Location.IsPlace d.source)
include hsource

/-- A reference leads outside of a document if its location is another one. -/
theorem isOutside_eq {location : String} (hhash : '#' ∉ location.toList) :
    ∃ l, Location.join d.source location = .ok l ∧ d.isOutside location = .ok (l != d.source) := by
  obtain ⟨l, hl, -⟩ := Location.join_ok hsource hhash
  refine ⟨l, hl, ?_⟩
  unfold isOutside
  split
  · rename_i hempty
    have heq : l = d.source := by
      unfold Location.join at hl
      rw [if_pos hempty] at hl
      exact (Except.ok.inj hl).symm
    rw [heq]
    simp
  · rename_i hempty
    split
    · rename_i hurl
      have heq : l = location := by
        unfold Location.join at hl
        rw [if_neg hempty, if_pos hurl] at hl
        exact (Except.ok.inj hl).symm
      have hne : l ≠ d.source := by
        rintro hsame
        rw [← heq, hsame, hsource.not_isUrl] at hurl
        cases hurl
      rw [bne_iff_ne.mpr hne]
    · rw [hl]
      rfl

/-- The references on a path that lead outside can be counted. -/
theorem outsideCount_ok (path : List String) :
    ∃ count ≤ path.length, d.outsideCount path = .ok count := by
  unfold outsideCount
  refine length_filterM (fun x => ?_) path
  cases hread : Reference.read? x with
  | none => exact ⟨false, rfl⟩
  | some parsed =>
      obtain ⟨fragment, hhash, -, -⟩ := Reference.read_eq_some hread
      obtain ⟨l, -, hl⟩ := isOutside_eq hsource hhash
      exact ⟨_, hl⟩

end Outside

end Document

section Following

variable {limit : Int} (hkeep : settings.CanKeep) (hlimit : settings.maxDepth = .int limit)
include hkeep hlimit

/-- A schema of another document is given if it is there, unless the depth is above the limit. -/
theorem External.ensures_resolve {x location : String} {parsed : Reference} (depth : Nat)
    (hs : s.Uncached world settings) (hread : Reference.read? x = some parsed)
    (hnonempty : parsed.location ≠ "") (hjoin : Location.join d.source parsed.location = .ok location)
    (hurl : Location.isUrl location = false) :
    Ensures (resolve (.str x) d.source (.ofNat depth)) world s fun result t =>
      t.Uncached world settings ∧
        Gives ((∃ bound v, result = .error (.unavailable (.tooDeep bound v))) → (depth : Int) ≤ limit)
          (world.schemaAt? location parsed.segments (Reference.fragment x)) result := by
  unfold resolve
  rw [ensures_get_bind]
  have hread' : Reference.ofValue? (.str x) = some parsed := hread
  have hbound : (Value.int limit).number = .ok (.int limit) := rfl
  have hdepth : (Value.ofNat depth).number = .ok (.int depth) := rfl
  rw [hread', hs.settings, hlimit, hdepth]
  dsimp only
  rw [hbound, ensures_check_ok_bind rfl, ensures_check_ok_bind rfl]
  rw [Number.lt_int]
  by_cases hdeep : limit < depth
  · rw [if_pos (decide_eq_true hdeep)]
    exact ⟨hs, .unsure fun hmet => absurd (hmet ⟨_, _, rfl⟩) (not_le.mpr hdeep)⟩
  rw [if_neg (by simpa using hdeep), if_neg hnonempty, hjoin, ensures_check_ok_bind rfl]
  refine Ensures.bind (ensures_load hs.kept hurl) ?_ ?_
  · rintro raw t ⟨ht, hsame, hgives⟩
    have huncached := hs.of_sameBut hsame ht
    rw [World.schemaAt_some (hgives.right raw rfl)]
    cases hwalk : Pointer.walk (schemasOf raw) parsed.segments with
    | error f =>
        cases f with
        | deadSegment segment => exact ⟨huncached, .none _⟩
        | _ => exact ⟨huncached, .none _⟩
    | ok v =>
        dsimp only
        rw [ensures_lift]
        refine ⟨huncached, ?_⟩
        dsimp only [Except.toOption, Option.bind_some]
        cases Node.parse location v s!"{location}#{Reference.fragment x}" with
        | ok n => exact .ok rfl
        | error failure => exact .none failure
  · rintro failure t ⟨ht, hsame, hgives⟩
    refine ⟨hs.of_sameBut hsame ht, ?_⟩
    -- a document that stands there would have been loaded
    cases hraw : world.documentAt? location with
    | none =>
        rw [World.schemaAt_none hraw]
        exact .none failure
    | some raw => exact nomatch hgives.found (hs.settings ▸ hkeep) raw hraw

variable (hsource : Location.IsPlace d.source)
include hsource

/-- What a reference names is found, unless there are too many references on the path. -/
theorem mirrors_target {x : String} (hfile : d.NamesFile x) (path : List String)
    (hs : s.Uncached world settings) :
    MirrorsWhere (Session.Uncached world settings)
      (fun failure => failure.isTooDeep = true → (path.length : Int) ≤ limit) Eq
      (d.target x path) (d.find world x) world s := by
  unfold Document.target Document.find
  cases hread : Reference.read? x with
  | none => exact mirrors_throw hs rfl
  | some parsed =>
      obtain ⟨fragment, hhash, -, -⟩ := Reference.read_eq_some hread
      obtain ⟨location, hjoin, houtside⟩ := Document.isOutside_eq hsource hhash
      dsimp only
      rw [houtside, hjoin]
      change Ensures (check (.ok _) >>= _) _ _ _
      rw [ensures_check_ok_bind rfl]
      dsimp only
      by_cases hsame : location = d.source
      · rw [if_pos hsame, if_neg (by simp [hsame])]
        exact mirrors_lift hs ((Agree.refl (fun _ => rfl) _).tracks _)
      · rw [if_neg hsame, if_pos (by simpa using hsame)]
        have hnonempty : parsed.location ≠ "" := by
          intro hempty
          unfold Location.join at hjoin
          rw [if_pos hempty] at hjoin
          exact hsame (Except.ok.inj hjoin).symm
        have hurl := hfile parsed hread location hjoin
        obtain ⟨count, hlength, hcount⟩ := Document.outsideCount_ok hsource path
        unfold outsideTarget
        rw [hcount, ensures_check_ok_bind rfl, ensures_bind, ensures_attempt]
        refine (External.ensures_resolve hkeep hlimit count hs hread hnonempty hjoin hurl).mono ?_
        rintro outcome t ⟨ht, hgives⟩
        unfold After
        -- any failure outside of the document is told as one of the reference
        cases outcome with
        | ok n =>
            rw [hgives.right n rfl]
            exact mirrors_pure ht rfl
        | error cause =>
            dsimp only
            rw [ensures_get_bind, ht.cold.rememberFailure]
            refine ⟨ht, .error fun hmet => ⟨.externalFailed x (.referenceNotFound x), ?_, rfl⟩⟩
            cases hschema : world.schemaAt? location parsed.segments (Reference.fragment x) with
            | none => rfl
            | some n =>
                refine nomatch hgives.found ?_ n hschema
                rintro ⟨bound, v, heq⟩
                rw [Except.error.inj heq] at hmet
                exact (Int.ofNat_le.mpr hlength).trans (hmet rfl)

end Following

section Cold

/-- Settling without caches mirrors settling without a session, if following does. -/
theorem Node.mirrors_settle_uncached {counts : Failure → Prop} {follow : Value → Resolving Node}
    {calculate : Value → Except Failure Node} {n : Node}
    (hfollow : ∀ target ∈ n.follows, ∀ s, s.Uncached world settings →
      MirrorsWhere (Session.Uncached world settings) counts Eq (follow target) (calculate target)
        world s) :
    MirrorsSettling (Session.Uncached world settings) counts Eq follow calculate d world n := by
  induction n using nested with
  | hleaf n hn =>
      intro s hs
      rw [settle_leaf follow d hn, settled_leaf calculate hn]
      exact mirrors_pure hs rfl
  | href info target =>
      intro s hs
      rw [settle_ref, settled_ref]
      exact hfollow target (List.mem_singleton.mpr rfl) s hs
  | hcomposition info shape ih =>
      intro s hs
      have hmembers : ∀ member ∈ shape.members,
          MirrorsSettling (Session.Uncached world settings) counts Eq follow calculate d world
            member := by
        intro member hmember
        refine ih member hmember fun target htarget => ?_
        exact hfollow target (mem_follows_composition.mpr ⟨member, hmember, htarget⟩)
      rw [settle_composition, settled_composition]
      cases hdefect : memberDefect? shape.rawMembers with
      | some defect => exact mirrors_throw hs rfl
      | none =>
          cases hkey : identity (.composition info shape) with
          | error fault => exact mirrors_throw hs rfl
          | ok key =>
              -- a store that is turned off has nothing to give, and what is kept in it is gone
              change Ensures (recallNode _ _ (cacheKey d key) >>= _) _ _ _
              refine Ensures.bind_ok (ensures_recallNode hs.ready (by decide) _ _) ?_
              rintro t ⟨u, hu, rfl⟩
              rw [BoundedCache.get_of_disabled hs.compositions]
              have hkind := mirrors_settleKind congruence_eq (Eq.refl (composition info shape))
                (fun _ _ => rfl) hmembers (hs.retracked hu)
              refine Ensures.bind hkind ?_ fun failure v hresult => hresult
              rintro a v ⟨hv, hresult⟩
              have hset : (v.caches.compositions.set (cacheKey d key) a).2.isOk = true := by
                rw [BoundedCache.set_of_disabled hv.compositions]
                rfl
              refine Ensures.bind_ok (ensures_keepComposition hv.ready hset) ?_
              rintro w ⟨u', hu', rfl⟩
              exact ⟨(hv.keptComposition _ a).retracked hu', hresult⟩

variable {limit : Int} (hkeep : settings.CanKeep) (hlimit : settings.maxDepth = .int limit)
  (hsource : Location.IsPlace d.source)
include hkeep hlimit hsource

/-- Following without caches mirrors following without a session, where all references that can be
met name files.  There cannot be too many references on a path if the reference is followed along
paths that are short enough. -/
theorem mirrors_follow_uncached {budget : Nat} {path : List String} {target : Value}
    (hfiles : ∀ x, target = .str x → ∀ y, ReflTransGen (Eager (d.find world)) x y → d.NamesFile y)
    (hs : s.Uncached world settings) :
    MirrorsWhere (Session.Uncached world settings)
      (fun failure => failure.isTooDeep = true → d.Shallow world limit path target) Eq
      (follow d budget path target) (followed (d.find world) budget path target) world s := by
  induction budget generalizing path target s with
  | zero => exact mirrors_throw hs rfl
  | succ budget ih =>
      cases hgiven : Reference.given target with
      | error failure =>
          rw [follow, followed, hgiven]
          exact mirrors_throw hs rfl
      | ok x =>
          obtain rfl := Reference.eq_of_given hgiven
          rw [follow, hgiven, followed_succ hgiven]
          change Ensures (if path.contains x = true then _ else _) _ _ _
          by_cases hpath : x ∈ path
          · rw [if_pos (List.contains_iff_mem.mpr hpath), if_pos hpath]
            exact mirrors_throw hs rfl
          rw [if_neg fun hin => hpath (List.contains_iff_mem.mp hin), if_neg hpath]
          refine Ensures.bind_ok (ensures_recallNode hs.ready (by decide) _ _) ?_
          rintro t ⟨u, hu, rfl⟩
          have ht := hs.retracked hu
          rw [BoundedCache.get_of_disabled hs.references]
          dsimp only
          rw [ensures_get_bind, ht.cold.failure_none]
          refine MirrorsWhere.bind_ok
            (MirrorsWhere.antitone (mirrors_target hkeep hlimit hsource (hfiles x rfl x .refl) path ht)
              fun _ hcounts hdeep => (hcounts hdeep).length_le) ?_
          rintro n _ v hn rfl hv
          -- what the schema found refers to is followed with `x` on the path, one step further
          have hfollow : ∀ target ∈ n.follows, ∀ t, t.Uncached world settings →
              MirrorsWhere (Session.Uncached world settings)
                (fun failure => failure.isTooDeep = true → d.Shallow world limit path (.str x)) Eq
                (follow d budget (x :: path) target)
                (followed (d.find world) budget (x :: path) target) world t := by
            intro target htarget t ht
            refine MirrorsWhere.antitone (ih (fun y heq z hreach => ?_) ht)
              fun _ hcounts hdeep => (hcounts hdeep).step hn htarget
            exact hfiles x rfl z (.head ⟨n, hn, heq ▸ htarget⟩ hreach)
          have hsettle := Node.mirrors_settle_uncached (d := d) hfollow v hv
          refine Ensures.bind hsettle ?_ fun failure w hresult => hresult
          rintro m w ⟨hw, hresult⟩
          have hset : (w.caches.references.set (cacheKey d x) m).2.isOk = true := by
            rw [BoundedCache.set_of_disabled hw.references]
            rfl
          refine Ensures.bind_ok (ensures_keepReference hw.ready hset) ?_
          rintro w' ⟨u', hu', rfl⟩
          exact ⟨(hw.keptReference _ m).retracked hu', hresult⟩

end Cold

end SchemaGraph
