import SchemaGraph.Engine
import SchemaGraph.Proofs.Resolve.Library
import SchemaGraph.Proofs.Resolve.Unrolling

/-!
# Documents as entry points

Every document of a library can be the one at which resolving starts.  A reference of one document and
the reference of another one to the same schema resolve to the same schema, once targets are made
absolute.
-/

namespace SchemaGraph

open Node Relation Resolving

section Known

variable {w : World} {files : Set String} {d : Document} (hlibrary : w.Library files)
  {x : String}
include hlibrary

theorem Reference.Names.namesFile (h : Reference.Names files d.source x) : d.NamesFile x := by
  intro parsed hread location hjoin
  obtain ⟨l, hl, heq⟩ := h parsed hread
  rw [← Except.ok.inj (heq.symm.trans hjoin)]
  exact (hlibrary.place l hl).not_isUrl

theorem names_of_reach (hd : d.Stands w) {y : String} (hx : Reference.Names files d.source x)
    (h : ReflTransGen (Eager (d.find w)) x y) : Reference.Names files d.source y := by
  induction h with
  | refl => exact hx
  | tail _ heager ih => exact names_of_eager hlibrary hd ih heager

variable {settings : ExternalSettings} {limit : Int} (hkeep : settings.CanKeep)
  (hlimit : settings.maxDepth = .int limit)
include hkeep hlimit

/-- Resolving a reference without caches mirrors following it without a session, with any budget that
is large enough. -/
theorem mirrors_reference_uncached (hd : d.Stands w) (hx : Reference.Names files d.source x) :
    ∃ least, ∀ budget, least < budget → ∀ s, s.Uncached w settings →
      MirrorsWhere (Session.Uncached w settings)
        (fun failure => failure.isTooDeep = true → d.Shallow w limit [] (.str x)) Eq
        (Engine.reference (.document d) (.value (.str x)) (.list []))
        (followed (d.find w) budget [] (.str x)) w s := by
  have hdepth : settings.maxDepth.number? = some (.int limit) := by rw [hlimit]; rfl
  refine ⟨d.known.card + (limit + 1).toNat + 1, fun budget hbudget s hs => ?_⟩
  have hfollow : MirrorsWhere (Session.Uncached w settings)
      (fun failure => failure.isTooDeep = true → d.Shallow w limit [] (.str x)) Eq
      (follow d budget [] (.str x)) (followed (d.find w) budget [] (.str x)) w s := by
    refine mirrors_follow_uncached hkeep hlimit hd.place (fun y heq z hreach => ?_) hs
    obtain rfl := Value.str.inj heq
    exact (names_of_reach hlibrary hd hx hreach).namesFile hlibrary
  unfold Engine.reference MirrorsWhere
  rw [ensures_timed]
  have hopen : Ensures (Engine.Subject.open (.document d)) w s fun result t =>
      result = .ok d ∧ t = s := ⟨rfl, rfl⟩
  refine Ensures.bind_ok hopen ?_
  rintro _ rfl
  have htarget : (Engine.Asked.value (.str x)).target = .ok (.str x) := rfl
  have hpath : Engine.visitedPath (.list []) = .ok [] := rfl
  rw [ensures_lift_ok_bind htarget, ensures_check_ok_bind hpath]
  unfold MirrorsWhere Ensures at hfollow
  unfold Ensures
  rw [runsAlike_resolveReference d w hdepth [] (.str x) hbudget _ hs.settings]
  exact ⟨hfollow.1.retracked (hfollow.1.ready.track _ _ _), hfollow.2⟩

/-- What can be followed at all is what resolving gives, unless the settings allow too few references
into other documents. -/
theorem reference_of_followed (hd : d.Stands w) (hx : Reference.Names files d.source x)
    {fuel : Nat} {m : Node} (h : followed (d.find w) fuel [] (.str x) = .ok m) {s : Session}
    (hs : s.Uncached w settings) :
    (Engine.reference (.document d) (.value (.str x)) (.list []) w s).1 = .ok m ∨
      limit < (fuel : Int) - 1 ∧ ∃ failure, failure.isTooDeep = true ∧
        (Engine.reference (.document d) (.value (.str x)) (.list []) w s).1 = .error failure := by
  obtain ⟨least, hleast⟩ := mirrors_reference_uncached hlibrary hkeep hlimit hd hx
  have hmirrors := (hleast (fuel + least + 1) (by omega) s hs).2
  rw [followed_mono h (by omega)] at hmirrors
  generalize (Engine.reference (.document d) (.value (.str x)) (.list []) w s).1 = result at hmirrors
  cases hmirrors with
  | ok heq => exact Or.inl (congrArg Except.ok heq)
  | error hkind =>
      rename_i failure
      right
      have hcounts : ¬(failure.isTooDeep = true → d.Shallow w limit [] (.str x)) := by
        intro hcounts
        obtain ⟨failure', heq, -⟩ := hkind hcounts
        cases heq
      rw [Classical.not_imp] at hcounts
      refine ⟨?_, failure, hcounts.1, rfl⟩
      by_contra hle
      refine hcounts.2 ⟨fuel, m, h, ?_⟩
      rw [List.length_nil]
      omega

end Known

/-- A document that can be loaded from the file of JSON at a place, and whose schemas are in a mapping,
if it declares any. -/
structure Document.Loads (w : World) (l : String) (d : Document) : Prop where
  json : Case.lower (Path.read l).extension = ".json"
  loaded : ∃ s t, Document.load l w s = (.ok d, t)
  table : d.raw.DeclaresTable

theorem Document.Loads.source_eq {w : World} {l : String} {d : Document} (h : d.Loads w l)
    (hplace : Location.IsPlace l) (hown : w.resolve (Path.read l) = Path.read l) :
    d.source = l ∧ d.Stands w := by
  obtain ⟨s, t, hload⟩ := h.loaded
  obtain ⟨rfl, hraw⟩ := stands_of_load hplace hown h.json hload
  exact ⟨rfl, hplace, hraw, h.table⟩

theorem Reference.toList_own (fragment : String) :
    ("#" ++ fragment).toList = [] ++ '#' :: fragment.toList := by
  rw [String.toList_append]
  rfl

/-- A fragment names in a document at a place what the place and the fragment name elsewhere. -/
theorem Location.absolute_own {place other : String} (hplace : IsPlace place)
    (hother : IsPlace other) (fragment : String) :
    absolute place ("#" ++ fragment) = absolute other (place ++ "#" ++ fragment) := by
  have hnamed : (place ++ "#" ++ fragment).toList = place.toList ++ '#' :: fragment.toList := by
    rw [String.toList_append, String.toList_append, List.append_assoc]
    rfl
  obtain ⟨l, hl, -, heq⟩ :=
    Reference.absolute_of_toList hplace List.not_mem_nil (Reference.toList_own fragment)
  obtain ⟨l', hl', -, heq'⟩ := Reference.absolute_of_toList hother hplace.noHash hnamed
  rw [String.ofList_toList, join_fixed hother (Or.inr hplace)] at hl'
  rw [heq, heq', ← Except.ok.inj hl', ← Except.ok.inj hl]

/-- A fragment alone names the document itself. -/
theorem Reference.names_own {files : Set String} {place : String} (hin : place ∈ files)
    (fragment : String) : Names files place ("#" ++ fragment) := by
  intro parsed hread
  obtain ⟨rest, hhash, htext, -⟩ := read_eq_some hread
  have hsplit := Pieces.splitFirst_append hhash rest
  rw [← htext, toList_own, Pieces.splitFirst_append List.not_mem_nil] at hsplit
  have hempty : parsed.location = "" := String.toList_inj.mp (Prod.mk.inj hsplit).1.symm
  exact ⟨place, hin, by rw [hempty]; rfl⟩

section Independent

variable {w : World} {files : Set String} (hlibrary : w.Library files) {home away : Document}
include hlibrary

/-- What a document finds under a fragment, another one finds under its place and the fragment. -/
theorem followed_from (hhome : home.Stands w) (haway : away.Stands w)
    (hplace : home.source ∈ files) {fragment : String} {fuel : Nat} {n : Node}
    (h : followed (home.find w) fuel [] (.str ("#" ++ fragment)) = .ok n) :
    ∃ m, followed (away.find w) fuel [] (.str (home.source ++ "#" ++ fragment)) = .ok m ∧
      n.retargeted (absoluteTarget home.source) = m.retargeted (absoluteTarget away.source) := by
  have hsame : absoluteTarget home.source (.str ("#" ++ fragment)) =
      absoluteTarget away.source (.str (home.source ++ "#" ++ fragment)) :=
    congrArg Value.str (Location.absolute_own hhome.place haway.place fragment)
  obtain ⟨m, hm, hmoved⟩ := unguarded_respelled (respells hlibrary hhome haway)
    (Reference.names_own hplace fragment) hsame (unguarded_of_followed h)
  exact ⟨m, followed_of_unguarded hm fun _ _ => List.not_mem_nil, hmoved.same⟩

/-- What a document of a library resolves a fragment to, every other document of the library resolves
the place of that document and the fragment to, once targets are made absolute.  It fails only if the
settings allow too few references into other documents on a path, and there is a number of them that is
enough. -/
theorem resolves_from_every_entry_point {place other : String} (hplace : place ∈ files)
    (hother : other ∈ files) (hhome : home.Loads w place) (haway : away.Loads w other)
    (fragment : String) :
    ∃ enough : Int, ∀ (settings : ExternalSettings) (limit : Int), settings.CanKeep →
      settings.maxDepth = .int limit → ∀ s t : Session, s.Uncached w settings →
        t.Uncached w settings → ∀ n,
          (Engine.reference (.document home) (.value (.str ("#" ++ fragment))) (.list []) w s).1 =
            .ok n →
          ∃ m, n.retargeted (absoluteTarget place) = m.retargeted (absoluteTarget other) ∧
            ((Engine.reference (.document away) (.value (.str (place ++ "#" ++ fragment)))
                (.list []) w t).1 = .ok m ∨
              limit < enough ∧ ∃ failure, failure.isTooDeep = true ∧
                (Engine.reference (.document away) (.value (.str (place ++ "#" ++ fragment)))
                  (.list []) w t).1 = .error failure) := by
  obtain ⟨rfl, hhomeStands⟩ :=
    hhome.source_eq (hlibrary.place place hplace) (hlibrary.resolved place hplace)
  obtain ⟨rfl, hawayStands⟩ :=
    haway.source_eq (hlibrary.place other hother) (hlibrary.resolved other hother)
  have hown := Reference.names_own hplace fragment
  have hnamed : Reference.Names files away.source (home.source ++ "#" ++ fragment) :=
    hown.of_absolute_eq hawayStands.place hhomeStands.place
      (Location.absolute_own hhomeStands.place hawayStands.place fragment).symm
  -- where the fragment cannot be followed at home, every number is enough
  by_cases hfollowed : ∃ fuel n, followed (home.find w) fuel [] (.str ("#" ++ fragment)) = .ok n
  · obtain ⟨fuel, n, hn⟩ := hfollowed
    obtain ⟨m, hm, hsame⟩ := followed_from hlibrary hhomeStands hawayStands hplace hn
    refine ⟨fuel - 1, fun settings limit hkeep hlimit s t hs ht n' hn' => ⟨m, ?_, ?_⟩⟩
    · rcases reference_of_followed hlibrary hkeep hlimit hhomeStands hown hn hs with
        heq | ⟨-, failure, -, heq⟩
      · rw [← Except.ok.inj (heq.symm.trans hn'), hsame]
      · cases heq.symm.trans hn'
    · exact reference_of_followed hlibrary hkeep hlimit hawayStands hnamed hm ht
  · refine ⟨0, fun settings limit hkeep hlimit s t hs ht n hn => absurd ?_ hfollowed⟩
    obtain ⟨least, hleast⟩ := mirrors_reference_uncached hlibrary hkeep hlimit hhomeStands hown
    obtain ⟨n', hn', -⟩ := (hleast _ (Nat.lt_succ_self least) s hs).2.exists_ok hn
    exact ⟨_, n', hn'⟩

end Independent

section Pair

/-- Whether a value is a valid document with some references, and its schemas are in a mapping. -/
def isEntry (references : List String) (raw : Value) : Bool :=
  match Document.validate raw, (raw.at? "components").bind (·.at? "schemas") with
  | .ok [], some (.map _) => raw.references == references
  | _, _ => false

theorem of_isEntry {references : List String} {raw : Value} (h : isEntry references raw = true) :
    Document.validate raw = .ok [] ∧ raw.DeclaresTable ∧ raw.references = references := by
  unfold isEntry at h
  split at h
  · rename_i table hvalid htable
    refine ⟨hvalid, fun v hv => Or.inr ⟨table, ?_⟩, by simpa using h⟩
    exact Option.some.inj (hv.symm.trans htable)
  · cases h

set_option maxRecDepth 4000 in
/-- The first document of the pair refers to the second one, and has a schema. -/
theorem first_of_pair : readsAs (fun raw => isEntry ["b.json#/components/schemas/B"] raw &&
    (followed (Document.find pairWorld ⟨raw, "/a.json", 0⟩) 1 [] (.str "#/components/schemas/A")).isOk)
      (Document.unifyLines pairTexts.1) = true := by
  decide +kernel

set_option maxRecDepth 4000 in
/-- The second document of the pair refers to nothing. -/
theorem second_of_pair :
    readsAs (isEntry []) (Document.unifyLines pairTexts.2) = true := by
  decide +kernel

/-- The two documents can be loaded and are a library, and the first one has a schema. -/
theorem loads_pair : ∃ home away : Document, home.Loads pairWorld "/a.json" ∧
    away.Loads pairWorld "/b.json" ∧ pairWorld.Library {"/a.json", "/b.json"} ∧
    ∃ n, followed (home.find pairWorld) 1 [] (.str ("#" ++ "/components/schemas/A")) = .ok n := by
  obtain ⟨first, hfirst, hholds⟩ := parse_of_readsAs first_of_pair
  obtain ⟨second, hsecond, hentry'⟩ := parse_of_readsAs second_of_pair
  rw [Bool.and_eq_true] at hholds
  obtain ⟨hentry, hfollowed⟩ := hholds
  obtain ⟨hvalid, htable, hreferences⟩ := of_isEntry hentry
  obtain ⟨hvalid', htable', hreferences'⟩ := of_isEntry hentry'
  have hread : pairWorld.read (Path.read "/a.json") = _ := World.read_ofText rfl
  have hread' : pairWorld.read (Path.read "/b.json") = _ := World.read_ofText rfl
  obtain ⟨t, hload⟩ := Document.load_json isPlace_pair.1 resolve_pair.1 (by decide) (by decide) hread
    hfirst hvalid (Session.start {} (.int 0, .int 0) 0)
  obtain ⟨t', hload'⟩ := Document.load_json isPlace_pair.2 resolve_pair.2 (by decide) (by decide) hread'
    hsecond hvalid' (Session.start {} (.int 0, .int 0) 1)
  refine ⟨⟨first, "/a.json", 0⟩, ⟨second, "/b.json", 1⟩, ⟨by decide, ⟨_, _, hload⟩, htable⟩,
    ⟨by decide, ⟨_, _, hload'⟩, htable'⟩, ⟨?_, ?_, ?_⟩, ?_⟩
  · rintro l (rfl | rfl)
    · exact isPlace_pair.1
    · exact isPlace_pair.2
  · rintro l (rfl | rfl)
    · exact resolve_pair.1
    · exact resolve_pair.2
  · rintro l (rfl | rfl) raw hraw x hx
    · have hstands := Document.stands_of_load isPlace_pair.1 resolve_pair.1 (by decide) hload
      rw [← Option.some.inj (hstands.2.symm.trans hraw), hreferences, List.mem_singleton] at hx
      subst hx
      have hlocation : (Reference.read? "b.json#/components/schemas/B").map (·.location) =
        some "b.json" := by decide
      intro parsed hparsed
      rw [hparsed] at hlocation
      rw [show parsed.location = "b.json" from Option.some.inj hlocation]
      exact ⟨"/b.json", Or.inr rfl, by rfl⟩
    · have hstands := Document.stands_of_load isPlace_pair.2 resolve_pair.2 (by decide) hload'
      rw [← Option.some.inj (hstands.2.symm.trans hraw), hreferences'] at hx
      exact absurd hx List.not_mem_nil
  · cases hresult : followed (Document.find pairWorld ⟨first, "/a.json", 0⟩) 1 []
        (.str "#/components/schemas/A") with
    | ok n => exact ⟨n, hresult⟩
    | error failure =>
        rw [hresult] at hfollowed
        cases hfollowed

/-- The second document of the pair resolves the schema of the first one to what that one resolves it
to. -/
theorem resolves_from_every_entry_point_pair :
    ∃ home away : Document, home.Loads pairWorld "/a.json" ∧ away.Loads pairWorld "/b.json" ∧
      ∃ s : Session, s.Uncached pairWorld {} ∧ ∃ n m,
        (Engine.reference (.document home) (.value (.str ("#" ++ "/components/schemas/A")))
          (.list []) pairWorld s).1 = .ok n ∧
        (Engine.reference (.document away)
          (.value (.str ("/a.json" ++ "#" ++ "/components/schemas/A"))) (.list []) pairWorld s).1 =
            .ok m ∧
        n.retargeted (absoluteTarget "/a.json") = m.retargeted (absoluteTarget "/b.json") := by
  obtain ⟨home, away, hhome, haway, hlibrary, n, hn⟩ := loads_pair
  have hplace : "/a.json" ∈ ({"/a.json", "/b.json"} : Set String) := Or.inl rfl
  have hother : "/b.json" ∈ ({"/a.json", "/b.json"} : Set String) := Or.inr rfl
  have hkeep : ({} : ExternalSettings).CanKeep := fun _ => ⟨⟨_, rfl, rfl⟩, _, rfl⟩
  have hdepth : ({} : ExternalSettings).maxDepth = .int 10 := rfl
  have hs : (Session.start { cache := { enabled := .bool false } } (.int 0, .int 0) 2).Uncached
      pairWorld {} :=
    @Session.uncached_start pairWorld { cache := { enabled := .bool false } } rfl (.int 0, .int 0) 2
  obtain ⟨hsource, hhomeStands⟩ := hhome.source_eq isPlace_pair.1 resolve_pair.1
  obtain ⟨hsource', hawayStands⟩ := haway.source_eq isPlace_pair.2 resolve_pair.2
  -- both references can be followed, and no path is as long as the limit
  have hown : Reference.Names {"/a.json", "/b.json"} home.source ("#" ++ "/components/schemas/A") :=
    hsource ▸ Reference.names_own hplace "/components/schemas/A"
  have hnamed : Reference.Names {"/a.json", "/b.json"} away.source
      (home.source ++ "#" ++ "/components/schemas/A") :=
    hown.of_absolute_eq hawayStands.place hhomeStands.place
      (Location.absolute_own hhomeStands.place hawayStands.place "/components/schemas/A").symm
  obtain ⟨m', hm', -⟩ := followed_from hlibrary hhomeStands hawayStands (hsource ▸ hplace) hn
  have hrun := (reference_of_followed hlibrary hkeep hdepth hhomeStands hown hn hs).resolve_right
    fun hdeep => absurd hdeep.1 (by decide)
  have hrun' := (reference_of_followed hlibrary hkeep hdepth hawayStands hnamed hm' hs).resolve_right
    fun hdeep => absurd hdeep.1 (by decide)
  rw [hsource] at hrun'
  obtain ⟨enough, hevery⟩ := resolves_from_every_entry_point hlibrary hplace hother hhome haway
    "/components/schemas/A"
  obtain ⟨m, hsame, hm | ⟨-, failure, -, hfailure⟩⟩ := hevery {} 10 hkeep hdepth _ _ hs hs n hrun
  · exact ⟨home, away, hhome, haway, _, hs, n, m, hrun, hm, hsame⟩
  · cases hrun'.symm.trans hfailure

end Pair

end SchemaGraph
