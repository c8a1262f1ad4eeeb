import SchemaGraph.Proofs.Engine.Reachable
import SchemaGraph.Proofs.Engine.Tasks
import SchemaGraph.Proofs.Location.Web
import SchemaGraph.Proofs.Resolve.Calls

/-!
# Where references come from

Every reference that an engine follows for a request was asked for, or it was met while the target of
another reference was settled; then it is written in the document that declares that target.

So a file is opened only for a reference that is asked for, that is written in the document at hand, or
that is written in a document that is a file itself.  A document that was fetched leads to a file only by
a reference that is written with a scheme of its own, and without slashes behind it.
-/

namespace SchemaGraph

open Relation Resolving

/-! ### Documents that were fetched -/

/-- Whether a location is that of a file, or a URL of the web. -/
def Location.IsKnown (location : String) : Prop :=
  isUrl location = true → ∃ scheme, IsWeb location scheme

/-- Whether a session keeps documents from outside only under file paths and URLs of the web. -/
def Session.KeepsKnown (s : Session) : Prop :=
  ∀ entry ∈ s.external, Location.IsKnown entry.1

namespace External

open Session

theorem guarding_keepsKnown : Guarding (fun location _ => Location.IsKnown location) KeepsKnown where
  aloof := fun _ _ _ _ hs => hs
  fitting := fun hs => hs
  external := fun hexternal _ => hexternal

/-- Whatever is fetched has a URL of the web. -/
theorem yields_fetch_known {url : String} (hurl : Location.isUrl url = true) :
    Yields KeepsKnown (fun _ => Location.IsKnown url) (fetch url) := by
  have hremote : Remote KeepsKnown := guarding_keepsKnown.aloof.distant.remote
  unfold fetch
  refine keeping_get.bind_yields fun s => ?_
  have hcheck : Yields KeepsKnown (fun _ => Location.IsKnown url)
      (lift (checkUrl s.externalSettings url)) := by
    refine yields_lift fun _ hcheck _ => ?_
    obtain ⟨parts, hparts, hscheme, -⟩ := checkUrl_eq_ok_iff.mp hcheck
    exact ⟨parts.scheme, hurl, ⟨parts, hparts, rfl⟩, hscheme⟩
  refine hcheck.bind fun _ hknown => ?_
  refine Yields.mono (Keeping.yields ?_) fun _ _ => hknown
  refine (keeping_check _).bind fun table => (keeping_check _).bind fun total => ?_
  exact keeping_retry hremote.unhurried (keeping_attemptOnce hremote _ _ _) _ _ _ _ _

theorem yields_load_known (location : String) :
    Yields KeepsKnown (fun _ => Location.IsKnown location) (load location) := by
  refine guarding_keepsKnown.yields_load location yields_fetch_known ?_ fun hknown _ _ _ => hknown
  intro hpath hurl
  rw [hpath] at hurl
  cases hurl

end External

namespace Session

theorem lasting_keepsKnown (d : Document) : Lasting d KeepsKnown where
  records := fun _ hs => hs
  outside := External.keeping_resolve_of fun location => (External.yields_load_known location).keeping
  composition := fun _ _ hs => hs
  reference := fun _ _ hs => hs
  schema := fun _ _ hs => hs
  failure := fun _ _ hs => hs

theorem durable_keepsKnown : Durable KeepsKnown where
  records := fun _ hs => hs
  aside := by
    intro s t hsame hs
    unfold KeepsKnown
    rw [hsame.external]
    exact hs
  loading := fun location => (External.yields_load_known location).keeping
  following := fun d path target => (lasting_keepsKnown d).keeping_resolveReference path target
  settling := fun d n => (lasting_keepsKnown d).keeping_resolveNode n
  schema := fun _ _ _ hs => hs
  document := fun _ _ hs => hs
  dropped := fun hs => hs
  cleared := fun _ _ hentry => nomatch hentry

theorem throughout_keepsKnown : Throughout KeepsKnown :=
  durable_keepsKnown.throughout lasting_keepsKnown

end Session

namespace Engine

theorem keeping_request_keepsKnown (r : Request) : Keeping Session.KeepsKnown r.run := by
  refine Session.durable_keepsKnown.keeping_request fun enabled maxSize _ => ?_
  exact Session.durable_keepsKnown.toUntracked.keeping_configureCaching fun _ hs => hs

theorem Reachable.keepsKnown {s : Session} (h : Reachable s) : s.KeepsKnown :=
  h.induct (fun _ _ _ _ hentry => nomatch hentry) keeping_request_keepsKnown

end Engine

/-! ### Files that are opened -/

theorem Session.remote_opened (file : String) : Remote fun s => file ∉ s.opened where
  elapsed := fun _ _ hs => hs
  noted := by
    intro s event _ hevent hs
    unfold Session.opened
    rw [List.filterMap_cons_none hevent]
    exact hs

namespace External

variable {location base x : String} {parsed : Reference}

/-- No file is opened for a document at a URL. -/
theorem keeping_load_url (hurl : Location.isUrl location = true) (file : String) :
    Keeping (fun s => file ∉ s.opened) (load location) := by
  have hforgetful : Forgetful fun s => file ∉ s.opened := fun _ _ hs => hs
  unfold load
  refine (keeping_recallDocument hforgetful location).bind fun found => ?_
  split
  · exact keeping_pure _
  · rw [if_pos hurl]
    refine (keeping_fetch (Session.remote_opened file) location).bind fun text => ?_
    refine (keeping_lift _).bind fun raw => ?_
    split
    · exact keeping_throw _
    · exact (keeping_keep hforgetful location raw).bind fun _ => keeping_pure _

/-- No file is opened for a reference whose location is a URL. -/
theorem keeping_resolve_url (hread : Reference.read? x = some parsed)
    (hurl : Location.isUrl parsed.location = true) (depth : Value) (file : String) :
    Keeping (fun s => file ∉ s.opened) (resolve (.str x) base depth) := by
  have hjoin : Location.join base parsed.location = .ok parsed.location := by
    unfold Location.join
    rw [if_neg (Location.ne_empty_of_isUrl hurl), if_pos hurl]
  have hlocation : Yields (fun s => file ∉ s.opened) (fun l => Location.isUrl l = true)
      (check (Location.join base parsed.location)) :=
    yields_check fun l hl => by rwa [← Except.ok.inj (hjoin.symm.trans hl)]
  have hvalue : Reference.ofValue? (.str x) = some parsed := hread
  unfold resolve
  refine keeping_get.bind fun s => (keeping_check _).bind fun limit => ?_
  refine (keeping_check _).bind fun number => Keeping.guard (keeping_throw _) ?_
  rw [hvalue]
  refine Keeping.guard (keeping_throw _) ?_
  refine (hlocation.bind fun l hl => Keeping.yields ?_ : Yields _ (fun _ => True) _).keeping
  refine (keeping_load_url hl file).bind fun raw => ?_
  dsimp only
  split
  · exact keeping_lift _
  · exact keeping_throw _
  · exact keeping_fault _

/-- A schema of another document is read from what that document declares. -/
theorem declared_of_resolve {depth : Value} {n : Node} {scene : Scene} {s t : Session}
    (h : resolve (.str x) base depth scene s = (.ok n, t)) :
    ∃ parsed location raw v place u, Reference.read? x = some parsed ∧
      Location.join base parsed.location = .ok location ∧ load location scene s = (.ok raw, u) ∧
        Pointer.walk (schemasOf raw) parsed.segments = .ok v ∧ Node.parse location v place = .ok n := by
  -- the run is peeled off step by step; a check gives no new session
  unfold resolve at h
  obtain ⟨state, s₁, hget, h⟩ := bind_eq_ok_run h
  rw [← (Prod.mk.inj hget).2] at h
  obtain ⟨limit, s₂, hlimit, h⟩ := bind_eq_ok_run h
  rw [(check_eq_ok hlimit).2] at h
  obtain ⟨number, s₃, hnumber, h⟩ := bind_eq_ok_run h
  rw [(check_eq_ok hnumber).2, show Reference.ofValue? (.str x) = Reference.read? x from rfl] at h
  cases hdeep : Number.lt limit number with
  | true =>
      rw [hdeep] at h
      cases h
  | false =>
      rw [hdeep, if_neg (by simp)] at h
      cases hread : Reference.read? x with
      | none =>
          rw [hread] at h
          cases h
      | some parsed =>
          rw [hread] at h
          dsimp only at h
          by_cases hempty : parsed.location = ""
          · rw [if_pos hempty] at h
            cases h
          rw [if_neg hempty] at h
          obtain ⟨location, s₄, hlocation, h⟩ := bind_eq_ok_run h
          obtain ⟨hjoin, hs₄⟩ := check_eq_ok hlocation
          rw [hs₄] at h
          obtain ⟨raw, u, hload, h⟩ := bind_eq_ok_run h
          cases hwalk : Pointer.walk (schemasOf raw) parsed.segments with
          | ok v =>
              rw [hwalk] at h
              exact ⟨parsed, location, raw, v, _, u, rfl, hjoin, hload, hwalk, (lift_eq_ok h).1⟩
          | error f =>
              rw [hwalk] at h
              cases f <;> cases h

end External

/-- Whether an operation opens a file: it was not open before, nor in any session with which the operation
goes on. -/
def Resolving.OpensFile {α : Type} (act : Resolving α) (scene : Scene) (s : Session) (file : String) :
    Prop :=
  file ∈ (act scene s).2.opened ∧ file ∉ s.opened ∧ ∀ entry ∈ scene.resumed, file ∉ entry.2.opened

/-- The files that are opened to find the target of a reference are opened for its location, which is
not that of the web. -/
theorem exists_path_of_opened {d : Document} {y file : String} {path : List String} {scene : Scene}
    {s : Session} (hshared : ∀ entry ∈ scene.resumed, entry.2.Shared)
    (h : OpensFile (d.target y path) scene s file) :
    ∃ parsed, Reference.read? y = some parsed ∧ Location.isUrl parsed.location = false := by
  obtain ⟨hopened, hbefore, hmeanwhile⟩ := h
  cases hread : Reference.read? y with
  | none =>
      refine absurd hopened ?_
      unfold Document.target
      rw [hread]
      exact hbefore
  | some parsed =>
      refine ⟨parsed, rfl, ?_⟩
      by_contra hurl
      have hkept : Keeping (fun t => file ∉ t.opened) (d.target y path) := by
        refine keeping_target_of (fun depth => ?_) (fun _ _ hs => hs) path
        exact External.keeping_resolve_url hread (by simpa using hurl) depth file
      exact hkept ⟨scene, hmeanwhile, hshared⟩ s hbefore hopened

/-! ### What leads to a reference -/

/-- Whether a request asks for a reference of a document: it is to be resolved, or the schema that is to be
resolved leads to it. -/
def AsksFor (world : World) (r : Engine.Request) (s : Session) (d : Document) (target : Value) : Prop :=
  (∃ path scene t, Task.Reaches world (.request r) s (.reference d path target) scene t) ∨
    ∃ n scene t, Task.Reaches world (.request r) s (.node d n) scene t ∧ target ∈ n.follows

/-- What leads to a reference that is followed for a request: the request asks for it, or the target of
another reference does that is looked for in the meantime. -/
inductive LedTo (world : World) (r : Engine.Request) (s : Session) (d : Document) : Value → Prop
  | asked {target : Value} (h : AsksFor world r s d target) : LedTo world r s d target
  | declared {x : String} {path : List String} {n : Node} {target : Value} {scene : Scene}
      {t u : Session} (hreaches : Task.Reaches world (.request r) s (.target d x path) scene t)
      (hfound : d.target x path scene t = (.ok n, u)) (htarget : target ∈ n.follows) :
      LedTo world r s d target

namespace Task

variable {world : World} {scene : Scene} {r : Engine.Request} {s t u : Session}

/-- Whether something leads to each reference that a task follows, as far as it is known when the task
starts. -/
def Led (leads : Document → Value → Prop) : Task → Prop
  | .follow d _ _ v => leads d v
  | .settle d _ _ n => ∀ target ∈ n.follows, leads d target
  | .into d _ _ _ members => ∀ target ∈ Node.membersFollow members, leads d target
  | .variants d _ _ _ _ members => ∀ target ∈ Node.membersFollow members, leads d target
  | .target d x _ => leads d (.str x)
  | _ => True

/-- What leads to the references of a task leads to those of the tasks that it starts. -/
theorem Led.starts {task inner : Task} (hled : task.Led (LedTo world r s))
    (hreaches : Reaches world (.request r) s task scene t) (h : Starts scene task t inner u) :
    inner.Led (LedTo world r s) := by
  cases h with
  | follow d path target => exact .asked (Or.inl ⟨path, scene, t, hreaches⟩)
  | settle d n => exact fun target htarget => .asked (Or.inr ⟨n, scene, t, hreaches, htarget⟩)
  | target hsought =>
      have htext := Reference.eq_of_given hsought.given
      subst htext
      exact hled
  | found hsought hfound =>
      have hlooked := hreaches.starts (.target hsought)
      exact fun target htarget => .declared hlooked hfound htarget
  | ref d budget path info target => exact hled target (List.mem_singleton.mpr rfl)
  | into _ _ => exact hled
  | variants _ _ => exact hled
  | member d budget path merged member rest =>
      exact fun target htarget => hled target (List.mem_append_left _ htarget)
  | absorbed _ _ => exact fun target htarget => hled target (List.mem_append_right _ htarget)
  | variant d budget path kind number member rest =>
      exact fun target htarget => hled target (List.mem_append_left _ htarget)
  | named _ => exact fun target htarget => hled target (List.mem_append_right _ htarget)
  | _ => trivial

/-- Something leads to every reference that is followed for a request. -/
theorem led_of_reaches {inner : Task} (h : Reaches world (.request r) s inner scene t) :
    inner.Led (LedTo world r s) := by
  -- The induction is on the tasks that lead to the one that is reached.
  suffices hled : ∀ state, ReflTransGen Leads (.request r, world.alone, s) state →
      state.1.Led (LedTo world r s) from hled _ h
  intro state hstate
  induction hstate with
  | refl => trivial
  | tail hearlier hleads ih =>
      cases hleads with
      | starts hstarts => exact ih.starts hearlier hstarts
      | attempt _ _ => trivial

end Task

/-- Whether a document is loaded for a request. -/
def IsLoaded (world : World) (r : Engine.Request) (s : Session) (location : String) (raw : Value) : Prop :=
  ∃ scene t u, Task.Reaches world (.request r) s (.load location) scene t ∧
    External.load location scene t = (.ok raw, u)

/-- Where a reference comes from for which a file may be opened: the request asks for it, or it is written
in the document at hand or in a document that is loaded for the request.  If that one is at a URL, the
location of the reference is written with another scheme than the URL has, and without slashes behind
it. -/
inductive Origin (world : World) (r : Engine.Request) (s : Session) (d : Document) (y : String) : Prop
  | asked (h : AsksFor world r s d (.str y))
  | written (h : y ∈ d.raw.references)
  | ofFile {location : String} {raw : Value} (hloaded : IsLoaded world r s location raw)
      (hfile : Location.isUrl location = false) (hwritten : Node.IsRebased location raw.references y)
  | ofWeb {location scheme : String} {raw : Value} {parsed : Reference}
      (hloaded : IsLoaded world r s location raw) (hweb : Location.IsWeb location scheme)
      (hwritten : y ∈ raw.references) (hread : Reference.read? y = some parsed)
      (hforeign : Location.IsForeign scheme parsed.location)

/-- Wherever an engine opens a file to find the target of a reference, the reference has an origin that
may lead to a file. -/
theorem Engine.Reachable.file_opened {s t : Session} (hs : Reachable s) {world : World} {scene : Scene}
    {r : Request} {d : Document} {y file : String} {path : List String}
    (hreaches : Task.Reaches world (.request r) s (.target d y path) scene t)
    (hopened : OpensFile (d.target y path) scene t file) : Origin world r s d y := by
  obtain ⟨⟨kept, rfl⟩, -⟩ :=
    Session.throughout_keepsKnown.kept_reached (keeping_request_keepsKnown r) hreaches hs.keepsKnown
  obtain ⟨parsed, hread, hpath⟩ := exists_path_of_opened kept.shared hopened
  have hled : LedTo world r s d (.str y) := Task.led_of_reaches hreaches
  cases hled with
  | asked h => exact .asked h
  | declared hlooked hfound htarget =>
      rcases Document.target_cases hfound with ⟨-, hlook⟩ | ⟨-, depth, u, hcount, hresolve⟩
      · exact .written (List.mem_toFinset.mp (Document.mem_known_of_eager ⟨_, hlook, htarget⟩))
      · obtain ⟨found, location, raw, v, place, w, hgiven, hjoin, hload, hwalk, hparse⟩ :=
          External.declared_of_resolve hresolve
        have hloads := (hlooked.starts (.outside _ hcount)).starts (.load _ hgiven hjoin)
        have hloaded : IsLoaded world r s location raw := ⟨_, _, w, hloads, hload⟩
        obtain ⟨z, hz, hrebased⟩ := Node.follows_parse_rebased hparse htarget
        have hschemas : (External.schemasOf raw).references ⊆ raw.references :=
          (Value.inherited_references _).schemasOf (List.Subset.refl _)
        have hwritten : z ∈ raw.references := hschemas (Value.references_walk hwalk hz)
        cases hurl : Location.isUrl location with
        | false => exact .ofFile hloaded hurl ⟨z, hwritten, hrebased⟩
        | true =>
            obtain ⟨⟨looked, rfl⟩, hknown, -⟩ := Session.throughout_keepsKnown.kept_reached
              (keeping_request_keepsKnown r) hlooked hs.keepsKnown
            have hlocation := External.yields_load_known location looked _ hknown
            unfold Ensures at hlocation
            rw [hload] at hlocation
            obtain ⟨scheme, hweb⟩ := hlocation.2 raw rfl hurl
            rcases hweb.rebase hrebased hread with hback | ⟨rfl, hforeign⟩
            · rw [hpath] at hback
              cases hback
            · exact .ofWeb hloaded hweb hwritten hread hforeign

namespace Engine

/-- A world with a file that cannot be read. -/
def lockedWorld : World where
  workingDirectory := default
  files := [(Path.read "/a.json", .unreadable)]
  reply := fun _ _ => (.int 0, .lost "")
  followsRedirects := true

/-- A document without schemas beside that file. -/
def besideLocked : Document := ⟨Value.record [], "/root.json", 1⟩

/-- Ask for a schema of the file. -/
def askLocked : Request :=
  .reference (.document besideLocked) (.value (.str "a.json#/components/schemas/A")) (.list [])

theorem file_opened_locked :
    ∃ t, Task.Reaches lockedWorld (.request askLocked) (new {} 0 0 2)
        (.target besideLocked "a.json#/components/schemas/A" []) lockedWorld.alone t ∧
      OpensFile (besideLocked.target "a.json#/components/schemas/A" []) lockedWorld.alone t
        "/a.json" ∧
      Origin lockedWorld askLocked (new {} 0 0 2) besideLocked "a.json#/components/schemas/A" := by
  have hreachable : Reachable (new {} 0 0 2) := ⟨_, _, _, _, [], rfl⟩
  -- the reference is followed, and it is looked up in vain
  have hreference : Task.Starts lockedWorld.alone (.request askLocked) (new {} 0 0 2)
      (.reference besideLocked [] (.str "a.json#/components/schemas/A")) (new {} 0 0 2) :=
    .reference rfl rfl rfl
  have hsought : ∃ t, Task.Sought lockedWorld.alone besideLocked []
      (.str "a.json#/components/schemas/A") "a.json#/components/schemas/A" (new {} 0 0 2) t ∧
      OpensFile (besideLocked.target "a.json#/components/schemas/A" []) lockedWorld.alone t
        "/a.json" := by
    refine ⟨_, ⟨rfl, List.not_mem_nil, rfl, rfl⟩, ?_, ?_, fun _ hentry => absurd hentry List.not_mem_nil⟩
    · decide +kernel
    · decide +kernel
  obtain ⟨t, hsought, hopens⟩ := hsought
  have hreaches := (hreference.reaches.starts (.follow _ _ _ _)).starts (.target hsought)
  exact ⟨t, hreaches, hopens, hreachable.file_opened hreaches hopens⟩

end Engine

end SchemaGraph
