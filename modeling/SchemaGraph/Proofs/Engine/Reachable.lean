import SchemaGraph.Proofs.Engine.Durable
import SchemaGraph.Proofs.Engine.History
import SchemaGraph.Proofs.External.Accesses
import SchemaGraph.Proofs.Resolve.ProperResults
import SchemaGraph.Proofs.Store.Apart
import SchemaGraph.Proofs.Store.Room
import SchemaGraph.Proofs.Store.Shelves

/-!
# Reachable sessions

A session is reachable if it is what some engine has come to after some requests, each of them in a
world of its own.  Then its records know all caches, its caches are on or off as its settings say, and
they leave room for an entry where its settings do.  The documents that it keeps from outside are proper.
Its requests were sent for URLs that its settings permit; only redirects may have led elsewhere.

So an engine whose settings turn caching off neither shows nor takes anything, whatever it held before.
-/

namespace SchemaGraph

open Relation Resolving

/-! ### Sessions in order -/

namespace Session

/-- Records that know all caches, caches that are on or off as the settings say, and proper documents
from outside. -/
structure InOrder (s : Session) : Prop where
  ready : s.tracker.Ready
  caches : s.caches.Switched
  external : s.KeepsProper

theorem inOrder_start (config : Config) (memory : Number × Number) (nextId : Nat) :
    (Session.start config memory nextId).InOrder := by
  refine ⟨Tracker.ready_start _, fun shelf => ?_, fun _ hentry => nomatch hentry⟩
  cases shelf <;> rfl

namespace InOrder

variable {s : Session} (h : s.InOrder)
include h

theorem of_caches {caches : Caches CacheKey String Node Failure Document}
    (hcaches : caches.Switched) : { s with caches := caches }.InOrder :=
  ⟨h.ready, hcaches, h.external⟩

/-- An engine whose settings turn caching off caches nothing. -/
theorem cold (hdisabled : s.caches.settings.enabled.truthy = false) : s.Cold := by
  refine ⟨h.ready, (h.caches .reference).trans hdisabled,
    (h.caches .composition).trans hdisabled, ?_⟩
  rw [Caches.truthy_cacheExternalFailures, hdisabled, Bool.false_and]

end InOrder

theorem untracked_inOrder : Untracked InOrder where
  records := fun hready hs => ⟨hready hs.ready, hs.caches, hs.external⟩

theorem guarding_inOrder : Guarding (fun _ raw => raw.Proper) InOrder where
  aloof := fun _ _ _ _ hs => ⟨hs.ready, hs.caches, hs.external⟩
  fitting := fun hs => hs.external
  external := fun hexternal hs => ⟨hs.ready, hs.caches, hexternal⟩

theorem lasting_inOrder (d : Document) : Lasting d InOrder where
  toUntracked := untracked_inOrder
  outside := External.keeping_resolve_of fun location =>
    (guarding_inOrder.yields_load_proper location).keeping
  composition := fun _ _ hs => hs.of_caches
    (hs.caches.replace .composition (BoundedCache.enabled_set _ _ _))
  reference := fun _ _ hs => hs.of_caches
    (hs.caches.replace .reference (BoundedCache.enabled_set _ _ _))
  schema := fun _ _ hs => hs.of_caches
    (hs.caches.replace .schema (BoundedCache.enabled_set _ _ _))
  failure := by
    intro s x failure hs
    refine hs.of_caches ?_
    unfold Caches.rememberFailure
    split
    · exact hs.caches.of_same rfl fun shelf => by cases shelf <;> rfl
    · exact hs.caches

theorem durable_inOrder : Durable InOrder where
  toUntracked := untracked_inOrder
  aside := by
    intro s t hsame hs
    refine ⟨?_, ?_, ?_⟩
    · rw [hsame.tracker]
      exact hs.ready
    · rw [hsame.caches]
      exact hs.caches
    · unfold KeepsProper
      rw [hsame.external]
      exact hs.external
  loading := fun location => (guarding_inOrder.yields_load_proper location).keeping
  following := fun d path target => (lasting_inOrder d).keeping_resolveReference path target
  settling := fun d n => (lasting_inOrder d).keeping_resolveNode n
  schema := fun d name n hs => (lasting_inOrder d).schema name n hs
  document := fun _ _ hs => hs.of_caches (hs.caches.of_same rfl fun shelf => by cases shelf <;> rfl)
  dropped := fun hs => hs.of_caches (hs.caches.evictShare _)
  cleared := by
    intro s hs
    refine ⟨hs.ready, hs.caches.of_same rfl fun shelf => ?_, fun _ hentry => nomatch hentry⟩
    cases shelf <;> rfl

end Session

namespace Engine

theorem keeping_request_inOrder (r : Request) : Keeping Session.InOrder r.run := by
  refine Session.durable_inOrder.keeping_request fun enabled maxSize _ => ?_
  refine Session.untracked_inOrder.keeping_configureCaching fun s hs => ?_
  exact hs.of_caches (hs.caches.configure enabled maxSize)

end Engine

/-! ### Room, and what was asked for -/

namespace Session

/-- Whether the caches of a session leave room where its settings do. -/
def Ample (s : Session) : Prop := s.caches.Ample

theorem steady_ample (d : Document) : Steady d Ample where
  records := fun _ hs => hs
  inward := fun _ _ _ _ _ hs => hs
  composition := fun _ _ hs => hs.set .composition _ _
  reference := fun _ _ hs => hs.set .reference _ _
  schema := fun _ _ hs => hs.set .schema _ _
  failure := fun _ _ hs => hs.rememberFailure _ _

theorem durable_ample : Durable Ample where
  records := fun _ hs => hs
  aside := by
    intro s t hsame hs
    unfold Ample
    rw [hsame.caches]
    exact hs
  loading := External.keeping_load fun _ _ _ _ _ hs => hs
  following := fun d path target => (steady_ample d).keeping_resolveReference path target
  settling := fun d n => (steady_ample d).keeping_resolveNode n
  schema := fun d name n hs => (steady_ample d).schema name n hs
  document := fun name d hs => hs.rememberDocument name d
  dropped := fun hs => hs.evictShare _
  cleared := fun hs => hs.clearAll

theorem lasting_permitted (settings : ExternalSettings) (d : Document) :
    Lasting d (Permitted settings) where
  records := fun _ hs => ⟨hs.configured, hs.permits⟩
  outside := External.keeping_resolve_of External.keeping_load_permitted
  composition := fun _ _ hs => ⟨hs.configured, hs.permits⟩
  reference := fun _ _ hs => ⟨hs.configured, hs.permits⟩
  schema := fun _ _ hs => ⟨hs.configured, hs.permits⟩
  failure := fun _ _ hs => ⟨hs.configured, hs.permits⟩

theorem durable_permitted (settings : ExternalSettings) : Durable (Permitted settings) where
  records := fun _ hs => ⟨hs.configured, hs.permits⟩
  aside := by
    intro s t hsame hs
    refine ⟨hsame.externalSettings.trans hs.configured, ?_⟩
    rw [hsame.requests]
    exact hs.permits
  loading := External.keeping_load_permitted
  following := fun d path target =>
    (lasting_permitted settings d).keeping_resolveReference path target
  settling := fun d n => (lasting_permitted settings d).keeping_resolveNode n
  schema := fun _ _ _ hs => ⟨hs.configured, hs.permits⟩
  document := fun _ _ hs => ⟨hs.configured, hs.permits⟩
  dropped := fun hs => ⟨hs.configured, hs.permits⟩
  cleared := fun hs => ⟨hs.configured, hs.permits⟩

end Session

namespace Engine

theorem keeping_request_permitted (settings : ExternalSettings) (r : Request) :
    Keeping (Session.Permitted settings) r.run := by
  refine (Session.durable_permitted settings).keeping_request fun enabled maxSize _ => ?_
  refine (Session.durable_permitted settings).toUntracked.keeping_configureCaching fun s hs => ?_
  exact ⟨hs.configured, hs.permits⟩

theorem keeping_request_ample (r : Request) : Keeping Session.Ample r.run := by
  apply Session.durable_ample.keeping_request
  rintro enabled maxSize -
  apply Session.durable_ample.toUntracked.keeping_configureCaching
  intro s hs
  exact hs.configure enabled maxSize

/-- An engine has the settings for requests that it started with, and they permit all it has sent. -/
theorem permitted_lived (config : Config) (resident virtual : UInt64) (nextId : Nat)
    (life : List (World × Request)) :
    (lived life (new config resident virtual nextId)).Permitted config.external :=
  keeps_lived (fun step _ => keeping_request_permitted config.external step.2)
    ⟨rfl, fun _ hrequest => nomatch hrequest⟩

/-- Whether some engine comes to a session. -/
def Reachable (s : Session) : Prop :=
  ∃ config resident virtual nextId life, s = lived life (new config resident virtual nextId)

namespace Reachable

variable {s : Session}

/-- What every engine starts with and every request keeps holds wherever an engine comes. -/
theorem induct (h : Reachable s) {keeps : Session → Prop}
    (hstart : ∀ config memory nextId, keeps (.start config memory nextId))
    (hrequest : ∀ r : Request, Keeping keeps r.run) : keeps s := by
  obtain ⟨config, resident, virtual, nextId, life, rfl⟩ := h
  apply keeps_lived (fun step _ => hrequest step.2)
  exact hstart config _ nextId

theorem inOrder (h : Reachable s) : s.InOrder :=
  h.induct Session.inOrder_start keeping_request_inOrder

theorem ample (h : Reachable s) : s.Ample :=
  h.induct (fun config _ _ => Caches.ample_empty config.cache) keeping_request_ample

/-- The requests that an engine has sent were permitted by the settings that it has and always had. -/
theorem permitted (h : Reachable s) : s.Permitted s.externalSettings := by
  obtain ⟨config, resident, virtual, nextId, life, rfl⟩ := h
  have hs := permitted_lived config resident virtual nextId life
  rw [hs.configured]
  exact hs

/-- An engine for which remote references are disabled never sends a request, and every request of an
engine that has a list of domains is owed to a URL with a host in one of them, from which at most
redirects lead on to the place where it is sent. -/
theorem request_owed (h : Reachable s) {request : SchemaGraph.Request}
    (hrequest : request ∈ s.requests) :
    s.externalSettings.enableRemoteReferences.truthy = true ∧
      ∃ url parts start target, Url.read "" url.toList = .ok parts ∧
        parts.scheme ∈ External.fetchable ∧
        (s.externalSettings.allowedDomains.truthy = true → ∃ domains domain,
          s.externalSettings.allowedDomains.iterate = .ok domains ∧ .str domain ∈ domains ∧
            External.hostIn (Case.lower parts.host) domain = true) ∧
        Target.ofRequest url = .ok start ∧ ReflTransGen Target.LeadsTo start target ∧
          request.url = target.text := by
  obtain ⟨target, hpermits, htarget⟩ := h.permitted.permits request hrequest
  obtain ⟨henabled, url, parts, start, hparts, hscheme, hhost, hstart, hled⟩ := hpermits.spec
  exact ⟨henabled, url, parts, start, target, hparts, hscheme, hhost, hstart, hled, htarget⟩

end Reachable

/-- A world in which a URL leads on to another host. -/
def redirectingWorld : World where
  workingDirectory := default
  files := []
  reply := fun url _ =>
    if url = "https://example.com/a.json" then
      (.int 0, .answered ⟨302, "", some "https://other.test/b.json"⟩)
    else (.int 0, .answered ⟨404, "", none⟩)
  followsRedirects := true

/-- The settings of an engine that may ask one domain. -/
def oneDomain : Config :=
  { external := { allowedDomains := .list [.str "example.com"], retries := .int 0 } }

/-- That engine after it was led on from the domain. -/
def redirected : Session :=
  lived [(redirectingWorld, .outsideDocument "https://example.com/a.json")] (new oneDomain 0 0 1)

/-- The request that is sent to the other host is owed to a URL of the domain. -/
theorem request_owed_redirected :
    ∃ request ∈ redirected.requests, request.url = "https://other.test/b.json" ∧
      ∃ url parts start target, Url.read "" url.toList = .ok parts ∧
        External.hostIn (Case.lower parts.host) "example.com" = true ∧
        Target.ofRequest url = .ok start ∧ ReflTransGen Target.LeadsTo start target ∧
          request.url = target.text := by
  have hreachable : Reachable redirected := ⟨_, _, _, _, _, rfl⟩
  have hsettings : redirected.externalSettings = oneDomain.external :=
    (permitted_lived oneDomain 0 0 1 _).configured
  have hurls : redirected.requests.map (·.url) =
      ["https://other.test/b.json", "https://example.com/a.json"] := by decide +kernel
  have hsent : "https://other.test/b.json" ∈ redirected.requests.map (·.url) := by simp [hurls]
  obtain ⟨request, hrequest, hurl⟩ := List.mem_map.mp hsent
  obtain ⟨-, url, parts, start, target, hparts, -, hdomain, hstart, hled, htarget⟩ :=
    hreachable.request_owed hrequest
  rw [hsettings] at hdomain
  obtain ⟨domains, domain, hdomains, hin, hhost⟩ := hdomain rfl
  obtain rfl := Except.ok.inj hdomains
  obtain rfl := Value.str.inj (List.mem_singleton.mp hin)
  exact ⟨request, hrequest, hurl, url, parts, start, target, hparts, hhost, hstart, hled, htarget⟩

end Engine

end SchemaGraph
