import SchemaGraph.Proofs.Document.Readings
import SchemaGraph.Proofs.Resolve.Establishing
import SchemaGraph.Proofs.Schema.Clean

/-!
# What is resolved is proper

Every document from outside was read from a text that was found at its location.  An operation that
loads documents may rely on what follows from this for those that are kept, and keeps it so.  Above all,
every such document is proper.

In a proper document, a session that caches nothing and holds proper documents from outside resolves
every clean schema to a proper one, whatever its references lead to.
-/

namespace SchemaGraph

open Resolving

/-! ### Documents kept from outside -/

/-- A property of sessions by which each document kept from outside fits its location, and that looks at
nothing else of what is outside. -/
structure Guarding (fits : String → Value → Prop) (keeps : Session → Prop) : Prop where
  aloof : Aloof keeps
  fitting : ∀ {s : Session}, keeps s → ∀ entry ∈ s.external, fits entry.1 entry.2.raw
  external : ∀ {s : Session} {external : List (String × Loaded)},
    (∀ entry ∈ external, fits entry.1 entry.2.raw) → keeps s → keeps { s with external := external }

namespace Guarding

variable {fits : String → Value → Prop} {keeps : Session → Prop} (h : Guarding fits keeps)
include h

/-- A change that leaves no other documents than were kept. -/
theorem keeping_fewer {change : List (String × Loaded) → List (String × Loaded)}
    (hchange : ∀ external, change external ⊆ external) :
    Keeping keeps (modify fun s => { s with external := change s.external } : Resolving Unit) :=
  keeping_modify fun s hs =>
    h.external (fun entry hentry => h.fitting hs entry (hchange s.external hentry)) hs

theorem yields_recallDocument (location : String) :
    Yields keeps (fun found => ∀ raw : Value, found = some raw → fits location raw)
      (External.recallDocument location) := by
  have hnone : Yields keeps (fun found => ∀ raw : Value, found = some raw → fits location raw)
      (pure none) := yields_pure fun _ heq => nomatch heq
  unfold External.recallDocument
  refine yields_get.bind fun s hs => ?_
  split
  · exact hnone
  · split
    · exact hnone
    · rename_i loaded hfound
      refine (keeping_check _).bind_yields fun stale => ?_
      split
      · refine (h.keeping_fewer fun external => ?_).bind_yields fun _ => hnone
        exact List.filter_subset_self external
      · refine yields_pure fun raw heq => ?_
        rw [← Option.some.inj heq]
        exact h.fitting hs _ (Ordered.mem_of_get hfound)

theorem keeping_keep {location : String} {raw : Value} (hraw : fits location raw) :
    Keeping keeps (External.keep location raw) := by
  unfold External.keep
  refine keeping_get_bind fun world s hs => ?_
  split
  · have hwritten : keeps { s with external := Ordered.write location ⟨s.clock, raw⟩ s.external } := by
      refine h.external (fun entry hentry => ?_) hs
      rcases Ordered.mem_write hentry with rfl | hold
      · exact hraw
      · exact h.fitting hs entry hold
    refine Keeping.bind (keeping_check _) (fun bound => ?_) world _ hwritten
    split
    · exact h.keeping_fewer fun external => List.drop_subset _ external
    · exact (h.keeping_fewer fun external => List.nil_subset external).bind fun _ => keeping_fault _
  · exact hs

/-- A loaded document fits its location if those do that are read from a text where one is given; at a
URL, where it is fetched. -/
theorem yields_load {given : Prop} (location : String)
    (hurl : Location.isUrl location = true →
      Yields keeps (fun _ => given) (External.fetch location))
    (hpath : Location.isUrl location = false → given)
    (hparse : given → ∀ text raw, External.parse location text = .ok raw → fits location raw) :
    Yields keeps (fits location) (External.load location) := by
  unfold External.load
  refine (h.yields_recallDocument location).bind fun found hfound => ?_
  cases found with
  | some raw => exact yields_pure (hfound raw rfl)
  | none =>
      dsimp only
      split
      on_goal 1 =>
        rename_i hlocation
        apply (hurl hlocation).bind
      on_goal 2 =>
        rename_i hlocation
        have hread := External.keeping_readFile h.aloof.distant.timeless location
        apply (hread.yields.mono fun _ _ => hpath (Bool.eq_false_iff.mpr hlocation)).bind
      -- Wherever the text comes from, it is read and kept in the same way.
      all_goals
        intro text hgiven
        apply (yields_lift (hparse hgiven text)).bind
        intro raw hraw
        split
        · exact yields_throw _
        · exact (h.keeping_keep hraw).bind_yields fun _ => yields_pure hraw

end Guarding

/-- Whether all documents that a session keeps from outside are proper. -/
def Session.KeepsProper (s : Session) : Prop := ∀ entry ∈ s.external, entry.2.raw.Proper

/-- Whatever is loaded is proper, since every text is read as a proper value. -/
theorem Guarding.yields_load_proper {keeps : Session → Prop}
    (h : Guarding (fun _ raw => raw.Proper) keeps) (location : String) :
    Yields keeps Value.Proper (External.load location) :=
  h.yields_load location
    (fun _ => (External.keeping_fetch h.aloof.distant.remote location).yields) (fun _ => trivial)
    fun _ text _ hraw => External.proper_parse location text _ hraw

/-! ### What clean schemas resolve to -/

/-- Schemas that are read from proper values are clean. -/
theorem Node.readFrom_clean : ReadFrom Value.Proper Clean where
  toInherited := Value.inherited_proper
  parse := clean_parse

theorem Node.establishes_proper : Establishes Clean Proper fun m => m.node.Proper where
  leaf := fun h => h.proper_of_isLeaf
  members := fun h => h.parts.2
  start := fun h => h.parts.1
  absorb := Merged.proper_absorb
  node := fun hm => hm
  oneOf := fun h _ => proper_resolvedOneOf h.parts.1
  anyOf := fun h => proper_resolvedAnyOf h.parts.1

namespace Session

/-- Sessions that cache nothing and hold proper documents from outside. -/
def ColdProper (s : Session) : Prop := s.Cold ∧ s.KeepsProper

theorem untracked_coldProper : Untracked ColdProper where
  records := fun hready hs => ⟨hs.1.retracked (hready hs.1.ready), hs.2⟩

theorem guarding_coldProper : Guarding (fun _ raw => raw.Proper) ColdProper where
  aloof := fun _ _ _ _ hs =>
    ⟨⟨hs.1.ready, hs.1.references, hs.1.compositions, hs.1.failures⟩, hs.2⟩
  fitting := fun hs => hs.2
  external := fun hexternal hs =>
    ⟨⟨hs.1.ready, hs.1.references, hs.1.compositions, hs.1.failures⟩, hexternal⟩

theorem holding_coldProper (good : Node → Prop) : Holding ColdProper good where
  toUntracked := untracked_coldProper
  reference := by
    intro s key n hs hn
    rw [BoundedCache.get_of_disabled hs.1.references] at hn
    cases hn
  composition := by
    intro s key n hs hn
    rw [BoundedCache.get_of_disabled hs.1.compositions] at hn
    cases hn
  keptReference := by
    intro s key n hs _
    rw [hs.1.keptReference]
    exact hs
  keptComposition := by
    intro s key n hs _
    rw [hs.1.keptComposition]
    exact hs
  keptFailure := by
    intro s key failure hs
    unfold keptFailure
    rw [hs.1.rememberFailure]
    exact hs

end Session

variable {d : Document}

theorem yields_proper_resolveNode (hd : d.raw.Proper) {n : Node} (hn : n.Clean) :
    Yields Session.ColdProper Node.Proper (resolveNode d n) := by
  have hholding := Session.holding_coldProper Node.Proper
  have htarget : ∀ x path, Yields Session.ColdProper Node.Clean (d.target x path) := fun x path =>
    yields_target Node.readFrom_clean Session.guarding_coldProper.yields_load_proper hd
      (fun _ cause hs => hholding.keptFailure (cacheKey d x) (.externalFailed x cause) hs) path
  exact Node.establishes_proper.yields_resolveNode hholding htarget hn

end SchemaGraph
