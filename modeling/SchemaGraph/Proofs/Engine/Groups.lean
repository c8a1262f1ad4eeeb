import SchemaGraph.Proofs.Engine.Discerning
import SchemaGraph.Proofs.Engine.Reachable
import SchemaGraph.Proofs.Resolve.Groups
import SchemaGraph.Proofs.Resolve.ProperResults
import SchemaGraph.Proofs.Resolve.Unrolling

/-!
# Compositions in groups on an engine

On an engine that caches nothing, an `allOf` resolves to what it resolves to with a run of its members
in an `allOf` of its own, if all properties that the members resolve to have types.
-/

namespace SchemaGraph

open Resolving

namespace Node

variable {d : Document} {world : World}

/-- Schemas that settle in turn with the budget of the document resolve in turn. -/
theorem InTurn.resolveNode {settings : ExternalSettings} {members resolved : List Node}
    {s t : Session} (hs : s.externalSettings = settings)
    (h : InTurn (settle (follow d (pathBudget d settings.maxDepth) []) d) world s members
      resolved t) : InTurn (resolveNode d) world s members resolved t := by
  have hsteady := steady_settings d settings
  induction h with
  | nil s => exact .nil s
  | cons hn _ ih =>
      refine .cons ?_ (ih ?_)
      · rw [← hs] at hn
        exact hn
      · refine keeps_of_run (hsteady.keeping_settle fun target _ => ?_) hs hn
        exact hsteady.keeping_follow _ [] target

/-- What every member gives alike, all of them give in turn. -/
theorem InTurn.forall_of_yields {keeps : Session → Prop} {good : Node → Prop}
    {act : Node → Resolving Node} {members resolved : List Node} {s t : Session}
    (h : InTurn act world s members resolved t)
    (hmembers : ∀ member ∈ members, Yields keeps good (act member)) (hs : keeps s) :
    ∀ n ∈ resolved, good n := by
  induction h with
  | nil => exact fun _ hn => nomatch hn
  | cons hrun _ ih =>
      obtain ⟨hmember, hrest⟩ := List.forall_mem_cons.mp hmembers
      refine List.forall_mem_cons.mpr ⟨?_, ih hrest (keeps_of_run hmember.keeping hs hrun)⟩
      exact (hmember world _ hs).2 _ (congrArg Prod.fst hrun)

end Node

namespace Engine

open Node

variable {subject : Subject} {d : Document} {world : World} {s t : Session}

theorem coldProper_of_opened (h : Opened s t) (hs : s.ColdProper) : t.ColdProper := by
  obtain ⟨documents, nextId, rfl⟩ := h
  exact ⟨⟨hs.1.ready, hs.1.references, hs.1.compositions, hs.1.failures⟩, hs.2⟩

/-- What a schema resolves to is what it is read as and what that resolves to in the document. -/
theorem rawSchema_result (hopen : subject.open world s = (.ok d, t)) (raw : Value) :
    (rawSchema subject raw world s).1 =
      (parse "" raw "#" >>= fun n => (resolveNode d n world t).1) := by
  unfold rawSchema
  rw [timed_apply]
  dsimp only
  rw [bind_apply, hopen]
  dsimp only
  rw [bind_apply]
  cases parse "" raw "#" with
  | ok n => rfl
  | error failure => rfl

/-- Whether all properties that the members of an `allOf` resolve to have types, if the members resolve
one after the other. -/
def TypedMembers (d : Document) (world : World) (s : Session) (items : List Value) : Prop :=
  ∀ info shape resolved t, parse "" (allOfSchema items) "#" = .ok (.composition info shape) →
    InTurn (resolveNode d) world s shape.members resolved t → ∀ n ∈ resolved, n.Typed

theorem proper_allOfSchema {items : List Value} (h : ∀ item ∈ items, item.Proper) :
    (allOfSchema items).Proper := by
  have hentry : ∀ entry ∈ [(Value.str "allOf", Value.list items)],
      entry.1.hashable = true ∧ entry.2.Proper :=
    List.forall_mem_singleton.mpr ⟨rfl, Value.proper_list_iff.mpr h⟩
  exact Value.proper_ofList hentry

/-- Where nothing is cached and all values are proper, an `allOf` resolves to what is written as it is
with a run of its members in an `allOf` of its own. -/
theorem rawSchema_regrouped {front run back : List Value} (hs : s.ColdProper)
    (hopen : subject.open world s = (.ok d, t)) (hd : d.raw.Proper)
    (hproper : ∀ item ∈ front ++ run ++ back, item.Proper) (hrun : run ≠ [])
    (htyped : TypedMembers d world t (front ++ run ++ back)) :
    written (rawSchema subject (allOfSchema (front ++ run ++ back)) world s).1 =
      written (rawSchema subject (allOfSchema (front ++ allOfSchema run :: back)) world s).1 := by
  have ht := coldProper_of_opened (opened_of_open hopen) hs
  have hreadable := readable_regrouped front run back
  rw [rawSchema_result hopen, rawSchema_result hopen]
  cases hread : parse "" (allOfSchema (front ++ run ++ back)) "#" with
  | error failure =>
      cases hread' : parse "" (allOfSchema (front ++ allOfSchema run :: back)) "#" with
      | error failure' => rfl
      | ok n' =>
          obtain ⟨n, hn⟩ := hreadable.mpr ⟨n', readOf_parse hread'⟩
          obtain ⟨m, hm⟩ := hn.exists_parse "#"
          cases hread.symm.trans hm
  | ok n =>
      obtain ⟨m, hm⟩ := hreadable.mp ⟨n, readOf_parse hread⟩
      obtain ⟨n', hread'⟩ := hm.exists_parse "#"
      rw [hread']
      refine settle_regrouped ht.1 hrun (readOf_parse hread) (readOf_parse hread') ?_
      rintro info shape resolved u rfl hturn r hr
      have hclean := (clean_parse (proper_allOfSchema hproper) hread).parts.2
      have hresolved := hturn.resolveNode rfl
      refine ⟨?_, htyped info shape resolved u hread hresolved r hr⟩
      exact hresolved.forall_of_yields (fun member hmember =>
        yields_proper_resolveNode hd (hclean member hmember)) ht r hr

/-- At every point of the life of an engine at which caching is off, it makes no difference to an
`allOf` whether a run of its members stands in an `allOf` of its own, if all properties that its members
resolve to have types: it resolves to what is written the same, or does not resolve. -/
theorem allOf_associative (config : Config) (resident virtual : UInt64) (nextId : Nat)
    (life : List (World × Request))
    (hdisabled : (lived life (new config resident virtual nextId)).caches.settings.enabled.truthy =
      false)
    (hopen : subject.open world (lived life (new config resident virtual nextId)) = (.ok d, t))
    (hd : d.raw.Proper) {front run back : List Value}
    (hproper : ∀ item ∈ front ++ run ++ back, item.Proper) (hrun : run ≠ [])
    (htyped : TypedMembers d world t (front ++ run ++ back)) :
    let s := lived life (new config resident virtual nextId)
    written (rawSchema subject (allOfSchema (front ++ run ++ back)) world s).1 =
      written (rawSchema subject (allOfSchema (front ++ allOfSchema run :: back)) world s).1 := by
  intro s
  have hs : s.InOrder :=
    keeps_lived (fun step _ => keeping_request_inOrder step.2) (Session.inOrder_start config _ nextId)
  exact rawSchema_regrouped ⟨hs.cold hdisabled, hs.external⟩ hopen hd hproper hrun htyped

/-- An engine whose caching is turned off after a reference was resolved. -/
def turnedOff : List (World × Request) :=
  [.reference (.document aliasDocument) (.value (.str "#/components/schemas/Alias")) (.list []),
    .configureCaching (.bool false) .null].map fun a => (emptyWorld, a)

/-- An object with one property, which it requires. -/
def fieldSchema (name type : String) : Value :=
  Value.record [("type", .str "object"),
    ("properties", Value.record [(name, Value.record [("type", .str type)])]),
    ("required", .list [.str name])]

/-- Objects of which two declare the same property. -/
def fieldSchemas : List Value :=
  [fieldSchema "id" "string"] ++ [fieldSchema "name" "string", fieldSchema "id" "string"] ++
    [fieldSchema "size" "integer"]

theorem fields_read {info : NodeInfo} {shape : CompositionShape Node}
    (h : parse "" (allOfSchema fieldSchemas) "#" = .ok (.composition info shape)) :
    ∀ member ∈ shape.members, member.isLeaf = true ∧ member.Typed := by
  have hread : ∃ info shape, parse "" (allOfSchema fieldSchemas) "#" =
      .ok (.composition info shape) ∧
      ∀ member ∈ shape.members, member.isLeaf = true ∧ member.Typed :=
    ⟨_, _, rfl, by decide⟩
  obtain ⟨info', shape', hparse, hall⟩ := hread
  obtain ⟨-, rfl⟩ := Node.composition.inj (Except.ok.inj (hparse.symm.trans h))
  exact hall

/-- Members with nothing to resolve are resolved as they are. -/
theorem eq_of_inTurn_leaves {members resolved : List Node}
    (h : InTurn (resolveNode d) world s members resolved t)
    (hleaves : ∀ member ∈ members, member.isLeaf = true) : resolved = members := by
  induction h with
  | nil => rfl
  | @cons s u t member n rest resolved hn _ ih =>
      obtain ⟨hleaf, hrest⟩ := List.forall_mem_cons.mp hleaves
      have hself : resolveNode d member world s = (.ok member, s) := by
        change member.settle _ d world s = _
        rw [settle_leaf _ d hleaf]
        rfl
      obtain ⟨hsame, -⟩ := Prod.mk.inj (hself.symm.trans hn)
      rw [ih hrest, Except.ok.inj hsame]

theorem typedMembers_fields : TypedMembers d world s fieldSchemas := by
  intro info shape resolved t hparse hturn n hn
  have hread := fields_read hparse
  obtain rfl := eq_of_inTurn_leaves hturn fun member hmember => (hread member hmember).1
  exact (hread n hn).2

theorem allOf_associative_fields :
    let s := lived turnedOff (new {} 0 0 1)
    written (rawSchema aliasSubject (allOfSchema fieldSchemas) emptyWorld s).1 =
      written (rawSchema aliasSubject (allOfSchema ([fieldSchema "id" "string"] ++
        allOfSchema [fieldSchema "name" "string", fieldSchema "id" "string"] ::
          [fieldSchema "size" "integer"])) emptyWorld s).1 := by
  have hdisabled : (lived turnedOff (new {} 0 0 1)).caches.settings.enabled.truthy = false := by
    decide +kernel
  have hraw : aliasRaw.Proper := Value.proper_of_isJson plain_alias.json
  have hfields : (Value.list fieldSchemas).Proper := Value.proper_of_isJson (by decide)
  exact allOf_associative {} 0 0 1 turnedOff hdisabled rfl hraw (Value.proper_list_iff.mp hfields)
    (by simp) typedMembers_fields

end Engine

end SchemaGraph
