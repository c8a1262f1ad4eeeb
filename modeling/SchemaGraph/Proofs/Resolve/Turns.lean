import SchemaGraph.Proofs.Location.Path
import SchemaGraph.Proofs.Resolve.Calls
import SchemaGraph.Proofs.Resolve.Settling
import SchemaGraph.Proofs.Schema.Gathered

/-!
# Members in turn

A composition settles its members one after the other, each in the session that the one before has
left, and then builds an object of all that they settled to.  An `allOf` merges as it goes along, so
it may stop early; but where it succeeds, it has settled all members and then merged all of them.
-/

namespace SchemaGraph

open Resolving

/-- The name by which a reference calls its schema is what stands behind its last slash. -/
theorem Reference.schemaName_toList (text : String) :
    ∃ front, text.toList = front ++ (schemaName text).toList ∧
      '/' ∉ (schemaName text).toList ∧ (front = [] ∨ front.getLast? = some '/') := by
  unfold schemaName
  rw [String.toList_ofList]
  by_cases hslash : '/' ∈ text.toList
  · obtain ⟨after, before, heq, hafter⟩ :=
      List.eq_append_cons_of_mem (List.mem_reverse.mpr hslash)
    have htext : text.toList = before.reverse ++ '/' :: after.reverse := by
      rw [← List.reverse_reverse text.toList, heq]
      simp
    have hlast : '/' ∉ after.reverse := fun hin => hafter (List.mem_reverse.mp hin)
    refine ⟨before.reverse ++ ['/'], ?_, ?_, Or.inr List.getLast?_concat⟩
    · rw [htext, Pieces.cut_append, Pieces.cut_piece hlast, List.getLast?_concat]
      simp
    · rw [htext, Pieces.cut_append, Pieces.cut_piece hlast, List.getLast?_concat]
      exact hlast
  · rw [Pieces.cut_piece hslash]
    exact ⟨[], rfl, hslash, Or.inl rfl⟩

namespace Resolving

variable {world : World} {s t : Session}

/-- Changing the records changes nothing else. -/
theorem track_eq_ok {change : Tracker → Except Fault Tracker} {done : Unit}
    (h : track change world s = (.ok done, t)) : ∃ records, t = s.retracked records := by
  unfold track at h
  obtain ⟨state, u, hget, hchange⟩ := bind_eq_ok_run h
  obtain ⟨-, hu⟩ := Prod.mk.inj hget
  obtain ⟨records, v, hrecords, hset⟩ := bind_eq_ok_run hchange
  obtain ⟨-, hv⟩ := check_eq_ok hrecords
  refine ⟨records, ?_⟩
  rw [← (Prod.mk.inj hset).2, hv, ← hu]
  rfl

/-- A result after a change of the records comes from a session with other records. -/
theorem track_bind_eq_ok {α : Type} {change : Tracker → Except Fault Tracker}
    {next : Unit → Resolving α} {a : α} (h : (track change >>= next) world s = (.ok a, t)) :
    ∃ records, next () world (s.retracked records) = (.ok a, t) := by
  obtain ⟨done, u, htrack, hnext⟩ := bind_eq_ok_run h
  obtain ⟨records, rfl⟩ := track_eq_ok htrack
  exact ⟨records, hnext⟩

/-- Looking up an entry gives what the cache shows and changes the records only. -/
theorem recallNode_eq_ok {name : String}
    {cache : Caches CacheKey String Node Failure Document → BoundedCache CacheKey Node}
    {key : CacheKey} {found : Option Node}
    (h : recallNode name cache key world s = (.ok found, t)) :
    found = (cache s.caches).get? key ∧ ∃ records, t = s.retracked records := by
  unfold recallNode at h
  obtain ⟨shown, u, hshown, hrecord⟩ := bind_eq_ok_run h
  rw [timed_apply] at hshown
  obtain ⟨hresult, hu⟩ := Prod.mk.inj hshown
  have hget : shown = (cache s.caches).get? key := (Except.ok.inj hresult).symm
  have hrest : ∃ records, (pure shown : Resolving (Option Node)) world (u.retracked records) =
      (.ok found, t) := by
    cases shown with
    | none => exact track_bind_eq_ok hrecord
    | some n => exact track_bind_eq_ok hrecord
  obtain ⟨records, hrest⟩ := hrest
  obtain ⟨hfound, ht⟩ := Prod.mk.inj hrest
  refine ⟨(Except.ok.inj hfound).symm.trans hget, records, ?_⟩
  rw [← ht, ← hu]
  rfl

end Resolving

namespace Node

/-- Schemas that are settled one after the other, each in the session that the one before has left. -/
inductive InTurn (act : Node → Resolving Node) (world : World) :
    Session → List Node → List Node → Session → Prop
  | nil (s : Session) : InTurn act world s [] [] s
  | cons {s t u : Session} {member n : Node} {rest resolved : List Node} :
      act member world s = (.ok n, t) → InTurn act world t rest resolved u →
      InTurn act world s (member :: rest) (n :: resolved) u

theorem InTurn.append {act : Node → Resolving Node} {world : World} {s t u : Session}
    {members others resolved resolved' : List Node} (h : InTurn act world s members resolved t)
    (h' : InTurn act world t others resolved' u) :
    InTurn act world s (members ++ others) (resolved ++ resolved') u := by
  induction h with
  | nil => exact h'
  | cons hn _ ih => exact .cons hn (ih h')

/-- Schemas that are settled in turn are settled in two groups. -/
theorem InTurn.of_append {act : Node → Resolving Node} {world : World} {s u : Session}
    {members others resolved : List Node} (h : InTurn act world s (members ++ others) resolved u) :
    ∃ front back t, resolved = front ++ back ∧ InTurn act world s members front t ∧
      InTurn act world t others back u := by
  induction members generalizing s resolved with
  | nil => exact ⟨[], resolved, s, rfl, .nil s, h⟩
  | cons member rest ih =>
      cases h with
      | cons hn hrest =>
          obtain ⟨front, back, t, rfl, hfront, hback⟩ := ih hrest
          exact ⟨_ :: front, back, t, rfl, .cons hn hfront, hback⟩

section Members

variable {follow : Value → Resolving Node} {document : Document} {world : World}

/-- Settling and merging members succeeds if they are settled in turn and then merged. -/
theorem settleInto_eq_ok {members : List Node} {m last : Merged} {s t : Session} :
    settleInto follow document m members world s = (.ok last, t) ↔
      ∃ resolved, InTurn (settle follow document) world s members resolved t ∧
        m.absorbAll resolved = .ok last := by
  induction members generalizing m s with
  | nil =>
      rw [settleInto]
      constructor
      · intro h
        obtain ⟨hlast, ht⟩ := Prod.mk.inj h
        exact ⟨[], ht ▸ .nil s, hlast⟩
      · rintro ⟨resolved, hturn, hlast⟩
        cases hturn
        exact Prod.ext hlast rfl
  | cons member rest ih =>
      rw [settleInto]
      constructor
      · intro h
        obtain ⟨n, u, hn, hmerge⟩ := bind_eq_ok_run h
        obtain ⟨next, v, habsorb, hrest⟩ := bind_eq_ok_run hmerge
        obtain ⟨hnext, rfl⟩ := lift_eq_ok habsorb
        obtain ⟨resolved, hturn, hlast⟩ := ih.mp hrest
        refine ⟨n :: resolved, .cons hn hturn, ?_⟩
        rw [Merged.absorbAll_cons, hnext]
        exact hlast
      · rintro ⟨resolved, hturn, hlast⟩
        cases hturn with
        | cons hn hturn =>
            rename_i u n resolved
            rw [Merged.absorbAll_cons, bind_eq_ok] at hlast
            obtain ⟨next, hnext, hlast⟩ := hlast
            rw [bind_apply, hn]
            dsimp only
            rw [hnext]
            exact ih.mpr ⟨resolved, hturn, hlast⟩

/-- Schemas that are neither references nor compositions are settled as they are. -/
theorem inTurn_leaves {members : List Node} {s : Session}
    (h : ∀ member ∈ members, member.isLeaf = true) :
    InTurn (settle follow document) world s members members s := by
  induction members with
  | nil => exact .nil s
  | cons member rest ih =>
      refine .cons ?_ (ih fun m hm => h m (List.mem_cons_of_mem _ hm))
      rw [settle_leaf follow document (h member List.mem_cons_self)]
      rfl

/-- Variants of some members that are settled, numbered on from a number. -/
def variantsOf (kind : CompositionKind) : Nat → List Node → List Node → List (Variant Node)
  | number, member :: members, n :: resolved =>
    ⟨variantName kind member n number, n⟩ :: variantsOf kind (number + 1) members resolved
  | _, _, _ => []

/-- Settling and naming members succeeds if they are settled in turn. -/
theorem settleVariants_eq_ok {kind : CompositionKind} {number : Nat} {members : List Node}
    {variants : List (Variant Node)} {s t : Session} :
    settleVariants follow document kind number members world s = (.ok variants, t) ↔
      ∃ resolved, InTurn (settle follow document) world s members resolved t ∧
        variants = variantsOf kind number members resolved := by
  induction members generalizing number variants s with
  | nil =>
      rw [settleVariants]
      constructor
      · intro h
        obtain ⟨hvariants, ht⟩ := Prod.mk.inj h
        exact ⟨[], ht ▸ .nil s, (Except.ok.inj hvariants).symm⟩
      · rintro ⟨resolved, hturn, rfl⟩
        cases hturn
        rfl
  | cons member rest ih =>
      rw [settleVariants]
      constructor
      · intro h
        obtain ⟨n, u, hn, hrest⟩ := bind_eq_ok_run h
        obtain ⟨others, v, hothers, hreturn⟩ := bind_eq_ok_run hrest
        obtain ⟨hvariants, rfl⟩ := Prod.mk.inj hreturn
        obtain ⟨resolved, hturn, rfl⟩ := ih.mp hothers
        exact ⟨n :: resolved, .cons hn hturn, (Except.ok.inj hvariants).symm⟩
      · rintro ⟨resolved, hturn, rfl⟩
        cases hturn with
        | cons hn hturn =>
            rw [bind_apply, hn]
            dsimp only
            rw [bind_apply, ih.mpr ⟨_, hturn, rfl⟩]
            rfl

end Members

section Compositions

variable {follow : Value → Resolving Node} {document : Document} {world : World} {info : NodeInfo}
  {shape : CompositionShape Node}

/-- An `allOf` is built of what its members settle to in turn. -/
theorem settleKind_allOf_eq_ok (hkind : shape.kind = .allOf) {s t : Session} {n : Node} :
    settleKind follow document info shape world s = (.ok n, t) ↔
      ∃ resolved last, InTurn (settle follow document) world s shape.members resolved t ∧
        (Merged.start info shape).absorbAll resolved = .ok last ∧ n = last.node := by
  unfold settleKind
  rw [hkind]
  constructor
  · intro h
    obtain ⟨last, u, hlast, hreturn⟩ := bind_eq_ok_run h
    obtain ⟨hn, rfl⟩ := Prod.mk.inj hreturn
    obtain ⟨resolved, hturn, hmerged⟩ := settleInto_eq_ok.mp hlast
    exact ⟨resolved, last, hturn, hmerged, (Except.ok.inj hn).symm⟩
  · rintro ⟨resolved, last, hturn, hmerged, rfl⟩
    dsimp only
    rw [bind_apply, settleInto_eq_ok.mpr ⟨resolved, hturn, hmerged⟩]
    rfl

/-- Only a composition with members and an identity settles. -/
theorem identity_of_settle {s t : Session} {n : Node}
    (h : (Node.composition info shape).settle follow document world s = (.ok n, t)) :
    memberDefect? shape.rawMembers = none ∧
      ∃ key, identity (.composition info shape) = .ok key := by
  rw [settle_composition] at h
  split at h
  · cases h
  · rename_i hdefect
    obtain ⟨key, u, hcheck, -⟩ := bind_eq_ok_run h
    exact ⟨hdefect, key, (check_eq_ok hcheck).1⟩

/-- Whether a composition is not in the cache of compositions. -/
def Missed (document : Document) (info : NodeInfo) (shape : CompositionShape Node) (s : Session) :
    Prop :=
  ∀ key, identity (.composition info shape) = .ok key →
    s.caches.compositions.get? (cacheKey document key) = none

/-- A composition that is not in the cache is built from its members. -/
theorem settleKind_of_missed {s t : Session} {n : Node} (hmissed : Missed document info shape s)
    (h : (Node.composition info shape).settle follow document world s = (.ok n, t)) :
    ∃ records u, (s.tracker.Ready → records.Ready) ∧
      settleKind follow document info shape world (s.retracked records) = (.ok n, u) := by
  rw [settle_composition] at h
  split at h
  · cases h
  · obtain ⟨key, u, hcheck, hlookup⟩ := bind_eq_ok_run h
    obtain ⟨hkey, rfl⟩ := check_eq_ok hcheck
    obtain ⟨found, v, hfound, hbuild⟩ := bind_eq_ok_run hlookup
    obtain ⟨rfl, records, rfl⟩ := recallNode_eq_ok hfound
    have hready : u.tracker.Ready → records.Ready := by
      intro hu
      have hrecall : Ensures (recallNode "composition" (·.compositions) (cacheKey document key)) world
          u _ := ensures_recallNode hu (by decide) _ _
      unfold Ensures at hrecall
      rw [hfound] at hrecall
      obtain ⟨-, records', hrecords', heq⟩ := hrecall
      rw [show records = records' from congrArg Session.tracker heq]
      exact hrecords'
    rw [hmissed key hkey] at hbuild
    obtain ⟨resolved, v, hresolved, hkeep⟩ := bind_eq_ok_run hbuild
    obtain ⟨_, _, -, hreturn⟩ := bind_eq_ok_run hkeep
    obtain ⟨hn, -⟩ := Prod.mk.inj hreturn
    rw [Except.ok.inj hn] at hresolved
    exact ⟨records, v, hready, hresolved⟩

/-- In a cold session a composition with members and an identity is built from its members. -/
theorem settle_of_cold {s : Session} (hs : s.Cold) (hdefect : memberDefect? shape.rawMembers = none)
    {key : String} (hkey : identity (.composition info shape) = .ok key) :
    ∃ u : Tracker, u.Ready ∧
      (Node.composition info shape).settle follow document world s =
        (settleKind follow document info shape >>= fun n =>
          keepComposition (cacheKey document key) n >>= fun _ => pure n) world (s.retracked u) := by
  obtain ⟨u, hu, hrecall⟩ := @records_recallComposition world s hs (cacheKey document key)
  refine ⟨u, hu, ?_⟩
  rw [settle_composition, hdefect, hkey]
  change (recallNode _ _ (cacheKey document key) >>= _) world s = _
  rw [bind_apply, hrecall]

/-- A composition settles in a cold session if it is built in a session that stays cold. -/
theorem exists_settle_of_built {s : Session} (hs : s.Cold)
    (hdefect : memberDefect? shape.rawMembers = none) {key : String}
    (hkey : identity (.composition info shape) = .ok key) {ends : Node → Session → Prop}
    (hcold : ∀ {n t}, ends n t → t.Cold)
    (hretracked : ∀ {n t} {u : Tracker}, ends n t → u.Ready → ends n (t.retracked u))
    (hkind : ∀ u : Tracker, u.Ready → ∃ n t, ends n t ∧
      settleKind follow document info shape world (s.retracked u) = (.ok n, t)) :
    ∃ n t, ends n t ∧ (Node.composition info shape).settle follow document world s = (.ok n, t) := by
  obtain ⟨u, hu, hsettle⟩ := @settle_of_cold follow document world info shape s hs hdefect key hkey
  obtain ⟨n, t, ht, hrun⟩ := hkind u hu
  obtain ⟨v, hv, hkeep⟩ :=
    @records_keepComposition world t (hcold ht) (cacheKey document key) n
  refine ⟨n, t.retracked v, hretracked ht hv, ?_⟩
  rw [hsettle, bind_apply, hrun]
  dsimp only
  rw [bind_apply, hkeep]
  rfl

/-- What a composition settles to in a cold session was built in it. -/
theorem built_of_settle {s t : Session} {n : Node} (hs : s.Cold)
    (hdefect : memberDefect? shape.rawMembers = none) {key : String}
    (hkey : identity (.composition info shape) = .ok key)
    (h : (Node.composition info shape).settle follow document world s = (.ok n, t)) :
    ∃ (u : Tracker) (t' : Session), u.Ready ∧
      settleKind follow document info shape world (s.retracked u) = (.ok n, t') ∧
      (t'.Cold → ∃ v : Tracker, v.Ready ∧ t = t'.retracked v) := by
  obtain ⟨u, hu, hsettle⟩ := @settle_of_cold follow document world info shape s hs hdefect key hkey
  rw [hsettle] at h
  obtain ⟨built, t', hbuilt, hrest⟩ := bind_eq_ok_run h
  obtain ⟨_, t'', hkeep, hreturn⟩ := bind_eq_ok_run hrest
  obtain ⟨hn, rfl⟩ := Prod.mk.inj hreturn
  obtain rfl := Except.ok.inj hn
  refine ⟨u, t', hu, hbuilt, fun ht => ?_⟩
  obtain ⟨v, hv, hkept⟩ :=
    @records_keepComposition world t' ht (cacheKey document key) built
  exact ⟨v, hv, (Prod.mk.inj (hkeep.symm.trans hkept)).2⟩

theorem exists_settle_of_cold {s : Session} {n : Node} (hs : s.Cold)
    (hdefect : memberDefect? shape.rawMembers = none) {key : String}
    (hkey : identity (.composition info shape) = .ok key)
    (hkind : ∀ u : Tracker, u.Ready → ∃ t, t.Cold ∧
      settleKind follow document info shape world (s.retracked u) = (.ok n, t)) :
    ∃ t, t.Cold ∧ (Node.composition info shape).settle follow document world s = (.ok n, t) := by
  have hsettled : ∃ m t, (t.Cold ∧ m = n) ∧
      (Node.composition info shape).settle follow document world s = (.ok m, t) :=
    exists_settle_of_built hs hdefect hkey (fun h => h.1)
      (fun h hu => ⟨h.1.retracked hu, h.2⟩) fun u hu => by
        obtain ⟨t, ht, hrun⟩ := hkind u hu
        exact ⟨n, t, ⟨ht, rfl⟩, hrun⟩
  obtain ⟨m, t, ⟨ht, rfl⟩, hrun⟩ := hsettled
  exact ⟨t, ht, hrun⟩

/-- A resolved `allOf` gathers all that its members settle to in turn. -/
theorem gathers_of_settle {budget : Nat} {path : List String} (hkind : shape.kind = .allOf)
    {s t : Session} {n : Node} (hmissed : Missed document info shape s)
    (h : (Node.composition info shape).settle (SchemaGraph.follow document budget path) document
      world s = (.ok n, t)) :
    ∃ records u resolved merged,
      InTurn (settle (SchemaGraph.follow document budget path) document) world
        (s.retracked records) shape.members resolved u ∧
      n = merged.node ∧ Gathers info shape resolved merged := by
  obtain ⟨records, u, -, hrun⟩ := settleKind_of_missed hmissed h
  obtain ⟨resolved, merged, hturn, hlast, hn⟩ := (settleKind_allOf_eq_ok hkind).mp hrun
  exact ⟨records, u, resolved, merged, hturn, hn, gathers_of_absorbAll hlast⟩

/-- Two objects that declare one property. -/
def pairSchema : Value :=
  Value.record [("allOf", .list
    [Value.record [("type", .str "object"), ("title", .str "First"),
      ("properties", Value.record [("id", Value.record [("type", .str "string")])]),
      ("required", Value.texts ["id"])],
    Value.record [("type", .str "object"), ("nullable", .bool true),
      ("properties", Value.record [("id", Value.record
        [("type", .str "string"), ("minLength", .int 1)])])]])]

theorem pairSchema_read :
    ∃ info shape, parse "" pairSchema "#" = .ok (.composition info shape) ∧ shape.kind = .allOf ∧
      memberDefect? shape.rawMembers = none ∧ (∀ member ∈ shape.members, member.isLeaf = true) ∧
      ∃ merged, (Merged.start info shape).absorbAll shape.members = .ok merged :=
  ⟨_, _, rfl, rfl, rfl, by simp [isLeaf], _, rfl⟩

theorem gathers_of_settle_pair :
    ∃ (world : World) (document : Document) (s : Session) (info : NodeInfo)
      (shape : CompositionShape Node) (n : Node) (t : Session),
      parse "" pairSchema "#" = .ok (.composition info shape) ∧ shape.kind = .allOf ∧
      Missed document info shape s ∧
      (Node.composition info shape).settle (SchemaGraph.follow document 2 []) document world s =
        (.ok n, t) ∧
      ∃ records u resolved merged,
        InTurn (settle (SchemaGraph.follow document 2 []) document) world (s.retracked records)
          shape.members resolved u ∧
        n = merged.node ∧ Gathers info shape resolved merged := by
  let world : World := ⟨default, [], fun _ _ => (.int 0, .lost ""), true, []⟩
  let document : Document := ⟨.map [], "", 0⟩
  let s : Session := Session.start { cache := { enabled := .bool false } } (.int 0, .int 0) 1
  obtain ⟨info, shape, hparse, hkind, hdefect, hleaves, merged, hmerged⟩ := pairSchema_read
  have hs : s.Cold := Session.cold_start rfl _ _
  have hmissed : Missed document info shape s := fun _ _ => rfl
  obtain ⟨key, hkey⟩ := identity_ok (sound_parse (by decide) hparse).1
  obtain ⟨t, -, hrun⟩ : ∃ t : Session, t.Cold ∧
      (Node.composition info shape).settle (SchemaGraph.follow document 2 []) document world s =
        (.ok merged.node, t) := exists_settle_of_cold hs hdefect hkey fun u hu => by
      refine ⟨_, hs.retracked hu, ?_⟩
      exact (settleKind_allOf_eq_ok hkind).mpr ⟨_, _, inTurn_leaves hleaves, hmerged, rfl⟩
  exact ⟨world, document, s, info, shape, _, t, hparse, hkind, hmissed, hrun,
    gathers_of_settle hkind hmissed hrun⟩

end Compositions

end Node

end SchemaGraph
