import SchemaGraph.Proofs.Balanced
import SchemaGraph.Proofs.Resolve.Normalizing
import SchemaGraph.Proofs.Schema.Twin

/-!
# Resolving is balanced

While a reference is followed it stays on the path, so nothing that happens below it writes its key.
A composition that is being settled may be met again below one of its references, also where it is
only written alike.  But then it holds a reference to the same text, which is on the path by now, so
it is never settled a second time and its key is not written either.
-/

namespace SchemaGraph

open Resolving Session

namespace Node

/-- Whether a schema cannot be settled, while the references of a path are being followed and some
compositions are being settled. -/
def Stuck (path : List String) (active : String → Prop) : Node → Prop
  | .ref _ target => ∀ x, Reference.given target = .ok x → x ∈ path
  | .composition info shape => ∀ key, identity (.composition info shape) = .ok key → active key
  | _ => False

variable {path : List String} {active : String → Prop}

theorem not_stuck_of_leaf {n : Node} (h : n.isLeaf = true) : ¬n.Stuck path active := by
  cases n with
  | ref info target => cases h
  | composition info shape => cases h
  | _ => exact id

theorem Stuck.mono {n : Node} (h : n.Stuck path active) {path' : List String}
    {active' : String → Prop} (hpath : path ⊆ path') (hactive : ∀ key, active key → active' key) :
    n.Stuck path' active' := by
  cases n with
  | ref info target => exact fun x hx => hpath (h x hx)
  | composition info shape => exact fun key hkey => hactive key (h key hkey)
  | _ => exact h

end Node

/-- Whether each of the compositions that are being settled has a member that holds it up, or one of
some members that are still to come. -/
def Held (path : List String) (active : String → Prop) (pending : Node → Prop) : Prop :=
  ∀ info shape key, (Node.composition info shape).Sourced →
    (Node.composition info shape).identity = .ok key → active key →
      ∃ member ∈ shape.members, member.Stuck path active ∨ pending member

namespace Held

variable {path : List String} {active : String → Prop} {pending : Node → Prop}

theorem of_idle (hidle : ∀ key, ¬active key) : Held path active pending :=
  fun _ _ key _ _ hactive => absurd hactive (hidle key)

theorem stuck_of_twin {info : NodeInfo} {shape : CompositionShape Node} {key : String}
    (hinfo : info.Marked) (hkey : (Node.composition info shape).identity = .ok key) {m : Node}
    (hm : m.Sourced) (htwin : Node.Twin (.composition info shape) m) (hactive : active key) :
    m.Stuck path active := by
  obtain ⟨info', shape', rfl, hkind, -⟩ := htwin.exists_composition hinfo hm.info
  intro key' hkey'
  rwa [← htwin.identity_eq hkind hkey hkey']

/-- A composition starts to be settled: it is held up by those of its members that are. -/
theorem descend {info : NodeInfo} {shape : CompositionShape Node} {key : String}
    (h : Held path active (Node.Twin (.composition info shape)))
    (hsourced : (Node.composition info shape).Sourced)
    (hdefect : Node.memberDefect? shape.rawMembers = none)
    (hkey : (Node.composition info shape).identity = .ok key) {n : Node} (hn : n ∈ shape.members) :
    Held path (fun k => active k ∨ k = key) (Node.Twin n) := by
  intro info' shape' key' hsourced' hkey' hactive'
  rcases hactive' with hold | rfl
  · obtain ⟨m, hm, hstuck | htwin⟩ := h info' shape' key' hsourced' hkey' hold
    · exact ⟨m, hm, Or.inl (hstuck.mono (List.Subset.refl _) fun _ => Or.inl)⟩
    · refine ⟨m, hm, Or.inl (stuck_of_twin hsourced.info hkey ?_ htwin (Or.inr rfl))⟩
      exact hsourced'.members m hm
  · have htwin := Node.twin_of_identity hkey hkey'
    obtain ⟨m, hm, hsame⟩ := htwin.exists_member hsourced.info hsourced'.info hdefect hn
    exact ⟨m, hm, Or.inr hsame⟩

/-- A reference starts to be followed: the compositions that it was to hold up are held up by it. -/
theorem follow {info : NodeInfo} {target : Value} {x : String}
    (h : Held path active (Node.Twin (.ref info target))) (hinfo : info.Marked)
    (hx : Reference.given target = .ok x) : Held (x :: path) active pending := by
  intro info' shape' key hsourced hkey hactive
  obtain ⟨m, hm, hstuck | htwin⟩ := h info' shape' key hsourced hkey hactive
  · exact ⟨m, hm, Or.inl (hstuck.mono (List.subset_cons_self _ _) fun _ => id)⟩
  · obtain ⟨info'', target', rfl, hsame⟩ :=
      htwin.exists_ref hinfo (hsourced.members m hm).info
    refine ⟨_, hm, Or.inl fun y hy => ?_⟩
    rw [Node.Twin.given_eq hsame hx hy]
    exact List.mem_cons_self

end Held

namespace Resolving

variable {d : Document} {follow : Value → Resolving Node} {work : Work}

/-- The compositions of a document that are being settled. -/
def Settling (d : Document) (work : Work) : String → Prop :=
  fun key => work .composition (cacheKey d key)

theorem settling_add (key : String) :
    Settling d (work.add .composition (cacheKey d key)) =
      fun k => Settling d work k ∨ k = key := by
  funext k
  refine propext (or_congr_right ?_)
  exact ⟨fun h => (CacheKey.mk.inj h.2).2, fun h => ⟨rfl, h ▸ rfl⟩⟩

theorem settling_add_reference (x : String) :
    Settling d (work.add .reference (cacheKey d x)) = Settling d work := by
  funext k
  exact propext (or_iff_left fun h => nomatch h.1)

/-- An operation that yields results of a kind and changes nothing that bears on what is lost. -/
theorem balanced_of_yields {α : Type} {good : α → Prop} {act : Resolving α}
    (h : ∀ s, Yields (Session.Level s) good act) : Balanced work good act := by
  intro world s hs hvacant
  obtain ⟨hlevel, hgood⟩ := h s world s hs.level
  exact ⟨hlevel.counting hs, hlevel.vacant hvacant, fun shelf => (hlevel.lost shelf).ge,
    fun a ha => ⟨hgood a ha, hlevel.lost⟩⟩

section Members

variable {good : Node → Prop}

theorem balanced_settleInto {members : List Node}
    (hmembers : ∀ member ∈ members, Balanced work (fun _ => good member) (member.settle follow d))
    (merged : Merged) :
    Balanced work (fun _ => ∀ member ∈ members, good member)
      (Node.settleInto follow d merged members) := by
  induction members generalizing merged with
  | nil =>
      rw [Node.settleInto]
      exact balanced_pure fun _ hmember => absurd hmember (by simp)
  | cons member rest ih =>
      rw [Node.settleInto]
      refine (hmembers member List.mem_cons_self).bind fun n hmember => ?_
      refine (balanced_lift fun _ _ => trivial).bind fun next _ => ?_
      refine (ih (fun m hm => hmembers m (List.mem_cons_of_mem _ hm)) next).mono ?_
      exact fun _ hrest => List.forall_mem_cons.mpr ⟨hmember, hrest⟩

theorem balanced_settleVariants {members : List Node}
    (hmembers : ∀ member ∈ members, Balanced work (fun _ => good member) (member.settle follow d))
    (kind : CompositionKind) (number : Nat) :
    Balanced work (fun _ => ∀ member ∈ members, good member)
      (Node.settleVariants follow d kind number members) := by
  induction members generalizing number with
  | nil =>
      rw [Node.settleVariants]
      exact balanced_pure fun _ hmember => absurd hmember (by simp)
  | cons member rest ih =>
      rw [Node.settleVariants]
      refine (hmembers member List.mem_cons_self).bind fun n hmember => ?_
      refine (ih (fun m hm => hmembers m (List.mem_cons_of_mem _ hm)) (number + 1)).bind ?_
      exact fun others hrest => balanced_pure (List.forall_mem_cons.mpr ⟨hmember, hrest⟩)

/-- A composition is settled only if all its members are. -/
theorem balanced_settleKind {shape : CompositionShape Node}
    (hmembers : ∀ member ∈ shape.members,
      Balanced work (fun _ => good member) (member.settle follow d)) (info : NodeInfo) :
    Balanced work (fun _ => ∀ member ∈ shape.members, good member)
      (Node.settleKind follow d info shape) := by
  unfold Node.settleKind
  split
  · exact (balanced_settleInto hmembers _).bind fun _ hall => balanced_pure hall
  · split
    · exact balanced_throw _
    · exact (balanced_settleVariants hmembers _ _).bind fun _ hall => balanced_check fun _ _ => hall
  · exact (balanced_settleVariants hmembers _ _).bind fun _ hall => balanced_pure hall

end Members

/-- Whether following a reference is balanced whatever else is being worked on, and succeeds only if
the reference is not being followed already. -/
def BalancedFollowing (d : Document) (path : List String) (work : Work)
    (follow : Value → Resolving Node) : Prop :=
  ∀ info target, NodeInfo.Marked info →
    Held path (Settling d work) (Node.Twin (.ref info target)) →
      Balanced work (fun _ => ∃ x, Reference.given target = .ok x ∧ x ∉ path) (follow target)

/-- Settling is balanced, and succeeds only for a schema that is not stuck. -/
theorem balanced_settle {path : List String} {n : Node} (hn : n.Sourced)
    (hwork : ∀ x, work .reference (cacheKey d x) → x ∈ path)
    (hheld : Held path (Settling d work) (Node.Twin n))
    (hfollow : ∀ work' : Work, (∀ x, work' .reference (cacheKey d x) → x ∈ path) →
      BalancedFollowing d path work' follow) :
    Balanced work (fun _ => ¬n.Stuck path (Settling d work)) (n.settle follow d) := by
  induction n using Node.nested generalizing work with
  | hleaf n hleaf =>
      rw [Node.settle_leaf follow d hleaf]
      exact balanced_pure (Node.not_stuck_of_leaf hleaf)
  | href info target =>
      rw [Node.settle_ref]
      refine (hfollow work hwork info target hn.info hheld).mono fun _ hfollowed hstuck => ?_
      obtain ⟨x, hx, hnot⟩ := hfollowed
      exact hnot (hstuck x hx)
  | hcomposition info shape ih =>
      rw [Node.settle_composition]
      split
      · exact balanced_throw _
      · rename_i hdefect
        cases hkey : (Node.composition info shape).identity with
        | error fault => exact balanced_throw _
        | ok key =>
            rw [show check (Except.ok key) = (pure key : Resolving String) from rfl, pure_bind]
            have hiff : (Node.composition info shape).Stuck path (Settling d work) ↔
                work .composition (cacheKey d key) := by
              refine ⟨fun hstuck => hstuck key hkey, fun hactive key' hkey' => ?_⟩
              rw [hkey] at hkey'
              rwa [← Except.ok.inj hkey']
            have hmembers : ∀ member ∈ shape.members,
                Balanced (work.add .composition (cacheKey d key))
                  (fun _ => ¬member.Stuck path
                    (Settling d (work.add .composition (cacheKey d key))))
                  (member.settle follow d) := by
              intro member hmember
              refine ih member hmember (hn.members member hmember) ?_ ?_
              · rintro x (hold | ⟨hshelf, -⟩)
                · exact hwork x hold
                · cases hshelf
              · rw [settling_add]
                exact hheld.descend hn hdefect hkey hmember
            refine Balanced.recalled .composition (cacheKey d key)
              ((balanced_settleKind hmembers info).mono fun _ hall => ?_)
              (fun _ hnot => hiff.not.mp hnot) fun hnot _ => hiff.not.mpr hnot
            -- a member that holds up the composition would not have been settled
            intro hstuck
            have hactive : Settling d work key := hiff.mp hstuck
            obtain ⟨m, hm, hmember⟩ := hheld info shape key hn hkey hactive
            refine hall m hm ?_
            rw [settling_add]
            rcases hmember with hstuck | htwin
            · exact hstuck.mono (List.Subset.refl _) fun _ => Or.inl
            · exact Held.stuck_of_twin hn.info hkey (hn.members m hm) htwin (Or.inr rfl)

/-- What following does, with the steps before the writing of the reference put together. -/
theorem follow_succ (d : Document) (budget : Nat) (path : List String) (target : Value) :
    SchemaGraph.follow d (budget + 1) path target = do
      let reference ← lift (Reference.given target)
      if path.contains reference then throw (.circularReference reference)
      else
        match ← recallNode "reference" (·.references) (cacheKey d reference) with
        | some node => return node
        | none =>
          let resolved ← (do
            match (← get).caches.failure? (cacheKey d reference) with
            | some failure => throw failure
            | none =>
              let node ← d.target reference path
              node.settle (SchemaGraph.follow d budget (reference :: path)) d)
          keepReference (cacheKey d reference) resolved
          return resolved := by
  rw [SchemaGraph.follow]
  refine bind_congr fun reference => ?_
  split
  · rfl
  · refine bind_congr fun found => ?_
    cases found with
    | some n => rfl
    | none =>
        dsimp only
        rw [bind_assoc]
        refine bind_congr fun s => ?_
        cases s.caches.failure? (cacheKey d reference) with
        | some failure => rfl
        | none => exact (bind_assoc _ _ _).symm

theorem balanced_target (x : String) (path : List String) :
    Balanced work Node.Sourced (d.target x path) := by
  refine balanced_of_yields fun s => yields_sourced_target (Session.inward_level s) ?_ path
  intro t cause ht
  refine ht.of_abreast ⟨rfl, rfl, fun shelf => ?_⟩
  unfold keptFailure Caches.rememberFailure
  split <;> cases shelf <;> rfl

/-- Following references is balanced. -/
theorem balanced_follow (budget : Nat) (path : List String)
    (hwork : ∀ x, work .reference (cacheKey d x) → x ∈ path) :
    BalancedFollowing d path work (SchemaGraph.follow d budget path) := by
  induction budget generalizing path work with
  | zero => exact fun _ _ _ _ => balanced_throw _
  | succ budget ih =>
      intro info target hinfo hheld
      rw [follow_succ]
      cases hx : Reference.given target with
      | error failure => exact balanced_throw _
      | ok x =>
          rw [show lift (Except.ok x) = (pure x : Resolving String) from rfl, pure_bind]
          split
          · exact balanced_throw _
          · rename_i hnot
            have hfresh : x ∉ path := fun hin => hnot (List.contains_iff_mem.mpr hin)
            have hgood : ∃ y, Except.ok (ε := Failure) x = .ok y ∧ y ∉ path := ⟨x, rfl, hfresh⟩
            refine Balanced.recalled .reference (cacheKey d x) ?_
              (fun _ _ hwritten => hfresh (hwork x hwritten)) fun _ _ => hgood
            refine balanced_get_bind fun world s hs hvacant => ?_
            split
            · exact balanced_throw _ world s hs hvacant
            · refine (balanced_target x path).bind (fun n hn => ?_) world s hs hvacant
              have hpath : ∀ work' : Work, (∀ y, work' .reference (cacheKey d y) → y ∈ x :: path) →
                  BalancedFollowing d (x :: path) work' (SchemaGraph.follow d budget (x :: path)) :=
                fun work' hwork' => ih (x :: path) hwork'
              refine (balanced_settle hn ?_ ?_ hpath).mono fun _ _ => hgood
              · rintro y (hold | ⟨-, hkey⟩)
                · exact List.mem_cons_of_mem _ (hwork y hold)
                · rw [(CacheKey.mk.inj hkey).2]
                  exact List.mem_cons_self
              · rw [settling_add_reference]
                exact hheld.follow hinfo hx

/-- Whether neither references nor compositions are being worked on. -/
def Idle (work : Work) : Prop := ∀ key, ¬work .reference key ∧ ¬work .composition key

/-- Resolving a reference is balanced. -/
theorem balanced_resolveReference (hidle : Idle work) (d : Document) (path : List String)
    (target : Value) : Balanced work (fun _ => True) (resolveReference d path target) := by
  unfold resolveReference
  refine balanced_get_bind fun world s hs hvacant => ?_
  have hmarked : NodeInfo.Marked default := fun _ hentry => nomatch hentry
  refine (balanced_follow _ path ?_ default target hmarked ?_).mono
    (fun _ _ => trivial) world s hs hvacant
  · exact fun x hx => absurd hx (hidle _).1
  · exact Held.of_idle fun key => (hidle _).2

/-- Resolving a schema is balanced, if it was read or has nothing to settle. -/
theorem balanced_resolveNode (hidle : Idle work) (d : Document) {n : Node}
    (hn : n.Sourced ∨ n.isLeaf = true) : Balanced work (fun _ => True) (resolveNode d n) := by
  unfold resolveNode
  refine balanced_get_bind fun world s hs hvacant => ?_
  rcases hn with hsourced | hleaf
  · have hfollow : ∀ work' : Work, (∀ x, work' .reference (cacheKey d x) → x ∈ []) →
        BalancedFollowing d [] work'
          (follow d (pathBudget d s.externalSettings.maxDepth) []) :=
      fun work' hwork' => balanced_follow _ [] hwork'
    refine (balanced_settle hsourced ?_ ?_ hfollow).mono (fun _ _ => trivial) world s hs hvacant
    · exact fun x hx => absurd hx (hidle _).1
    · exact Held.of_idle fun key => (hidle _).2
  · rw [Node.settle_leaf _ d hleaf]
    have hpure : Balanced work (fun _ => True) (pure n) := balanced_pure trivial
    exact hpure world s hs hvacant

end Resolving

end SchemaGraph
