import SchemaGraph.Proofs.External.Blind
import SchemaGraph.Proofs.Resolve.Turns
import SchemaGraph.Proofs.Schema.Grouping
import SchemaGraph.Proofs.Schema.Placed

/-!
# Members resolved in groups

An `allOf` resolves its members one after the other.  Where nothing is cached, it makes no difference
whether a run of them stands in an `allOf` of its own: the members are resolved in the same order, the
place at which they are read and the records of the session do not matter, and what they resolve to is
merged in groups.
-/

namespace SchemaGraph

open Resolving

theorem Session.Cold.twins_self {s : Session} (hs : s.Cold) : s.Twins s := ⟨hs, hs, s.tracker, rfl⟩

theorem Session.Twins.trans {s t u : Session} (h : s.Twins t) (h' : t.Twins u) : s.Twins u := by
  obtain ⟨hs, -, v, rfl⟩ := h
  obtain ⟨-, hu, w, rfl⟩ := h'
  exact ⟨hs, hu, w, rfl⟩

namespace Node

section Turns

variable {rel : Session → Session → Prop} {R : Node → Node → Prop}
  {follow follow' : Value → Resolving Node} {d : Document} {world : World}

/-- Schemas that settle side by side one by one settle side by side in turn. -/
theorem InTurn.beside {members members' resolved : List Node} {s s' t : Session}
    (h : InTurn (settle follow d) world s members resolved t)
    (hmembers : List.Forall₂ (SettleBeside rel R follow follow' d world) members members')
    (hrel : rel s s') :
    ∃ resolved' t', InTurn (settle follow' d) world s' members' resolved' t' ∧
      List.Forall₂ R resolved resolved' ∧ rel t t' := by
  induction h generalizing members' s' with
  | nil s =>
      rw [List.forall₂_nil_left_iff.mp hmembers]
      exact ⟨[], s', .nil s', .nil, hrel⟩
  | @cons s t u member n rest resolved hn _ ih =>
      obtain ⟨member', rest', hmember, hrest, rfl⟩ := List.forall₂_cons_left_iff.mp hmembers
      obtain ⟨hrel', hagree⟩ := hmember s s' hrel
      rw [hn] at hrel' hagree
      rcases hrun : settle follow' d member' world s' with ⟨result', t'⟩
      rw [hrun] at hrel' hagree
      cases hagree with
      | ok hnn =>
          obtain ⟨resolved', u', hturn, hresolved, hend⟩ := ih hrest hrel'
          exact ⟨_, u', .cons hrun hturn, .cons hnn hresolved, hend⟩

end Turns

section Twins

variable {d : Document} {world : World} {budget : Nat} {path : List String}

/-- Whatever is related by a congruence that keeps targets settles side by side, wherever the sessions
differ in their records only. -/
theorem settleBeside_twins {R : Node → Node → Prop} {T N : Value → Value → Prop}
    (C : Congruence R T N) (hrefl : ∀ n, R n n)
    (htargets : ∀ {target target'}, T target target' → target = target') {n n' : Node}
    (h : R n n') :
    SettleBeside Session.Twins R (SchemaGraph.follow d budget path)
      (SchemaGraph.follow d budget path) d world n n' :=
  settleBeside_follow C hrefl htargets paired_twins foundBeside_twins h fun _ _ _ _ => trivial

variable {members members' resolved : List Node} {s s' t : Session}

/-- The records of a session do not matter for what schemas settle to. -/
theorem InTurn.twins (h : InTurn (settle (SchemaGraph.follow d budget path) d) world s members
    resolved t) (hs : s.Twins s') :
    ∃ t', InTurn (settle (SchemaGraph.follow d budget path) d) world s' members resolved t' ∧
      t.Twins t' := by
  have hmembers : List.Forall₂ (SettleBeside Session.Twins Eq (SchemaGraph.follow d budget path)
      (SchemaGraph.follow d budget path) d world) members members :=
    List.forall₂_same.mpr fun member _ =>
      settleBeside_twins congruence_eq (fun _ => rfl) (fun h => h) rfl
  obtain ⟨resolved', t', hturn, hresolved, ht⟩ := h.beside hmembers hs
  rw [List.forall₂_eq_eq_eq] at hresolved
  exact ⟨t', hresolved ▸ hturn, ht⟩

/-- Nor does the place at which they stand. -/
theorem InTurn.misplaced (h : InTurn (settle (SchemaGraph.follow d budget path) d) world s members
    resolved t) (hmembers : List.Forall₂ Misplaced members members') (hs : s.Twins s') :
    ∃ resolved' t', InTurn (settle (SchemaGraph.follow d budget path) d) world s' members' resolved'
      t' ∧ List.Forall₂ Misplaced resolved resolved' ∧ t.Twins t' := by
  refine h.beside (hmembers.imp fun n n' hn => ?_) hs
  exact settleBeside_twins (congruence_moved namesKept_id) Misplaced.refl (fun h => h.1) hn

theorem absorbAll_misplaced {m m' last : Merged} {resolved' : List Node}
    (hm : Misplaced m.node m'.node) (hresolved : List.Forall₂ Misplaced resolved resolved')
    (h : m.absorbAll resolved = .ok last) :
    ∃ last', m'.absorbAll resolved' = .ok last' ∧ Misplaced last.node last'.node := by
  induction hresolved generalizing m m' with
  | nil =>
      obtain rfl := Except.ok.inj h
      exact ⟨m', rfl, hm⟩
  | cons hn _ ih =>
      rw [Merged.absorbAll_cons, bind_eq_ok] at h
      obtain ⟨next, hnext, h⟩ := h
      obtain ⟨next', hnext', hsame⟩ :=
        ((congruence_moved namesKept_id).absorb hm hn).exists_ok hnext
      obtain ⟨last', hlast', hend⟩ := ih hsame h
      refine ⟨last', ?_, hend⟩
      rw [Merged.absorbAll_cons, hnext']
      exact hlast'

end Twins

section AllOf

variable {d : Document} {world : World} {budget : Nat} {path : List String} {place : String}
  {items : List Value} {members : List Node} {s t : Session}

theorem memberDefect_list_eq_none : memberDefect? (.list items) = none ↔ items ≠ [] := by
  rw [memberDefect_list]
  cases items <;> simp

/-- An `allOf` that can be written settles in a cold session to what its members settle to in turn and
are merged to. -/
theorem settle_of_turn (place : String) (hs : s.Cold) (hitems : items ≠ [])
    (hwritable : ∀ member ∈ members, Json.Writable member.write) {resolved : List Node}
    {last : Merged}
    (hturn : InTurn (settle (SchemaGraph.follow d budget path) d) world s members resolved t)
    (hlast : Merged.blank.absorbAll resolved = .ok last) :
    ∃ t', (allOfNode place items members).settle (SchemaGraph.follow d budget path) d world s =
      (.ok last.node, t') ∧ t.Twins t' := by
  obtain ⟨key, hkey⟩ := identity_allOf_iff.mpr hwritable
  have hsettled : ∃ n t', (n = last.node ∧ t.Twins t') ∧
      (allOfNode place items members).settle (SchemaGraph.follow d budget path) d world s =
        (.ok n, t') :=
    exists_settle_of_built hs (memberDefect_list_eq_none.mpr hitems) hkey (fun h => h.2.2.1)
      (fun h hu => ⟨h.1, h.2.trans (h.2.2.1.twins hu)⟩) fun u hu => by
        obtain ⟨t', hturn', ht'⟩ := hturn.twins (hs.twins hu)
        exact ⟨last.node, t', ⟨rfl, ht'⟩, (settleKind_allOf_eq_ok rfl).mpr
          ⟨resolved, last, hturn', hlast, rfl⟩⟩
  obtain ⟨n, t', ⟨rfl, ht'⟩, hrun⟩ := hsettled
  exact ⟨t', hrun, ht'⟩

/-- What an `allOf` settles to in a cold session is what its members settle to in turn and are merged
to. -/
theorem turn_of_settle (hs : s.Cold) {n : Node}
    (h : (allOfNode place items members).settle (SchemaGraph.follow d budget path) d world s =
      (.ok n, t)) :
    items ≠ [] ∧ (∀ member ∈ members, Json.Writable member.write) ∧
      ∃ resolved last t',
        InTurn (settle (SchemaGraph.follow d budget path) d) world s members resolved t' ∧
        Merged.blank.absorbAll resolved = .ok last ∧ n = last.node ∧ t'.Twins t := by
  obtain ⟨hdefect, key, hkey⟩ := identity_of_settle h
  obtain ⟨u, built, hu, hbuilt, hkept⟩ := built_of_settle hs hdefect hkey h
  obtain ⟨resolved, last, hturn, hlast, rfl⟩ := (settleKind_allOf_eq_ok rfl).mp hbuilt
  obtain ⟨t', hturn', ht'⟩ := hturn.twins (hs.twins hu).symm
  obtain ⟨v, hv, rfl⟩ := hkept ht'.1
  exact ⟨memberDefect_list_eq_none.mp hdefect, identity_allOf_iff.mp ⟨key, hkey⟩, resolved, last, t',
    hturn', hlast, rfl, ht'.symm.trans (ht'.1.twins hv)⟩

end AllOf

section Groups

variable {d : Document} {world : World} {budget : Nat} {path : List String} {s : Session}
  {front run back front' run' back' : List Node} {place : String} {items : List Value}

theorem InTurn.ne_nil {act : Node → Resolving Node} {members resolved : List Node} {t : Session}
    (h : InTurn act world s members resolved t) (hmembers : members ≠ []) : resolved ≠ [] := by
  cases h with
  | nil => exact absurd rfl hmembers
  | cons => exact List.cons_ne_nil _ _

variable (hs : s.Cold) (hrun : run ≠ []) (hfronts : List.Forall₂ Misplaced front front')
  (hruns : List.Forall₂ Misplaced run run') (hbacks : List.Forall₂ Misplaced back back')
  (htyped : ∀ resolved t, InTurn (settle (SchemaGraph.follow d budget path) d) world s
    (front ++ run ++ back) resolved t → ∀ n ∈ resolved, n.Proper ∧ n.Typed)
include hs hrun hfronts hruns hbacks htyped

/-- Members that resolve and merge do so if a run of them stands in an `allOf` of its own. -/
theorem turn_group (place : String) (hitems : items ≠ [])
    (hwritable : ∀ member ∈ run', Json.Writable member.write)
    {resolved : List Node} {last : Merged} {t : Session}
    (hturn : InTurn (settle (SchemaGraph.follow d budget path) d) world s (front ++ run ++ back)
      resolved t) (hlast : Merged.blank.absorbAll resolved = .ok last) :
    ∃ resolved' last' t',
      InTurn (settle (SchemaGraph.follow d budget path) d) world s
        (front' ++ allOfNode place items run' :: back') resolved' t' ∧
      Merged.blank.absorbAll resolved' = .ok last' ∧ Misplaced last.node last'.node := by
  have hdefinite := htyped resolved t hturn
  obtain ⟨group, backs, s₂, rfl, hgroup, hback⟩ := hturn.of_append
  obtain ⟨fronts, runs, s₁, rfl, hfront, hmiddle⟩ := hgroup.of_append
  obtain ⟨inner, hinner, hmerged⟩ := (Merged.absorbAll_group (hmiddle.ne_nil hrun)
    (fun n hn => (hdefinite n hn).1) fun n hn => (hdefinite n hn).2).mp hlast
  -- the same members in turn, with the run resolved and merged where its `allOf` stands
  obtain ⟨fronts', s₁', hfront', hfronts', h₁⟩ := hfront.misplaced hfronts hs.twins_self
  obtain ⟨runs', s₂', hmiddle', hruns', h₂⟩ := hmiddle.misplaced hruns h₁
  obtain ⟨inner', hinner', hsame⟩ := absorbAll_misplaced (.refl _) hruns' hinner
  obtain ⟨s₂'', hsettle, h₂'⟩ := settle_of_turn place h₁.2.1 hitems hwritable hmiddle' hinner'
  obtain ⟨backs', t', hback', hbacks', -⟩ := hback.misplaced hbacks (h₂.trans h₂')
  obtain ⟨last', hlast', hend⟩ :=
    absorbAll_misplaced (.refl _) (List.rel_append hfronts' (.cons hsame hbacks')) hmerged
  exact ⟨_, last', t', hfront'.append (.cons hsettle hback'), hlast', hend⟩

/-- Members of which a run stands in an `allOf` of its own resolve and merge if all of them do. -/
theorem turn_ungroup {resolved' : List Node} {last' : Merged} {t' : Session}
    (hturn : InTurn (settle (SchemaGraph.follow d budget path) d) world s
      (front' ++ allOfNode place items run' :: back') resolved' t')
    (hlast : Merged.blank.absorbAll resolved' = .ok last') :
    ∃ resolved last t,
      InTurn (settle (SchemaGraph.follow d budget path) d) world s (front ++ run ++ back)
        resolved t ∧
      Merged.blank.absorbAll resolved = .ok last ∧ Misplaced last'.node last.node := by
  obtain ⟨fronts', rest', s₁', rfl, hfront', hrest'⟩ := hturn.of_append
  cases hrest' with
  | @cons _ s₂' _ _ n' _ backs' hsettle hback' =>
      obtain ⟨fronts, s₁, hfront, hfronts', h₁⟩ :=
        hfront'.misplaced (misplaced_symm_each hfronts) hs.twins_self
      obtain ⟨-, -, runs', inner', u', hmiddle', hinner', rfl, hu'⟩ := turn_of_settle h₁.1 hsettle
      obtain ⟨runs, s₂, hmiddle, hruns', h₂⟩ :=
        hmiddle'.misplaced (misplaced_symm_each hruns) h₁
      obtain ⟨backs, t, hback, hbacks', -⟩ := hback'.misplaced
        (misplaced_symm_each hbacks) (hu'.symm.trans h₂)
      have hall := (hfront.append hmiddle).append hback
      have hdefinite := htyped _ t hall
      obtain ⟨inner, hinner, hsame⟩ := absorbAll_misplaced (.refl _) hruns' hinner'
      obtain ⟨last, hmerged, hend⟩ :=
        absorbAll_misplaced (.refl _) (List.rel_append hfronts' (.cons hsame hbacks')) hlast
      refine ⟨_, last, t, hall, ?_, hend⟩
      exact (Merged.absorbAll_group (hmiddle.ne_nil hrun) (fun n hn => (hdefinite n hn).1)
        fun n hn => (hdefinite n hn).2).mpr ⟨inner, hinner, hmerged⟩

end Groups

section Readings

variable {d : Document} {world : World} {budget : Nat} {path : List String} {s : Session}

/-- How the schema is written that an operation gives, if it gives one. -/
def written (result : Except Failure Node) : Option Value := result.toOption.map write

theorem written_eq_some {result : Except Failure Node} {v : Value} :
    written result = some v ↔ ∃ n, result = .ok n ∧ n.write = v := by
  cases result with
  | ok n =>
      constructor
      · exact fun h => ⟨n, rfl, Option.some.inj h⟩
      · rintro ⟨m, hm, rfl⟩
        rw [Except.ok.inj hm]
        rfl
  | error failure => exact iff_of_false (fun h => nomatch h) fun ⟨_, h, _⟩ => nomatch h

theorem readOf_of_append {items others : List Value} {nodes : List Node}
    (h : List.Forall₂ ReadOf (items ++ others) nodes) :
    ∃ front back, nodes = front ++ back ∧ List.Forall₂ ReadOf items front ∧
      List.Forall₂ ReadOf others back :=
  ⟨nodes.take items.length, nodes.drop items.length, (List.take_append_drop _ _).symm,
    (List.forall₂_take_append _ _ _ h.flip).flip, (List.forall₂_drop_append _ _ _ h.flip).flip⟩

/-- An `allOf` can be read exactly if it can with a run of its members in an `allOf` of its own. -/
theorem readable_regrouped (front run back : List Value) :
    (∃ n, ReadOf (allOfSchema (front ++ run ++ back)) n) ↔
      ∃ n, ReadOf (allOfSchema (front ++ allOfSchema run :: back)) n := by
  rw [readable_allOf, readable_allOf, List.forall_mem_append, List.forall_mem_append,
    List.forall_mem_append, List.forall_mem_cons, readable_allOf, and_assoc]

/-- An `allOf` settles to what it settles to with a run of its members in an `allOf` of its own, if
the properties that its members resolve to all have types. -/
theorem settle_regrouped {front run back : List Value} {n n' : Node} (hs : s.Cold) (hrun : run ≠ [])
    (h : ReadOf (allOfSchema (front ++ run ++ back)) n)
    (h' : ReadOf (allOfSchema (front ++ allOfSchema run :: back)) n')
    (htyped : ∀ info shape resolved t, n = .composition info shape →
      InTurn (settle (SchemaGraph.follow d budget path) d) world s shape.members resolved t →
      ∀ r ∈ resolved, r.Proper ∧ r.Typed) :
    written (n.settle (SchemaGraph.follow d budget path) d world s).1 =
      written (n'.settle (SchemaGraph.follow d budget path) d world s).1 := by
  obtain ⟨place, members, rfl, hmembers⟩ := readOf_allOf h
  obtain ⟨place', members', rfl, hmembers'⟩ := readOf_allOf h'
  obtain ⟨group, backs, rfl, hgroup, hbacks⟩ := readOf_of_append hmembers
  obtain ⟨fronts, runs, rfl, hfronts, hruns⟩ := readOf_of_append hgroup
  obtain ⟨fronts', rest', rfl, hfronts', hrest'⟩ := readOf_of_append hmembers'
  obtain ⟨inner', backs', hinner', hbacks', rfl⟩ := List.forall₂_cons_left_iff.mp hrest'
  obtain ⟨place'', runs', rfl, hruns'⟩ := readOf_allOf hinner'
  have hne : runs ≠ [] := by
    rintro rfl
    exact hrun (List.forall₂_nil_right_iff.mp hruns)
  have hsameFronts := ReadOf.misplaced_each hfronts hfronts'
  have hsameRuns := ReadOf.misplaced_each hruns hruns'
  have hsameBacks := ReadOf.misplaced_each hbacks hbacks'
  have hturns : ∀ resolved t, InTurn (settle (SchemaGraph.follow d budget path) d) world s
      (fronts ++ runs ++ backs) resolved t → ∀ r ∈ resolved, r.Proper ∧ r.Typed :=
    fun resolved t => htyped _ _ resolved t rfl
  -- what can be written does not depend on the grouping either
  have hwritable : (∀ member ∈ fronts ++ runs ++ backs, Json.Writable member.write) ↔
      ∀ member ∈ fronts' ++ allOfNode place'' run runs' :: backs', Json.Writable member.write := by
    rw [List.forall_mem_append, List.forall_mem_append, List.forall_mem_append,
      List.forall_mem_cons, writable_allOfNode, writable_misplaced hsameFronts,
      writable_misplaced hsameRuns, writable_misplaced hsameBacks, and_assoc]
  refine Option.ext fun v => ?_
  rw [written_eq_some, written_eq_some]
  constructor
  · rintro ⟨m, hm, rfl⟩
    obtain ⟨-, hwrite, resolved, last, t', hturn, hlast, rfl, -⟩ :=
      turn_of_settle hs (Prod.ext hm rfl)
    have hwrite' := hwritable.mp hwrite
    have hinner := writable_allOfNode.mp
      ((List.forall_mem_cons.mp (List.forall_mem_append.mp hwrite').2).1)
    obtain ⟨resolved', last', u, hturn', hlast', hsame⟩ := turn_group hs hne hsameFronts
      hsameRuns hsameBacks hturns place'' hrun hinner hturn hlast
    have hitems : front ++ allOfSchema run :: back ≠ [] := by simp
    obtain ⟨u', hsettle', -⟩ := settle_of_turn place' hs hitems hwrite' hturn' hlast'
    exact ⟨last'.node, congrArg Prod.fst hsettle', (Misplaced.write hsame).symm⟩
  · rintro ⟨m, hm, rfl⟩
    obtain ⟨-, hwrite, resolved', last', t', hturn, hlast, rfl, -⟩ :=
      turn_of_settle hs (Prod.ext hm rfl)
    obtain ⟨resolved, last, u, hturn', hlast', hsame⟩ := turn_ungroup hs hne hsameFronts hsameRuns
      hsameBacks hturns hturn hlast
    have hitems : front ++ run ++ back ≠ [] := by simp [hrun]
    obtain ⟨u', hsettle', -⟩ :=
      settle_of_turn place hs hitems (hwritable.mpr hwrite) hturn' hlast'
    exact ⟨last.node, congrArg Prod.fst hsettle', (Misplaced.write hsame).symm⟩

end Readings

end Node

end SchemaGraph
