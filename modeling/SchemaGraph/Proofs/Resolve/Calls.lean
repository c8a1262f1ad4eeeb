import SchemaGraph.Proofs.Resolve.Local
import SchemaGraph.Proofs.Resolve.Steady

/-!
# The calls of resolving

Following and settling call each other.  A call may make another one while it runs: following a
reference settles its target on the longer path, settling a reference follows it, and settling a
composition settles its members.  A target can be any schema that is found in a session with the same
external settings, since nothing else of a session is known when a call is made.

The references that can still be followed shrink along nested calls.  Those that are written in the
document can be followed until they are on the path.  Any other reference was declared in another
document, or given at the start; so there are no more of these than references into other documents,
and one.
-/

namespace SchemaGraph

open Resolving

namespace Node

mutual

/-- How deep compositions are nested in a schema. -/
def depth : Node → Nat
  | .composition _ ⟨_, _, members, _, _, _⟩ => membersDepth members + 1
  | _ => 0

/-- How deep compositions are nested in members. -/
def membersDepth : List Node → Nat
  | [] => 0
  | member :: rest => max (depth member) (membersDepth rest)

end

theorem depth_le_membersDepth {members : List Node} {member : Node} (h : member ∈ members) :
    member.depth ≤ membersDepth members := by
  induction members with
  | nil => exact absurd h (by simp)
  | cons first rest ih =>
      rw [membersDepth]
      rcases List.mem_cons.mp h with rfl | hin
      · exact le_max_left _ _
      · exact (ih hin).trans (le_max_right _ _)

theorem depth_lt_composition {info : NodeInfo} {shape : CompositionShape Node} {member : Node}
    (h : member ∈ shape.members) : member.depth < (Node.composition info shape).depth := by
  change member.depth < membersDepth shape.members + 1
  exact Nat.lt_succ_of_le (depth_le_membersDepth h)

end Node

/-- A call of one of the two functions, with the references that are being followed. -/
inductive Call where
  | follow (path : List String) (target : Value)
  | settle (path : List String) (n : Node)

namespace Call

/-- The references that are being followed. -/
def path : Call → List String
  | .follow path _ | .settle path _ => path

/-- What is to be followed. -/
def target? : Call → Option Value
  | .follow _ target => some target
  | .settle _ _ => none

end Call

/-- The calls that a call can make. -/
inductive Calls (d : Document) (world : World) (settings : ExternalSettings) : Call → Call → Prop
  | target {path : List String} {target : Value} {x : String} {n : Node} {s t : Session} :
      Reference.given target = .ok x → x ∉ path → s.externalSettings = settings →
      d.target x path world s = (.ok n, t) →
      Calls d world settings (.follow path target) (.settle (x :: path) n)
  | reference {path : List String} (info : NodeInfo) (target : Value) :
      Calls d world settings (.settle path (.ref info target)) (.follow path target)
  | member {path : List String} {info : NodeInfo} {shape : CompositionShape Node} {member : Node} :
      member ∈ shape.members →
      Calls d world settings (.settle path (.composition info shape)) (.settle path member)

namespace Resolving

variable {α β : Type} {act : Resolving α} {next : α → Resolving β} {scene : Scene} {s t : Session}

/-- A result of two operations in turn comes from a result of the first one. -/
theorem bind_eq_ok_run {b : β} (h : (act >>= next) scene s = (.ok b, t)) :
    ∃ a u, act scene s = (.ok a, u) ∧ next a scene u = (.ok b, t) := by
  rw [bind_apply] at h
  rcases hrun : act scene s with ⟨result, u⟩
  rw [hrun] at h
  cases result with
  | ok a => exact ⟨a, u, rfl, h⟩
  | error failure => cases h

theorem lift_eq_ok {result : Except Failure α} {a : α} (h : lift result scene s = (.ok a, t)) :
    result = .ok a ∧ t = s := by
  cases result with
  | ok b =>
      obtain ⟨hb, ht⟩ := Prod.mk.inj h
      exact ⟨by rw [Except.ok.inj hb], ht.symm⟩
  | error failure => cases h

theorem check_eq_ok {result : Except Fault α} {a : α} (h : check result scene s = (.ok a, t)) :
    result = .ok a ∧ t = s :=
  ⟨orFail_eq_ok.mp (lift_eq_ok h).1, (lift_eq_ok h).2⟩

/-- What an attempted operation has given. -/
theorem attempt_eq_ok {a : α} (h : attempt act scene s = (.ok (.ok a), t)) :
    act scene s = (.ok a, t) := by
  rw [attempt_scene_apply] at h
  rcases hrun : act scene s with ⟨result, u⟩
  rw [hrun] at h
  cases result with
  | ok b =>
      obtain ⟨hb, hu⟩ := Prod.mk.inj h
      rw [Except.ok.inj (Except.ok.inj hb), hu]
  | error failure =>
      dsimp only at h
      split at h
      · cases (Prod.mk.inj h).1
      · cases Except.ok.inj (Prod.mk.inj h).1

end Resolving

namespace Document

variable {d : Document}

/-- Whether a reference leads outside of the document. -/
def leadsOutside (d : Document) (x : String) : Bool :=
  match Reference.read? x with
  | some parsed =>
    match d.isOutside parsed.location with
    | .ok outside => outside
    | .error _ => false
  | none => false

theorem filterAuxM_eq_ok {test : String → Except Fault Bool} {kept : String → Bool}
    (hkept : ∀ x outside, test x = .ok outside → kept x = outside) {path before found : List String}
    (h : path.filterAuxM test before = .ok found) :
    found = (path.filter kept).reverse ++ before := by
  induction path generalizing before with
  | nil => exact (Except.ok.inj h).symm
  | cons x rest ih =>
      rw [List.filterAuxM, bind_eq_ok] at h
      obtain ⟨outside, houtside, h⟩ := h
      rw [ih h, List.filter_cons, hkept x outside houtside]
      cases outside with
      | false => rfl
      | true => simp

/-- The references that are counted are those that lead outside. -/
theorem outsideCount_eq {path : List String} {count : Nat} (h : d.outsideCount path = .ok count) :
    count = (path.filter d.leadsOutside).length := by
  unfold outsideCount List.filterM at h
  rw [bind_eq_ok] at h
  obtain ⟨outside, houtside, h⟩ := h
  rw [bind_eq_ok] at houtside
  obtain ⟨found, hfound, houtside⟩ := houtside
  have heq : found = (path.filter d.leadsOutside).reverse ++ [] := by
    refine filterAuxM_eq_ok (fun x outside hx => ?_) hfound
    unfold leadsOutside
    cases hread : Reference.read? x with
    | none =>
        rw [hread] at hx
        exact Except.ok.inj hx
    | some parsed =>
        rw [hread] at hx
        dsimp only at hx ⊢
        rw [hx]
  rw [← Except.ok.inj h, ← Except.ok.inj houtside, heq]
  simp

end Document

section Targets

variable {d : Document} {scene : Scene} {s t : Session} {m : Int} {x : String}
  {path : List String} {n : Node}

/-- A schema of another document is given only to a depth that the settings allow. -/
theorem External.depth_le_of_resolve {reference : Value} {base : String} {depth : Nat}
    (hdepth : s.externalSettings.maxDepth.number? = some (.int m))
    (h : External.resolve reference base (.ofNat depth) scene s = (.ok n, t)) : (depth : Int) ≤ m := by
  unfold External.resolve at h
  obtain ⟨state, u, hget, h⟩ := bind_eq_ok_run h
  obtain ⟨hstate, hu⟩ := Prod.mk.inj hget
  rw [← Except.ok.inj hstate, ← hu] at h
  obtain ⟨limit, u', hlimit, h⟩ := bind_eq_ok_run h
  have hm : limit = .int m := by
    have hnumber := (check_eq_ok hlimit).1
    unfold Value.number at hnumber
    rw [hdepth] at hnumber
    exact (Except.ok.inj hnumber).symm
  obtain ⟨given, u'', hgiven, h⟩ := bind_eq_ok_run h
  have hn : given = .int depth := (Except.ok.inj (check_eq_ok hgiven).1).symm
  rw [hm, hn, Number.lt_int] at h
  by_contra hlt
  rw [decide_eq_true (not_le.mp hlt)] at h
  cases h

/-- The target of a reference into the document is found in its registry. -/
theorem Document.target_cases (h : d.target x path scene s = (.ok n, t)) :
    (d.leadsOutside x = false ∧ d.look x = .ok n) ∨ (d.leadsOutside x = true ∧ ∃ depth u,
      d.outsideCount path = .ok depth ∧
      External.resolve (.str x) d.source (.ofNat depth) scene s = (.ok n, u)) := by
  unfold Document.target at h
  cases hread : Reference.read? x with
  | none =>
      rw [hread] at h
      cases h
  | some parsed =>
      rw [hread] at h
      obtain ⟨outside, u, hasked, h⟩ := bind_eq_ok_run h
      obtain ⟨houtside, hu⟩ := check_eq_ok hasked
      rw [hu] at h
      have hleads : d.leadsOutside x = outside := by
        unfold Document.leadsOutside
        rw [hread]
        dsimp only
        rw [houtside]
      cases outside with
      | false =>
          refine Or.inl ⟨hleads, ?_⟩
          unfold Document.look
          rw [hread]
          exact (lift_eq_ok h).1
      | true =>
          rw [if_pos rfl] at h
          unfold outsideTarget at h
          obtain ⟨depth, v, hcounted, h⟩ := bind_eq_ok_run h
          obtain ⟨hdepth, hv⟩ := check_eq_ok hcounted
          rw [hv] at h
          obtain ⟨outcome, w, hrun, h⟩ := bind_eq_ok_run h
          refine Or.inr ⟨hleads, depth, w, hdepth, ?_⟩
          cases outcome with
          | ok m =>
              obtain ⟨hm, -⟩ := Prod.mk.inj h
              rw [← Except.ok.inj hm]
              exact attempt_eq_ok hrun
          | error cause =>
              -- a failure is thrown again, whether or not it is remembered
              obtain ⟨state, w, -, h⟩ := bind_eq_ok_run h
              obtain ⟨-, w, -, h⟩ := bind_eq_ok_run h
              obtain ⟨-, w, -, h⟩ := bind_eq_ok_run h
              cases h

end Targets

end SchemaGraph
