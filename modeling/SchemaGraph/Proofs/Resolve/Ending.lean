import Mathlib.Logic.Relation
import SchemaGraph.Proofs.Resolve.Calls

/-!
# Resolving comes to an end

Each reference that is followed leaves fewer that can be followed on its path, so chains of nested
calls end.  The bound is the number of references written in the document, the number of references
into other documents that the settings allow on a path, the first reference and one that fails.  The
settings tell how many references into other documents may come before another one is followed, so
there may be one more of them on a path.
Since no call is nested deeper, what a run below that depth would do does not matter: unrolling the
recursion that often gives what resolving gives.
-/

namespace SchemaGraph

open Relation Resolving

section Measure

variable {d : Document} {m : Int} {world : World} {settings : ExternalSettings}
  {path : List String} {bound : Nat}

namespace Document

/-- The references that can be followed with none into another document before them: the given one
and those that are written in the document, if they are not on the path. -/
def ahead (d : Document) (path : List String) (target : Value) : Finset String :=
  (match target with
    | .str x => insert x d.known
    | _ => d.known) \ path.toFinset

/-- How many references into other documents can still be followed on a path. -/
def hopsLeft (d : Document) (maxDepth : Int) (path : List String) : Nat :=
  (maxDepth + 1 - (path.filter d.leadsOutside).length).toNat

/-- The number of references that can still be followed, the given one first. -/
def left (d : Document) (maxDepth : Int) (path : List String) (target : Value) : Nat :=
  (d.ahead path target).card + d.hopsLeft maxDepth path

theorem card_ahead_le (d : Document) (path : List String) (target : Value) :
    (d.ahead path target).card ≤ (d.known \ path.toFinset).card + 1 := by
  unfold ahead
  split
  · rename_i x
    refine (Finset.card_le_card fun y hy => ?_).trans
      (Finset.card_insert_le x (d.known \ path.toFinset))
    rw [Finset.mem_sdiff, Finset.mem_insert] at hy
    rcases hy with ⟨rfl | hin, hpath⟩
    · exact Finset.mem_insert_self y _
    · exact Finset.mem_insert_of_mem (Finset.mem_sdiff.mpr ⟨hin, hpath⟩)
  · exact Nat.le_succ _

theorem ahead_of_mem_known {target : Value} (h : ∀ x, target = .str x → x ∈ d.known)
    (path : List String) : d.ahead path target = d.known \ path.toFinset := by
  unfold ahead
  split
  · rw [Finset.insert_eq_of_mem (h _ rfl)]
  · rfl

/-- Following a reference takes it away from those ahead. -/
theorem card_known_lt_ahead {x : String} (h : x ∉ path) :
    (d.known \ (x :: path).toFinset).card < (d.ahead path (.str x)).card :=
  card_sdiff_insert h

theorem hopsLeft_cons_le (x : String) : d.hopsLeft m (x :: path) ≤ d.hopsLeft m path := by
  unfold hopsLeft
  have hlength := (List.sublist_cons_self x path).filter d.leadsOutside |>.length_le
  omega

theorem hopsLeft_cons_lt {x : String} (hleads : d.leadsOutside x = true)
    (hdepth : ((path.filter d.leadsOutside).length : Int) ≤ m) :
    d.hopsLeft m (x :: path) < d.hopsLeft m path := by
  unfold hopsLeft
  rw [List.filter_cons_of_pos hleads, List.length_cons]
  omega

end Document

namespace Call

/-- The number of references on the path of a call that lead out of the document. -/
def hops (d : Document) (c : Call) : Nat := (c.path.filter d.leadsOutside).length

/-- Whether at most some number of references can still be followed in nested calls. -/
def Within (d : Document) (maxDepth : Int) (bound : Nat) : Call → Prop
  | .follow path target => d.left maxDepth path target ≤ bound
  | .settle path n => ∀ target ∈ n.follows, d.left maxDepth path target ≤ bound

/-- The number of references that can be followed from any call. -/
theorem within_all (c : Call) : c.Within d m (d.known.card + (m + 1).toNat + 1) := by
  have hfollow : ∀ path target, d.left m path target ≤ d.known.card + (m + 1).toNat + 1 := by
    intro path target
    have hahead := d.card_ahead_le path target
    have hknown := Finset.card_le_card (Finset.sdiff_subset (s := d.known) (t := path.toFinset))
    have hhops : d.hopsLeft m path ≤ (m + 1).toNat := by
      unfold Document.hopsLeft
      omega
    unfold Document.left
    omega
  cases c with
  | follow path target => exact hfollow path target
  | settle path n => exact fun target _ => hfollow path target

end Call

namespace Calls

/-- Settling leads to no reference that the whole schema does not lead to. -/
theorem within_settle {n : Node} {inner : Call}
    (hcall : Calls d world settings (.settle path n) inner)
    (h : (Call.settle path n).Within d m bound) : inner.Within d m bound := by
  cases hcall with
  | reference info target => exact h target (List.mem_singleton.mpr rfl)
  | member hmember =>
      exact fun target htarget => h target (Node.mem_follows_composition.mpr ⟨_, hmember, htarget⟩)

/-- A reference that is followed leaves fewer that can be. -/
theorem within_follow (hdepth : settings.maxDepth.number? = some (.int m)) {target : Value}
    {inner : Call} (hcall : Calls d world settings (.follow path target) inner)
    (h : (Call.follow path target).Within d m bound) :
    ∃ less, bound = less + 1 ∧ inner.Within d m less := by
  cases hcall with
  | @target _ _ x n s t hgiven hpath hs hn =>
      obtain rfl := Reference.eq_of_given hgiven
      have hless := d.card_known_lt_ahead hpath
      have hwithin : (d.ahead path (.str x)).card + d.hopsLeft m path ≤ bound := h
      refine ⟨bound - 1, by omega, fun target htarget => ?_⟩
      change (d.ahead (x :: path) target).card + d.hopsLeft m (x :: path) ≤ bound - 1
      rcases Document.target_cases hn with ⟨-, hlook⟩ | ⟨hleads, depth, u, hcount, hresolve⟩
      · -- the schema was read from the document, and so are its references
        have hknown : ∀ y, target = .str y → y ∈ d.known :=
          fun y hy => Document.mem_known_of_eager ⟨n, hlook, hy ▸ htarget⟩
        have hhops : d.hopsLeft m (x :: path) ≤ d.hopsLeft m path := d.hopsLeft_cons_le x
        rw [Document.ahead_of_mem_known hknown]
        omega
      · -- one reference more may be ahead, but one less into another document is
        rw [← hs] at hdepth
        have hlimit := External.depth_le_of_resolve hdepth hresolve
        rw [Document.outsideCount_eq hcount] at hlimit
        have hhops := Document.hopsLeft_cons_lt hleads hlimit
        have hahead := d.card_ahead_le (x :: path) target
        omega

/-- A reference into another document is followed only after as many others as the settings allow. -/
theorem hops_le (hdepth : settings.maxDepth.number? = some (.int m)) {outer inner : Call}
    (hcall : Calls d world settings outer inner) :
    (inner.hops d : Int) ≤ max (outer.hops d : Int) (m + 1) := by
  cases hcall with
  | @target path target x n s t hgiven hpath hs hn =>
      unfold Call.hops Call.path
      rcases Document.target_cases hn with ⟨hleads, -⟩ | ⟨hleads, depth, u, hcount, hresolve⟩
      · rw [List.filter_cons_of_neg (by simp [hleads])]
        exact le_max_left _ _
      · rw [← hs] at hdepth
        have hlimit := External.depth_le_of_resolve hdepth hresolve
        rw [Document.outsideCount_eq hcount] at hlimit
        rw [List.filter_cons_of_pos hleads, List.length_cons]
        omega
  | reference info target => exact le_max_left _ _
  | member hmember => exact le_max_left _ _

end Calls

end Measure

section Chains

variable {d : Document} {m : Int} {world : World} {settings : ExternalSettings}

/-- A call returns if the calls for the references that it leads to do. -/
theorem acc_settle {path : List String} {n : Node}
    (h : ∀ target ∈ n.follows,
      Acc (fun inner outer => Calls d world settings outer inner) (.follow path target)) :
    Acc (fun inner outer => Calls d world settings outer inner) (.settle path n) := by
  induction n using Node.nested with
  | hleaf n hn =>
      refine ⟨_, fun inner hcall => ?_⟩
      cases hcall <;> cases hn
  | href info target =>
      refine ⟨_, fun inner hcall => ?_⟩
      cases hcall
      exact h target (List.mem_singleton.mpr rfl)
  | hcomposition info shape ih =>
      refine ⟨_, fun inner hcall => ?_⟩
      cases hcall with
      | member hmember =>
          exact ih _ hmember fun target htarget =>
            h target (Node.mem_follows_composition.mpr ⟨_, hmember, htarget⟩)

theorem acc_follow (hdepth : settings.maxDepth.number? = some (.int m)) {bound : Nat}
    {path : List String} {target : Value} (h : (Call.follow path target).Within d m bound) :
    Acc (fun inner outer => Calls d world settings outer inner) (.follow path target) := by
  induction bound generalizing path target with
  | zero =>
      refine ⟨_, fun inner hcall => ?_⟩
      obtain ⟨less, hless, -⟩ := hcall.within_follow hdepth h
      cases hless
  | succ bound ih =>
      refine ⟨_, fun inner hcall => ?_⟩
      obtain ⟨less, hless, hinner⟩ := hcall.within_follow hdepth h
      obtain rfl := Nat.succ.inj hless
      cases hcall with
      | target => exact acc_settle fun target htarget => ih (hinner target htarget)

/-- There is no infinite chain of nested calls. -/
theorem wellFounded_calls (d : Document) (world : World)
    (hdepth : settings.maxDepth.number? = some (.int m)) :
    WellFounded fun inner outer => Calls d world settings outer inner := by
  refine ⟨fun c => ?_⟩
  cases c with
  | follow path target => exact acc_follow hdepth (Call.within_all _)
  | settle path n => exact acc_settle fun target _ => acc_follow hdepth (Call.within_all _)

/-- A chain of nested calls follows as many references as can be followed, and one that fails. -/
theorem length_targets_le (hdepth : settings.maxDepth.number? = some (.int m)) {c : Call}
    {calls : List Call} (hchain : (c :: calls).IsChain (Calls d world settings)) {bound : Nat}
    (h : c.Within d m bound) : ((c :: calls).filterMap Call.target?).length ≤ bound + 1 := by
  induction calls generalizing c bound with
  | nil =>
      have hlength := List.length_filterMap_le Call.target? [c]
      exact hlength.trans (Nat.le_add_left 1 bound)
  | cons inner rest ih =>
      obtain ⟨hcall, hrest⟩ := List.isChain_cons_cons.mp hchain
      cases c with
      | settle path n => exact ih hrest (hcall.within_settle h)
      | follow path target =>
          obtain ⟨less, rfl, hinner⟩ := hcall.within_follow hdepth h
          exact Nat.succ_le_succ (ih hrest hinner)

/-- The references that a chain of nested calls has followed before its last call are different, and
none of them was on the path at the start. -/
theorem distinct_targets {c : Call} {calls : List Call}
    (hchain : (c :: calls).IsChain (Calls d world settings)) :
    ∃ fresh : List String, (c :: calls).dropLast.filterMap Call.target? = fresh.map .str ∧
      fresh.Nodup ∧ ∀ x ∈ fresh, x ∉ c.path := by
  induction calls generalizing c with
  | nil => exact ⟨[], rfl, .nil, fun x hx => absurd hx (by simp)⟩
  | cons inner rest ih =>
      obtain ⟨hcall, hrest⟩ := List.isChain_cons_cons.mp hchain
      obtain ⟨fresh, heq, hnodup, hpath⟩ := ih hrest
      rw [List.dropLast_cons_cons]
      cases hcall with
      | @target path target x n s t hgiven hx hs hn =>
          obtain rfl := Reference.eq_of_given hgiven
          refine ⟨x :: fresh, ?_, ?_, ?_⟩
          · rw [List.map_cons, ← heq]
            rfl
          · exact List.nodup_cons.mpr ⟨fun hin => hpath x hin List.mem_cons_self, hnodup⟩
          · intro y hy
            rcases List.mem_cons.mp hy with rfl | hin
            · exact hx
            · exact fun hy => hpath y hin (List.mem_cons_of_mem _ hy)
      | reference info target => exact ⟨fresh, heq, hnodup, hpath⟩
      | member hmember => exact ⟨fresh, heq, hnodup, hpath⟩

/-- Between two references, compositions are settled at most as deep as they are nested. -/
theorem length_settles_le {path : List String} {n : Node} {calls : List Call}
    (hchain : (Call.settle path n :: calls).IsChain (Calls d world settings))
    (h : ∀ c ∈ calls, c.target? = none) : calls.length ≤ n.depth := by
  induction calls generalizing n with
  | nil => exact Nat.zero_le _
  | cons inner rest ih =>
      obtain ⟨hcall, hrest⟩ := List.isChain_cons_cons.mp hchain
      cases hcall with
      | reference info target => cases h _ List.mem_cons_self
      | member hmember =>
          have hlength := ih hrest fun c hc => h c (List.mem_cons_of_mem _ hc)
          exact Nat.succ_le_of_lt (hlength.trans_lt (Node.depth_lt_composition hmember))

end Chains

end SchemaGraph
