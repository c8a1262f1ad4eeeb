import SchemaGraph.Proofs.Resolve.Moved

/-!
# Following without a guard

To follow a reference with fuel alone, whatever is being followed already.  A cycle would use up any
fuel, so there is none below a reference that can be followed in this way; the guard against cycles
would not have found one, and following with it gives the same.

The guard compares references as they are spelled.  Without it the spelling does not matter: two ways
to find schemas that agree up to targets lead to schemas that agree up to targets.
-/

namespace SchemaGraph

open Relation

/-- Follow a reference, whatever is being followed already. -/
def unguarded (look : String → Except Failure Node) : Nat → Value → Except Failure Node
  | 0, _ => .error (.fault .budgetExhausted)
  | fuel + 1, target => do
    let text ← Reference.given target
    (← look text).settled (unguarded look fuel)

section Cycles

variable {look : String → Except Failure Node} {fuel : Nat}

theorem unguarded_succ {x : String} (h : Reference.given (.str x) = .ok x) (fuel : Nat) :
    unguarded look (fuel + 1) (.str x) = look x >>= fun n => n.settled (unguarded look fuel) := by
  rw [unguarded, h]
  rfl

/-- What is known of a reference that was followed. -/
theorem unguarded_eq_ok {target : Value} {m : Node} (h : unguarded look fuel target = .ok m) :
    ∃ less x n, fuel = less + 1 ∧ target = .str x ∧ Reference.given (.str x) = .ok x ∧
      look x = .ok n ∧ n.settled (unguarded look less) = .ok m := by
  cases fuel with
  | zero => cases h
  | succ less =>
      have hwhole := h
      rw [unguarded, bind_eq_ok] at h
      obtain ⟨x, hx, -⟩ := h
      obtain rfl := Reference.eq_of_given hx
      rw [unguarded_succ hx, bind_eq_ok] at hwhole
      obtain ⟨n, hn, hsettled⟩ := hwhole
      exact ⟨less, x, n, rfl, rfl, hx, hn, hsettled⟩

/-- What was followed with the guard is followed without it. -/
theorem unguarded_of_followed {path : List String} {target : Value} {m : Node}
    (h : followed look fuel path target = .ok m) : unguarded look fuel target = .ok m := by
  induction fuel generalizing path target m with
  | zero => cases h
  | succ fuel ih =>
      obtain ⟨less, x, n, hfuel, rfl, hgiven, -, hn, hsettled⟩ := followed_eq_ok h
      obtain rfl : fuel = less := by omega
      rw [unguarded_succ hgiven, hn]
      exact Node.settled_of_imp hsettled fun _ _ _ hm' => ih hm'

/-- More fuel does no harm. -/
theorem unguarded_mono {fuel' : Nat} {target : Value} {m : Node}
    (h : unguarded look fuel target = .ok m) (hle : fuel ≤ fuel') :
    unguarded look fuel' target = .ok m := by
  induction fuel generalizing fuel' target m with
  | zero => cases h
  | succ fuel ih =>
      obtain ⟨less, x, n, hfuel, rfl, hgiven, hn, hsettled⟩ := unguarded_eq_ok h
      obtain rfl : fuel = less := by omega
      obtain ⟨more, rfl⟩ : ∃ more, fuel' = more + 1 := ⟨fuel' - 1, by omega⟩
      rw [unguarded_succ hgiven, hn]
      exact Node.settled_of_imp hsettled fun _ _ _ hm' => ih hm' (by omega)

/-- What a followed reference leads to was followed with less fuel. -/
theorem unguarded_of_trans {x y : String} {m : Node} (h : unguarded look fuel (.str x) = .ok m)
    (hreach : TransGen (Eager look) x y) :
    ∃ less m', less < fuel ∧ unguarded look less (.str y) = .ok m' := by
  have hstep : ∀ {fuel x y m}, unguarded look fuel (.str x) = .ok m → Eager look x y →
      ∃ less m', less < fuel ∧ unguarded look less (.str y) = .ok m' := by
    intro fuel x y m h heager
    obtain ⟨less, x', n, rfl, heq, -, hn, hsettled⟩ := unguarded_eq_ok h
    obtain rfl := Value.str.inj heq
    obtain ⟨n', hn', hy⟩ := heager
    rw [hn, Except.ok.injEq] at hn'
    obtain ⟨m', hm'⟩ := Node.follows_of_settled hsettled (.str y) (hn' ▸ hy)
    exact ⟨less, m', Nat.lt_succ_self less, hm'⟩
  induction hreach with
  | single heager => exact hstep h heager
  | tail _ heager ih =>
      obtain ⟨less, m', hless, hm'⟩ := ih
      obtain ⟨less', m'', hless', hm''⟩ := hstep hm' heager
      exact ⟨less', m'', hless'.trans hless, hm''⟩

/-- A followed reference does not depend on itself. -/
theorem not_cyclic_of_unguarded {x : String} {m : Node}
    (h : unguarded look fuel (.str x) = .ok m) : ¬TransGen (Eager look) x x := by
  induction fuel using Nat.strong_induction_on generalizing m with
  | _ fuel ih =>
      intro hcycle
      obtain ⟨less, m', hless, hm'⟩ := unguarded_of_trans h hcycle
      exact ih less hless hm' hcycle

/-- What was followed without the guard is followed with it, on every path that it does not lead back
to. -/
theorem followed_of_unguarded {path : List String} {x : String} {m : Node}
    (h : unguarded look fuel (.str x) = .ok m)
    (hpath : ∀ z, ReflTransGen (Eager look) x z → z ∉ path) :
    followed look fuel path (.str x) = .ok m := by
  induction fuel generalizing path x m with
  | zero => cases h
  | succ fuel ih =>
      have hacyclic := not_cyclic_of_unguarded h
      obtain ⟨less, x', n, hfuel, heq, hgiven, hn, hsettled⟩ := unguarded_eq_ok h
      obtain rfl := Value.str.inj heq
      obtain rfl : fuel = less := by omega
      rw [followed_succ hgiven, if_neg (hpath x .refl), hn]
      refine Node.settled_of_imp hsettled fun target htarget m' hm' => ?_
      obtain ⟨-, y, -, -, rfl, -⟩ := unguarded_eq_ok hm'
      have heager : Eager look x y := ⟨n, hn, htarget⟩
      refine ih hm' fun z hreach hz => ?_
      rcases List.mem_cons.mp hz with rfl | hin
      · exact hacyclic (.head' heager hreach)
      · exact hpath z (.head heager hreach) hin

/-- With the guard more fuel does no harm, either, where nothing is being followed yet. -/
theorem followed_mono {fuel' : Nat} {target : Value} {m : Node}
    (h : followed look fuel [] target = .ok m) (hle : fuel ≤ fuel') :
    followed look fuel' [] target = .ok m := by
  obtain ⟨-, x, -, -, rfl, -⟩ := followed_eq_ok h
  exact followed_of_unguarded (unguarded_mono (unguarded_of_followed h) hle) fun _ _ =>
    List.not_mem_nil

end Cycles

section Spelling

open Node

variable {change change' : Value → Value} {look look' : String → Except Failure Node}
  {known : String → Prop}

/-- Whether the references that are found by the first of two ways are found by the second one, too,
however they are spelled there, up to targets.  This is asked of known references only, which lead to
known references. -/
structure Respells (change change' : Value → Value) (known : String → Prop)
    (look look' : String → Except Failure Node) : Prop where
  names : NamesKept Reference.IsGiven change change'
  eager : ∀ {x y}, known x → Eager look x y → known y
  given : ∀ {x x'}, change (.str x) = change' (.str x') → Reference.given (.str x) = .ok x →
    Reference.given (.str x') = .ok x'
  found : ∀ {x x' n}, known x → change (.str x) = change' (.str x') → look x = .ok n →
    ∃ n', look' x' = .ok n' ∧ n.retargeted change = n'.retargeted change'

/-- What a reference is followed to does not depend on how references are spelled. -/
theorem unguarded_respelled (hrespells : Respells change change' known look look') {fuel : Nat}
    {x x' : String} {m : Node} (hx : known x) (hsame : change (.str x) = change' (.str x'))
    (h : unguarded look fuel (.str x) = .ok m) :
    ∃ m', unguarded look' fuel (.str x') = .ok m' ∧ Moved Reference.IsGiven change change' m m' := by
  induction fuel generalizing x x' m with
  | zero => cases h
  | succ fuel ih =>
      obtain ⟨less, y, n, hfuel, heq, hgiven, hn, hsettled⟩ := unguarded_eq_ok h
      obtain rfl := Value.str.inj heq
      obtain rfl : fuel = less := by omega
      obtain ⟨n', hn', hsame'⟩ := hrespells.found hx hsame hn
      -- all that the schema leads to was followed
      have hfollowed : ∀ target ∈ n.follows, ∃ y r, target = .str y ∧
          Reference.given (.str y) = .ok y ∧ unguarded look fuel (.str y) = .ok r := by
        intro target htarget
        obtain ⟨r, hr⟩ := follows_of_settled hsettled target htarget
        obtain ⟨-, y, -, -, rfl, hy, -⟩ := unguarded_eq_ok hr
        exact ⟨y, r, rfl, hy, hr⟩
      have hmoved : Moved Reference.IsGiven change change' n n' := by
        refine ⟨hsame', fun target htarget => ?_⟩
        obtain ⟨y, -, rfl, hy, -⟩ := hfollowed target htarget
        exact ⟨y, hy⟩
      have hsettles : Simulates False (Moved Reference.IsGiven change change')
          (n.settled (unguarded look fuel)) (n'.settled (unguarded look' fuel)) := by
        refine (congruence_moved hrespells.names).settled_related hmoved ?_
        rintro target htarget target' - ⟨heq, -⟩
        obtain ⟨y, r, rfl, hy, hr⟩ := hfollowed target htarget
        obtain ⟨y', rfl⟩ : ∃ y', target' = .str y' := by
          rcases hrespells.names.name ⟨y, hy⟩ heq with ⟨-, y', -, rfl, -⟩ | ⟨hother, -⟩
          · exact ⟨y', rfl⟩
          · exact absurd rfl (hother y)
        obtain ⟨r', hr', hmoved'⟩ := ih (hrespells.eager hx ⟨n, hn, htarget⟩) heq hr
        rw [hr, hr']
        exact .ok hmoved'
      obtain ⟨m', hm', hresult⟩ := hsettles.exists_ok hsettled
      refine ⟨m', ?_, hresult⟩
      rw [unguarded_succ (hrespells.given hsame hgiven), hn']
      exact hm'

end Spelling

end SchemaGraph
