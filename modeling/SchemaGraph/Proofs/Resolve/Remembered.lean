import SchemaGraph.Proofs.Resolve.Local

/-!
# Following with a memory

What a reference of a document gives on a path when every reference that can be followed alone is
remembered.  It is what the reference gives alone, if it gives something alone, and else what it
gives on the path.

A memory cannot hide a cycle from a path whose references lead to the one that is followed: if such a
path were met again below, the reference would depend on itself, and could not be followed alone.
-/

namespace SchemaGraph

open Relation

namespace Document

/-- Whether every text on a path leads to a reference in one or more steps, or is no reference. -/
def LeadsTo (d : Document) (path : List String) (x : String) : Prop :=
  ∀ z ∈ path, TransGen (Eager d.look) z x ∨ Reference.given (.str z) ≠ .ok z

/-- What a reference gives on a path, where what can be followed alone is remembered. -/
def remembered (d : Document) (path : List String) (target : Value) : Except Failure Node :=
  match d.resolved [] target with
  | .ok m => .ok m
  | .error _ => d.resolved path target

variable {d : Document} {path : List String} {x y : String} {target : Value} {n m : Node}

theorem leadsTo_nil : d.LeadsTo [] x := fun _ h => absurd h (by simp)

theorem LeadsTo.eager (h : d.LeadsTo path x) (heager : Eager d.look x y) :
    d.LeadsTo (x :: path) y := by
  intro z hz
  rcases List.mem_cons.mp hz with rfl | hin
  · exact Or.inl (.single heager)
  · exact (h z hin).imp_left fun hlead => hlead.tail heager

/-- What is followed on a path is followed alone. -/
theorem resolved_alone (h : d.resolved path target = .ok m) : d.resolved [] target = .ok m := by
  obtain ⟨-, x, -, -, rfl, -⟩ := followed_eq_ok h
  exact followed_on_path h fun _ _ hz => absurd hz (by simp)

theorem remembered_eq_ok : d.remembered path target = .ok m ↔ d.resolved [] target = .ok m := by
  unfold remembered
  cases halone : d.resolved [] target with
  | ok m' => rfl
  | error failure =>
      constructor
      · intro h
        rw [resolved_alone h] at halone
        cases halone
      · intro h
        cases h

theorem remembered_nil (d : Document) (target : Value) :
    d.remembered [] target = d.resolved [] target := by
  unfold remembered
  split
  · rename_i h
    exact h.symm
  · rfl

/-- On a path that leads to a reference, a memory changes nothing. -/
theorem LeadsTo.remembered_eq (h : d.LeadsTo path x) :
    d.remembered path (.str x) = d.resolved path (.str x) := by
  unfold Document.remembered
  split
  · rename_i m halone
    refine (resolved_on_path halone fun z hreach hz => ?_).symm
    rcases h z hz with hlead | hmalformed
    · have hcycle : TransGen (Eager d.look) x x := TransGen.trans_right hreach hlead
      exact not_cyclic_of_followed halone hcycle
    · obtain ⟨less, path', m', -, -, hfollowed⟩ := followed_of_reach halone hreach
      obtain ⟨-, z', -, -, heq, hgiven, -⟩ := followed_eq_ok hfollowed
      obtain rfl := Value.str.inj heq
      exact hmalformed hgiven
  · rfl

theorem settled_remembered_eq_ok :
    n.settled (d.remembered path) = .ok m ↔ n.settled (d.resolved []) = .ok m := by
  constructor
  · intro h
    rw [← h]
    refine Node.settled_congr_follow fun target htarget => ?_
    obtain ⟨m', hm'⟩ := Node.follows_of_settled h target htarget
    rw [hm', remembered_eq_ok.mp hm']
  · intro h
    rw [← h]
    refine Node.settled_congr_follow fun target htarget => ?_
    obtain ⟨m', hm'⟩ := Node.follows_of_settled h target htarget
    rw [hm', remembered_eq_ok.mpr hm']

/-- A schema settles on a path that leads to all its references as if nothing was remembered. -/
theorem settled_remembered (h : ∀ y, .str y ∈ n.follows → d.LeadsTo path y) :
    n.settled (d.remembered path) = n.settled (d.resolved path) := by
  refine Node.settled_congr_follow fun target htarget => ?_
  cases target with
  | str y => exact (h y htarget).remembered_eq
  | _ => rfl

/-- What a reference gives is what its schema settles to on the longer path. -/
theorem simulates_remembered {result : Except Failure Node}
    (hgiven : Reference.given (.str x) = .ok x) (hfresh : x ∉ path) (hn : d.look x = .ok n)
    (h : Simulates (d.LeadsTo path x) Node.Like result (n.settled (d.remembered (x :: path)))) :
    Simulates (d.LeadsTo path x) Node.Like result (d.remembered path (.str x)) := by
  cases hsettled : n.settled (d.remembered (x :: path)) with
  | ok b =>
      have halone : d.resolved [] (.str x) = .ok b :=
        resolved_of_settled hgiven hn (settled_remembered_eq_ok.mp hsettled)
      rw [hsettled] at h
      rw [remembered_eq_ok.mpr halone]
      exact h
  | error failure =>
      rw [hsettled] at h
      cases h with
      | error hkind =>
          refine .error fun hleads => ?_
          have hbelow : ∀ y, .str y ∈ n.follows → d.LeadsTo (x :: path) y :=
            fun y hy => hleads.eager ⟨n, hn, hy⟩
          have hcold : d.resolved path (.str x) = .error failure := by
            rw [resolved_eq hgiven, if_neg hfresh, hn, ← hsettled, settled_remembered hbelow]
            rfl
          rw [hleads.remembered_eq, hcold]
          exact hkind hleads

end Document

end SchemaGraph
