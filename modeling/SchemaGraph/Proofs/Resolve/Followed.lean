import Mathlib.Data.Finset.Card
import Mathlib.Logic.Relation
import SchemaGraph.Resolve
import SchemaGraph.Proofs.Resolve.Congruence

/-!
# Following without a session

To follow a reference as resolving does, with no caches: the schema that a reference names is found
by a function, and every reference on the path of those that are being followed is a cycle.

A reference depends eagerly on the references that its schema leads to at once.  What can be followed
has no cycle below it, and can be followed on every path that it does not lead back to.  Where the
references are finitely many, more fuel than there are references changes nothing.
-/

namespace SchemaGraph

open Relation

theorem Reference.eq_of_given {target : Value} {text : String}
    (h : Reference.given target = .ok text) : target = .str text := by
  unfold Reference.given at h
  split at h
  · split at h
    · cases h
    · split at h
      · rw [Except.ok.inj h]
      · cases h
  · cases h

theorem Reference.kind_of_given {target : Value} {failure : Failure}
    (h : Reference.given target = .error failure) : failure.kind = .malformedReference := by
  unfold Reference.given at h
  split at h
  · split at h
    · rw [← Except.error.inj h]
      rfl
    · split at h
      · cases h
      · rw [← Except.error.inj h]
        rfl
  · rw [← Except.error.inj h]
    rfl

/-- A text is given as a reference if it can be read as one. -/
theorem Reference.given_eq_ok {x : String} :
    Reference.given (.str x) = .ok x ↔ (Reference.read? x).isSome = true := by
  unfold Reference.given
  dsimp only
  by_cases hempty : x = ""
  · subst hempty
    exact iff_of_false (fun h => nomatch h) (by decide)
  · rw [if_neg hempty]
    split
    · rename_i hread
      exact iff_of_true rfl hread
    · rename_i hread
      exact iff_of_false (fun h => nomatch h) hread

/-- Follow a reference, where `look` finds the schema that one names. -/
def followed (look : String → Except Failure Node) :
    Nat → List String → Value → Except Failure Node
  | 0, _, _ => .error (.fault .budgetExhausted)
  | fuel + 1, path, target => do
    let text ← Reference.given target
    if path.contains text then .error (.circularReference text)
    else (← look text).settled (followed look fuel (text :: path))

/-- A reference depends eagerly on those that its schema leads to at once. -/
def Eager (look : String → Except Failure Node) (x y : String) : Prop :=
  ∃ n, look x = .ok n ∧ .str y ∈ n.follows

section Paths

variable {look : String → Except Failure Node}

theorem followed_succ {x : String} (h : Reference.given (.str x) = .ok x) (fuel : Nat)
    (path : List String) :
    followed look (fuel + 1) path (.str x) =
      if x ∈ path then .error (.circularReference x)
      else look x >>= fun n => n.settled (followed look fuel (x :: path)) := by
  rw [followed, h]
  change (if path.contains x = true then _ else _) = _
  simp only [List.contains_iff_mem]

/-- What is known of a reference that was followed. -/
theorem followed_eq_ok {fuel : Nat} {path : List String} {target : Value} {m : Node}
    (h : followed look fuel path target = .ok m) :
    ∃ less x n, fuel = less + 1 ∧ target = .str x ∧ Reference.given (.str x) = .ok x ∧ x ∉ path ∧
      look x = .ok n ∧ n.settled (followed look less (x :: path)) = .ok m := by
  cases fuel with
  | zero => cases h
  | succ less =>
      have hwhole := h
      rw [followed, bind_eq_ok] at h
      obtain ⟨x, hx, -⟩ := h
      obtain rfl := Reference.eq_of_given hx
      rw [followed_succ hx] at hwhole
      split at hwhole
      · cases hwhole
      · rename_i hpath
        rw [bind_eq_ok] at hwhole
        obtain ⟨n, hn, hsettled⟩ := hwhole
        exact ⟨less, x, n, rfl, rfl, hx, hpath, hn, hsettled⟩

/-- What a reference is followed to is neither a reference nor a composition. -/
theorem isLeaf_of_followed {fuel : Nat} {path : List String} {target : Value} {m : Node}
    (h : followed look fuel path target = .ok m) : m.isLeaf = true := by
  induction fuel generalizing path target m with
  | zero => cases h
  | succ fuel ih =>
      obtain ⟨less, x, n, hfuel, -, -, -, -, hsettled⟩ := followed_eq_ok h
      obtain rfl := Nat.succ.inj hfuel
      exact Node.isLeaf_of_settled (fun _ _ => ih) hsettled

/-- What a followed reference depends on was followed, too. -/
theorem followed_of_eager {fuel : Nat} {path : List String} {x y : String} {m : Node}
    (h : followed look fuel path (.str x) = .ok m) (heager : Eager look x y) :
    ∃ less m', fuel = less + 1 ∧ followed look less (x :: path) (.str y) = .ok m' := by
  obtain ⟨less, x', n, hfuel, heq, -, -, hn, hsettled⟩ := followed_eq_ok h
  obtain rfl := Value.str.inj heq
  obtain ⟨n', hn', hy⟩ := heager
  rw [hn, Except.ok.injEq] at hn'
  obtain ⟨m', hm'⟩ := Node.follows_of_settled hsettled (.str y) (hn' ▸ hy)
  exact ⟨less, m', hfuel, hm'⟩

theorem followed_of_reach {fuel : Nat} {path : List String} {x z : String} {m : Node}
    (h : followed look fuel path (.str x) = .ok m) (hreach : ReflTransGen (Eager look) x z) :
    ∃ less path' m', path ⊆ path' ∧ (z = x ∨ x ∈ path') ∧
      followed look less path' (.str z) = .ok m' := by
  induction hreach with
  | refl => exact ⟨fuel, path, m, fun _ h => h, Or.inl rfl, h⟩
  | @tail y z hxy hyz ih =>
      obtain ⟨less, path', m', hsub, hx, hy⟩ := ih
      obtain ⟨less', m'', -, hz⟩ := followed_of_eager hy hyz
      refine ⟨less', y :: path', m'', fun a ha => List.mem_cons_of_mem _ (hsub ha), ?_, hz⟩
      rcases hx with rfl | hx
      · exact Or.inr List.mem_cons_self
      · exact Or.inr (List.mem_cons_of_mem _ hx)

/-- A followed reference does not lead back to its path. -/
theorem not_mem_of_reach {fuel : Nat} {path : List String} {x z : String} {m : Node}
    (h : followed look fuel path (.str x) = .ok m) (hreach : ReflTransGen (Eager look) x z) :
    z ∉ path := by
  obtain ⟨less, path', m', hsub, -, hz⟩ := followed_of_reach h hreach
  obtain ⟨-, z', -, -, heq, -, hfresh, -⟩ := followed_eq_ok hz
  obtain rfl := Value.str.inj heq
  exact fun hmem => hfresh (hsub hmem)

/-- A followed reference does not depend on itself. -/
theorem not_cyclic_of_followed {fuel : Nat} {path : List String} {x : String} {m : Node}
    (h : followed look fuel path (.str x) = .ok m) : ¬TransGen (Eager look) x x := by
  intro hcycle
  obtain ⟨y, hxy, hyx⟩ := TransGen.head'_iff.mp hcycle
  obtain ⟨less, m', -, hy⟩ := followed_of_eager h hxy
  exact not_mem_of_reach hy hyx List.mem_cons_self

/-- A reference is followed alike on every path that it does not lead back to. -/
theorem followed_on_path {fuel : Nat} {path path' : List String} {x : String} {m : Node}
    (h : followed look fuel path (.str x) = .ok m)
    (hpath : ∀ z, ReflTransGen (Eager look) x z → z ∈ path' → z ∈ path) :
    followed look fuel path' (.str x) = .ok m := by
  induction fuel generalizing path path' x m with
  | zero => cases h
  | succ fuel ih =>
      obtain ⟨less, x', n, hfuel, heq, hgiven, hfresh, hn, hsettled⟩ := followed_eq_ok h
      obtain rfl := Value.str.inj heq
      obtain rfl : fuel = less := by omega
      have hfresh' : x ∉ path' := fun hmem => hfresh (hpath x .refl hmem)
      rw [followed_succ hgiven, if_neg hfresh', hn]
      refine Node.settled_of_imp hsettled fun target htarget m' hm' => ?_
      obtain ⟨-, y, -, -, rfl, -⟩ := followed_eq_ok hm'
      refine ih hm' fun z hreach hz => ?_
      rcases List.mem_cons.mp hz with rfl | hin
      · exact List.mem_cons_self
      · exact List.mem_cons_of_mem _ (hpath z (.head ⟨n, hn, htarget⟩ hreach) hin)

end Paths

section Fuel

variable {look : String → Except Failure Node}

/-- Whether a set of references holds all that they depend on. -/
def Closed (look : String → Except Failure Node) (known : Finset String) : Prop :=
  ∀ x ∈ known, ∀ y, Eager look x y → y ∈ known

theorem card_sdiff_cons {known : Finset String} {path : List String} {x : String}
    (hx : x ∈ known) (hpath : x ∉ path) :
    (known \ (x :: path).toFinset).card < (known \ path.toFinset).card := by
  refine Finset.card_lt_card (Finset.ssubset_iff_of_subset ?_ |>.mpr ⟨x, ?_, ?_⟩)
  · intro y hy
    rw [Finset.mem_sdiff, List.mem_toFinset] at hy ⊢
    exact ⟨hy.1, fun hmem => hy.2 (List.mem_cons_of_mem _ hmem)⟩
  · rw [Finset.mem_sdiff, List.mem_toFinset]
    exact ⟨hx, hpath⟩
  · rw [Finset.mem_sdiff, List.mem_toFinset]
    exact fun hmem => hmem.2 List.mem_cons_self

/-- Following a reference takes it away from those that are not on the path. -/
theorem card_sdiff_insert {known : Finset String} {path : List String} {x : String}
    (hpath : x ∉ path) :
    (known \ (x :: path).toFinset).card < (insert x known \ path.toFinset).card := by
  have hsub := Finset.card_le_card (Finset.sdiff_subset_sdiff (Finset.subset_insert x known)
    (le_refl (x :: path).toFinset))
  exact hsub.trans_lt (card_sdiff_cons (Finset.mem_insert_self x known) hpath)

/-- More fuel than there are references off the path changes nothing. -/
theorem followed_fuel {known : Finset String} (hclosed : Closed look known)
    {fuel fuel' : Nat} {path : List String} {x : String} (hx : x ∈ known)
    (hfuel : (known \ path.toFinset).card < fuel)
    (hfuel' : (known \ path.toFinset).card < fuel') :
    followed look fuel path (.str x) = followed look fuel' path (.str x) := by
  induction fuel generalizing fuel' path x with
  | zero => exact absurd hfuel (by omega)
  | succ fuel ih =>
      cases fuel' with
      | zero => exact absurd hfuel' (by omega)
      | succ fuel' =>
          cases hgiven : Reference.given (.str x) with
          | error failure => rw [followed, followed, hgiven]; rfl
          | ok text =>
              obtain rfl := Value.str.inj (Reference.eq_of_given hgiven)
              rw [followed_succ hgiven, followed_succ hgiven]
              by_cases hpath : x ∈ path
              · rw [if_pos hpath, if_pos hpath]
              · rw [if_neg hpath, if_neg hpath]
                cases hn : look x with
                | error failure => rfl
                | ok n =>
                    have hless := card_sdiff_cons hx hpath
                    refine Node.settled_congr_follow fun target htarget => ?_
                    cases target with
                    | str y => exact ih (hclosed x hx y ⟨n, hn, htarget⟩) (by omega) (by omega)
                    | _ =>
                        cases fuel with
                        | zero => omega
                        | succ fuel =>
                            cases fuel' with
                            | zero => omega
                            | succ fuel' => rfl

end Fuel

section Failures

theorem bind_eq_error {α β : Type} {first : Except Failure α} {next : α → Except Failure β}
    {failure : Failure} :
    (first >>= next) = .error failure ↔
      first = .error failure ∨ ∃ a, first = .ok a ∧ next a = .error failure := by
  cases first with
  | ok a =>
      constructor
      · intro h
        exact Or.inr ⟨a, rfl, h⟩
      · rintro (h | ⟨a', heq, h⟩)
        · cases h
        · rw [← Except.ok.inj heq] at h
          exact h
  | error other =>
      constructor
      · intro h
        cases h
        exact Or.inl rfl
      · rintro (h | ⟨a, heq, -⟩)
        · cases h
          rfl
        · cases heq

theorem kind_of_orFail {α : Type} {result : Except Fault α} {failure : Failure}
    (h : orFail result = .error failure) : ∃ fault, failure.kind = .fault fault := by
  cases result with
  | ok a => cases h
  | error fault =>
      cases h
      exact ⟨fault, rfl⟩

theorem Merged.kind_of_declare {table : Table Node} {entries : List (Value × Node)}
    {failure : Failure} (h : declare table entries = .error failure) :
    failure.kind = .conflictingTypes := by
  induction entries generalizing table with
  | nil => cases h
  | cons entry rest ih =>
      rw [declare] at h
      split at h
      · split at h
        · cases h
          rfl
        · exact ih h
      · exact ih h

theorem Merged.kind_of_absorb {m : Merged} {n : Node} {failure : Failure}
    (h : m.absorb n = .error failure) : failure.kind = .conflictingTypes := by
  cases n with
  | object info shape =>
      unfold absorb at h
      dsimp only at h
      rw [bind_eq_error] at h
      rcases h with h | ⟨properties, -, h⟩
      · exact kind_of_declare h
      · cases h
  | _ => cases h

end Failures

section Likeness

/-- What references to like targets are followed to is like. -/
theorem followed_like {look : String → Except Failure Node}
    (hlook : ∀ x n, look x = .ok n → n.Neat) (fuel : Nat) (path : List String)
    {target target' : Value} (h : Value.Alike target target') :
    Agree Node.Like (followed look fuel path target) (followed look fuel path target') := by
  induction fuel generalizing path target target' with
  | zero => exact .error rfl
  | succ fuel ih =>
      cases target with
      | str x =>
          rw [(Value.alike_scalar_iff rfl target').mp h]
          cases hgiven : Reference.given (.str x) with
          | error other =>
              rw [followed, hgiven]
              exact .error rfl
          | ok text =>
              obtain rfl := Value.str.inj (Reference.eq_of_given hgiven)
              rw [followed_succ hgiven]
              split
              · exact .error rfl
              · cases hn : look x with
                | error other => exact .error rfl
                | ok n =>
                    have hrelated : Simulates True Node.Like
                        (n.settled (followed look fuel (x :: path)))
                        (n.settled (followed look fuel (x :: path))) :=
                      Node.congruence_like.settled_related (hlook x n hn).like
                        fun t _ t' _ halike => (ih (x :: path) halike).simulates True
                    exact hrelated.agree
      | _ =>
          rcases Value.alike_cases h with ⟨-, rfl⟩ | ⟨items, items', heq, rfl, -⟩ |
            ⟨entries, entries', arranged, heq, rfl, -, -⟩
          all_goals exact .error rfl

end Likeness

end SchemaGraph
