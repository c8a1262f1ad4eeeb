import SchemaGraph.Proofs.Resolve.Following

/-!
# Following with more visited references

The references that are being followed are only ever asked whether they hold one that is met.  So on a
path with more of them a reference is followed as before, unless one of those that were added is met,
and then that one is reported as a cycle.

So a schema of a document settles by itself as its reference resolves.  The reference is on the path of
what the schema leads to, and a reference that is met again where it is not on the path leads back to
where the cycle began (`settled_look`).

In a session that caches nothing, following a reference of a document that refers only to itself is
the calculation without a session, with its very failures; only the records are changed.
-/

namespace SchemaGraph

open Resolving

/-- Whether two outcomes are the same, or the first is a cycle through one of some references. -/
def PartsAt (added : String → Prop) {α : Type} (wide narrow : Except Failure α) : Prop :=
  wide = narrow ∨ ∃ x, added x ∧ wide = .error (.circularReference x)

namespace PartsAt

variable {added : String → Prop} {α β : Type} {wide narrow : Except Failure α}

theorem refl (outcome : Except Failure α) : PartsAt added outcome outcome := Or.inl rfl

theorem bind {next next' : α → Except Failure β} (h : PartsAt added wide narrow)
    (hnext : ∀ a, PartsAt added (next a) (next' a)) :
    PartsAt added (wide >>= next) (narrow >>= next') := by
  rcases h with rfl | ⟨x, hx, rfl⟩
  · cases wide with
    | ok a => exact hnext a
    | error failure => exact refl _
  · exact Or.inr ⟨x, hx, rfl⟩

theorem mono {added' : String → Prop} (h : PartsAt added wide narrow)
    (himp : ∀ x, added x → added' x) : PartsAt added' wide narrow := by
  rcases h with heq | ⟨x, hx, heq⟩
  · exact Or.inl heq
  · exact Or.inr ⟨x, himp x hx, heq⟩

/-- What succeeds with more visited references succeeds alike with fewer. -/
theorem narrow_ok (h : PartsAt added wide narrow) {a : α} (hok : wide = .ok a) :
    narrow = .ok a := by
  rcases h with rfl | ⟨x, -, rfl⟩
  · exact hok
  · cases hok

/-- What fails only with more visited references fails with a cycle through one of them. -/
theorem wide_error (h : PartsAt added wide narrow) {a : α} (hok : narrow = .ok a)
    {failure : Failure} (herror : wide = .error failure) :
    ∃ x, added x ∧ failure = .circularReference x := by
  rcases h with rfl | ⟨x, hx, rfl⟩
  · cases hok.symm.trans herror
  · exact ⟨x, hx, (Except.error.inj herror).symm⟩

end PartsAt

namespace Node

variable {added : String → Prop} {follow follow' : Value → Except Failure Node}

section Members

variable {members : List Node} (h : ∀ member ∈ members,
  PartsAt added (settled follow member) (settled follow' member))
include h

theorem settledInto_parts (merged : Merged) :
    PartsAt added (settledInto follow merged members) (settledInto follow' merged members) := by
  induction members generalizing merged with
  | nil => exact .refl _
  | cons member rest ih =>
      obtain ⟨hmember, hrest⟩ := List.forall_mem_cons.mp h
      rw [settledInto, settledInto]
      apply hmember.bind
      intro resolved
      apply (PartsAt.refl (merged.absorb resolved)).bind
      intro next
      exact ih hrest next

theorem settledVariants_parts (kind : CompositionKind) (number : Nat) :
    PartsAt added (settledVariants follow kind number members)
      (settledVariants follow' kind number members) := by
  induction members generalizing number with
  | nil => exact .refl _
  | cons member rest ih =>
      obtain ⟨hmember, hrest⟩ := List.forall_mem_cons.mp h
      rw [settledVariants, settledVariants]
      apply hmember.bind
      intro resolved
      apply (ih hrest (number + 1)).bind
      intro others
      exact .refl _

end Members

theorem settledKind_parts {info : NodeInfo} {shape : CompositionShape Node}
    (h : ∀ member ∈ shape.members,
      PartsAt added (settled follow member) (settled follow' member)) :
    PartsAt added (settledKind follow info shape) (settledKind follow' info shape) := by
  unfold settledKind
  cases shape.kind with
  | allOf => exact (settledInto_parts h _).bind fun _ => .refl _
  | anyOf => exact (settledVariants_parts h _ _).bind fun _ => .refl _
  | oneOf =>
      cases shape.discriminator with
      | none => exact .refl _
      | some d => exact (settledVariants_parts h _ _).bind fun _ => .refl _

/-- Settling a schema parts where following one of the references parts that it leads to. -/
theorem settled_parts {n : Node}
    (h : ∀ target ∈ n.follows, PartsAt added (follow target) (follow' target)) :
    PartsAt added (n.settled follow) (n.settled follow') := by
  induction n using nested with
  | hleaf n hn =>
      rw [settled_leaf follow hn, settled_leaf follow' hn]
      exact .refl _
  | href info target => exact h target (List.mem_singleton.mpr rfl)
  | hcomposition info shape ih =>
      have hmembers : ∀ member ∈ shape.members,
          PartsAt added (settled follow member) (settled follow' member) := by
        intro member hmember
        apply ih member hmember
        intro target htarget
        exact h target (mem_follows_composition.mpr ⟨member, hmember, htarget⟩)
      rw [settled_composition, settled_composition]
      cases memberDefect? shape.rawMembers with
      | some defect => exact .refl _
      | none => exact (PartsAt.refl _).bind fun _ => settledKind_parts hmembers

end Node

/-- The references of one path that are not on another one. -/
def Added (wide narrow : List String) (x : String) : Prop := x ∈ wide ∧ x ∉ narrow

/-- On a path with more references, a reference is followed alike or one that was added is met. -/
theorem followed_parts {look : String → Except Failure Node} {wide narrow : List String}
    (hsub : narrow ⊆ wide) (fuel : Nat) (target : Value) :
    PartsAt (Added wide narrow) (followed look fuel wide target)
      (followed look fuel narrow target) := by
  induction fuel generalizing wide narrow target with
  | zero => exact .refl _
  | succ fuel ih =>
      cases hgiven : Reference.given target with
      | error failure =>
          rw [followed, followed, hgiven]
          exact .refl _
      | ok x =>
          obtain rfl := Reference.eq_of_given hgiven
          rw [followed_succ hgiven, followed_succ hgiven]
          by_cases hwide : x ∈ wide
          · rw [if_pos hwide]
            by_cases hnarrow : x ∈ narrow
            · rw [if_pos hnarrow]
              exact .refl _
            · -- the runs part here: only the wider path holds the reference
              exact Or.inr ⟨x, ⟨hwide, hnarrow⟩, rfl⟩
          · rw [if_neg hwide, if_neg fun hin => hwide (hsub hin)]
            apply (PartsAt.refl (look x)).bind
            intro n
            apply Node.settled_parts
            intro target htarget
            apply (ih (List.cons_subset_cons x hsub) target).mono
            rintro z ⟨hz, hfresh⟩
            obtain ⟨hne, hnarrow⟩ := not_or.mp (mt List.mem_cons.mpr hfresh)
            exact ⟨(List.mem_cons.mp hz).resolve_left hne, hnarrow⟩

theorem Document.resolved_parts (d : Document) {wide narrow : List String} (hsub : narrow ⊆ wide)
    (target : Value) :
    PartsAt (Added wide narrow) (d.resolved wide target) (d.resolved narrow target) :=
  followed_parts hsub d.fuel target

/-! ### A schema and its reference -/

/-- Whether an outcome is a cycle. -/
def Circles {α : Type} (outcome : Except Failure α) : Prop :=
  ∃ x, outcome = .error (.circularReference x)

theorem Circles.bind {α β : Type} {first : Except Failure α} {next : α → Except Failure β}
    (h : Circles first) : Circles (first >>= next) := by
  obtain ⟨x, rfl⟩ := h
  exact ⟨x, rfl⟩

namespace Node

variable {follow follow' : Value → Except Failure Node} {n : Node} {x : String}

/-- Whether a way of following gives what another one gives, or a cycle, where the other one gives
anything that a schema leads to. -/
def Covers (follow' follow : Value → Except Failure Node) (n : Node) : Prop :=
  ∀ target ∈ n.follows, ∀ m, follow target = .ok m →
    PartsAt (fun _ => True) (follow' target) (.ok m)

/-- What settles in one way settles alike, or to a cycle, in a way that covers it. -/
theorem Covers.settled (h : Covers follow' follow n) {m : Node} (hm : n.settled follow = .ok m) :
    PartsAt (fun _ => True) (n.settled follow') (.ok m) := by
  rw [← hm]
  apply settled_parts
  intro target htarget
  obtain ⟨resolved, hresolved⟩ := follows_of_settled hm target htarget
  rw [hresolved]
  exact h target htarget resolved hresolved

/-- Whether a schema leads to a target before which all can be followed: in a way that covers the given
one, a cycle there is one of the whole schema. -/
structure Blocks (follow : Value → Except Failure Node) (target : Value) (n : Node) : Prop where
  mem : target ∈ n.follows
  circles : ∀ follow', Covers follow' follow n → Circles (follow' target) →
    Circles (n.settled follow')

section Members

variable {members : List Node} (hmembers : ∀ member ∈ members,
  member.settled follow = .error (.circularReference x) →
    ∃ target, follow target = .error (.circularReference x) ∧ Blocks follow target member)
include hmembers

theorem blocks_settledInto {merged : Merged}
    (h : settledInto follow merged members = .error (.circularReference x)) :
    ∃ target ∈ membersFollow members, follow target = .error (.circularReference x) ∧
      ∀ follow', (∀ member ∈ members, Covers follow' follow member) → Circles (follow' target) →
        Circles (settledInto follow' merged members) := by
  induction members generalizing merged with
  | nil => cases h
  | cons member rest ih =>
      obtain ⟨hmember, hrest⟩ := List.forall_mem_cons.mp hmembers
      rw [settledInto, bind_eq_error] at h
      rcases h with h | ⟨resolved, hresolved, h⟩
      · obtain ⟨target, htarget, hblocks⟩ := hmember h
        refine ⟨target, List.mem_append_left _ hblocks.mem, htarget, ?_⟩
        intro follow' hcovers hcircles
        rw [settledInto]
        exact (hblocks.circles follow' (hcovers member List.mem_cons_self) hcircles).bind
      · rw [bind_eq_error] at h
        rcases h with h | ⟨next, hnext, h⟩
        · cases Merged.kind_of_absorb h
        · obtain ⟨target, hmem, htarget, hblocked⟩ := ih hrest h
          refine ⟨target, List.mem_append_right _ hmem, htarget, ?_⟩
          intro follow' hcovers hcircles
          obtain ⟨hfirst, hothers⟩ := List.forall_mem_cons.mp hcovers
          rw [settledInto]
          -- the member settles as it did, or to a cycle already
          rcases hfirst.settled hresolved with heq | ⟨y, -, heq⟩
          · rw [heq]
            change Circles (merged.absorb resolved >>= fun next => settledInto follow' next rest)
            rw [hnext]
            exact hblocked follow' hothers hcircles
          · exact Circles.bind ⟨y, heq⟩

theorem blocks_settledVariants {kind : CompositionKind} {number : Nat}
    (h : settledVariants follow kind number members = .error (.circularReference x)) :
    ∃ target ∈ membersFollow members, follow target = .error (.circularReference x) ∧
      ∀ follow', (∀ member ∈ members, Covers follow' follow member) → Circles (follow' target) →
        Circles (settledVariants follow' kind number members) := by
  induction members generalizing number with
  | nil => cases h
  | cons member rest ih =>
      obtain ⟨hmember, hrest⟩ := List.forall_mem_cons.mp hmembers
      rw [settledVariants, bind_eq_error] at h
      rcases h with h | ⟨resolved, hresolved, h⟩
      · obtain ⟨target, htarget, hblocks⟩ := hmember h
        refine ⟨target, List.mem_append_left _ hblocks.mem, htarget, ?_⟩
        intro follow' hcovers hcircles
        rw [settledVariants]
        exact (hblocks.circles follow' (hcovers member List.mem_cons_self) hcircles).bind
      · rw [bind_eq_error] at h
        rcases h with h | ⟨others, -, h⟩
        · obtain ⟨target, hmem, htarget, hblocked⟩ := ih hrest h
          refine ⟨target, List.mem_append_right _ hmem, htarget, ?_⟩
          intro follow' hcovers hcircles
          obtain ⟨hfirst, hothers⟩ := List.forall_mem_cons.mp hcovers
          rw [settledVariants]
          rcases hfirst.settled hresolved with heq | ⟨y, -, heq⟩
          · rw [heq]
            exact (hblocked follow' hothers hcircles).bind
          · exact Circles.bind ⟨y, heq⟩
        · cases h

end Members

/-- A schema that settles to a cycle leads to a reference that is one and blocks it. -/
theorem blocks_of_settled (h : n.settled follow = .error (.circularReference x)) :
    ∃ target, follow target = .error (.circularReference x) ∧ Blocks follow target n := by
  induction n using nested with
  | hleaf n hn =>
      rw [settled_leaf follow hn] at h
      cases h
  | href info target =>
      exact ⟨target, h, List.mem_singleton.mpr rfl, fun _ _ hcircles => hcircles⟩
  | hcomposition info shape ih =>
      -- what comes before the members fails in another way, and does not depend on following
      have hsettled : memberDefect? shape.rawMembers = none ∧
          (∃ key, orFail (identity (.composition info shape)) = .ok key) ∧
            settledKind follow info shape = .error (.circularReference x) := by
        rw [settled_composition] at h
        cases hdefect : memberDefect? shape.rawMembers with
        | some defect =>
            rw [hdefect] at h
            cases h
        | none =>
            rw [hdefect] at h
            rcases bind_eq_error.mp h with h | ⟨key, hkey, h⟩
            · obtain ⟨fault, hfault⟩ := kind_of_orFail h
              cases hfault
            · exact ⟨rfl, ⟨key, hkey⟩, h⟩
      obtain ⟨hdefect, ⟨key, hkey⟩, hkind⟩ := hsettled
      have hwhole : ∀ follow', (Node.composition info shape).settled follow' =
          settledKind follow' info shape := by
        intro follow'
        rw [settled_composition, hdefect, hkey]
        rfl
      have hcovered : ∀ follow', Covers follow' follow (.composition info shape) →
          ∀ member ∈ shape.members, Covers follow' follow member :=
        fun follow' hcovers member hmember target htarget =>
          hcovers target (mem_follows_composition.mpr ⟨member, hmember, htarget⟩)
      unfold settledKind at hkind
      split at hkind
      · rename_i hallOf
        rcases bind_eq_error.mp hkind with hkind | ⟨_, -, hkind⟩
        · obtain ⟨target, hmem, htarget, hblocked⟩ := blocks_settledInto (fun m hm => ih m hm) hkind
          refine ⟨target, htarget, hmem, fun follow' hcovers hcircles => ?_⟩
          rw [hwhole]
          unfold settledKind
          rw [hallOf]
          exact (hblocked follow' (hcovered follow' hcovers) hcircles).bind
        · cases hkind
      · rename_i hanyOf
        rcases bind_eq_error.mp hkind with hkind | ⟨_, -, hkind⟩
        · obtain ⟨target, hmem, htarget, hblocked⟩ :=
            blocks_settledVariants (fun m hm => ih m hm) hkind
          refine ⟨target, htarget, hmem, fun follow' hcovers hcircles => ?_⟩
          rw [hwhole]
          unfold settledKind
          rw [hanyOf]
          exact (hblocked follow' (hcovered follow' hcovers) hcircles).bind
        · cases hkind
      · rename_i honeOf
        split at hkind
        · cases hkind
        · rename_i d hd
          rcases bind_eq_error.mp hkind with hkind | ⟨_, -, hkind⟩
          · obtain ⟨target, hmem, htarget, hblocked⟩ :=
              blocks_settledVariants (fun m hm => ih m hm) hkind
            refine ⟨target, htarget, hmem, fun follow' hcovers hcircles => ?_⟩
            rw [hwhole]
            unfold settledKind
            rw [honeOf, hd]
            exact (hblocked follow' (hcovered follow' hcovers) hcircles).bind
          · obtain ⟨fault, hfault⟩ := kind_of_orFail hkind
            cases hfault

end Node

namespace Document

variable {d : Document} {x y z : String} {n : Node} {narrow wide : List String}

/-- Only a well-formed reference can be a cycle. -/
theorem given_of_circles {target : Value} {path : List String}
    (h : Circles (d.resolved path target)) :
    ∃ z, target = .str z ∧ Reference.given (.str z) = .ok z := by
  obtain ⟨x, hx⟩ := h
  cases hgiven : Reference.given target with
  | ok z =>
      obtain rfl := Reference.eq_of_given hgiven
      exact ⟨z, rfl, hgiven⟩
  | error failure =>
      rw [resolved_error hgiven] at hx
      have hkind := Reference.kind_of_given hgiven
      rw [Except.error.inj hx] at hkind
      cases hkind

/-- What is a cycle while a reference is followed is one without it, too, wherever the search for it has
begun with a reference that blocks the schema of the first one. -/
theorem circles_narrow (hn : d.look x = .ok n)
    (hblocks : Node.Blocks (d.resolved [x]) (.str y) n) (hy : Reference.given (.str y) = .ok y)
    {bound : Nat} (hbound : (d.known \ narrow.toFinset).card < bound) (hz : z ∈ d.known)
    (hsub : narrow ⊆ wide) (hwide : ∀ w ∈ wide, w = x ∨ w ∈ narrow) (hbegun : y ∈ narrow ∨ z = y)
    (h : Circles (d.resolved wide (.str z))) : Circles (d.resolved narrow (.str z)) := by
  -- each step puts one more known reference on the narrow path, so there is an end to them
  induction bound generalizing narrow wide z with
  | zero => exact absurd hbound (Nat.not_lt_zero _)
  | succ bound ih =>
      obtain ⟨_, heq, hgiven⟩ := given_of_circles h
      obtain rfl := Value.str.inj heq
      rw [resolved_eq hgiven]
      by_cases hmem : z ∈ narrow
      · rw [if_pos hmem]
        exact ⟨z, rfl⟩
      rw [if_neg hmem]
      have hbegun' : y ∈ z :: narrow := by
        rcases hbegun with hin | rfl
        · exact List.mem_cons_of_mem _ hin
        · exact List.mem_cons_self
      by_cases hx : z = x
      · -- the search comes back to where it has begun
        subst hx
        rw [hn]
        apply hblocks.circles (d.resolved (z :: narrow))
        · intro target _ m hm
          rw [← hm]
          exact (d.resolved_parts (by simp) target).mono fun _ _ => trivial
        · rw [resolved_eq hy, if_pos hbegun']
          exact ⟨y, rfl⟩
      · have hoff : z ∉ wide := fun hin => (hwide z hin).elim hx hmem
        rw [resolved_eq hgiven, if_neg hoff] at h
        cases hlook : d.look z with
        | error failure =>
            rw [hlook] at h
            exact h
        | ok m =>
            rw [hlook] at h
            obtain ⟨w, hw⟩ := h
            obtain ⟨target, htarget, hblocks'⟩ := Node.blocks_of_settled hw
            obtain ⟨v, rfl, -⟩ := given_of_circles ⟨w, htarget⟩
            apply hblocks'.circles
            · intro target _ m' hm'
              exact Or.inl ((d.resolved_parts (List.cons_subset_cons z hsub) target).narrow_ok hm')
            · have hless := card_sdiff_cons hz hmem
              apply ih (by omega) (mem_known_of_eager ⟨m, hlook, hblocks'.mem⟩)
                (List.cons_subset_cons z hsub) _ (Or.inl hbegun') ⟨w, htarget⟩
              intro w hw
              rcases List.mem_cons.mp hw with rfl | hin
              · exact Or.inr List.mem_cons_self
              · exact (hwide w hin).imp_right (List.mem_cons_of_mem _)

/-- A schema of the document settles by itself as its reference resolves: both give the same, or both
fail in the same way. -/
theorem settled_look (hgiven : Reference.given (.str x) = .ok x) (hn : d.look x = .ok n) :
    Agree Eq (n.settled (d.resolved [])) (d.resolved [] (.str x)) := by
  have hresolved : d.resolved [] (.str x) = n.settled (d.resolved [x]) := by
    rw [resolved_eq hgiven, if_neg List.not_mem_nil, hn]
    rfl
  rw [hresolved]
  have hparts : PartsAt (Added [x] []) (n.settled (d.resolved [x])) (n.settled (d.resolved [])) :=
    Node.settled_parts fun target _ => d.resolved_parts (List.nil_subset _) target
  rcases hparts with heq | ⟨w, -, heq⟩
  · rw [heq]
    exact .refl (fun _ => rfl) _
  · obtain ⟨target, htarget, hblocks⟩ := Node.blocks_of_settled heq
    obtain ⟨y, rfl, hy⟩ := given_of_circles ⟨w, htarget⟩
    have hcircles : Circles (n.settled (d.resolved [])) := by
      apply hblocks.circles
      · intro target _ m hm
        exact Or.inl ((d.resolved_parts (List.nil_subset [x]) target).narrow_ok hm)
      · exact circles_narrow hn hblocks hy (Nat.lt_succ_self _)
          (mem_known_of_eager ⟨n, hn, hblocks.mem⟩) (List.nil_subset _)
          (fun w hw => Or.inl (List.mem_singleton.mp hw)) (Or.inr rfl) ⟨w, htarget⟩
    obtain ⟨v, hv⟩ := hcircles
    rw [heq, hv]
    exact .error rfl

end Document

namespace Resolving

/-- Whether a run gives what a calculation does and changes the records only. -/
def Calculates {α : Type} (act : Resolving α) (outcome : Except Failure α) (world : World)
    (s : Session) : Prop :=
  ∃ u : Tracker, u.Ready ∧ act world s = (outcome, s.retracked u)

variable {α β : Type} {act : Resolving α} {next : α → Resolving β} {world : World} {s : Session}

theorem calculates_lift (hs : s.Cold) (outcome : Except Failure α) :
    Calculates (lift outcome) outcome world s := by
  refine ⟨s.tracker, hs.ready, ?_⟩
  cases outcome with
  | ok a => rfl
  | error failure => rfl

theorem Calculates.bind {outcome : Except Failure α} {outcome' : α → Except Failure β}
    (h : Calculates act outcome world s) (hs : s.Cold)
    (hnext : ∀ a t, outcome = .ok a → t.Cold → Calculates (next a) (outcome' a) world t) :
    Calculates (act >>= next) (outcome >>= outcome') world s := by
  obtain ⟨u, hu, hrun⟩ := h
  cases outcome with
  | error failure => exact ⟨u, hu, by rw [bind_apply, hrun]; rfl⟩
  | ok a =>
      obtain ⟨v, hv, hrun'⟩ := hnext a _ rfl (hs.retracked hu)
      exact ⟨v, hv, by rw [bind_apply, hrun]; exact hrun'⟩

theorem calculates_get_bind {next : Session → Resolving β} {outcome : Except Failure β}
    (h : Calculates (next s) outcome world s) : Calculates (get >>= next) outcome world s := by
  obtain ⟨u, hu, hrun⟩ := h
  exact ⟨u, hu, by rw [bind_apply]; exact hrun⟩

/-- A step that is sure to give some result is passed over. -/
theorem Records.bind {a : α} {outcome : Except Failure β} (h : Records act world s a) (hs : s.Cold)
    (hnext : ∀ t, t.Cold → Calculates (next a) outcome world t) :
    Calculates (act >>= next) outcome world s := by
  obtain ⟨u, hu, hrun⟩ := h
  obtain ⟨v, hv, hrun'⟩ := hnext _ (hs.retracked hu)
  exact ⟨v, hv, by rw [bind_apply, hrun]; exact hrun'⟩

end Resolving

namespace Node

variable {d : Document} {world : World} {follow : Value → Resolving Node}
  {calculate : Value → Except Failure Node}

section Members

variable {members : List Node} (h : ∀ member ∈ members, ∀ s, s.Cold →
  Calculates (settle follow d member) (settled calculate member) world s)
include h

theorem calculates_settleInto (merged : Merged) {s : Session} (hs : s.Cold) :
    Calculates (settleInto follow d merged members) (settledInto calculate merged members) world
      s := by
  induction members generalizing merged s with
  | nil =>
      rw [settleInto, settledInto]
      exact calculates_lift hs (.ok merged)
  | cons member rest ih =>
      obtain ⟨hmember, hrest⟩ := List.forall_mem_cons.mp h
      rw [settleInto, settledInto]
      apply (hmember s hs).bind hs
      rintro resolved t - ht
      apply (calculates_lift ht (merged.absorb resolved)).bind ht
      rintro next t' - ht'
      exact ih hrest next ht'

theorem calculates_settleVariants (kind : CompositionKind) (number : Nat) {s : Session}
    (hs : s.Cold) :
    Calculates (settleVariants follow d kind number members)
      (settledVariants calculate kind number members) world s := by
  induction members generalizing number s with
  | nil =>
      rw [settleVariants, settledVariants]
      exact calculates_lift hs (.ok [])
  | cons member rest ih =>
      obtain ⟨hmember, hrest⟩ := List.forall_mem_cons.mp h
      rw [settleVariants, settledVariants]
      apply (hmember s hs).bind hs
      rintro resolved t - ht
      apply (ih hrest (number + 1) ht).bind ht
      rintro others t' - ht'
      exact calculates_lift ht' (.ok _)

end Members

theorem calculates_settleKind {info : NodeInfo} {shape : CompositionShape Node}
    (h : ∀ member ∈ shape.members, ∀ s, s.Cold →
      Calculates (settle follow d member) (settled calculate member) world s)
    {s : Session} (hs : s.Cold) :
    Calculates (settleKind follow d info shape) (settledKind calculate info shape) world s := by
  unfold settleKind settledKind
  cases shape.kind with
  | allOf =>
      apply (calculates_settleInto h _ hs).bind hs
      rintro merged t - ht
      exact calculates_lift ht (.ok _)
  | anyOf =>
      apply (calculates_settleVariants h _ _ hs).bind hs
      rintro variants t - ht
      exact calculates_lift ht (.ok _)
  | oneOf =>
      cases shape.discriminator with
      | none => exact calculates_lift hs (.error .missingDiscriminator)
      | some d =>
          apply (calculates_settleVariants h _ _ hs).bind hs
          rintro variants t - ht
          exact calculates_lift ht (orFail _)

/-- Where nothing is cached, settling is the calculation if following is. -/
theorem calculates_settle {n : Node} (h : ∀ target ∈ n.follows, ∀ s, s.Cold →
      Calculates (follow target) (calculate target) world s) {s : Session} (hs : s.Cold) :
    Calculates (n.settle follow d) (n.settled calculate) world s := by
  induction n using nested generalizing s with
  | hleaf n hn =>
      rw [settle_leaf follow d hn, settled_leaf calculate hn]
      exact calculates_lift hs (.ok n)
  | href info target =>
      rw [settle_ref, settled_ref]
      exact h target (List.mem_singleton.mpr rfl) s hs
  | hcomposition info shape ih =>
      have hmembers : ∀ member ∈ shape.members, ∀ s, s.Cold →
          Calculates (settle follow d member) (settled calculate member) world s := by
        intro member hmember s hs
        apply ih member hmember _ hs
        intro target htarget
        exact h target (mem_follows_composition.mpr ⟨member, hmember, htarget⟩)
      rw [settle_composition, settled_composition]
      cases memberDefect? shape.rawMembers with
      | some defect => exact calculates_lift hs (.error _)
      | none =>
          apply (calculates_lift hs (orFail (identity (.composition info shape)))).bind hs
          rintro key t - ht
          apply (records_recallComposition ht (cacheKey d key)).bind ht
          intro t ht
          -- what was built is handed on as it is, though nothing is kept of it
          rw [← bind_pure (settledKind calculate info shape)]
          apply (calculates_settleKind hmembers ht).bind ht
          rintro resolved t - ht
          apply (records_keepComposition ht (cacheKey d key) resolved).bind ht
          intro t ht
          exact calculates_lift ht (.ok resolved)

end Node

section Following

variable {d : Document} {world : World} (hplain : d.Plain)
include hplain

/-- Where nothing is cached, following a reference of a document that refers only to itself is the
calculation. -/
theorem calculates_follow (budget : Nat) (path : List String) {target : Value}
    (hlocal : ∀ x, target = .str x → d.IsLocal x) {s : Session} (hs : s.Cold) :
    Calculates (follow d budget path target) (followed d.look budget path target) world s := by
  induction budget generalizing path target s with
  | zero => exact calculates_lift hs (.error _)
  | succ budget ih =>
      cases hgiven : Reference.given target with
      | error failure =>
          rw [follow, followed, hgiven]
          exact calculates_lift hs (.error failure)
      | ok x =>
          obtain rfl := Reference.eq_of_given hgiven
          rw [follow, hgiven, followed_succ hgiven]
          change Calculates (if path.contains x = true then _ else _) _ world s
          by_cases hpath : x ∈ path
          · rw [if_pos (List.contains_iff_mem.mpr hpath), if_pos hpath]
            exact calculates_lift hs (.error _)
          rw [if_neg fun hin => hpath (List.contains_iff_mem.mp hin), if_neg hpath]
          -- what the caches record does not bear on the result where they are cold
          apply (records_recallReference hs (cacheKey d x)).bind hs
          intro t ht
          apply calculates_get_bind
          rw [ht.failure_none, target_of_isLocal hgiven (hlocal x rfl)]
          dsimp only
          apply (calculates_lift ht (d.look x)).bind ht
          intro n t hn ht
          rw [← bind_pure (n.settled _)]
          have hfollow : ∀ target ∈ n.follows, ∀ s, s.Cold →
              Calculates (follow d budget (x :: path) target)
                (followed d.look budget (x :: path) target) world s := by
            intro target htarget s hs
            apply ih (x :: path) _ hs
            rintro y rfl
            exact Document.isLocal_of_eager hplain ⟨n, hn, htarget⟩
          apply (Node.calculates_settle hfollow ht).bind ht
          rintro resolved t - ht
          apply (records_keepReference ht (cacheKey d x) resolved).bind ht
          intro t ht
          exact calculates_lift ht (.ok resolved)

/-- The budget of a resolution is enough, so it does not count. -/
theorem calculates_resolveReference (path : List String) {target : Value}
    (hlocal : ∀ x, target = .str x → d.IsLocal x) {s : Session} (hs : s.Cold) :
    Calculates (resolveReference d path target) (d.resolved path target) world s := by
  apply calculates_get_bind
  have hfollow : Calculates (follow d (pathBudget d s.externalSettings.maxDepth) path target)
      (followed d.look (pathBudget d s.externalSettings.maxDepth) path target) world s :=
    calculates_follow hplain _ path hlocal hs
  have hbudget : followed d.look (pathBudget d s.externalSettings.maxDepth) path target =
      d.resolved path target := by
    cases target with
    | str x => exact d.followed_eq_resolved (lt_pathBudget d path x _)
    | _ =>
        rw [Document.resolved_error rfl]
        rfl
  rwa [hbudget] at hfollow

end Following

end SchemaGraph
