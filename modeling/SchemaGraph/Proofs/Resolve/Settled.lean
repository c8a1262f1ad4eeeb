import SchemaGraph.Schema.Merge
import SchemaGraph.Schema.Signature
import SchemaGraph.Proofs.Outcome

/-!
# Settling without a session

To settle a schema as resolving does, with no caches and no records: references are followed by a
function of their targets.  What comes out depends only on what the references give that the schema
leads to at once, and related schemas settle to related ones for every relation that merging
respects.
-/

namespace SchemaGraph

namespace Node

mutual

/-- Settle a schema where references are followed by a function. -/
def settled (follow : Value → Except Failure Node) : Node → Except Failure Node
  | .ref _ target => follow target
  | .composition info ⟨kind, rawMembers, members, discriminator, properties, required⟩ => do
    let shape : CompositionShape Node :=
      ⟨kind, rawMembers, members, discriminator, properties, required⟩
    match memberDefect? rawMembers with
    | some defect => .error (.badMembers kind defect)
    | none =>
      let _ ← orFail (identity (.composition info shape))
      match kind with
      | .allOf => do return (← settledInto follow (Merged.start info shape) members).node
      | .oneOf =>
        match discriminator with
        | none => .error .missingDiscriminator
        | some d => do
          orFail (resolvedOneOf info shape d (← settledVariants follow .oneOf 1 members))
      | .anyOf => do return resolvedAnyOf info shape (← settledVariants follow .anyOf 1 members)
  | node => .ok node

/-- Settle members one after the other and merge each of them. -/
def settledInto (follow : Value → Except Failure Node) (merged : Merged) :
    List Node → Except Failure Merged
  | [] => .ok merged
  | member :: rest => do
    let resolved ← settled follow member
    settledInto follow (← merged.absorb resolved) rest

/-- Settle members one after the other and name each of them. -/
def settledVariants (follow : Value → Except Failure Node) (kind : CompositionKind)
    (number : Nat) : List Node → Except Failure (List (Variant Node))
  | [] => .ok []
  | member :: rest => do
    let resolved ← settled follow member
    let others ← settledVariants follow kind (number + 1) rest
    return ⟨variantName kind member resolved number, resolved⟩ :: others

end

mutual

/-- The targets of the references that a schema leads to at once: its own, or those of its members
through any nesting of compositions. -/
def follows : Node → List Value
  | .ref _ target => [target]
  | .composition _ ⟨_, _, members, _, _, _⟩ => membersFollow members
  | _ => []

/-- The targets of the references that members lead to at once. -/
def membersFollow : List Node → List Value
  | [] => []
  | member :: rest => follows member ++ membersFollow rest

end

/-- Whether a schema is neither a reference nor a composition. -/
def isLeaf : Node → Bool
  | .ref _ _ | .composition _ _ => false
  | _ => true

mutual

/-- What holds of a composition if it holds of its members holds of every schema. -/
theorem nested {P : Node → Prop} (hleaf : ∀ n : Node, n.isLeaf = true → P n)
    (href : ∀ info target, P (.ref info target))
    (hcomposition : ∀ info shape, (∀ member ∈ shape.members, P member) →
      P (.composition info shape)) : ∀ n : Node, P n
  | .bare _ => hleaf _ rfl
  | .ref _ _ => href _ _
  | .primitive _ _ => hleaf _ rfl
  | .array _ _ => hleaf _ rfl
  | .object _ _ => hleaf _ rfl
  | .composition _ ⟨_, _, members, _, _, _⟩ =>
      hcomposition _ _ (nestedMembers hleaf href hcomposition members)

theorem nestedMembers {P : Node → Prop} (hleaf : ∀ n : Node, n.isLeaf = true → P n)
    (href : ∀ info target, P (.ref info target))
    (hcomposition : ∀ info shape, (∀ member ∈ shape.members, P member) →
      P (.composition info shape)) : ∀ members : List Node, ∀ member ∈ members, P member
  | [], _, h => absurd h (by simp)
  | first :: rest, member, h => by
      rcases List.mem_cons.mp h with heq | hin
      · rw [heq]
        exact nested hleaf href hcomposition first
      · exact nestedMembers hleaf href hcomposition rest member hin

end

theorem settled_leaf (follow : Value → Except Failure Node) {n : Node} (h : n.isLeaf = true) :
    settled follow n = .ok n := by
  cases n with
  | ref info target => exact absurd h (by simp [isLeaf])
  | composition info shape => exact absurd h (by simp [isLeaf])
  | _ => rfl

theorem settled_ref (follow : Value → Except Failure Node) (info : NodeInfo) (target : Value) :
    settled follow (.ref info target) = follow target :=
  rfl

/-- What settling a composition does after its members were found to be some. -/
def settledKind (follow : Value → Except Failure Node) (info : NodeInfo)
    (shape : CompositionShape Node) : Except Failure Node :=
  match shape.kind with
  | .allOf => do return (← settledInto follow (Merged.start info shape) shape.members).node
  | .anyOf => do return resolvedAnyOf info shape (← settledVariants follow .anyOf 1 shape.members)
  | .oneOf =>
    match shape.discriminator with
    | none => .error .missingDiscriminator
    | some d => do
      orFail (resolvedOneOf info shape d (← settledVariants follow .oneOf 1 shape.members))

theorem settled_composition (follow : Value → Except Failure Node) (info : NodeInfo)
    (shape : CompositionShape Node) :
    settled follow (.composition info shape) =
      match memberDefect? shape.rawMembers with
      | some defect => .error (.badMembers shape.kind defect)
      | none =>
          orFail (identity (.composition info shape)) >>= fun _ =>
            settledKind follow info shape := by
  obtain ⟨kind, rawMembers, members, discriminator, properties, required⟩ := shape
  simp only [settled, settledKind]
  cases memberDefect? rawMembers with
  | some defect => rfl
  | none =>
      cases kind with
      | allOf => rfl
      | anyOf => rfl
      | oneOf =>
          cases discriminator with
          | none => rfl
          | some d => rfl

section Follows

theorem mem_membersFollow {members : List Node} {target : Value} :
    target ∈ membersFollow members ↔ ∃ member ∈ members, target ∈ member.follows := by
  induction members with
  | nil => simp [membersFollow]
  | cons member rest ih => simp [membersFollow, ih]

theorem mem_follows_composition {info : NodeInfo} {shape : CompositionShape Node}
    {target : Value} :
    target ∈ (Node.composition info shape).follows ↔
      ∃ member ∈ shape.members, target ∈ member.follows :=
  mem_membersFollow

variable {follow follow' : Value → Except Failure Node}

theorem settledInto_congr_follow {members : List Node}
    (h : ∀ member ∈ members, settled follow member = settled follow' member) (merged : Merged) :
    settledInto follow merged members = settledInto follow' merged members := by
  induction members generalizing merged with
  | nil => rfl
  | cons member rest ih =>
      rw [settledInto, settledInto, h member List.mem_cons_self]
      congr 1
      funext resolved
      congr 1
      funext next
      exact ih (fun m hm => h m (List.mem_cons_of_mem _ hm)) next

theorem settledVariants_congr_follow {members : List Node}
    (h : ∀ member ∈ members, settled follow member = settled follow' member)
    (kind : CompositionKind) (number : Nat) :
    settledVariants follow kind number members = settledVariants follow' kind number members := by
  induction members generalizing number with
  | nil => rfl
  | cons member rest ih =>
      rw [settledVariants, settledVariants, h member List.mem_cons_self,
        ih fun m hm => h m (List.mem_cons_of_mem _ hm)]

/-- Settling depends only on what the references give that a schema leads to. -/
theorem settled_congr_follow {n : Node} (h : ∀ target ∈ n.follows, follow target = follow' target) :
    settled follow n = settled follow' n := by
  induction n using nested with
  | hleaf n hn => rw [settled_leaf follow hn, settled_leaf follow' hn]
  | href info target => exact h target (List.mem_singleton.mpr rfl)
  | hcomposition info shape ih =>
      have hmembers : ∀ member ∈ shape.members,
          settled follow member = settled follow' member := by
        intro member hmember
        refine ih member hmember fun target htarget => ?_
        exact h target (mem_follows_composition.mpr ⟨member, hmember, htarget⟩)
      have hkind : settledKind follow info shape = settledKind follow' info shape := by
        unfold settledKind
        rw [settledInto_congr_follow hmembers, settledVariants_congr_follow hmembers,
          settledVariants_congr_follow hmembers]
      rw [settled_composition, settled_composition, hkind]

theorem members_of_settledInto {members : List Node} {merged last : Merged}
    (h : settledInto follow merged members = .ok last) :
    ∀ member ∈ members, ∃ resolved, settled follow member = .ok resolved := by
  induction members generalizing merged with
  | nil => exact fun _ hmember => absurd hmember (by simp)
  | cons member rest ih =>
      rw [settledInto, bind_eq_ok] at h
      obtain ⟨resolved, hresolved, h⟩ := h
      rw [bind_eq_ok] at h
      obtain ⟨next, -, h⟩ := h
      intro given hgiven
      rcases List.mem_cons.mp hgiven with rfl | hin
      · exact ⟨resolved, hresolved⟩
      · exact ih h given hin

theorem members_of_settledVariants {members : List Node} {kind : CompositionKind} {number : Nat}
    {variants : List (Variant Node)} (h : settledVariants follow kind number members = .ok variants) :
    ∀ member ∈ members, ∃ resolved, settled follow member = .ok resolved := by
  induction members generalizing number variants with
  | nil => exact fun _ hmember => absurd hmember (by simp)
  | cons member rest ih =>
      rw [settledVariants, bind_eq_ok] at h
      obtain ⟨resolved, hresolved, h⟩ := h
      rw [bind_eq_ok] at h
      obtain ⟨others, hothers, -⟩ := h
      intro given hgiven
      rcases List.mem_cons.mp hgiven with rfl | hin
      · exact ⟨resolved, hresolved⟩
      · exact ih hothers given hin

/-- A composition that was settled has members, and was settled as its kind is. -/
theorem settledKind_of_settled {info : NodeInfo} {shape : CompositionShape Node} {n : Node}
    (h : settled follow (.composition info shape) = .ok n) :
    settledKind follow info shape = .ok n := by
  rw [settled_composition] at h
  cases hdefect : memberDefect? shape.rawMembers with
  | some defect =>
      rw [hdefect] at h
      cases h
  | none =>
      rw [hdefect] at h
      dsimp only at h
      rw [bind_eq_ok] at h
      obtain ⟨key, -, h⟩ := h
      exact h

/-- A composition that was settled has members that were. -/
theorem members_of_settled {info : NodeInfo} {shape : CompositionShape Node} {n : Node}
    (h : settled follow (.composition info shape) = .ok n) :
    ∀ member ∈ shape.members, ∃ resolved, settled follow member = .ok resolved := by
  have hkind := settledKind_of_settled h
  unfold settledKind at hkind
  split at hkind
  · rw [bind_eq_ok] at hkind
    obtain ⟨merged, hmerged, -⟩ := hkind
    exact members_of_settledInto hmerged
  · rw [bind_eq_ok] at hkind
    obtain ⟨variants, hvariants, -⟩ := hkind
    exact members_of_settledVariants hvariants
  · split at hkind
    · cases hkind
    · rw [bind_eq_ok] at hkind
      obtain ⟨variants, hvariants, -⟩ := hkind
      exact members_of_settledVariants hvariants

/-- A schema that was settled leads only to references that were followed. -/
theorem follows_of_settled {n m : Node} (h : settled follow n = .ok m) :
    ∀ target ∈ n.follows, ∃ resolved, follow target = .ok resolved := by
  induction n using nested generalizing m with
  | hleaf n hn =>
      intro target htarget
      cases n with
      | ref info target => exact absurd hn (by simp [isLeaf])
      | composition info shape => exact absurd hn (by simp [isLeaf])
      | _ => exact absurd htarget (by simp [follows])
  | href info target =>
      intro target' htarget'
      rw [List.mem_singleton.mp htarget']
      exact ⟨m, h⟩
  | hcomposition info shape ih =>
      intro target htarget
      obtain ⟨member, hmember, hin⟩ := mem_follows_composition.mp htarget
      obtain ⟨resolved, hresolved⟩ := members_of_settled h member hmember
      exact ih member hmember hresolved target hin

/-- Settling ends at a schema that is neither a reference nor a composition, if following does. -/
theorem isLeaf_of_settled (hfollow : ∀ target m, follow target = .ok m → m.isLeaf = true)
    {n m : Node} (h : settled follow n = .ok m) : m.isLeaf = true := by
  by_cases hn : n.isLeaf = true
  · rw [settled_leaf follow hn] at h
    rwa [← Except.ok.inj h]
  · cases n with
    | ref info target => exact hfollow target m h
    | composition info shape =>
        -- every kind of composition is built to an object
        have hkind := settledKind_of_settled h
        unfold settledKind at hkind
        split at hkind
        · obtain ⟨merged, -, hm⟩ := bind_eq_ok.mp hkind
          rw [← Except.ok.inj hm]
          rfl
        · obtain ⟨variants, -, hm⟩ := bind_eq_ok.mp hkind
          rw [← Except.ok.inj hm]
          rfl
        · split at hkind
          · cases hkind
          · obtain ⟨variants, -, hm⟩ := bind_eq_ok.mp hkind
            have hobject := orFail_eq_ok.mp hm
            unfold resolvedOneOf at hobject
            dsimp only at hobject
            split at hobject
            · cases hobject
            · rw [← Except.ok.inj hobject]
              rfl
    | _ => exact absurd rfl hn

/-- A schema that was settled still settles so, if its references are still followed so. -/
theorem settled_of_imp {n m : Node} (h : settled follow n = .ok m)
    (himp : ∀ target ∈ n.follows, ∀ resolved, follow target = .ok resolved →
      follow' target = .ok resolved) : settled follow' n = .ok m := by
  rw [← h]
  refine settled_congr_follow fun target htarget => ?_
  obtain ⟨resolved, hresolved⟩ := follows_of_settled h target htarget
  rw [hresolved]
  exact himp target htarget resolved hresolved

end Follows

end Node

end SchemaGraph
