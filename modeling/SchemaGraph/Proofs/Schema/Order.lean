import SchemaGraph.Proofs.Schema.Clashes

/-!
# The order of properties

A table keeps its keys in the order in which they were first written.  So the properties of a
resolved `allOf` or `anyOf` stand in the order of declaration: first those that the composition
itself declares, then for one member after the other the names that are new.
-/

namespace SchemaGraph

namespace Table

variable {α : Type}

theorem keys_put (table : Table α) (key : Value) (item : α) :
    (table.put key item).keys = Value.extendUnique table.keys [key] := by
  change _ = if key.among table.keys then table.keys else table.keys ++ [key]
  induction table with
  | nil => rfl
  | cons entry rest ih =>
      obtain ⟨k, old⟩ := entry
      unfold put
      -- a present key keeps its position, so the keys change only at the end
      by_cases hsame : k.same key = true
      · rw [if_pos hsame, if_pos]
        · rfl
        · simp [keys, Value.among, hsame]
      · have hamong : key.among (keys ((k, old) :: rest)) = key.among (keys rest) := by
          simp [keys, Value.among, hsame]
        rw [if_neg hsame, hamong]
        change k :: (put rest key item).keys = _
        rw [ih]
        split <;> rfl

theorem get_isSome (table : Table α) (key : Value) :
    (table.get? key).isSome = key.among table.keys := by
  rw [get?, Option.isSome_map, Bool.eq_iff_iff, List.find?_isSome]
  simp [Value.among, keys]

theorem keys_putNew (table : Table α) (key : Value) (item : α) :
    (table.putNew key item).keys = Value.extendUnique table.keys [key] := by
  have hsome := get_isSome table key
  unfold putNew
  cases hget : table.get? key with
  | none => exact keys_put table key item
  | some old =>
      rw [hget] at hsome
      change _ = if key.among table.keys then table.keys else table.keys ++ [key]
      rw [← hsome]
      rfl

theorem keys_putAll (table entries : Table α) :
    (putAll table entries).keys = Value.extendUnique table.keys entries.keys := by
  induction entries generalizing table with
  | nil => rfl
  | cons entry rest ih =>
      rw [putAll_cons, ih, keys_put]
      rfl

theorem keys_putAllNew (table entries : Table α) :
    (putAllNew table entries).keys = Value.extendUnique table.keys entries.keys := by
  induction entries generalizing table with
  | nil => rfl
  | cons entry rest ih =>
      rw [putAllNew_cons, ih, keys_putNew]
      rfl

end Table

namespace Node

/-- The names of properties in the order of declaration: those of a composition, then those that its
members offer, each where it is first declared. -/
def declaredNames (properties : Table Node) (members : List Node) : List Value :=
  members.foldl (fun names member => Value.extendUnique names member.offered.keys) properties.keys

theorem keys_putEach (properties : Table Node) (members : List Node) :
    (Table.putEach properties (members.map offered)).keys = declaredNames properties members := by
  induction members generalizing properties with
  | nil => rfl
  | cons member rest ih =>
      rw [List.map_cons, Table.putEach_cons, ih]
      unfold declaredNames
      rw [List.foldl_cons, Table.keys_putAll]

section Settled

variable {follow : Value → Except Failure Node}

/-- Variants are the settled members in their order, with names. -/
theorem settledVariants_ok {members resolved : List Node} (h : SettleTo follow members resolved)
    (kind : CompositionKind) (number : Nat) :
    ∃ variants, settledVariants follow kind number members = .ok variants ∧
      variants.map (·.schema) = resolved := by
  induction h generalizing number with
  | nil => exact ⟨[], rfl, rfl⟩
  | @cons member n rest resolved hmember hrest ih =>
      obtain ⟨variants, hvariants, heq⟩ := ih (number + 1)
      refine ⟨⟨variantName kind member n number, n⟩ :: variants, ?_, by rw [List.map_cons, heq]⟩
      rw [settledVariants, hmember, hvariants]
      rfl

theorem keys_offer (shape : ObjectShape Node) (variant : Variant Node) :
    Table.keys (offer shape variant).properties =
      Value.extendUnique (Table.keys shape.properties) variant.schema.offered.keys := by
  unfold offer
  cases variant.schema with
  | object info given => exact Table.keys_putAllNew shape.properties given.properties
  | _ => rfl

/-- Variants offer the names that are new. -/
theorem keys_offerEach (shape : ObjectShape Node) (variants : List (Variant Node)) :
    Table.keys (variants.foldl offer shape).properties =
      declaredNames shape.properties (variants.map (·.schema)) := by
  unfold declaredNames
  rw [List.foldl_map]
  induction variants generalizing shape with
  | nil => rfl
  | cons variant rest ih => rw [List.foldl_cons, List.foldl_cons, ih, keys_offer]

/-- The properties of a settled `allOf` or `anyOf` stand in the order of declaration. -/
theorem keys_of_settled {info : NodeInfo} {shape : CompositionShape Node} {n : Node}
    (h : settled follow (.composition info shape) = .ok n) (hkind : shape.kind ≠ .oneOf) :
    ∃ resolved, SettleTo follow shape.members resolved ∧
      n.offered.keys = declaredNames shape.properties resolved := by
  cases hshape : shape.kind with
  | oneOf => exact absurd hshape hkind
  | allOf =>
      obtain ⟨resolved, hresolved, hoffered⟩ := offered_of_allOf h hshape
      exact ⟨resolved, hresolved, by rw [hoffered, keys_putEach]⟩
  | anyOf =>
      obtain ⟨resolved, hresolved⟩ := exists_settleTo (members_of_settled h)
      obtain ⟨variants, hvariants, heq⟩ := settledVariants_ok hresolved .anyOf 1
      have hsettled := settledKind_of_settled h
      unfold settledKind at hsettled
      rw [hshape] at hsettled
      dsimp only at hsettled
      rw [hvariants] at hsettled
      refine ⟨resolved, hresolved, ?_⟩
      rw [← Except.ok.inj hsettled, ← heq]
      exact keys_offerEach _ variants

end Settled

end Node

end SchemaGraph
