import SchemaGraph.External
import SchemaGraph.Proofs.Outcome

/-!
# What values hand on to their parts

A pointer leads from a value into its parts, and so does the way to the schemas of a document.  So what
every value hands on to its parts holds of whatever these lead to, if it holds of the value where they
start, and of what stands for a part that is absent.
-/

namespace SchemaGraph

/-- A property that a value hands on to its parts, and that what is absent has. -/
structure Value.Inherited (P : Value → Prop) : Prop where
  entry : ∀ {entries : Table Value} {key : String} {v : Value}, P (.map entries) →
    entries.at? key = some v → P v
  item : ∀ {items : List Value} {v : Value}, P (.list items) → v ∈ items → P v
  null : P .null
  blank : P (.map [])

namespace Value.Inherited

variable {P : Value → Prop} (hinherited : Inherited P) {v w : Value} {entries table : Table Value}
include hinherited

theorem field (h : P (.map entries)) (key : String) : P (Node.field entries key) := by
  unfold Node.field
  cases hat : entries.at? key with
  | none => exact hinherited.null
  | some item => exact hinherited.entry h hat

/-- The declared type of a schema is one of its parts, or part of one. -/
theorem declaredType (h : P (.map entries)) : P (Node.declaredTypeOf entries).1 := by
  have htype := hinherited.field h "type"
  unfold Node.declaredTypeOf
  split
  · rename_i types hlist
    rw [hlist] at htype
    dsimp only
    cases hfirst : (types.filter fun t => !t.isText "null").head? with
    | none => exact hinherited.null
    | some first =>
        exact hinherited.item htype (List.mem_filter.mp (List.mem_of_head? hfirst)).1
  · exact htype

theorem at_value {key : String} (hv : P v) (h : v.at? key = some w) : P w := by
  cases v with
  | map entries => exact hinherited.entry hv h
  | _ => cases h

theorem step {segment : String} (hv : P v) (h : Pointer.step v segment = .ok w) : P w := by
  unfold Pointer.step at h
  split at h
  · split at h
    · rename_i hat
      rw [← Except.ok.inj h]
      exact hinherited.entry hv hat
    · cases h
  · split at h
    · rw [bind_eq_ok] at h
      obtain ⟨index, -, h⟩ := h
      split at h
      · rename_i hitem
        rw [← Except.ok.inj h]
        exact hinherited.item hv (List.mem_of_getElem? hitem)
      · cases h
    · cases h
  · cases h

theorem walk {segments : List String} (hv : P v) (h : Pointer.walk v segments = .ok w) : P w := by
  unfold Pointer.walk at h
  induction segments generalizing v with
  | nil =>
      rw [← Except.ok.inj h]
      exact hv
  | cons segment rest ih =>
      rw [List.foldlM_cons, bind_eq_ok] at h
      obtain ⟨next, hnext, h⟩ := h
      exact ih (hinherited.step hv hnext) h

theorem tableAt (h : P (.map entries)) (key : String) :
    P (.map (Document.tableAt entries key)) := by
  unfold Document.tableAt
  split
  · rename_i inner hat
    exact hinherited.entry h hat
  · exact hinherited.blank

/-- The registry of a document inherits from the document. -/
theorem registry {d : Document} (hd : P d.raw) (h : d.registry = .ok table) : P (.map table) := by
  unfold Document.registry at h
  split at h
  · rename_i entries hraw
    rw [hraw] at hd
    rw [← Except.ok.inj h]
    exact hinherited.tableAt (hinherited.tableAt hd _) _
  · cases h

/-- The schemas of another document inherit from it. -/
theorem schemasOf (hv : P v) : P (External.schemasOf v) := by
  unfold External.schemasOf
  split
  · rename_i components hat
    have hcomponents := hinherited.at_value hv hat
    unfold orElse
    split
    · cases hschemas : components.at? "schemas" with
      | none => exact hinherited.null
      | some schemas => exact hinherited.at_value hcomponents hschemas
    · exact hinherited.blank
  · exact hinherited.blank

end Value.Inherited

end SchemaGraph
