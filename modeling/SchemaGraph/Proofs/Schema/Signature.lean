import SchemaGraph.Schema.Signature
import SchemaGraph.Proofs.Json.Sorted
import SchemaGraph.Proofs.Schema.Like
import SchemaGraph.Proofs.Schema.Read

/-!
# Signatures of compositions

Compositions of JSON have a signature.  Unless two texts have one digest, compositions have one
signature exactly if they are written alike, that is, up to the order of keys.
-/

namespace SchemaGraph

section Octets

theorem toList_loop (octets : ByteArray) (i : Nat) (before : List UInt8) :
    ByteArray.toList.loop octets i before = before.reverse ++ octets.data.toList.drop i := by
  fun_induction ByteArray.toList.loop octets i before with
  | case1 i before h ih =>
      have hlength : i < octets.data.toList.length := by simpa using h
      have hget : octets.get! i = octets.data.toList[i] := by
        change octets.data[i]! = _
        rw [getElem!_pos octets.data i h]
        simp
      rw [ih, hget, List.drop_eq_getElem_cons hlength]
      simp
  | case2 i before h =>
      have hlength : octets.data.toList.length ≤ i := by simpa using h
      rw [List.drop_eq_nil_of_le hlength, List.append_nil]

/-- Texts with the same octets are the same. -/
theorem octets_inj {s t : String} (h : s.toUTF8.toList = t.toUTF8.toList) : s = t := by
  have hlists : ∀ octets : ByteArray, octets.toList = octets.data.toList := by
    intro octets
    rw [ByteArray.toList, toList_loop]
    rfl
  rw [hlists, hlists, Array.toList_inj] at h
  exact String.toByteArray_inj.mp (ByteArray.ext h)

end Octets

/-- Whether two messages are told apart by their digests. -/
def Sha256.TellsApart (message message' : List UInt8) : Prop :=
  digest message = digest message' → message = message'

namespace Node

open Value

theorem signature_eq_ok {info : NodeInfo} {shape : CompositionShape Node} {key : String} :
    (Node.composition info shape).signature = .ok key ↔
      ∃ text, Json.canonical (Node.composition info shape).write = .ok text ∧
        key = shape.kind.keyword ++ ":" ++ Sha256.digest text.toUTF8.toList := by
  rw [signature, bind_eq_ok]
  constructor
  · rintro ⟨text, htext, h⟩
    exact ⟨text, htext, (Except.ok.inj h).symm⟩
  · rintro ⟨text, htext, rfl⟩
    exact ⟨text, htext, rfl⟩

theorem length_keyword (kind : CompositionKind) : kind.keyword.toList.length = 5 := by
  cases kind <;> rfl

/-- All keywords have one length, so a keyword and what follows it can be told from the whole. -/
theorem keyword_append_inj {kind kind' : CompositionKind} {s t : String}
    (h : kind.keyword ++ ":" ++ s = kind'.keyword ++ ":" ++ t) : kind = kind' ∧ s = t := by
  have hlists := congrArg String.toList h
  rw [String.toList_append, String.toList_append, String.toList_append, String.toList_append,
    List.append_assoc, List.append_assoc] at hlists
  have hlength : kind.keyword.toList.length = kind'.keyword.toList.length := by
    rw [length_keyword, length_keyword]
  obtain ⟨hkeyword, hrest⟩ := List.append_inj hlists hlength
  refine ⟨?_, String.toList_inj.mp (List.append_cancel_left hrest)⟩
  cases kind <;> cases kind' <;> first | rfl | exact absurd hkeyword (by decide)

/-- Whether the canonical texts of two schemas are told apart by their digests. -/
def DigestsTellApart (n n' : Node) : Prop :=
  ∀ text text', n.canonicalText = .ok text → n'.canonicalText = .ok text' →
    Sha256.TellsApart text.toUTF8.toList text'.toUTF8.toList

/-- A composition that is written as a value of JSON has a signature. -/
theorem signature_exists {info : NodeInfo} {shape : CompositionShape Node}
    (h : (Node.composition info shape).write.isJson = true) :
    ∃ key, (Node.composition info shape).signature = .ok key := by
  obtain ⟨text, htext⟩ := Json.canonical_exists h
  exact ⟨_, signature_eq_ok.mpr ⟨text, htext, rfl⟩⟩

/-- Compositions of JSON have one signature exactly if they are written alike. -/
theorem signature_eq_iff {info info' : NodeInfo} {shape shape' : CompositionShape Node}
    {key key' : String} (h : (Node.composition info shape).Sound)
    (h' : (Node.composition info' shape').Sound)
    (hdigest : DigestsTellApart (.composition info shape) (.composition info' shape'))
    (hkey : (Node.composition info shape).signature = .ok key)
    (hkey' : (Node.composition info' shape').signature = .ok key') :
    key = key' ↔ (Node.composition info shape).Alike (.composition info' shape') := by
  obtain ⟨text, htext, rfl⟩ := signature_eq_ok.mp hkey
  obtain ⟨text', htext', rfl⟩ := signature_eq_ok.mp hkey'
  have hcanonical := Json.canonical_eq_iff h.2 h'.2 htext htext'
  constructor
  · intro hsame
    obtain ⟨-, hdigests⟩ := keyword_append_inj hsame
    exact hcanonical.mp (octets_inj (hdigest text text' htext htext' hdigests))
  · intro halike
    obtain ⟨_, _, heq, hkind⟩ := halike.composition h.1.labelled.info h'.1.labelled.info
    rw [hcanonical.mpr halike, hkind, (Node.composition.inj heq).2]

end Node

end SchemaGraph
