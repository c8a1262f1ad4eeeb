import SchemaGraph.Document.Validate
import SchemaGraph.Proofs.Pointer.Leading

/-!
# What makes a document valid

Each rule for documents can be told alone: a rule is broken by a value or it is not, whatever the other
rules say.  A document is accepted exactly if it breaks no rule, and what is reported of any other value
is the first rule in the order of checking that it breaks.

A version is supported if it is `3.0.` and decimal digits, of any script, with at most one line end
behind them.  So a version of plain characters is supported exactly if it is `3.0.` and digits and nothing
else, but some others are supported as well.
-/

namespace SchemaGraph

/-! ### Versions -/

namespace Digit

/-- Below 128 only the digits of ASCII are decimal digits. -/
theorem isDecimal_iff_of_ascii {c : Char} (hc : c.toNat < 128) :
    isDecimal c = true ↔ c.isDigit = true := by
  constructor
  · intro hdecimal
    unfold isDecimal value? at hdecimal
    rw [Option.isSome_map, List.find?_isSome] at hdecimal
    obtain ⟨start, hstart, hrun⟩ := hdecimal
    rw [decide_eq_true_eq] at hrun
    have hzeroes : ∀ start ∈ zeroes, start = 0x30 ∨ 128 ≤ start := by decide
    obtain rfl : start = 0x30 := by
      have := hzeroes start hstart
      omega
    rw [Char.isDigit_iff_toNat]
    exact hrun
  · intro hdigit
    unfold isDecimal
    rw [value_of_isDigit hdigit]
    rfl

end Digit

theorem Pieces.after?_eq_some_iff {beginning text rest : List Char} :
    after? beginning text = some rest ↔ text = beginning ++ rest := by
  constructor
  · intro h
    induction beginning generalizing text with
    | nil => exact Option.some.inj h
    | cons p beginning ih =>
        cases text with
        | nil => cases h
        | cons c text =>
            rw [after?] at h
            split at h
            · rename_i heq
              rw [ih h, heq, List.cons_append]
            · cases h
  · rintro rfl
    exact after?_append beginning rest

namespace Document

/-- How every supported version starts. -/
def release : List Char := ['3', '.', '0', '.']

/-- Whether a version is `3.0.` and a number, in digits of any script. -/
def IsPatch (version : List Char) : Prop :=
  ∃ digits, digits ≠ [] ∧ (∀ c ∈ digits, Digit.isDecimal c = true) ∧ version = release ++ digits

theorem isPatch_append {digits : List Char} :
    IsPatch (release ++ digits) ↔ digits ≠ [] ∧ ∀ c ∈ digits, Digit.isDecimal c = true := by
  constructor
  · rintro ⟨digits', hne, hdecimal, heq⟩
    rw [List.append_cancel_left heq]
    exact ⟨hne, hdecimal⟩
  · rintro ⟨hne, hdecimal⟩
    exact ⟨digits, hne, hdecimal, rfl⟩

/-- A line end at the end of a text is not part of a number. -/
theorem not_isPatch_lineEnd (version : List Char) : ¬ IsPatch (version ++ ['\n']) := by
  rintro ⟨digits, hne, hdecimal, heq⟩
  have hlast := congrArg List.getLast? heq
  rw [List.getLast?_concat, List.getLast?_append_of_ne_nil _ hne] at hlast
  have hend := hdecimal '\n' (List.mem_of_getLast? hlast.symm)
  exact absurd hend (by decide)

/-- A version is supported exactly if it is `3.0.` and a number, or this and a line end. -/
theorem isSupportedVersion_iff {version : String} :
    isSupportedVersion version = true ↔
      IsPatch version.toList ∨ ∃ patch, IsPatch patch ∧ version.toList = patch ++ ['\n'] := by
  have hdigits : ∀ digits : List Char,
      (!digits.isEmpty && digits.all Digit.isDecimal) = true ↔ IsPatch (release ++ digits) := by
    intro digits
    rw [isPatch_append, Bool.and_eq_true, Bool.not_eq_true', List.isEmpty_eq_false_iff,
      List.all_eq_true]
  unfold isSupportedVersion
  -- the tests come in their order: the prefix first, then the line end
  split
  · rename_i hafter
    have hother : ∀ rest, version.toList ≠ release ++ rest := by
      intro rest heq
      rw [heq, show ['3', '.', '0', '.'] = release from rfl, Pieces.after?_append] at hafter
      cases hafter
    constructor
    · intro h
      cases h
    · rintro (⟨digits, -, -, heq⟩ | ⟨_, ⟨digits, -, -, rfl⟩, heq⟩)
      · exact absurd heq (hother digits)
      · rw [List.append_assoc] at heq
        exact absurd heq (hother _)
  · rename_i patch hafter
    have hversion : version.toList = release ++ patch := Pieces.after?_eq_some_iff.mp hafter
    dsimp only
    rw [hdigits, hversion]
    split
    · rename_i hlast
      obtain ⟨digits, rfl⟩ := List.getLast?_eq_some_iff.mp hlast
      rw [List.dropLast_concat, ← List.append_assoc]
      constructor
      · intro h
        exact Or.inr ⟨_, h, rfl⟩
      · rintro (h | ⟨other, h, heq⟩)
        · exact absurd h (not_isPatch_lineEnd _)
        · rwa [List.append_cancel_right heq]
    · rename_i hlast
      constructor
      · exact Or.inl
      · rintro (h | ⟨_, ⟨digits, -, -, rfl⟩, heq⟩)
        · exact h
        · rw [List.append_assoc] at heq
          rw [List.append_cancel_left heq, List.getLast?_concat] at hlast
          exact absurd rfl hlast

/-- A version of plain characters is supported exactly if it is `3.0.` and digits of ASCII. -/
theorem isSupportedVersion_iff_of_ascii {version : String}
    (hascii : ∀ c ∈ version.toList, c.toNat < 128 ∧ c ≠ '\n') :
    isSupportedVersion version = true ↔
      ∃ digits, digits ≠ [] ∧ (∀ c ∈ digits, c.isDigit = true) ∧
        version.toList = release ++ digits := by
  have hdigit : ∀ digits, version.toList = release ++ digits →
      ((∀ c ∈ digits, Digit.isDecimal c = true) ↔ ∀ c ∈ digits, c.isDigit = true) := by
    intro digits heq
    refine forall₂_congr fun c hc => Digit.isDecimal_iff_of_ascii (hascii c ?_).1
    rw [heq]
    exact List.mem_append_right _ hc
  rw [isSupportedVersion_iff]
  constructor
  · rintro (⟨digits, hne, hdecimal, heq⟩ | ⟨patch, -, heq⟩)
    · exact ⟨digits, hne, (hdigit digits heq).mp hdecimal, heq⟩
    · have hend : '\n' ∈ version.toList := by simp [heq]
      exact absurd rfl (hascii _ hend).2
  · rintro ⟨digits, hne, hdecimal, heq⟩
    exact Or.inl ⟨digits, hne, (hdigit digits heq).mpr hdecimal, heq⟩

theorem isSupportedVersion_iff_of_ascii_patch :
    isSupportedVersion "3.0.1" = true ∧ isSupportedVersion "3.1.0" = false := by
  have hplain : ∀ c ∈ "3.0.1".toList, c.toNat < 128 ∧ c ≠ '\n' := by simp
  have hplain' : ∀ c ∈ "3.1.0".toList, c.toNat < 128 ∧ c ≠ '\n' := by simp
  refine ⟨(isSupportedVersion_iff_of_ascii hplain).mpr ⟨['1'], by simp, by simp, rfl⟩, ?_⟩
  rw [Bool.eq_false_iff, ne_eq, isSupportedVersion_iff_of_ascii hplain']
  rintro ⟨digits, -, -, heq⟩
  cases heq

/-- A line end behind a version and digits of other scripts are let through. -/
example : isSupportedVersion "3.0.1\n" = true ∧ isSupportedVersion "3.0.٣" = true := by decide

/-! ### Rules -/

/-- The entry of a value at a text key, or null; what is no mapping has no entries. -/
def field (raw : Value) (key : String) : Value := (raw.at? key).getD .null

/-- The rules for a document, in the order of checking. -/
def rules (raw : Value) : List Violation :=
  [.notObject, .noOpenapi, .unsupportedVersion (field raw "openapi"), .noInfo, .noTitle, .noVersion,
    .noPaths, .pathsNotObject]

/-- Whether a value breaks a rule, whatever the other rules say. -/
def isBroken (raw : Value) : Violation → Bool
  | .notObject => !raw.isMap
  | .noOpenapi => !(field raw "openapi").truthy
  | .unsupportedVersion version => !hasSupportedVersion version
  | .noInfo => !(field raw "info").isMap
  | .noTitle => !(field (field raw "info") "title").truthy
  | .noVersion => !(field (field raw "info") "version").truthy
  | .noPaths => (field raw "paths").isNull
  | .pathsNotObject => !(field raw "paths").isMap

/-- What is reported of the entries of a document is the first rule that they break. -/
theorem violation?_eq (entries : Table Value) :
    violation? entries = (rules (.map entries)).find? (isBroken (.map entries)) := by
  have hentry : ∀ key, field (.map entries) key = entry entries key := fun _ => rfl
  unfold violation? rules
  dsimp only
  rw [List.find?_cons_of_neg (show ¬ isBroken (.map entries) .notObject = true from Bool.false_ne_true)]
  simp only [List.find?_cons, isBroken, hentry]
  cases (entry entries "openapi").truthy with
  | false => rfl
  | true =>
      cases hasSupportedVersion (entry entries "openapi") with
      | false => rfl
      | true =>
          cases entry entries "info" with
          | map fields =>
              have hfield : ∀ key, field (.map fields) key = entry fields key := fun _ => rfl
              simp only [hfield]
              cases (entry fields "title").truthy with
              | false => rfl
              | true =>
                  cases (entry fields "version").truthy with
                  | false => rfl
                  | true => cases entry entries "paths" <;> rfl
          | _ => rfl

/-- What is reported of a value is the first rule in the order of checking that it breaks. -/
theorem validate_error_iff {raw : Value} {violation : Violation} :
    validate raw = .error violation ↔ (rules raw).find? (isBroken raw) = some violation := by
  cases raw with
  | map entries =>
      unfold validate
      dsimp only
      rw [violation?_eq]
      cases (rules (.map entries)).find? (isBroken (.map entries)) with
      | none => simp
      | some first => simp
  | _ => simp [validate, rules, isBroken, Value.isMap]

/-- A value is accepted exactly if it breaks no rule. -/
theorem validate_isOk_iff {raw : Value} :
    (∃ paths, validate raw = .ok paths) ↔ ∀ rule ∈ rules raw, isBroken raw rule = false := by
  have hnone : (∃ paths, validate raw = .ok paths) ↔ ∀ v, validate raw ≠ .error v := by
    cases validate raw with
    | ok paths => simp
    | error v => simp
  rw [hnone]
  simp only [ne_eq, validate_error_iff]
  rw [← Option.eq_none_iff_forall_ne_some, List.find?_eq_none]
  simp

/-- A value is accepted exactly if it breaks no rule; else the first rule is reported that it breaks. -/
theorem validate_first_broken (raw : Value) :
    ((∃ paths, validate raw = .ok paths) ↔ ∀ rule ∈ rules raw, isBroken raw rule = false) ∧
      ∀ violation, validate raw = .error violation ↔
        (rules raw).find? (isBroken raw) = some violation :=
  ⟨validate_isOk_iff, fun _ => validate_error_iff⟩

end Document

end SchemaGraph
