import SchemaGraph.Failure

/-!
# Outcomes

An operation gives a result or fails.  Failures are told apart by their kind, which is what a caller
catches; the wording and the schema that is named do not count.  Two outcomes agree when both are
results that are related, or both are failures of one kind.
-/

namespace SchemaGraph

/-- The kind of a failure. -/
inductive FailureKind where
  | fault (fault : Fault)
  | refused
  | fileNotFound
  | unsupportedFormat
  | unparsable
  | invalidDocument
  | malformedReference
  | referenceNotFound
  | circularReference
  | externalFailed
  | unavailable
  | badMembers
  | conflictingTypes
  | missingDiscriminator
  | metricsDisabled
  deriving DecidableEq

/-- The kind of a failure; schemas that are not well formed are one kind, whatever is wrong. -/
def Failure.kind : Failure → FailureKind
  | .fault f => .fault f
  | .refused _ => .refused
  | .fileNotFound _ => .fileNotFound
  | .unsupportedFormat _ => .unsupportedFormat
  | .unparsable _ _ _ => .unparsable
  | .invalidDocument _ | .schemaNotObject _ _ | .propertiesNotObject _ => .invalidDocument
  | .noReference _ | .noReferenceKey | .malformedReference _ => .malformedReference
  | .referenceNotFound _ => .referenceNotFound
  | .circularReference _ => .circularReference
  | .externalFailed _ _ => .externalFailed
  | .unavailable _ => .unavailable
  | .badMembers _ _ => .badMembers
  | .conflictingTypes _ => .conflictingTypes
  | .missingDiscriminator => .missingDiscriminator
  | .metricsDisabled => .metricsDisabled

section Steps

variable {ε α β : Type}

/-- Two steps succeed when the first does and the second does with its result. -/
theorem bind_eq_ok {first : Except ε α} {next : α → Except ε β} {b : β} :
    (first >>= next) = .ok b ↔ ∃ a, first = .ok a ∧ next a = .ok b := by
  cases first with
  | ok a =>
      constructor
      · intro h
        exact ⟨a, rfl, h⟩
      · rintro ⟨a', heq, h⟩
        rw [← Except.ok.inj heq] at h
        exact h
  | error e =>
      constructor
      · intro h
        cases h
      · rintro ⟨a, h, -⟩
        cases h

/-- A step that fails under a condition before the rest. -/
theorem guard_eq_ok {condition : Prop} [Decidable condition] {e : ε} {rest : PUnit → Except ε β}
    {b : β} : (if condition then throw e >>= rest else rest ⟨⟩) = .ok b ↔
      ¬condition ∧ rest ⟨⟩ = .ok b := by
  by_cases hcondition : condition
  · rw [if_pos hcondition]
    constructor
    · intro h
      cases h
    · intro h
      exact absurd hcondition h.1
  · rw [if_neg hcondition]
    exact ⟨fun h => ⟨hcondition, h⟩, And.right⟩

theorem toOption_eq_some {first : Except ε α} {a : α} :
    first.toOption = some a ↔ first = .ok a := by
  cases first with
  | ok b => simp [Except.toOption]
  | error e => simp [Except.toOption]

theorem orFail_eq_ok {first : Except Fault α} {a : α} : orFail first = .ok a ↔ first = .ok a := by
  cases first with
  | ok b => simp [orFail]
  | error fault => simp [orFail]

end Steps

/-- Outcomes that a caller does not tell apart, up to a relation between results. -/
inductive Agree {α β : Type} (R : α → β → Prop) : Except Failure α → Except Failure β → Prop where
  | ok {a : α} {b : β} (h : R a b) : Agree R (.ok a) (.ok b)
  | error {failure failure' : Failure} (h : failure.kind = failure'.kind) :
      Agree R (.error failure) (.error failure')

namespace Agree

variable {α β γ δ : Type} {R : α → β → Prop}

theorem bind {S : γ → δ → Prop} {first : Except Failure α} {first' : Except Failure β}
    {next : α → Except Failure γ} {next' : β → Except Failure δ} (h : Agree R first first')
    (hnext : ∀ a b, R a b → Agree S (next a) (next' b)) :
    Agree S (first >>= next) (first' >>= next') := by
  cases h with
  | ok hab => exact hnext _ _ hab
  | error hkind => exact .error hkind

theorem mono {S : α → β → Prop} {first : Except Failure α} {first' : Except Failure β}
    (h : Agree R first first') (himp : ∀ a b, R a b → S a b) : Agree S first first' := by
  cases h with
  | ok hab => exact .ok (himp _ _ hab)
  | error hkind => exact .error hkind

/-- Outcomes that become equal when their results are changed. -/
theorem of_map_eq {f : α → γ} {g : β → γ} {first : Except Failure α} {first' : Except Failure β}
    (h : first.map f = first'.map g) : Agree (fun a b => f a = g b) first first' := by
  cases first with
  | ok a =>
      cases first' with
      | ok b => exact .ok (Except.ok.inj h)
      | error failure => cases h
  | error failure =>
      cases first' with
      | ok b => cases h
      | error failure' => exact .error (congrArg Failure.kind (Except.error.inj h))

theorem refl {R : α → α → Prop} (hrefl : ∀ a, R a a) (first : Except Failure α) :
    Agree R first first := by
  cases first with
  | ok a => exact .ok (hrefl a)
  | error failure => exact .error rfl

theorem symm {S : β → α → Prop} {first : Except Failure α} {first' : Except Failure β}
    (h : Agree R first first') (himp : ∀ a b, R a b → S b a) : Agree S first' first := by
  cases h with
  | ok hab => exact .ok (himp _ _ hab)
  | error hkind => exact .error hkind.symm

theorem trans {S : β → γ → Prop} {T : α → γ → Prop} {first : Except Failure α}
    {second : Except Failure β} {third : Except Failure γ} (h : Agree R first second)
    (h' : Agree S second third) (himp : ∀ a b c, R a b → S b c → T a c) : Agree T first third := by
  cases h with
  | ok hab =>
      cases h' with
      | ok hbc => exact .ok (himp _ _ _ hab hbc)
  | error hkind =>
      cases h' with
      | error hkind' => exact .error (hkind.trans hkind')

theorem exists_ok {first : Except Failure α} {first' : Except Failure β}
    (h : Agree R first first') {a : α} (hok : first = .ok a) : ∃ b, first' = .ok b ∧ R a b := by
  cases h with
  | ok hab =>
      cases hok
      exact ⟨_, rfl, hab⟩
  | error hkind => cases hok

theorem exists_error {first : Except Failure α} {first' : Except Failure β}
    (h : Agree R first first') {failure : Failure} (herror : first = .error failure) :
    ∃ failure', first' = .error failure' ∧ failure.kind = failure'.kind := by
  cases h with
  | ok hab => cases herror
  | error hkind =>
      cases herror
      exact ⟨_, rfl, hkind⟩

end Agree

/-- An outcome that goes along with another: a related result for a result, and for a failure that
counts, a failure of one kind. -/
inductive Tracks {α β : Type} (counts : Failure → Prop) (R : α → β → Prop) :
    Except Failure α → Except Failure β → Prop where
  | ok {a : α} {b : β} (h : R a b) : Tracks counts R (.ok a) (.ok b)
  | error {failure : Failure} {other : Except Failure β}
      (h : counts failure → ∃ failure', other = .error failure' ∧ failure.kind = failure'.kind) :
      Tracks counts R (.error failure) other

theorem Agree.tracks {α β : Type} {R : α → β → Prop} {first : Except Failure α}
    {first' : Except Failure β} (h : Agree R first first') (counts : Failure → Prop) :
    Tracks counts R first first' := by
  cases h with
  | ok hab => exact .ok hab
  | error hkind => exact .error fun _ => ⟨_, rfl, hkind⟩

namespace Tracks

variable {α β γ δ : Type} {counts : Failure → Prop} {R : α → β → Prop}

theorem bind {S : γ → δ → Prop} {first : Except Failure α} {first' : Except Failure β}
    {next : α → Except Failure γ} {next' : β → Except Failure δ}
    (h : Tracks counts R first first')
    (hnext : ∀ a b, R a b → Tracks counts S (next a) (next' b)) :
    Tracks counts S (first >>= next) (first' >>= next') := by
  cases h with
  | ok hab => exact hnext _ _ hab
  | error hkind =>
      refine .error fun hcounts => ?_
      obtain ⟨failure', rfl, heq⟩ := hkind hcounts
      exact ⟨failure', rfl, heq⟩

theorem exists_ok {first : Except Failure α} {first' : Except Failure β}
    (h : Tracks counts R first first') {a : α} (hok : first = .ok a) :
    ∃ b, first' = .ok b ∧ R a b := by
  cases h with
  | ok hab =>
      cases hok
      exact ⟨_, rfl, hab⟩
  | error hkind => cases hok

end Tracks

/-- An outcome that goes along with another, where either all failures count or none. -/
abbrev Simulates {α β : Type} (failures : Prop) (R : α → β → Prop) :
    Except Failure α → Except Failure β → Prop :=
  Tracks (fun _ => failures) R

theorem Agree.simulates {α β : Type} {R : α → β → Prop} {first : Except Failure α}
    {first' : Except Failure β} (h : Agree R first first') (failures : Prop) :
    Simulates failures R first first' :=
  h.tracks _

theorem Tracks.agree {α β : Type} {R : α → β → Prop} {first : Except Failure α}
    {first' : Except Failure β} (h : Simulates True R first first') : Agree R first first' := by
  cases h with
  | ok hab => exact .ok hab
  | error hkind =>
      obtain ⟨failure', rfl, heq⟩ := hkind trivial
      exact .error heq

end SchemaGraph
