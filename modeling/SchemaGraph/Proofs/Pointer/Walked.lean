import SchemaGraph.Proofs.Pointer.Leading

/-!
# Where a pointer ends

A pointer is followed to its end or stops at the first segment that cannot be followed.  It stops because
nothing stands there, and then the segment is reported; or because the segment meets a list and is taken
for a position, but stands for none.

A segment is taken for a position if all its characters look like digits.  It stands for none if one of
them has no decimal value, as a superscript, or if there are too many of them.
-/

namespace SchemaGraph

namespace Digit

/-- Digits write a number exactly if each of them has a decimal value. -/
theorem number?_eq_none_iff {digits : List Char} :
    number? digits = none ↔ ∃ c ∈ digits, isDecimal c = false := by
  have hbehind : ∀ total : Option Nat,
      digits.foldl (fun total c => do return 10 * (← total) + (← value? c)) total = none ↔
        total = none ∨ ∃ c ∈ digits, isDecimal c = false := by
    induction digits with
    | nil => simp
    | cons c rest ih =>
        intro total
        rw [List.foldl_cons, ih, List.exists_mem_cons_iff, ← or_assoc]
        refine or_congr_left ?_
        unfold isDecimal
        cases total with
        | none => simp
        | some n => cases value? c <;> simp
  unfold number?
  rw [hbehind]
  simp

end Digit

namespace Pointer

/-- Whether a segment is taken for a position, but stands for none. -/
def IsMisread (segment : String) : Prop :=
  isPosition segment.toList = true ∧ position segment.toList = .error .invalidValue

/-- A segment of digits stands for a position, unless there are too many of them or one of them only
looks like a digit. -/
theorem position_error_iff {segment : List Char} {fault : Fault} :
    position segment = .error fault ↔ fault = .invalidValue ∧
      (digitLimit < segment.length ∨ ∃ c ∈ segment, Digit.isDecimal c = false) := by
  unfold position
  split
  · rename_i hlong
    rw [Except.error.injEq]
    constructor
    · rintro rfl
      exact ⟨rfl, Or.inl hlong⟩
    · rintro ⟨rfl, -⟩
      rfl
  · rename_i hshort
    rw [← Digit.number?_eq_none_iff, or_iff_right hshort]
    cases Digit.number? segment with
    | none => simp [eq_comm]
    | some n => simp

section Walking

variable {container v : Value} {segment : String} {segments : List String} {fault : Fault}

/-- A segment that cannot be followed is reported, unless it is misread at a list. -/
theorem step_error_cases (h : step v segment = .error fault) :
    fault = .deadSegment segment ∨
      fault = .invalidValue ∧ IsMisread segment ∧ ∃ items, v = .list items := by
  unfold step at h
  split at h
  · split at h
    · cases h
    · exact Or.inl (Except.error.inj h).symm
  · rename_i items
    split at h
    · rename_i hposition
      cases hread : position segment.toList with
      | error other =>
          rw [hread] at h
          obtain rfl := Except.error.inj h
          obtain rfl := (position_error_iff.mp hread).1
          exact Or.inr ⟨rfl, ⟨hposition, hread⟩, items, rfl⟩
      | ok i =>
          rw [hread] at h
          dsimp only [bind, Except.bind] at h
          split at h
          · cases h
          · exact Or.inl (Except.error.inj h).symm
    · exact Or.inl (Except.error.inj h).symm
  · exact Or.inl (Except.error.inj h).symm

theorem walk_cons_of_step_error (h : step container segment = .error fault)
    (path : List String) : walk container (segment :: path) = .error fault := by
  unfold walk
  rw [List.foldlM_cons, h]
  rfl

/-- A walk fails exactly if some segment cannot be followed from where the segments before it lead. -/
theorem walk_error_iff :
    walk container segments = .error fault ↔ ∃ before segment after v,
      segments = before ++ segment :: after ∧ walk container before = .ok v ∧
        step v segment = .error fault := by
  -- where the first segment cannot be followed, nothing before it can be the cause
  induction segments generalizing container with
  | nil =>
      constructor
      · intro h
        cases h
      · rintro ⟨before, segment, after, v, heq, -⟩
        exact absurd heq (List.append_ne_nil_of_right_ne_nil _ (List.cons_ne_nil _ _)).symm
  | cons first rest ih =>
      cases hfirst : step container first with
      | error other =>
          rw [walk_cons_of_step_error hfirst]
          constructor
          · rintro h
            exact ⟨[], first, rest, container, rfl, rfl, hfirst.trans h⟩
          · rintro ⟨before, segment, after, v, heq, hbefore, hstep⟩
            cases before with
            | nil =>
                obtain ⟨rfl, rfl⟩ := List.cons.inj heq
                obtain rfl := Except.ok.inj hbefore
                exact hfirst.symm.trans hstep
            | cons one before =>
                obtain ⟨rfl, rfl⟩ := List.cons.inj heq
                rw [walk_cons_of_step_error hfirst] at hbefore
                cases hbefore
      | ok inside =>
          rw [walk_cons_of_step hfirst, ih]
          constructor
          · rintro ⟨before, segment, after, v, rfl, hbefore, hstep⟩
            refine ⟨first :: before, segment, after, v, rfl, ?_, hstep⟩
            rw [walk_cons_of_step hfirst]
            exact hbefore
          · rintro ⟨before, segment, after, v, heq, hbefore, hstep⟩
            cases before with
            | nil =>
                obtain ⟨rfl, rfl⟩ := List.cons.inj heq
                obtain rfl := Except.ok.inj hbefore
                rw [hfirst] at hstep
                cases hstep
            | cons one before =>
                obtain ⟨rfl, rfl⟩ := List.cons.inj heq
                rw [walk_cons_of_step hfirst] at hbefore
                exact ⟨before, segment, after, v, rfl, hbefore, hstep⟩

/-- A pointer that is not followed to its end stops at its first segment that cannot be followed, and
reports this segment, unless it is misread at a list. -/
theorem walk_stops (h : ∀ v, walk container segments ≠ .ok v) :
    ∃ before segment after v, segments = before ++ segment :: after ∧
      walk container before = .ok v ∧
        (walk container segments = .error (.deadSegment segment) ∨
          walk container segments = .error .invalidValue ∧ IsMisread segment ∧
            ∃ items, v = .list items) := by
  cases hwalk : walk container segments with
  | ok v => exact absurd hwalk (h v)
  | error fault =>
      obtain ⟨before, segment, after, v, heq, hbefore, hstep⟩ := walk_error_iff.mp hwalk
      refine ⟨before, segment, after, v, heq, hbefore, ?_⟩
      rcases step_error_cases hstep with rfl | ⟨rfl, hmisread⟩
      · exact Or.inl rfl
      · exact Or.inr ⟨rfl, hmisread⟩

/-- A superscript is misread at a list; a numeral beyond its end is reported. -/
example : walk (.list [.null]) ["²"] = .error .invalidValue ∧
    walk (.list [.null]) ["7"] = .error (.deadSegment "7") := ⟨rfl, rfl⟩

end Walking

end Pointer

end SchemaGraph
