import Mathlib.Data.List.Basic
import SchemaGraph.Location

/-!
# Normal file paths

Cutting a text and joining the pieces undo each other, so a path that starts at the root is read back
from its text.  A path without steps to a parent is normal, and normalizing a path that starts at the
root leaves no such steps.
-/

namespace SchemaGraph

namespace Pieces

theorem join_eq_intercalate (separator : Char) (pieces : List (List Char)) :
    join separator pieces = [separator].intercalate pieces := by
  induction pieces with
  | nil => rfl
  | cons piece rest ih =>
      cases rest with
      | nil => simp [join, List.intercalate]
      | cons next rest =>
          rw [join, ih]
          · simp [List.intercalate]
          · simp

theorem cut_piece {separator : Char} {piece : List Char} (h : separator ∉ piece) :
    cut separator piece = [piece] := by
  induction piece with
  | nil => rfl
  | cons c rest ih =>
      obtain ⟨hc, hrest⟩ := not_or.mp (mt List.mem_cons.mpr h)
      rw [cut, if_neg (Ne.symm hc), ih hrest]
      rfl

theorem cut_append (separator : Char) (before after : List Char) :
    cut separator (before ++ separator :: after) = cut separator before ++ cut separator after := by
  induction before with
  | nil => simp [cut]
  | cons c rest ih =>
      rw [List.cons_append, cut, cut, ih]
      split
      · rfl
      · cases hcut : cut separator rest with
        | nil => exact absurd hcut (cut_ne_nil separator rest)
        | cons first others => rfl

/-- Cutting what was joined gives the pieces back. -/
theorem cut_join {separator : Char} {piece : List Char} {rest : List (List Char)}
    (h : ∀ given ∈ piece :: rest, separator ∉ given) :
    cut separator (join separator (piece :: rest)) = piece :: rest := by
  induction rest generalizing piece with
  | nil => exact cut_piece (h piece List.mem_cons_self)
  | cons next rest ih =>
      rw [join, cut_append, cut_piece (h piece List.mem_cons_self),
        ih fun given hgiven => h given (List.mem_cons_of_mem _ hgiven)]
      · rfl
      · simp

theorem join_cons_eq (separator : Char) (piece : List Char) (rest : List (List Char)) :
    ∃ others, join separator (piece :: rest) = piece ++ others := by
  cases rest with
  | nil => exact ⟨[], (List.append_nil piece).symm⟩
  | cons next rest => exact ⟨separator :: join separator (next :: rest), rfl⟩

theorem mem_join {separator c : Char} {pieces : List (List Char)} (h : c ∈ join separator pieces) :
    c = separator ∨ ∃ piece ∈ pieces, c ∈ piece := by
  induction pieces with
  | nil => exact absurd h (by simp [join])
  | cons piece rest ih =>
      cases rest with
      | nil => exact Or.inr ⟨piece, List.mem_cons_self, h⟩
      | cons next rest =>
          rcases List.mem_append.mp h with hin | hin
          · exact Or.inr ⟨piece, List.mem_cons_self, hin⟩
          · rcases List.mem_cons.mp hin with rfl | hin
            · exact Or.inl rfl
            · obtain heq | ⟨given, hgiven, hc⟩ := ih hin
              · exact Or.inl heq
              · exact Or.inr ⟨given, List.mem_cons_of_mem _ hgiven, hc⟩

theorem not_mem_cut {separator : Char} {text : List Char} :
    ∀ piece ∈ cut separator text, separator ∉ piece := by
  induction text with
  | nil => simp [cut]
  | cons c rest ih =>
      rw [cut]
      split
      · intro piece hpiece
        rcases List.mem_cons.mp hpiece with rfl | hin
        · simp
        · exact ih piece hin
      · rename_i hc
        cases hcut : cut separator rest with
        | nil => exact absurd hcut (cut_ne_nil separator rest)
        | cons first others =>
            rw [hcut] at ih
            intro piece hpiece
            rcases List.mem_cons.mp hpiece with rfl | hin
            · exact fun hin => (List.mem_cons.mp hin).elim (fun heq => hc heq.symm)
                (ih first List.mem_cons_self)
            · exact ih piece (List.mem_cons_of_mem _ hin)

theorem mem_of_mem_cut {separator c : Char} {text piece : List Char}
    (hpiece : piece ∈ cut separator text) (hc : c ∈ piece) : c ∈ text := by
  induction text generalizing piece with
  | nil =>
      rw [cut, List.mem_singleton] at hpiece
      exact hpiece ▸ hc
  | cons d rest ih =>
      rw [cut] at hpiece
      split at hpiece
      · rcases List.mem_cons.mp hpiece with rfl | hin
        · exact absurd hc (by simp)
        · exact List.mem_cons_of_mem _ (ih hin hc)
      · cases hcut : cut separator rest with
        | nil => exact absurd hcut (cut_ne_nil separator rest)
        | cons first others =>
            rw [hcut] at hpiece ih
            rcases List.mem_cons.mp hpiece with rfl | hin
            · rcases List.mem_cons.mp hc with rfl | hin
              · exact List.mem_cons_self
              · exact List.mem_cons_of_mem _ (ih List.mem_cons_self hin)
            · exact List.mem_cons_of_mem _ (ih (List.mem_cons_of_mem _ hin) hc)

theorem splitFirst_none {separator : Char} {text : List Char} (h : separator ∉ text) :
    splitFirst separator text = (text, none) := by
  induction text with
  | nil => rfl
  | cons c rest ih =>
      obtain ⟨hc, hrest⟩ := not_or.mp (mt List.mem_cons.mpr h)
      rw [splitFirst, if_neg (Ne.symm hc), ih hrest]

theorem splitFirst_append {separator : Char} {before : List Char} (h : separator ∉ before)
    (after : List Char) :
    splitFirst separator (before ++ separator :: after) = (before, some after) := by
  induction before with
  | nil => simp [splitFirst]
  | cons c rest ih =>
      obtain ⟨hc, hrest⟩ := not_or.mp (mt List.mem_cons.mpr h)
      rw [List.cons_append, splitFirst, if_neg (Ne.symm hc), ih hrest]

/-- A text either has no separator or is cut at its first one. -/
theorem splitFirst_cases (separator : Char) (text : List Char) :
    (separator ∉ text ∧ splitFirst separator text = (text, none)) ∨
      ∃ before after, separator ∉ before ∧ text = before ++ separator :: after ∧
        splitFirst separator text = (before, some after) := by
  by_cases h : separator ∈ text
  · obtain ⟨before, after, heq, hbefore⟩ := List.eq_append_cons_of_mem h
    exact Or.inr ⟨before, after, hbefore, heq, heq ▸ splitFirst_append hbefore after⟩
  · exact Or.inl ⟨h, splitFirst_none h⟩

end Pieces

namespace Path

/-- Whether the parts of a path are such as are read: not empty, not the part for here, and without a
slash. -/
def Plain (p : Path) : Prop :=
  ∀ part ∈ p.parts, part ≠ "" ∧ part ≠ "." ∧ '/' ∉ part.toList

theorem plain_read (text : String) : (read text).Plain := by
  intro part hpart
  obtain ⟨hin, hkept⟩ := List.mem_filter.mp hpart
  obtain ⟨piece, hpiece, rfl⟩ := List.mem_map.mp hin
  have hslash := Pieces.not_mem_cut piece hpiece
  simp only [Bool.and_eq_true, bne_iff_ne, ne_eq] at hkept
  exact ⟨hkept.1, hkept.2, by rwa [String.toList_ofList]⟩

theorem mem_of_mem_read {text part : String} (h : part ∈ (read text).parts) {c : Char}
    (hc : c ∈ part.toList) : c ∈ text.toList := by
  obtain ⟨hin, -⟩ := List.mem_filter.mp h
  obtain ⟨piece, hpiece, rfl⟩ := List.mem_map.mp hin
  rw [String.toList_ofList] at hc
  exact Pieces.mem_of_mem_cut hpiece hc

theorem slashes_read (text : String) :
    (read text).slashes = 0 ∨ (read text).slashes = 1 ∨ (read text).slashes = 2 := by
  change leadingSlashes _ = 0 ∨ leadingSlashes _ = 1 ∨ leadingSlashes _ = 2
  unfold leadingSlashes
  split
  · exact Or.inl rfl
  · exact Or.inr (Or.inr rfl)
  · exact Or.inr (Or.inl rfl)

theorem toList_text {p : Path} (h : p.slashes ≠ 0) : p.text.toList =
    List.replicate p.slashes '/' ++ Pieces.join '/' (p.parts.map String.toList) := by
  unfold text
  rw [if_neg h, String.toList_append, String.toList_ofList, String.toList_intercalate,
    Pieces.join_eq_intercalate]
  rfl

/-- The text of the parts does not start with a slash. -/
theorem Plain.takeWhile_join {p : Path} (h : p.Plain) :
    (Pieces.join '/' (p.parts.map String.toList)).takeWhile (· == '/') = [] := by
  obtain ⟨slashes, parts⟩ := p
  cases parts with
  | nil => rfl
  | cons first rest =>
      obtain ⟨hempty, -, hslash⟩ := h first List.mem_cons_self
      obtain ⟨others, heq⟩ := Pieces.join_cons_eq '/' first.toList (rest.map String.toList)
      rw [List.map_cons, heq]
      cases hchars : first.toList with
      | nil => exact absurd (String.toList_eq_nil_iff.mp hchars) hempty
      | cons c chars =>
          rw [hchars] at hslash
          have hc : c ≠ '/' := fun hc => hslash (hc ▸ List.mem_cons_self)
          rw [List.cons_append, List.takeWhile_cons_of_neg (by simpa using hc)]

/-- Cutting the text of the parts gives the parts back. -/
theorem Plain.filter_cut {p : Path} (h : p.Plain) :
    ((Pieces.cut '/' (Pieces.join '/' (p.parts.map String.toList))).map String.ofList).filter
      (fun part => part != "" && part != ".") = p.parts := by
  have hkept : p.parts.filter (fun part => part != "" && part != ".") = p.parts := by
    refine List.filter_eq_self.mpr fun part hpart => ?_
    obtain ⟨hempty, hhere, -⟩ := h part hpart
    simp [hempty, hhere]
  have hslash : ∀ piece ∈ p.parts.map String.toList, '/' ∉ piece := by
    intro piece hpiece
    obtain ⟨part, hpart, rfl⟩ := List.mem_map.mp hpiece
    exact (h part hpart).2.2
  cases hparts : p.parts with
  | nil => rfl
  | cons first rest =>
      rw [hparts] at hslash hkept
      rw [List.map_cons] at hslash ⊢
      rw [Pieces.cut_join hslash, ← List.map_cons, List.map_map]
      simpa [Function.comp_def] using hkept

theorem cut_replicate (count : Nat) (chars : List Char) :
    Pieces.cut '/' (List.replicate count '/' ++ chars) =
      List.replicate count [] ++ Pieces.cut '/' chars := by
  induction count with
  | zero => rfl
  | succ count ih =>
      rw [List.replicate_succ, List.cons_append, Pieces.cut, if_pos rfl, ih]
      rfl

/-- Reading the text of an absolute path gives the path back. -/
theorem read_text {p : Path} (h : p.Plain) (habsolute : p.slashes = 1 ∨ p.slashes = 2) :
    read p.text = p := by
  have hnonzero : p.slashes ≠ 0 := by omega
  have hslashes : (read p.text).slashes = p.slashes := by
    change leadingSlashes p.text.toList = p.slashes
    unfold leadingSlashes
    rw [toList_text hnonzero, List.takeWhile_append_of_pos (by simp), h.takeWhile_join,
      List.append_nil, List.length_replicate]
    rcases habsolute with heq | heq
    · rw [heq]
      rfl
    · rw [heq]
      rfl
  have hparts : (read p.text).parts = p.parts := by
    change List.filter _ ((Pieces.cut '/' p.text.toList).map String.ofList) = p.parts
    rw [toList_text hnonzero, cut_replicate, List.map_append, List.filter_append, h.filter_cut]
    simp
  obtain ⟨slashes, parts⟩ := p
  exact (Path.mk.injEq _ _ _ _).mpr ⟨hslashes, hparts⟩

section Normalize

variable {taken : List String} {parts : List String}

/-- Climbing keeps only parts that were there and leads to no parent. -/
theorem mem_of_mem_climb (htaken : ".." ∉ taken) {part : String}
    (h : part ∈ parts.foldl (climb true) taken) :
    part ≠ ".." ∧ (part ∈ taken ∨ part ∈ parts) := by
  induction parts generalizing taken with
  | nil => exact ⟨fun heq => htaken (heq ▸ h), Or.inl h⟩
  | cons first rest ih =>
      rw [List.foldl_cons] at h
      have hclimb : ".." ∉ climb true taken first ∧
          climb true taken first ⊆ first :: taken := by
        unfold climb
        split
        · rename_i hfirst
          refine ⟨fun hin => ?_, fun a ha => ha⟩
          rcases List.mem_cons.mp hin with heq | hin
          · simp [← heq] at hfirst
          · exact htaken hin
        · split
          · exact ⟨by simp, by simp⟩
          · rename_i last rest
            have hlast : last ≠ ".." := fun heq => htaken (heq ▸ List.mem_cons_self)
            rw [if_neg (by simpa using hlast)]
            exact ⟨fun hin => htaken (List.mem_cons_of_mem _ hin),
              fun a ha => List.mem_cons_of_mem _ (List.mem_cons_of_mem _ ha)⟩
      obtain ⟨hne, hin⟩ := ih hclimb.1 h
      refine ⟨hne, ?_⟩
      rcases hin with hin | hin
      · rcases List.mem_cons.mp (hclimb.2 hin) with rfl | hin
        · exact Or.inr List.mem_cons_self
        · exact Or.inl hin
      · exact Or.inr (List.mem_cons_of_mem _ hin)

/-- Climbing along parts that lead to no parent takes all of them. -/
theorem foldl_climb {absolute : Bool} (h : ".." ∉ parts) :
    parts.foldl (climb absolute) taken = parts.reverse ++ taken := by
  induction parts generalizing taken with
  | nil => rfl
  | cons first rest ih =>
      obtain ⟨hfirst, hrest⟩ := not_or.mp (mt List.mem_cons.mpr h)
      have hclimb : climb absolute taken first = first :: taken := by
        unfold climb
        rw [if_pos (by simpa using Ne.symm hfirst)]
      rw [List.foldl_cons, hclimb, ih hrest, List.reverse_cons, List.append_assoc]
      rfl

variable {p : Path}

theorem mem_of_mem_normalize (habsolute : p.isAbsolute = true) {part : String}
    (h : part ∈ p.normalize.parts) : part ≠ ".." ∧ part ∈ p.parts := by
  have hin : part ∈ p.parts.foldl (climb true) [] := by
    have hreverse : part ∈ (p.parts.foldl (climb p.isAbsolute) []).reverse := h
    rwa [habsolute, List.mem_reverse] at hreverse
  obtain ⟨hne, hparts⟩ := mem_of_mem_climb (by simp) hin
  exact ⟨hne, hparts.resolve_left (by simp)⟩

/-- A path that leads to no parent is normal. -/
theorem normalize_of_not_mem (h : ".." ∉ p.parts) : p.normalize = p := by
  unfold normalize
  rw [foldl_climb h]
  simp

end Normalize

end Path

end SchemaGraph
