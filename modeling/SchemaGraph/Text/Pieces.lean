/-!
# Cutting text at a separator

A text is cut at every separator, so that joining the pieces again gives the text back; or only at
the first separator, into what stands before and after it.
-/

namespace SchemaGraph.Pieces

/-- Put a character in front of the first piece. -/
def consFirst (c : Char) : List (List Char) → List (List Char)
  | [] => [[c]]
  | piece :: rest => (c :: piece) :: rest

/-- The pieces between separators; there is always one more piece than separators. -/
def cut (separator : Char) : List Char → List (List Char)
  | [] => [[]]
  | c :: rest => if c = separator then [] :: cut separator rest else consFirst c (cut separator rest)

/-- Pieces with a separator between each two. -/
def join (separator : Char) : List (List Char) → List Char
  | [] => []
  | [piece] => piece
  | piece :: rest => piece ++ separator :: join separator rest

/-- What stands before the first separator and, if there is one, what stands after it. -/
def splitFirst (separator : Char) : List Char → List Char × Option (List Char)
  | [] => ([], none)
  | c :: rest =>
    if c = separator then ([], some rest)
    else ((c :: (splitFirst separator rest).1), (splitFirst separator rest).2)

/-- What stands before and after the last separator; without one, all of it stands after. -/
def splitLast (separator : Char) (text : List Char) : Option (List Char) × List Char :=
  match splitFirst separator text.reverse with
  | (after, none) => (none, after.reverse)
  | (after, some before) => (some before.reverse, after.reverse)

/-- The rest of a text after a given beginning. -/
def after? : List Char → List Char → Option (List Char)
  | [], text => some text
  | _ :: _, [] => none
  | p :: beginning, c :: text => if p = c then after? beginning text else none

theorem cut_ne_nil (separator : Char) (text : List Char) : cut separator text ≠ [] := by
  cases text with
  | nil => simp [cut]
  | cons c rest =>
    by_cases h : c = separator
    · simp [cut, h]
    · cases hrest : cut separator rest with
      | nil => simp [cut, h, hrest, consFirst]
      | cons piece pieces => simp [cut, h, hrest, consFirst]

/-- Joining the pieces of a text gives the text back. -/
theorem join_cut (separator : Char) (text : List Char) :
    join separator (cut separator text) = text := by
  induction text with
  | nil => rfl
  | cons c rest ih =>
    have hne := cut_ne_nil separator rest
    by_cases h : c = separator
    · subst h
      cases hrest : cut c rest with
      | nil => exact absurd hrest hne
      | cons piece pieces =>
        rw [hrest] at ih
        simp [cut, hrest, join, ih]
    · cases hrest : cut separator rest with
      | nil => exact absurd hrest hne
      | cons piece pieces =>
        rw [hrest] at ih
        cases pieces with
        | nil => simp_all [cut, consFirst, join]
        | cons piece' pieces => simp_all [cut, consFirst, join]

theorem after?_append (beginning text : List Char) :
    after? beginning (beginning ++ text) = some text := by
  induction beginning with
  | nil => rfl
  | cons p rest ih => simp [after?, ih]

end SchemaGraph.Pieces
