import SchemaGraph.Proofs.Location.Place

/-!
# Written references

A reference is written as its location, the place of the registry and its segments with a slash
between each two.  In a segment every tilde is first replaced by `~0`, and then every slash by `~1`.
Reading replaces `~1` first and `~0` afterwards, so that a tilde which was just restored opens no
escape; a reference that was written reads back as itself.

A name that is put behind the place of the registry as it is, without escapes, is read as the one
segment of a reference.  That segment is the name itself exactly if the name holds no slash and
unescaping leaves it as it is.
-/

namespace SchemaGraph

namespace Pieces

theorem join_append {separator : Char} {pieces : List (List Char)} (h : pieces ≠ [])
    (piece : List Char) :
    join separator (pieces ++ [piece]) = join separator pieces ++ separator :: piece := by
  induction pieces with
  | nil => exact absurd rfl h
  | cons first rest ih =>
      cases rest with
      | nil => rfl
      | cons second rest =>
          have hrest := ih (List.cons_ne_nil _ _)
          change first ++ separator :: join separator ((second :: rest) ++ [piece]) =
            (first ++ separator :: join separator (second :: rest)) ++ separator :: piece
          rw [hrest, List.append_assoc, List.cons_append]

/-- A text that is cut into one piece holds no separator and is the piece. -/
theorem cut_eq_singleton {separator : Char} {text piece : List Char}
    (h : cut separator text = [piece]) : separator ∉ text ∧ piece = text := by
  rcases splitFirst_cases separator text with ⟨hnone, -⟩ | ⟨before, after, -, heq, -⟩
  · rw [cut_piece hnone, List.singleton_inj] at h
    exact ⟨hnone, h.symm⟩
  · rw [heq, cut_append] at h
    have hlength := congrArg List.length h
    have hbefore := List.length_pos_iff.mpr (cut_ne_nil separator before)
    have hafter := List.length_pos_iff.mpr (cut_ne_nil separator after)
    rw [List.length_append, List.length_singleton] at hlength
    omega

end Pieces

namespace Pointer

section Replacing

/-- A text with a character replaced wherever it occurs. -/
def replaced (c : Char) (other : List Char) (text : List Char) : List Char :=
  text.flatMap fun d => if d = c then other else [d]

/-- A text with a pair of characters replaced wherever it occurs, from left to right. -/
def replacedPair (a b c : Char) : List Char → List Char
  | x :: y :: rest =>
    if x = a ∧ y = b then c :: replacedPair a b c rest else x :: replacedPair a b c (y :: rest)
  | rest => rest

/-- A segment as it is written in a pointer. -/
def written (segment : String) : List Char :=
  replaced '/' ['~', '1'] (replaced '~' ['~', '0'] segment.toList)

/-- Replacing tildes and then slashes is done in one pass. -/
theorem replaced_eq_escape (segment : List Char) :
    replaced '/' ['~', '1'] (replaced '~' ['~', '0'] segment) = escape segment := by
  induction segment with
  | nil => rfl
  | cons c rest ih =>
      unfold replaced at ih ⊢
      by_cases htilde : c = '~'
      · subst htilde
        simp [escape, ih]
      · by_cases hslash : c = '/'
        · subst hslash
          simp [escape, ih]
        · rw [escape_cons htilde hslash]
          simp [htilde, hslash, ih]

variable {a b c : Char}

theorem replacedPair_cons_of_ne {x : Char} (h : x ≠ a) (rest : List Char) :
    replacedPair a b c (x :: rest) = x :: replacedPair a b c rest := by
  cases rest with
  | nil => rfl
  | cons y rest => rw [replacedPair, if_neg fun heq => h heq.1]

/-- The first character is replaced or stays. -/
theorem head_replacedPair (x : Char) (rest : List Char) :
    ∃ y others, replacedPair a b c (x :: rest) = y :: others ∧ (y = c ∨ y = x) := by
  cases rest with
  | nil => exact ⟨x, [], rfl, Or.inr rfl⟩
  | cons y rest =>
      rw [replacedPair]
      split
      · exact ⟨c, _, rfl, Or.inl rfl⟩
      · exact ⟨x, _, rfl, Or.inr rfl⟩

/-- Undoing all escapes of slashes and then those of tildes is done in one pass. -/
theorem replacedPair_eq_unescape (segment : List Char) :
    replacedPair '~' '0' '~' (replacedPair '~' '1' '/' segment) = unescape segment := by
  induction segment using unescape.induct with
  | case1 rest ih =>
      rw [replacedPair, if_pos ⟨rfl, rfl⟩, replacedPair_cons_of_ne (by decide), ih, unescape]
  | case2 rest ih =>
      have hkept : replacedPair '~' '1' '/' ('~' :: '0' :: rest) =
          '~' :: '0' :: replacedPair '~' '1' '/' rest := by
        rw [replacedPair, if_neg (by decide), replacedPair_cons_of_ne (by decide)]
      rw [hkept, replacedPair, if_pos ⟨rfl, rfl⟩, ih, unescape]
  | case3 x rest hslash htilde ih =>
      rw [unescape.eq_3 x rest hslash htilde, ← ih]
      by_cases hx : x = '~'
      · subst hx
        cases rest with
        | nil => rfl
        | cons y rest =>
            have hone : y ≠ '1' := fun h => hslash rest rfl (h ▸ rfl)
            have hzero : y ≠ '0' := fun h => htilde rest rfl (h ▸ rfl)
            -- what follows the tilde may become a slash, but no zero
            obtain ⟨z, others, hothers, hz⟩ :=
              head_replacedPair (a := '~') (b := '1') (c := '/') y rest
            have hne : z ≠ '0' := by
              rcases hz with rfl | rfl
              · decide
              · exact hzero
            rw [replacedPair, if_neg fun h => hone h.2, hothers, replacedPair,
              if_neg fun h => hne h.2]
      · rw [replacedPair_cons_of_ne hx, replacedPair_cons_of_ne hx]
  | case4 => rfl

end Replacing

theorem written_eq_escape (segment : String) : written segment = escape segment.toList :=
  replaced_eq_escape _

theorem unescape_written (segment : String) : unescape (written segment) = segment.toList := by
  rw [written_eq_escape, unescape_escape]

theorem escape_of_not_mem {segment : List Char} (hslash : '/' ∉ segment) (htilde : '~' ∉ segment) :
    escape segment = segment := by
  induction segment with
  | nil => rfl
  | cons c rest ih =>
      rw [escape_cons (List.ne_of_not_mem_cons htilde).symm (List.ne_of_not_mem_cons hslash).symm,
        ih (List.not_mem_of_not_mem_cons hslash) (List.not_mem_of_not_mem_cons htilde)]

/-- No slash is left in a written segment. -/
theorem slash_not_mem_written (segment : String) : '/' ∉ written segment := by
  unfold written replaced
  intro hin
  obtain ⟨c, -, hc⟩ := List.mem_flatMap.mp hin
  split at hc
  · simp at hc
  · rename_i hne
    exact hne (List.mem_singleton.mp hc).symm

end Pointer

namespace Reference

/-- A reference as it is written. -/
def write (r : Reference) : String :=
  r.location ++ localRegistry ++ String.ofList (Pieces.join '/' (r.segments.map Pointer.written))

theorem segments_join {segments : List String} (hne : segments ≠ [])
    (hsegments : ∀ segment ∈ segments, segment ≠ "") :
    segments? (registryPointer.toList ++ Pieces.join '/' (segments.map Pointer.written)) =
      some segments := by
  have hcut : Pieces.cut '/' (Pieces.join '/' (segments.map Pointer.written)) =
      segments.map Pointer.written := by
    cases segments with
    | nil => exact absurd rfl hne
    | cons segment rest =>
        rw [List.map_cons]
        apply Pieces.cut_join
        rw [← List.map_cons]
        intro given hgiven
        obtain ⟨segment', -, rfl⟩ := List.mem_map.mp hgiven
        exact Pointer.slash_not_mem_written segment'
  have hread : (segments.map Pointer.written).map Pointer.unescape =
      segments.map String.toList := by
    rw [List.map_map]
    exact List.map_congr_left fun segment _ => Pointer.unescape_written segment
  have hgiven : (segments.map String.toList).any (·.isEmpty) = false := by
    rw [List.any_map, List.any_eq_false]
    intro segment hsegment hempty
    exact hsegments segment hsegment (String.toList_eq_nil_iff.mp (List.isEmpty_iff.mp hempty))
  unfold segments?
  rw [Pieces.after?_append]
  dsimp only
  rw [hcut, hread, hgiven, if_neg (by decide), List.map_map]
  exact congrArg some (List.map_id'' (fun segment => String.ofList_toList) segments)

/-- A reference that was written reads back as itself. -/
theorem read_write {r : Reference} (hlocation : '#' ∉ r.location.toList) (hne : r.segments ≠ [])
    (hsegments : ∀ segment ∈ r.segments, segment ≠ "") : read? r.write = some r := by
  apply read_of_toList hlocation _ (segments_join hne hsegments)
  unfold write
  rw [String.toList_append, String.toList_append, String.toList_ofList, List.append_assoc]
  rfl

section Names

/-- Whether a name stands in a pointer as it is. -/
def IsSegment (name : String) : Prop := '/' ∉ name.toList ∧ '~' ∉ name.toList

instance (name : String) : Decidable (IsSegment name) := inferInstanceAs (Decidable (_ ∧ _))

variable {name : String}

theorem written_of_isSegment (h : IsSegment name) : Pointer.written name = name.toList := by
  rw [Pointer.written_eq_escape]
  exact Pointer.escape_of_not_mem h.1 h.2

/-- Behind a written reference such a name stands as it is. -/
theorem write_append (h : IsSegment name) (location : String) {segments : List String}
    (hne : segments ≠ []) :
    write ⟨location, segments ++ [name]⟩ = write ⟨location, segments⟩ ++ "/" ++ name := by
  have hjoin : Pieces.join '/' ((segments ++ [name]).map Pointer.written) =
      Pieces.join '/' (segments.map Pointer.written) ++ '/' :: name.toList := by
    rw [List.map_append, List.map_singleton, written_of_isSegment h]
    exact Pieces.join_append (by simpa using hne) _
  unfold write
  rw [hjoin, String.ofList_append, String.ofList_cons, String.ofList_toList]
  simp only [String.append_assoc]
  rfl

theorem write_single (h : IsSegment name) : write ⟨"", [name]⟩ = localRegistry ++ name := by
  unfold write
  rw [List.map_singleton, written_of_isSegment h, Pieces.join, String.ofList_toList]
  rfl

theorem read_pointer (h : IsSegment name) (hne : name ≠ "") :
    read? (localRegistry ++ name) = some ⟨"", [name]⟩ := by
  rw [← write_single h]
  exact read_write (by simp) (by simp) (by simpa using hne)

theorem read_pointer_empty : read? (localRegistry ++ "") = none := by decide

/-- The pointer that is made of a name without escaping it names the entry of that name exactly if
the name holds no slash and no escape. -/
theorem read_pointer_iff :
    read? (localRegistry ++ name) = some ⟨"", [name]⟩ ↔
      name ≠ "" ∧ '/' ∉ name.toList ∧ Pointer.unescape name.toList = name.toList := by
  have hlist : (localRegistry ++ name).toList = '#' :: (registryPointer.toList ++ name.toList) := by
    rw [String.toList_append]
    rfl
  have hread : read? (localRegistry ++ name) =
      (segments? (registryPointer.toList ++ name.toList)).map (Reference.mk "") := by
    unfold read?
    rw [hlist, Pieces.splitFirst, if_pos rfl]
  rw [hread]
  unfold segments?
  rw [Pieces.after?_append]
  dsimp only
  constructor
  · intro h
    obtain ⟨segments, hsegments, heq⟩ := Option.map_eq_some_iff.mp h
    obtain rfl : segments = [name] := congrArg Reference.segments heq
    split at hsegments
    · cases hsegments
    · rename_i hgiven
      have hmapped := Option.some.inj hsegments
      obtain ⟨segment, hsegment, hname⟩ := List.map_eq_singleton_iff.mp hmapped
      obtain ⟨piece, hpiece, hunescape⟩ := List.map_eq_singleton_iff.mp hsegment
      obtain ⟨hslash, rfl⟩ := Pieces.cut_eq_singleton hpiece
      have hkept : Pointer.unescape name.toList = name.toList := by
        rw [hunescape, ← hname, String.toList_ofList]
      refine ⟨fun hempty => ?_, hslash, hkept⟩
      subst hempty
      exact absurd rfl hgiven
  · rintro ⟨hne, hslash, hunescape⟩
    rw [Pieces.cut_piece hslash, List.map_singleton, hunescape, if_neg (by simpa using hne),
      List.map_singleton, String.ofList_toList]
    rfl

end Names

end Reference

end SchemaGraph
