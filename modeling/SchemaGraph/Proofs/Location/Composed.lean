import SchemaGraph.Proofs.Location.Place

/-!
# Locations that are joined twice

A reference in another document is joined to the location of that document when it is read, and to
the location of the root when it is followed.  The second join changes nothing if the root is given by
an absolute path or by none at all.  If the root is given by a relative path, it changes nothing
exactly if the folder of the root is reached by as many steps up as steps down: for a root in the
folder at hand, but not for one in a folder below.

A normal path goes up some steps, which it does only if it is relative, and then down.
-/

namespace SchemaGraph

namespace Path

section Climb

variable {absolute : Bool} {up : Nat} {down taken parts : List String}

theorem climb_name {part : String} (h : part ≠ "..") :
    climb absolute taken part = part :: taken := by
  unfold climb
  rw [if_pos (by simpa using h)]

/-- A step up from a folder that was gone down to leads back to where it was gone down from. -/
theorem climb_back {name : String} (h : name ≠ "..") :
    climb absolute (name :: taken) ".." = taken := by
  simp [climb, h]

/-- A step up after steps up is kept. -/
theorem climb_up : climb false (List.replicate up "..") ".." = List.replicate (up + 1) ".." := by
  cases up with
  | zero => rfl
  | succ up => simp [climb, List.replicate_succ]

/-- Steps up cancel the steps down before them; those that are left over are kept. -/
theorem foldl_climb_ups (up count : Nat) (hdown : ".." ∉ down) :
    (List.replicate count "..").foldl (climb false) (down ++ List.replicate up "..") =
      down.drop count ++ List.replicate (up + (count - down.length)) ".." := by
  induction count generalizing up down with
  | zero => simp
  | succ count ih =>
      rw [List.replicate_succ, List.foldl_cons]
      cases down with
      | nil =>
          have hstep := ih (up + 1) hdown
          rw [List.nil_append] at hstep ⊢
          rw [climb_up, hstep]
          simp only [List.drop_nil, List.length_nil]
          congr 2
          omega
      | cons name rest =>
          obtain ⟨hname, hrest⟩ := not_or.mp (mt List.mem_cons.mpr hdown)
          rw [List.cons_append, climb_back (Ne.symm hname), ih up hrest, List.drop_succ_cons,
            List.length_cons]
          congr 3
          omega

/-- From any steps up and down, climbing leads to some more steps up and others down. -/
theorem foldl_climb_relative (up : Nat) (hdown : ".." ∉ down) (parts : List String) :
    ∃ up' down', parts.foldl (climb false) (down ++ List.replicate up "..") =
      down' ++ List.replicate up' ".." ∧ ".." ∉ down' ∧ up ≤ up' := by
  induction parts generalizing up down with
  | nil => exact ⟨up, down, rfl, hdown, Nat.le_refl _⟩
  | cons part rest ih =>
      rw [List.foldl_cons]
      by_cases hpart : part = ".."
      · subst hpart
        cases down with
        | nil =>
            obtain ⟨up', down', heq, hdown', hup⟩ := ih (up + 1) hdown
            rw [List.nil_append] at heq ⊢
            rw [climb_up]
            exact ⟨up', down', heq, hdown', by omega⟩
        | cons name others =>
            obtain ⟨hname, hothers⟩ := not_or.mp (mt List.mem_cons.mpr hdown)
            rw [List.cons_append, climb_back (Ne.symm hname)]
            exact ih up hothers
      · rw [climb_name hpart, ← List.cons_append]
        apply ih
        intro hin
        rcases List.mem_cons.mp hin with heq | hin
        · exact hpart heq.symm
        · exact hdown hin

end Climb

/-- Whether a path goes up, which it does only if it is relative, and then down. -/
def Steps (p : Path) (up : Nat) (down : List String) : Prop :=
  p.parts = List.replicate up ".." ++ down ∧ ".." ∉ down ∧ (p.isAbsolute = true → up = 0)

section Steps

variable {p q : Path} {up up' : Nat} {down down' : List String}

/-- A path that goes up and then down is normal. -/
theorem Steps.normal (h : p.Steps up down) : p.normalize = p := by
  obtain ⟨slashes, parts⟩ := p
  obtain ⟨hparts, hdown, habsolute⟩ := h
  obtain rfl : parts = _ := hparts
  cases hkind : Path.isAbsolute ⟨slashes, List.replicate up ".." ++ down⟩ with
  | true =>
      obtain rfl : up = 0 := habsolute hkind
      exact normalize_of_not_mem hdown
  | false =>
      have hnone : ".." ∉ ([] : List String) := List.not_mem_nil
      have hups := foldl_climb_ups 0 up hnone
      simp only [List.replicate_zero, List.append_nil, List.drop_nil, List.length_nil,
        List.nil_append, Nat.zero_add, Nat.sub_zero] at hups
      unfold normalize
      rw [hkind, List.foldl_append, hups, foldl_climb hdown]
      simp

/-- Climbing along a relative path leads up and down as its normal form does. -/
theorem Steps.foldl_parts (h : p.normalize.Steps up down) (hrelative : p.isAbsolute = false) :
    p.parts.foldl (climb false) [] = down.reverse ++ List.replicate up ".." := by
  have hparts := h.1
  unfold normalize at hparts
  rw [hrelative] at hparts
  rw [← List.reverse_reverse (p.parts.foldl _ _), show List.reverse _ = _ from hparts]
  simp

/-- What normalizing gives goes up and then down. -/
theorem steps_normalize (p : Path) : ∃ up down, p.normalize.Steps up down := by
  cases hkind : p.isAbsolute with
  | true =>
      have hin : ".." ∉ p.normalize.parts := fun hin => (mem_of_mem_normalize hkind hin).1 rfl
      exact ⟨0, p.normalize.parts, by simp, hin, fun _ => rfl⟩
  | false =>
      have hnone : ".." ∉ ([] : List String) := List.not_mem_nil
      obtain ⟨up, down, heq, hdown, -⟩ := foldl_climb_relative 0 hnone p.parts
      refine ⟨up, down.reverse, ?_, by simpa using hdown, ?_⟩
      · unfold normalize
        rw [hkind]
        simpa using congrArg List.reverse heq
      · intro habsolute
        rw [show p.normalize.isAbsolute = p.isAbsolute from rfl, hkind] at habsolute
        cases habsolute

variable (hp : p.isAbsolute = false) (hq : q.isAbsolute = false)
include hp hq

theorem isAbsolute_append : (p.append q).normalize.isAbsolute = false := by
  unfold append
  rw [if_neg (by simp [hq])]
  exact hp

/-- The second path is climbed along from where the first one leads. -/
theorem parts_append : (p.append q).normalize.parts =
    (q.parts.foldl (climb false) (p.parts.foldl (climb false) [])).reverse := by
  unfold append
  rw [if_neg (by simp [hq]), ← List.foldl_append, ← hp]
  rfl

/-- What follows a relative path leads no fewer steps up than it does. -/
theorem Steps.append (h : p.normalize.Steps up down) :
    ∃ up' down', (p.append q).normalize.Steps up' down' ∧ up ≤ up' := by
  have hdown : ".." ∉ down.reverse := by simpa using h.2.1
  obtain ⟨up', down', heq, hdown', hup⟩ := foldl_climb_relative up hdown q.parts
  refine ⟨up', down'.reverse, ⟨?_, by simpa using hdown', ?_⟩, hup⟩
  · rw [parts_append hp hq, h.foldl_parts hp, heq]
    simp
  · intro habsolute
    rw [isAbsolute_append hp hq] at habsolute
    cases habsolute

/-- After a relative path, the steps up of a second one cancel steps down of the first. -/
theorem Steps.append_steps (h : p.normalize.Steps up down) (h' : q.Steps up' down') :
    (p.append q).normalize.parts =
      List.replicate (up + (up' - down.length)) ".." ++ (down.reverse.drop up').reverse ++ down' := by
  have hdown : ".." ∉ down.reverse := by simpa using h.2.1
  rw [parts_append hp hq, h.foldl_parts hp, h'.1, List.foldl_append, foldl_climb_ups up up' hdown,
    foldl_climb h'.2.1, List.length_reverse]
  simp [List.append_assoc]

omit hp hq

/-- The folder of a file is reached with as many steps up as the file. -/
theorem Steps.parent (h : p.Steps up down) (hname : p.name ≠ "..") :
    p.parent.Steps up down.dropLast := by
  obtain ⟨slashes, parts⟩ := p
  obtain ⟨hparts, hdown, habsolute⟩ := h
  obtain rfl : parts = _ := hparts
  cases down with
  | nil =>
      cases up with
      | zero => exact ⟨rfl, hdown, fun _ => rfl⟩
      | succ up =>
          refine absurd ?_ hname
          unfold name
          dsimp only
          rw [List.append_nil, List.replicate_succ', List.getLast?_append_of_ne_nil _ (by simp)]
          rfl
  | cons first rest =>
      refine ⟨?_, fun hin => hdown (List.dropLast_subset _ hin), habsolute⟩
      exact List.dropLast_append_of_ne_nil (by simp)

theorem climb_subset (absolute : Bool) (taken : List String) (part : String) :
    climb absolute taken part ⊆ part :: taken := by
  unfold climb
  split
  · exact fun _ h => h
  · rename_i hpart
    obtain rfl : part = ".." := by simpa using hpart
    cases taken with
    | nil => cases absolute <;> simp
    | cons last rest =>
        dsimp only
        split
        · exact fun _ h => h
        · exact fun _ h => List.mem_cons_of_mem _ (List.mem_cons_of_mem _ h)

theorem foldl_climb_subset (absolute : Bool) (taken parts : List String) :
    parts.foldl (climb absolute) taken ⊆ parts ++ taken := by
  induction parts generalizing taken with
  | nil => exact fun _ h => h
  | cons part rest ih =>
      intro a ha
      have hstep := List.mem_append.mp (ih _ ha)
      rw [List.cons_append, List.mem_cons, List.mem_append]
      rcases hstep with hin | hin
      · exact Or.inr (Or.inl hin)
      · rcases List.mem_cons.mp (climb_subset _ _ _ hin) with heq | hin
        · exact Or.inl heq
        · exact Or.inr (Or.inr hin)

theorem plain_normalize (h : p.Plain) : p.normalize.Plain := by
  intro part hpart
  have hin := foldl_climb_subset p.isAbsolute [] p.parts (List.mem_reverse.mp hpart)
  rw [List.append_nil] at hin
  exact h part hin

end Steps

section Text

variable {p : Path}

theorem toList_text_relative (hparts : p.parts ≠ []) (hrelative : p.slashes = 0) :
    p.text.toList = Pieces.join '/' (p.parts.map String.toList) := by
  unfold text
  dsimp only
  rw [if_pos hrelative, if_neg (by simpa using hparts), String.toList_intercalate,
    Pieces.join_eq_intercalate]
  rfl

/-- Reading the text of a path gives the path back. -/
theorem Plain.read_text (hplain : p.Plain) (hslashes : p.slashes ≤ 2) : read p.text = p := by
  by_cases hkind : p.slashes = 0
  · obtain ⟨slashes, parts⟩ := p
    obtain rfl : slashes = 0 := hkind
    cases hparts : parts with
    | nil => decide
    | cons first rest =>
        rw [hparts] at hplain
        unfold read
        rw [toList_text_relative (by simp) rfl, hplain.filter_cut]
        unfold leadingSlashes
        rw [hplain.takeWhile_join]
        rfl
  · exact Path.read_text hplain (by omega)

end Text

end Path

namespace Location

/-- A URL does not start with a slash, and the two slashes after its scheme leave an empty part. -/
theorem schemeSlashes_cut {text name rest : List Char}
    (h : Url.schemeSlashes? text = some (name, rest)) :
    [] ∈ Pieces.cut '/' text ∧ text.head? ≠ some '/' := by
  obtain ⟨⟨-, c, hhead, halpha⟩, rfl⟩ := Url.schemeSlashes_eq_some_iff.mp h
  constructor
  · rw [show name ++ ':' :: '/' :: '/' :: rest = (name ++ [':']) ++ '/' :: '/' :: rest by simp,
      Pieces.cut_append]
    simp [Pieces.cut]
  · rw [List.head?_append, hhead]
    intro hslash
    rw [Option.some.inj hslash] at halpha
    exact absurd halpha (by decide)

/-- The text of a path is not taken for a URL. -/
theorem not_isUrl_text {p : Path} (hplain : p.Plain) : isUrl p.text = false := by
  unfold isUrl
  cases hurl : Url.schemeSlashes? p.text.toList with
  | none => rfl
  | some found =>
      obtain ⟨hempty, hhead⟩ := schemeSlashes_cut hurl
      by_cases hkind : p.slashes = 0
      · obtain ⟨slashes, parts⟩ := p
        obtain rfl : slashes = 0 := hkind
        cases parts with
        | nil => exact absurd hempty (by decide)
        | cons first rest =>
            have hslash : ∀ piece ∈ first.toList :: rest.map String.toList, '/' ∉ piece := by
              intro piece hpiece
              obtain ⟨part, hpart, rfl⟩ := List.mem_map.mp (List.map_cons ▸ hpiece)
              exact (hplain part hpart).2.2
            rw [Path.toList_text_relative (by simp) rfl, List.map_cons, Pieces.cut_join hslash,
              ← List.map_cons] at hempty
            obtain ⟨part, hpart, heq⟩ := List.mem_map.mp hempty
            exact absurd (String.toList_eq_nil_iff.mp heq) (hplain part hpart).1
      · rw [Path.toList_text hkind] at hhead
        obtain ⟨count, hcount⟩ := Nat.exists_eq_succ_of_ne_zero hkind
        rw [hcount, List.replicate_succ] at hhead
        exact absurd rfl hhead

/-- Whether a location is the text of a normal path. -/
structure Names (l : String) (p : Path) : Prop where
  text : l = p.text
  plain : p.Plain
  slashes : p.slashes ≤ 2
  steps : ∃ up down, p.Steps up down

namespace Names

variable {l : String} {p : Path} (h : Names l p)
include h

theorem read : Path.read l = p := by
  rw [h.text]
  exact h.plain.read_text h.slashes

theorem normal : p.normalize = p := by
  obtain ⟨up, down, hsteps⟩ := h.steps
  exact hsteps.normal

theorem not_isUrl : isUrl l = false := by
  rw [h.text]
  exact not_isUrl_text h.plain

theorem ne_empty : l ≠ "" := by
  rintro rfl
  have hread := h.read
  have htext := h.text
  rw [← hread] at htext
  exact absurd htext (by decide)

end Names

/-- The path to which a location leads from a document. -/
def joined (base : String) (path : Path) : Path :=
  if path.isAbsolute ∨ base = "" then path.normalize
  else ((Path.read base).parent.append path).normalize

theorem names_normalize {p : Path} (hplain : p.Plain) (hslashes : p.slashes ≤ 2) :
    Names p.normalize.text p.normalize :=
  ⟨rfl, Path.plain_normalize hplain, hslashes, Path.steps_normalize p⟩

section Join

variable {base location : String}

theorem slashes_read_le (text : String) : (Path.read text).slashes ≤ 2 := by
  have hcases := Path.slashes_read text
  omega

/-- What is joined to a file path is the text of a normal path, if it is no URL. -/
theorem join_names (hbase : isUrl base = false) (hurl : isUrl location = false)
    (hne : location ≠ "") :
    join base location = .ok (joined base (Path.read location)).text ∧
      Names (joined base (Path.read location)).text (joined base (Path.read location)) := by
  unfold join joined
  rw [if_neg hne, if_neg (by simp [hurl]), if_neg (by simp [hbase])]
  dsimp only
  have hplain := Path.plain_read location
  have hslashes := slashes_read_le location
  split
  · exact ⟨rfl, names_normalize hplain hslashes⟩
  · refine ⟨rfl, names_normalize ?_ ?_⟩
    · intro part hpart
      unfold Path.append at hpart
      split at hpart
      · exact hplain part hpart
      · rcases List.mem_append.mp hpart with hin | hin
        · exact Path.plain_read base part (List.dropLast_subset _ hin)
        · exact hplain part hin
    · unfold Path.append
      split
      · exact hslashes
      · exact slashes_read_le base

/-- The text of a normal path is joined as that path. -/
theorem Names.join {p : Path} (h : Names location p) (hbase : isUrl base = false) :
    Location.join base location = .ok (joined base p).text ∧
      Names (joined base p).text (joined base p) := by
  have hjoin := join_names hbase h.not_isUrl h.ne_empty
  rwa [h.read] at hjoin

theorem join_empty (base : String) : Location.join base "" = .ok base := if_pos rfl

end Join

/-- Whether what is joined to the location of a file, and that joined to a root, stays what it is when
it is joined to the root. -/
def Rejoins (root : String) : Prop :=
  ∀ first second base target, first ≠ "" → isUrl first = false → isUrl second = false →
    join root first = .ok base → (Path.read base).name ≠ ".." → join base second = .ok target →
    join root target = .ok target

/-- Whether the folder of a document is reached with as many steps up as steps down. -/
def Balanced (root : String) : Prop :=
  let folder := (Path.read root).parent.normalize.parts
  2 * folder.count ".." = folder.length

instance (root : String) : Decidable (Balanced root) := inferInstanceAs (Decidable (_ = _))

theorem balanced_iff {root : String} {up : Nat} {down : List String}
    (h : (Path.read root).parent.normalize.Steps up down) : Balanced root ↔ down.length = up := by
  unfold Balanced
  dsimp only
  rw [h.1, List.count_append, List.count_replicate_self, List.count_eq_zero.mpr h.2.1,
    List.length_append, List.length_replicate]
  omega

section Root

variable {root : String} (hrelative : (Path.read root).isAbsolute = false)
include hrelative

/-- From a balanced folder, a path that goes up as many steps as the folder leads where it leads from
the folder at hand. -/
theorem append_balanced {up : Nat} {down : List String}
    (h : (Path.read root).parent.normalize.Steps up down) (hbalanced : down.length = up) {q : Path}
    (hq : q.isAbsolute = false) {up' : Nat} {down' : List String} (hsteps : q.Steps up' down')
    (hup : up ≤ up') : ((Path.read root).parent.append q).normalize = q := by
  have hparent : (Path.read root).parent.isAbsolute = false := hrelative
  have hparts := Path.Steps.append_steps hparent hq h hsteps
  have hkind := Path.isAbsolute_append hparent hq
  rw [List.drop_eq_nil_of_le (by rw [List.length_reverse]; omega),
    show up + (up' - down.length) = up' by omega, List.reverse_nil, List.append_nil,
    ← hsteps.1] at hparts
  simp only [Path.isAbsolute, bne_eq_false_iff_eq] at hkind hq
  exact (Path.mk.injEq ..).mpr ⟨hkind.trans hq.symm, hparts⟩

end Root

section Root

variable {root : String}

theorem isAbsolute_joined (h : (Path.read root).isAbsolute = true) (path : Path) :
    (joined root path).isAbsolute = true := by
  unfold joined
  split
  · rename_i hkind
    apply hkind.resolve_right
    rintro rfl
    exact absurd h (by decide)
  · rename_i hkind
    unfold Path.append
    rw [if_neg (fun habsolute => hkind (Or.inl habsolute))]
    exact h

/-- A relative path that is joined to a document leads on from its folder. -/
theorem joined_relative (hne : root ≠ "") {path : Path} (h : path.isAbsolute = false) :
    joined root path = ((Path.read root).parent.append path).normalize := by
  unfold joined
  rw [if_neg (by simp [h, hne])]

theorem joined_absolute {path : Path} (h : path.isAbsolute = true) :
    joined root path = path.normalize := by
  unfold joined
  rw [if_pos (Or.inl h)]

/-- What is joined to a document goes up as many steps as the folder of the document at least, unless
it is absolute. -/
theorem steps_joined (hne : root ≠ "") {path : Path} (hrelative : (joined root path).isAbsolute = false)
    {up : Nat} {down : List String} (h : (Path.read root).parent.normalize.Steps up down) :
    ∃ up' down', (joined root path).Steps up' down' ∧ up ≤ up' := by
  cases hpath : path.isAbsolute with
  | true =>
      rw [joined_absolute hpath] at hrelative
      exact absurd (hpath.symm.trans hrelative) (by decide)
  | false =>
      cases hroot : (Path.read root).isAbsolute with
      | true => exact absurd ((isAbsolute_joined hroot path).symm.trans hrelative) (by decide)
      | false =>
          rw [joined_relative hne hpath]
          exact Path.Steps.append (p := (Path.read root).parent) hroot hpath h

/-- Joining twice gives a normal path, which goes up as many steps as the folder of the root at least
or is absolute. -/
theorem names_twice (hroot : isUrl root = false) {first second base target : String}
    (hfirst : first ≠ "") (hurl : isUrl first = false) (hurl' : isUrl second = false)
    (hbase : join root first = .ok base) (hname : (Path.read base).name ≠ "..")
    (htarget : join base second = .ok target) :
    ∃ q, Names target q ∧ ((Path.read root).isAbsolute = true → q.isAbsolute = true) ∧
      ∀ up down, root ≠ "" → (Path.read root).parent.normalize.Steps up down →
        q.isAbsolute = false → ∃ up' down', q.Steps up' down' ∧ up ≤ up' := by
  obtain ⟨hjoin, hnames⟩ := join_names hroot hurl hfirst
  obtain rfl : base = _ := Except.ok.inj (hbase.symm.trans hjoin)
  have hread := hnames.read
  by_cases hsecond : second = ""
  · subst hsecond
    obtain rfl : target = _ := Except.ok.inj (htarget.symm.trans (join_empty _))
    refine ⟨_, hnames, fun h => isAbsolute_joined h _, ?_⟩
    intro up down hne hfolder hrelative
    exact steps_joined hne hrelative hfolder
  · obtain ⟨hjoin', hnames'⟩ := join_names hnames.not_isUrl hurl' hsecond
    obtain rfl : target = _ := Except.ok.inj (htarget.symm.trans hjoin')
    refine ⟨_, hnames', ?_, ?_⟩
    · intro h
      apply isAbsolute_joined
      rw [hread]
      exact isAbsolute_joined h _
    intro up down hne hfolder hrelative
    -- The base leads up as far as the folder of the root, and so does its own folder.
    have hbaseRelative : (joined root (Path.read first)).isAbsolute = false := by
      rw [← hread]
      exact Bool.eq_false_iff.mpr fun h =>
        absurd ((isAbsolute_joined h _).symm.trans hrelative) (by decide)
    obtain ⟨up', down', hsteps, hup⟩ := steps_joined hne hbaseRelative hfolder
    rw [hread] at hname
    have hparent := hsteps.parent hname
    rw [← hparent.normal, ← hread] at hparent
    obtain ⟨up'', down'', hsteps'', hup''⟩ := steps_joined hnames.ne_empty hrelative hparent
    exact ⟨up'', down'', hsteps'', Nat.le_trans hup hup''⟩

/-- What is joined twice to a root without folder, or with an absolute or a balanced one, stays what it
is when it is joined again. -/
theorem rejoins_of (hroot : isUrl root = false)
    (h : root = "" ∨ (Path.read root).isAbsolute = true ∨ Balanced root) : Rejoins root := by
  intro first second base target hfirst hurl hurl' hbase hname htarget
  obtain ⟨q, hnames, habsolute, hsteps⟩ :=
    names_twice hroot hfirst hurl hurl' hbase hname htarget
  rw [(hnames.join hroot).1, hnames.text]
  suffices hsame : joined root q = q by rw [hsame]
  cases hkind : q.isAbsolute with
  | true => rw [joined_absolute hkind, hnames.normal]
  | false =>
      by_cases hne : root = ""
      · unfold joined
        rw [if_pos (Or.inr hne), hnames.normal]
      · have hrelative : (Path.read root).isAbsolute = false :=
          Bool.eq_false_iff.mpr fun h => absurd ((habsolute h).symm.trans hkind) (by decide)
        have hbalanced : Balanced root := by simpa [hne, hrelative] using h
        obtain ⟨up, down, hfolder⟩ := Path.steps_normalize (Path.read root).parent
        obtain ⟨up', down', hsteps', hup⟩ := hsteps up down hne hfolder hkind
        rw [joined_relative hne hkind]
        exact append_balanced hrelative hfolder ((balanced_iff hfolder).mp hbalanced) hkind hsteps'
          hup

/-- From a folder that is not balanced, a file beside the root is lost when it is joined again. -/
theorem balanced_of_rejoins (hroot : isUrl root = false) (hne : root ≠ "")
    (hrelative : (Path.read root).isAbsolute = false) (h : Rejoins root) : Balanced root := by
  obtain ⟨up, down, hfolder⟩ := Path.steps_normalize (Path.read root).parent
  rw [balanced_iff hfolder]
  have hparent : (Path.read root).parent.isAbsolute = false := hrelative
  have hread : Path.read "x" = ⟨0, ["x"]⟩ := by decide
  have hurl : isUrl "x" = false := by decide
  have hsome : "x" ≠ "" := by decide
  have hfile : (Path.mk 0 ["x"]).Steps 0 ["x"] := ⟨rfl, by decide, fun _ => rfl⟩
  obtain ⟨hjoin, hnames⟩ := join_names hroot hurl hsome
  rw [hread, joined_relative hne rfl] at hjoin hnames
  have hparts := Path.Steps.append_steps hparent rfl hfolder hfile
  have hkind := Path.isAbsolute_append (q := ⟨0, ["x"]⟩) hparent rfl
  -- The file beside the root: as many steps up, and one name more.
  generalize ((Path.read root).parent.append ⟨0, ["x"]⟩).normalize = beside at *
  simp only [Nat.zero_sub, Nat.add_zero, List.drop_zero, List.reverse_reverse] at hparts
  have hsteps : beside.Steps up (down ++ ["x"]) := by
    refine ⟨by rw [hparts, List.append_assoc], by simp [hfolder.2.1], fun habsolute => ?_⟩
    exact absurd (hkind.symm.trans habsolute) (by decide)
  have hname : (Path.read beside.text).name ≠ ".." := by
    rw [hnames.read]
    unfold Path.name
    rw [hparts]
    simp
  have hagain := h "x" "" _ _ hsome hurl (by decide) hjoin hname (join_empty _)
  obtain ⟨hjoin', hnames'⟩ := hnames.join hroot
  rw [joined_relative hne hkind] at hjoin' hnames'
  have hsame : ((Path.read root).parent.append beside).normalize = beside := by
    rw [← hnames'.read, ← Except.ok.inj (hagain.symm.trans hjoin'), hnames.read]
  have hlength := congrArg (fun p => p.parts.length) hsame
  simp only [Path.Steps.append_steps hparent hkind hfolder hsteps, hparts, List.length_append,
    List.length_replicate, List.length_reverse, List.length_drop] at hlength
  omega

/-- The locations that are found from a file path stay valid exactly if it is empty, absolute or in a
balanced folder. -/
theorem rejoins_iff (hroot : isUrl root = false) :
    Rejoins root ↔ root = "" ∨ (Path.read root).isAbsolute = true ∨ Balanced root := by
  constructor
  · intro h
    by_cases hne : root = ""
    · exact Or.inl hne
    · cases hrelative : (Path.read root).isAbsolute with
      | true => exact Or.inr (Or.inl rfl)
      | false => exact Or.inr (Or.inr (balanced_of_rejoins hroot hne hrelative h))
  · exact rejoins_of hroot

/-- A file in the folder at hand is such a root, and one in a folder below is not. -/
theorem rejoins_iff_below : Rejoins "root.json" ∧ ¬Rejoins "specs/root.json" := by
  have hfile : isUrl "root.json" = false ∧ isUrl "specs/root.json" = false := by decide
  constructor
  · exact (rejoins_iff hfile.1).mpr (by decide)
  · exact fun h => absurd ((rejoins_iff hfile.2).mp h) (by decide)

/-- From a folder below the one at hand, the second file is looked for where it is not. -/
example : join "specs/root.json" "a.json" = .ok "specs/a.json" ∧
    join "specs/a.json" "b.json" = .ok "specs/b.json" ∧
    join "specs/root.json" "specs/b.json" = .ok "specs/specs/b.json" := by decide

end Root

end Location

end SchemaGraph
