import SchemaGraph.Pointer
import SchemaGraph.Proofs.Location.Path

/-!
# Places of documents

A place is a file path that starts at the root and is written without detours, and without a hash
sign.  Joining a location to a place gives a place or a URL, which starts with a scheme and two slashes,
and these stay what they are whatever they are joined to.  So a reference that was made absolute stays
as it is, and it tells what the reference names.
-/

namespace SchemaGraph

namespace Url

/-- Whether a text can stand in front of a colon as a scheme. -/
def IsScheme (name : List Char) : Prop :=
  name.all isSchemeChar = true ∧ ∃ c, name.head? = some c ∧ c.isAlpha = true

theorem IsScheme.not_mem {name : List Char} (h : IsScheme name) {c : Char}
    (hc : isSchemeChar c = false) : c ∉ name := by
  intro hin
  rw [List.all_eq_true.mp h.1 c hin] at hc
  cases hc

theorem scheme_eq_some_iff {text name rest : List Char} :
    scheme? text = some (name, rest) ↔ IsScheme name ∧ text = name ++ ':' :: rest := by
  unfold scheme?
  constructor
  · intro h
    rcases Pieces.splitFirst_cases ':' text with ⟨-, hsplit⟩ | ⟨before, after, -, rfl, hsplit⟩
    · rw [hsplit] at h
      cases h
    · rw [hsplit] at h
      cases before with
      | nil => cases h
      | cons c others =>
          dsimp only at h
          by_cases hscheme : c.isAlpha = true ∧ (c :: others).all isSchemeChar = true
          · rw [if_pos hscheme] at h
            obtain ⟨rfl, rfl⟩ := Prod.mk.inj (Option.some.inj h)
            exact ⟨⟨hscheme.2, c, rfl, hscheme.1⟩, rfl⟩
          · rw [if_neg hscheme] at h
            cases h
  · rintro ⟨hname, rfl⟩
    rw [Pieces.splitFirst_append (hname.not_mem (by decide))]
    obtain ⟨hall, c, hhead, halpha⟩ := hname
    cases name with
    | nil => cases hhead
    | cons d others =>
        rw [← Option.some.inj hhead] at halpha
        exact if_pos ⟨halpha, hall⟩

theorem schemeSlashes_eq_some_iff {text name rest : List Char} :
    schemeSlashes? text = some (name, rest) ↔
      IsScheme name ∧ text = name ++ ':' :: '/' :: '/' :: rest := by
  unfold schemeSlashes?
  constructor
  · intro h
    split at h
    · rename_i hscheme
      obtain ⟨rfl, rfl⟩ := Prod.mk.inj (Option.some.inj h)
      exact scheme_eq_some_iff.mp hscheme
    · cases h
  · intro h
    rw [scheme_eq_some_iff.mpr h]
    rfl

end Url

namespace Location

theorem isUrl_iff {location : String} : isUrl location = true ↔
    ∃ name rest, Url.IsScheme name ∧ location.toList = name ++ ':' :: '/' :: '/' :: rest := by
  unfold isUrl
  rw [Option.isSome_iff_exists]
  constructor
  · rintro ⟨⟨name, rest⟩, h⟩
    exact ⟨name, rest, Url.schemeSlashes_eq_some_iff.mp h⟩
  · rintro ⟨name, rest, h⟩
    exact ⟨(name, rest), Url.schemeSlashes_eq_some_iff.mpr h⟩

theorem ne_empty_of_isUrl {location : String} (h : isUrl location = true) : location ≠ "" := by
  rintro rfl
  exact absurd h (by decide)

/-- Whether a location is a file path that starts at the root, is written without detours and holds
no hash sign. -/
structure IsPlace (l : String) : Prop where
  absolute : (Path.read l).isAbsolute = true
  normal : (Path.read l).normalize.text = l
  noHash : '#' ∉ l.toList

/-- A normal path that starts at the root is a place. -/
theorem isPlace_normalize {p : Path} (hplain : p.Plain) (hslashes : p.slashes = 1 ∨ p.slashes = 2)
    (hhash : ∀ part ∈ p.parts, '#' ∉ part.toList) : IsPlace p.normalize.text := by
  have hnonzero : p.slashes ≠ 0 := by omega
  have habsolute : p.isAbsolute = true := by simpa [Path.isAbsolute] using hnonzero
  have hparts : ∀ part ∈ p.normalize.parts, part ≠ ".." ∧ part ∈ p.parts :=
    fun part hpart => Path.mem_of_mem_normalize habsolute hpart
  have hread : Path.read p.normalize.text = p.normalize :=
    Path.read_text (fun part hpart => hplain part (hparts part hpart).2) hslashes
  have hnormal : p.normalize.normalize = p.normalize :=
    Path.normalize_of_not_mem fun hin => (hparts _ hin).1 rfl
  refine ⟨by rw [hread]; exact habsolute, by rw [hread, hnormal], ?_⟩
  rw [Path.toList_text (p := p.normalize) hnonzero]
  intro hin
  rcases List.mem_append.mp hin with hin | hin
  · exact absurd (List.eq_of_mem_replicate hin) (by decide)
  · rcases Pieces.mem_join hin with heq | ⟨piece, hpiece, hc⟩
    · exact absurd heq (by decide)
    · obtain ⟨part, hpart, rfl⟩ := List.mem_map.mp hpiece
      exact hhash part (hparts part hpart).2 hc

namespace IsPlace

variable {l base : String}

theorem slashes (h : IsPlace l) : (Path.read l).slashes = 1 ∨ (Path.read l).slashes = 2 := by
  have habsolute := h.absolute
  have hcases := Path.slashes_read l
  simp only [Path.isAbsolute, bne_iff_ne, ne_eq] at habsolute
  omega

theorem head (h : IsPlace l) : ∃ rest, l.toList = '/' :: rest := by
  have hslashes := h.slashes
  rw [← h.normal, Path.toList_text (p := (Path.read l).normalize)
    (show (Path.read l).slashes ≠ 0 by omega)]
  change ∃ rest, List.replicate (Path.read l).slashes '/' ++ _ = _
  rcases hslashes with heq | heq
  · rw [heq]
    exact ⟨_, rfl⟩
  · rw [heq]
    exact ⟨_, rfl⟩

theorem ne_empty (h : IsPlace l) : l ≠ "" := by
  obtain ⟨rest, hrest⟩ := h.head
  rintro rfl
  cases hrest

theorem not_isUrl (h : IsPlace l) : isUrl l = false := by
  obtain ⟨rest, hrest⟩ := h.head
  rw [Bool.eq_false_iff]
  intro hurl
  obtain ⟨name, more, ⟨-, c, hhead, halpha⟩, hname⟩ := isUrl_iff.mp hurl
  have hc : ('/' :: rest).head? = some c := by
    rw [← hrest, hname, List.head?_append, hhead]
    rfl
  rw [← Option.some.inj hc] at halpha
  exact absurd halpha (by decide)

end IsPlace

/-- A location that stays what it is: a place or a URL. -/
def IsFixed (l : String) : Prop := isUrl l = true ∧ '#' ∉ l.toList ∨ IsPlace l

theorem IsFixed.noHash {l : String} (h : IsFixed l) : '#' ∉ l.toList :=
  h.elim (fun hurl => hurl.2) fun hplace => hplace.noHash

variable {base : String} (hbase : IsPlace base)
include hbase

theorem join_fixed {l : String} (h : IsFixed l) : join base l = .ok l := by
  unfold join
  rcases h with ⟨hurl, -⟩ | hplace
  · rw [if_neg (ne_empty_of_isUrl hurl), if_pos hurl]
  · rw [if_neg hplace.ne_empty, if_neg (by simp [hplace.not_isUrl]),
      if_neg (by simp [hbase.not_isUrl])]
    dsimp only
    rw [if_pos (Or.inl hplace.absolute), hplace.normal]

/-- Joining a path to a place gives a place. -/
theorem join_path {location : String} (hurl : isUrl location = false)
    (hhash : '#' ∉ location.toList) : ∃ l, join base location = .ok l ∧ IsPlace l := by
  unfold join
  by_cases hempty : location = ""
  · exact ⟨base, by rw [if_pos hempty], hbase⟩
  rw [if_neg hempty, if_neg (by simp [hurl]), if_neg (by simp [hbase.not_isUrl])]
  have hparts : ∀ part ∈ (Path.read location).parts, '#' ∉ part.toList :=
    fun part hpart hc => hhash (Path.mem_of_mem_read hpart hc)
  dsimp only
  by_cases habsolute : (Path.read location).isAbsolute = true
  · rw [if_pos (Or.inl habsolute)]
    refine ⟨_, rfl, isPlace_normalize (Path.plain_read location) ?_ hparts⟩
    have hcases := Path.slashes_read location
    simp only [Path.isAbsolute, bne_iff_ne, ne_eq] at habsolute
    omega
  · rw [if_neg fun h => h.elim habsolute hbase.ne_empty]
    have happend : (Path.read base).parent.append (Path.read location) =
        ⟨(Path.read base).slashes, (Path.read base).parts.dropLast ++ (Path.read location).parts⟩ := by
      unfold Path.append
      rw [if_neg habsolute]
      rfl
    rw [happend]
    refine ⟨_, rfl, isPlace_normalize ?_ hbase.slashes ?_⟩
    · intro part hpart
      rcases List.mem_append.mp hpart with hin | hin
      · exact Path.plain_read base part (List.dropLast_subset _ hin)
      · exact Path.plain_read location part hin
    · intro part hpart hc
      rcases List.mem_append.mp hpart with hin | hin
      · exact hbase.noHash (Path.mem_of_mem_read (List.dropLast_subset _ hin) hc)
      · exact hparts part hin hc

theorem join_ok {location : String} (hhash : '#' ∉ location.toList) :
    ∃ l, join base location = .ok l ∧ IsFixed l := by
  cases hurl : isUrl location with
  | false =>
      obtain ⟨l, hl, hplace⟩ := join_path hbase hurl hhash
      exact ⟨l, hl, Or.inr hplace⟩
  | true =>
      have hfixed : IsFixed location := Or.inl ⟨hurl, hhash⟩
      exact ⟨location, join_fixed hbase hfixed, hfixed⟩

/-- A reference made absolute: its location is joined to that of the document. -/
def absolute (base reference : String) : String :=
  match rebase base reference with
  | .ok x => x
  | .error _ => reference

/-- A reference has no hash sign, or what follows its first one is kept. -/
theorem rebase_cases (x : String) :
    (∃ l, '#' ∉ x.toList ∧ join base x = .ok l ∧ IsFixed l ∧ rebase base x = .ok l) ∨
      ∃ location fragment l, '#' ∉ location ∧ x.toList = location ++ '#' :: fragment ∧
        join base (String.ofList location) = .ok l ∧ IsFixed l ∧
          rebase base x = .ok (l ++ String.ofList ('#' :: fragment)) := by
  unfold rebase
  rw [if_neg hbase.ne_empty]
  rcases Pieces.splitFirst_cases '#' x.toList with ⟨hhash, hsplit⟩ |
    ⟨location, fragment, hhash, heq, hsplit⟩
  · obtain ⟨l, hl, hfixed⟩ := join_ok hbase hhash
    rw [hsplit]
    dsimp only
    rw [String.ofList_toList]
    exact Or.inl ⟨l, hhash, hl, hfixed, hl⟩
  · have hclean : '#' ∉ (String.ofList location).toList := by rwa [String.toList_ofList]
    obtain ⟨l, hl, hfixed⟩ := join_ok hbase hclean
    rw [hsplit]
    dsimp only
    rw [hl]
    exact Or.inr ⟨location, fragment, l, hhash, heq, hl, hfixed, rfl⟩

theorem rebase_eq (x : String) : rebase base x = .ok (absolute base x) := by
  unfold absolute
  rcases rebase_cases hbase x with ⟨l, -, -, -, h⟩ | ⟨location, fragment, l, -, -, -, -, h⟩
  · rw [h]
  · rw [h]

theorem absolute_append {l : String} (hfixed : IsFixed l) (fragment : List Char) :
    absolute base (l ++ String.ofList ('#' :: fragment)) = l ++ String.ofList ('#' :: fragment) := by
  unfold absolute rebase
  rw [if_neg hbase.ne_empty, String.toList_append, String.toList_ofList,
    Pieces.splitFirst_append hfixed.noHash]
  dsimp only
  rw [String.ofList_toList, join_fixed hbase hfixed]
  rfl

theorem absolute_fixed {l : String} (hfixed : IsFixed l) : absolute base l = l := by
  unfold absolute rebase
  rw [if_neg hbase.ne_empty, Pieces.splitFirst_none hfixed.noHash]
  dsimp only
  rw [String.ofList_toList, join_fixed hbase hfixed]

/-- What was made absolute stays as it is. -/
theorem absolute_absolute {other : String} (hother : IsPlace other) (x : String) :
    absolute other (absolute base x) = absolute base x := by
  have heq := rebase_eq hbase x
  rcases rebase_cases hbase x with ⟨l, -, -, hfixed, h⟩ |
    ⟨location, fragment, l, -, -, -, hfixed, h⟩
  · have hl : absolute base x = l := Except.ok.inj (heq.symm.trans h)
    rw [hl, absolute_fixed hother hfixed]
  · have hl : absolute base x = l ++ String.ofList ('#' :: fragment) :=
      Except.ok.inj (heq.symm.trans h)
    rw [hl, absolute_append hother hfixed]

end Location

namespace Reference

theorem read_eq_some {x : String} {parsed : Reference} (h : read? x = some parsed) :
    ∃ fragment, '#' ∉ parsed.location.toList ∧
      x.toList = parsed.location.toList ++ '#' :: fragment ∧
        segments? fragment = some parsed.segments := by
  unfold read? at h
  rcases Pieces.splitFirst_cases '#' x.toList with ⟨hhash, hsplit⟩ |
    ⟨location, fragment, hhash, heq, hsplit⟩
  · rw [hsplit] at h
    cases h
  · rw [hsplit] at h
    obtain ⟨segments, hsegments, rfl⟩ := Option.map_eq_some_iff.mp h
    exact ⟨fragment, by rwa [String.toList_ofList], by rwa [String.toList_ofList], hsegments⟩

theorem read_of_toList {x location : String} {fragment : List Char} {segments : List String}
    (hhash : '#' ∉ location.toList) (hx : x.toList = location.toList ++ '#' :: fragment)
    (hsegments : segments? fragment = some segments) : read? x = some ⟨location, segments⟩ := by
  unfold read?
  rw [hx, Pieces.splitFirst_append hhash]
  dsimp only
  rw [hsegments, Option.map_some, String.ofList_toList]

theorem fragment_of_toList {x : String} {location fragment : List Char} (hhash : '#' ∉ location)
    (hx : x.toList = location ++ '#' :: fragment) :
    Reference.fragment x = String.ofList fragment := by
  unfold Reference.fragment
  rw [hx, Pieces.splitFirst_append hhash]

/-- The name of a schema is written in the fragment. -/
theorem schemaName_of_toList {x : String} {location fragment : List Char} {segments : List String}
    (hx : x.toList = location ++ '#' :: fragment) (hsegments : segments? fragment = some segments) :
    schemaName x = schemaName (String.ofList fragment) := by
  have hslash : ∃ rest, fragment = '/' :: rest := by
    cases fragment with
    | nil => cases hsegments
    | cons c rest =>
        by_cases hc : '/' = c
        · exact ⟨rest, by rw [hc]⟩
        · unfold segments? at hsegments
          rw [show Pieces.after? registryPointer.toList (c :: rest) = none from if_neg hc] at hsegments
          cases hsegments
  obtain ⟨rest, rfl⟩ := hslash
  unfold schemaName
  rw [hx, String.toList_ofList,
    show location ++ '#' :: '/' :: rest = (location ++ ['#']) ++ '/' :: rest by simp,
    Pieces.cut_append, List.getLast?_append_of_ne_nil _ (Pieces.cut_ne_nil '/' rest)]
  rw [Pieces.cut, if_pos rfl, List.getLast?_cons_of_ne_nil (Pieces.cut_ne_nil '/' rest)]

theorem absolute_of_toList {base x : String} (hbase : Location.IsPlace base)
    {location fragment : List Char} (hhash : '#' ∉ location)
    (hx : x.toList = location ++ '#' :: fragment) :
    ∃ l, Location.join base (String.ofList location) = .ok l ∧ Location.IsFixed l ∧
      Location.absolute base x = l ++ String.ofList ('#' :: fragment) := by
  have heq := Location.rebase_eq hbase x
  rcases Location.rebase_cases hbase x with ⟨l, hnone, -, -, -⟩ |
    ⟨location', fragment', l, hhash', hx', hl, hfixed, h⟩
  · exact absurd (hx ▸ List.mem_append_right _ List.mem_cons_self) hnone
  · have hsplit := Pieces.splitFirst_append hhash fragment
    rw [← hx, hx', Pieces.splitFirst_append hhash'] at hsplit
    obtain ⟨rfl, hfragment⟩ := Prod.mk.inj hsplit
    rw [Option.some.inj hfragment] at h
    exact ⟨l, hl, hfixed, Except.ok.inj (heq.symm.trans h)⟩

/-- References that are equal once they were made absolute name one schema of one document. -/
theorem read_of_absolute_eq {base base' x x' : String} (hbase : Location.IsPlace base)
    (hbase' : Location.IsPlace base') (h : Location.absolute base x = Location.absolute base' x')
    {parsed : Reference} (hread : read? x = some parsed) :
    ∃ location', read? x' = some ⟨location', parsed.segments⟩ ∧
      Location.join base parsed.location = Location.join base' location' ∧
        Reference.fragment x = Reference.fragment x' ∧ schemaName x = schemaName x' := by
  obtain ⟨fragment, hhash, hx, hsegments⟩ := read_eq_some hread
  obtain ⟨l, hl, hfixed, habsolute⟩ := absolute_of_toList hbase hhash hx
  rw [String.ofList_toList] at hl
  rcases Pieces.splitFirst_cases '#' x'.toList with ⟨hnone, -⟩ |
    ⟨location', fragment', hhash', hx', -⟩
  · -- without a hash sign in it, the other one would not have one either
    obtain ⟨l', hl', hfixed'⟩ := Location.join_ok hbase' hnone
    have hwhole : Location.absolute base' x' = l' := by
      have heq := Location.rebase_eq hbase' x'
      rcases Location.rebase_cases hbase' x' with ⟨l'', -, hl'', -, hrebase⟩ |
        ⟨location', fragment', -, -, hx', -, -, -⟩
      · rw [← Except.ok.inj (hl''.symm.trans hl'), ← Except.ok.inj (heq.symm.trans hrebase)]
      · exact absurd (hx' ▸ List.mem_append_right _ List.mem_cons_self) hnone
    refine absurd ?_ hfixed'.noHash
    rw [← hwhole, ← h, habsolute, String.toList_append, String.toList_ofList]
    exact List.mem_append_right _ List.mem_cons_self
  · obtain ⟨l', hl', hfixed', habsolute'⟩ := absolute_of_toList hbase' hhash' hx'
    have hlists : l.toList ++ '#' :: fragment = l'.toList ++ '#' :: fragment' := by
      have htexts := congrArg String.toList (habsolute.symm.trans (h.trans habsolute'))
      simpa only [String.toList_append, String.toList_ofList] using htexts
    have hsplit := Pieces.splitFirst_append hfixed.noHash fragment
    rw [hlists, Pieces.splitFirst_append hfixed'.noHash] at hsplit
    obtain ⟨hll, hfragment⟩ := Prod.mk.inj hsplit
    obtain rfl := Option.some.inj hfragment
    refine ⟨String.ofList location', ?_, ?_, ?_, ?_⟩
    · exact read_of_toList (by rwa [String.toList_ofList]) (by rwa [String.toList_ofList]) hsegments
    · rw [hl, hl', String.toList_inj.mp hll]
    · rw [fragment_of_toList hhash hx, fragment_of_toList hhash' hx']
    · rw [schemaName_of_toList hx hsegments, schemaName_of_toList hx' hsegments]

end Reference

end SchemaGraph
