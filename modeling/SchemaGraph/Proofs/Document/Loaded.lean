import SchemaGraph.Document.Load
import SchemaGraph.Proofs.Location.Place
import SchemaGraph.Proofs.Resolve.Uncached

/-!
# Loaded documents

A document that is loaded from the place where it stands is what other documents find there, if they
read it in the same notation: what makes it valid is more than what a reference into it asks for.
This is so for a document of JSON, and for one of YAML that does not start like JSON.
-/

namespace SchemaGraph

open Resolving

namespace Pieces

theorem splitLast_eq_some {separator : Char} {text before after : List Char}
    (h : splitLast separator text = (some before, after)) : text = before ++ separator :: after := by
  unfold splitLast at h
  rcases splitFirst_cases separator text.reverse with ⟨-, hsplit⟩ |
    ⟨first, rest, -, htext, hsplit⟩
  · rw [hsplit] at h
    cases h
  · rw [hsplit] at h
    obtain ⟨hbefore, rfl⟩ := Prod.mk.inj h
    rw [← Option.some.inj hbefore, ← List.reverse_reverse text, htext]
    simp

/-- The last piece stands at the end. -/
theorem suffix_join {separator : Char} {pieces : List (List Char)} {piece : List Char}
    (h : pieces.getLast? = some piece) : piece <:+ join separator pieces := by
  induction pieces with
  | nil => cases h
  | cons first rest ih =>
      cases rest with
      | nil =>
          rw [← Option.some.inj h]
          exact List.suffix_refl first
      | cons next rest =>
          rw [List.getLast?_cons_cons] at h
          rw [join]
          · exact (ih h).trans ((List.suffix_cons _ _).trans (List.suffix_append _ _))
          · exact List.cons_ne_nil _ _

end Pieces

/-- The lower-case form of the end of a text is at the end of its lower-case form. -/
theorem Case.suffix_lower {x y : String} (h : x.toList <:+ y.toList) :
    (lower x).toList <:+ (lower y).toList := by
  obtain ⟨before, hy⟩ := h
  unfold lower
  rw [String.toList_ofList, String.toList_ofList, ← hy, List.flatMap_append]
  exact List.suffix_append _ _

/-- A path from the root ends with the extension of its last part. -/
theorem Path.suffix_extension {p : Path} (hslashes : p.slashes ≠ 0) :
    p.extension.toList <:+ p.text.toList := by
  unfold extension
  split
  · rename_i before after hsplit
    split
    · exact List.nil_suffix
    · have hname := Pieces.splitLast_eq_some hsplit
      rw [toList_text hslashes, String.toList_ofList]
      refine List.IsSuffix.trans ?_ (List.suffix_append _ _)
      have hlast : (p.parts.map String.toList).getLast? = some p.name.toList := by
        rw [List.getLast?_map]
        unfold name at hname ⊢
        cases hparts : p.parts.getLast? with
        | none =>
            rw [hparts] at hname
            exact absurd hname (by simp)
        | some part => rfl
      refine List.IsSuffix.trans ?_ (Pieces.suffix_join hlast)
      rw [hname]
      exact List.suffix_append _ _
  · exact List.nil_suffix

namespace Location.IsPlace

variable {l : String} (h : IsPlace l)
include h

/-- The path of a place is normal. -/
theorem normalize_read : (Path.read l).normalize = Path.read l := by
  have hplain : (Path.read l).normalize.Plain := fun part hpart =>
    Path.plain_read l part (Path.mem_of_mem_normalize h.absolute hpart).2
  have hread := Path.read_text (p := (Path.read l).normalize) hplain h.slashes
  rw [h.normal] at hread
  exact hread.symm

theorem text_read : (Path.read l).text = l := by
  have htext := h.normal
  rwa [h.normalize_read] at htext

/-- A place ends with the extension of its path. -/
theorem suffix_extension :
    (Case.lower (Path.read l).extension).toList <:+ (Case.lower l).toList := by
  have hslashes : (Path.read l).slashes ≠ 0 := by
    have hcases := h.slashes
    omega
  have hsuffix := Case.suffix_lower (Path.suffix_extension hslashes)
  rwa [h.text_read] at hsuffix

/-- A text at a place with the extension of JSON is read as JSON. -/
theorem notationOf_eq (hjson : Case.lower (Path.read l).extension = ".json") (text : String) :
    External.notationOf l text = .json := by
  have hsuffix := h.suffix_extension
  rw [hjson] at hsuffix
  unfold External.notationOf
  rw [if_pos (List.isSuffixOf_iff_suffix.mpr hsuffix)]

/-- A text at a place with an extension of YAML is read as YAML, unless it starts like JSON. -/
theorem notationOf_yaml
    (hyaml : Document.notation? (Case.lower (Path.read l).extension) = some .yaml) {text : String}
    (hopening : ∀ rest, Blank.trimStart text.toList ≠ '\x7b' :: rest ∧
      Blank.trimStart text.toList ≠ '[' :: rest) :
    External.notationOf l text = .yaml := by
  have hsuffix := h.suffix_extension
  have hextension : Case.lower (Path.read l).extension = ".yaml" ∨
      Case.lower (Path.read l).extension = ".yml" := by
    unfold Document.notation? at hyaml
    split at hyaml
    · cases hyaml
    · exact Or.inl ‹_›
    · exact Or.inr ‹_›
    · cases hyaml
  have hnotjson : ¬".json".toList <:+ (Case.lower l).toList := by
    intro hjson
    -- of two ends of one text one is an end of the other
    obtain heq | heq := hextension
    all_goals
      rw [heq] at hsuffix
      obtain hend | hend := List.suffix_or_suffix_of_suffix hjson hsuffix
      all_goals exact absurd hend (by decide)
  unfold External.notationOf
  rw [if_neg (by simpa using hnotjson)]
  split
  · exact absurd ‹_› (hopening _).1
  · exact absurd ‹_› (hopening _).2
  · rfl

end Location.IsPlace

namespace Document

/-- A valid document lacks nothing that another one may refer to. -/
theorem defect_of_validate {raw : Value} {paths : List Value} (h : validate raw = .ok paths)
    (location : String) : External.defect? location raw = none := by
  unfold validate at h
  split at h
  · rename_i entries
    split at h
    · cases h
    · rename_i hviolation
      unfold violation? at hviolation
      dsimp only at hviolation
      split at hviolation
      · cases hviolation
      rename_i hversion
      split at hviolation
      · cases hviolation
      split at hviolation
      · rename_i fields hinfo
        split at hviolation
        · cases hviolation
        rename_i htitle
        split at hviolation
        · cases hviolation
        rename_i hnumber
        unfold entry at hversion hinfo htitle hnumber
        rw [Bool.not_eq_true, Bool.not_eq_false'] at hversion htitle hnumber
        unfold External.defect?
        dsimp only
        rw [hversion, hinfo]
        dsimp only
        rw [htitle, hnumber]
        rfl
      · cases hviolation
  · cases h

/-- A document that is loaded from its place, which is its own absolute form, was read there, in the
notation of the extension, and is valid. -/
theorem read_of_load {world : World} {s t : Session} {l : String} {d : Document}
    (hplace : Location.IsPlace l) (hown : world.resolve (Path.read l) = Path.read l)
    (h : load l world s = (.ok d, t)) :
    ∃ form text paths, notation? (Case.lower (Path.read l).extension) = some form ∧
      world.textAt? l = some text ∧ parseContent form l text = .ok d.raw ∧
        validate d.raw = .ok paths ∧ d.source = l := by
  -- the run is taken apart step by step, and every way out but the last one is a failure
  suffices hload : Ensures (load l) world s fun result _ => ∀ d, result = .ok d →
      ∃ form text paths, notation? (Case.lower (Path.read l).extension) = some form ∧
        world.textAt? l = some text ∧ parseContent form l text = .ok d.raw ∧
          validate d.raw = .ok paths ∧ d.source = l by
    unfold Ensures at hload
    rw [h] at hload
    exact hload d rfl
  unfold load
  rw [ensures_bind, ensures_read]
  unfold After
  dsimp only
  rw [hown, hplace.text_read]
  by_cases hnull : l.toList.contains (Char.ofNat 0) = true
  · rw [if_pos hnull]
    exact fun _ heq => nomatch heq
  rw [if_neg hnull]
  cases hfile : world.isFile (Path.read l) with
  | false => exact fun _ heq => nomatch heq
  | true =>
      rw [if_neg (by simp)]
      cases hform : notation? (Case.lower (Path.read l).extension) with
      | none => exact fun _ heq => nomatch heq
      | some form =>
          change Ensures (emit _ >>= _) _ _ _
          unfold emit
          rw [ensures_modify_bind]
          cases hread : world.read (Path.read l) with
          | error fault =>
              rw [ensures_check_error_bind rfl]
              exact fun _ heq => nomatch heq
          | ok text =>
              rw [ensures_check_ok_bind rfl]
              have htext : world.textAt? l = some text := by
                unfold World.textAt?
                rw [if_neg hnull, hread]
                rfl
              cases hparse : parseContent form l text with
              | error failure =>
                  rw [ensures_lift_error_bind rfl]
                  exact fun _ heq => nomatch heq
              | ok raw =>
                  rw [ensures_lift_ok_bind rfl]
                  cases hvalid : validate raw with
                  | error violation => exact fun _ heq => nomatch heq
                  | ok paths =>
                      refine Ensures.bind (show Ensures _ _ _ fun _ _ => True from trivial) ?_ ?_
                      · intro _ u _ d heq
                        rw [← Except.ok.inj heq]
                        exact ⟨form, text, paths, rfl, htext, hparse, hvalid, rfl⟩
                      · exact fun _ _ _ _ heq => nomatch heq

/-- A document that is loaded is the one that stands at its place exactly if its text says the same in
the notation for which it is taken from outside. -/
theorem stands_iff_of_load {world : World} {s t : Session} {l : String} {d : Document}
    (hplace : Location.IsPlace l) (hown : world.resolve (Path.read l) = Path.read l)
    (h : load l world s = (.ok d, t)) :
    ∃ text, world.textAt? l = some text ∧ (world.documentAt? l = some d.raw ↔
      parseContent (External.notationOf l text) l text = .ok d.raw) := by
  obtain ⟨form, text, paths, -, htext, -, hvalid, -⟩ := read_of_load hplace hown h
  refine ⟨text, htext, ?_⟩
  have hparsed : External.parse l text = .ok d.raw ↔
      parseContent (External.notationOf l text) l text = .ok d.raw := by
    unfold External.parse
    split
    · rename_i heq
      rw [heq]
      simp
    · exact Iff.rfl
  rw [← hparsed]
  constructor
  · intro hstands
    unfold World.documentAt? at hstands
    rw [htext] at hstands
    dsimp only at hstands
    split at hstands
    · cases hstands
    · rename_i raw hraw
      split at hstands
      · cases hstands
      · rw [hraw, Option.some.inj hstands]
  · intro hraw
    rw [World.documentAt_parsed htext hraw, defect_of_validate hvalid]
    rfl

/-- A document of JSON that is loaded is the one that stands at its place. -/
theorem stands_of_load {world : World} {s t : Session} {l : String} {d : Document}
    (hplace : Location.IsPlace l) (hown : world.resolve (Path.read l) = Path.read l)
    (hjson : Case.lower (Path.read l).extension = ".json") (h : load l world s = (.ok d, t)) :
    d.source = l ∧ world.documentAt? l = some d.raw := by
  obtain ⟨form, text, paths, hform, htext, hparse, hvalid, hsource⟩ := read_of_load hplace hown h
  obtain ⟨text', htext', hstands⟩ := stands_iff_of_load hplace hown h
  obtain rfl := Option.some.inj (htext.symm.trans htext')
  rw [hjson] at hform
  obtain rfl := Option.some.inj hform
  refine ⟨hsource, hstands.mpr ?_⟩
  rw [hplace.notationOf_eq hjson]
  exact hparse

/-- A valid document of JSON is loaded from its place. -/
theorem load_json {world : World} {l text : String} {raw : Value} (hplace : Location.IsPlace l)
    (hown : world.resolve (Path.read l) = Path.read l)
    (hjson : Case.lower (Path.read l).extension = ".json")
    (hnull : l.toList.contains (Char.ofNat 0) = false)
    (hread : world.read (Path.read l) = .ok text) (hparse : Json.parse text = .ok raw)
    (hvalid : validate raw = .ok []) (s : Session) :
    ∃ t, load l world s = (.ok ⟨raw, l, s.nextId⟩, t) := by
  suffices hload : Ensures (load l) world s fun result _ => result = .ok ⟨raw, l, s.nextId⟩ from
    ⟨_, Prod.ext hload rfl⟩
  have hcontent : parseContent .json l text = .ok raw := by
    unfold parseContent
    dsimp only
    rw [hparse]
  unfold load
  rw [ensures_bind, ensures_read]
  unfold After
  dsimp only
  rw [hown, hplace.text_read, hjson, hnull, if_neg (by simp),
    World.isFile_of_read hread, if_neg (by simp), show notation? ".json" = some .json from rfl]
  change Ensures (emit _ >>= _) _ _ _
  unfold emit
  rw [ensures_modify_bind, ensures_check_ok_bind hread, ensures_lift_ok_bind hcontent, hvalid]
  rfl

end Document

/-- A file that holds a text. -/
def FileEntry.ofText (text : String) : FileEntry := .file text.toUTF8.data.toList

/-- The text of a file is read with its line ends unified. -/
theorem World.read_ofText {w : World} {p : Path} {chars : List Char}
    (h : w.find p = .ok (.ofText (String.ofList chars))) :
    w.read p = .ok (String.ofList (Document.unifyLines chars)) := by
  unfold read
  rw [h]
  change Document.decode _ = _
  unfold Document.decode
  have htext : String.fromUTF8? ⟨(String.ofList chars).toUTF8.data.toList.toArray⟩ =
      some (String.ofList chars) := by
    rw [Array.toArray_toList]
    exact dif_pos (String.ofList chars).isValidUTF8
  rw [htext]
  dsimp only
  rw [String.toList_ofList]

/-- Reading JSON from the characters of a text. -/
theorem Json.parse_ofList (chars : List Char) : parse (String.ofList chars) =
    (value (2 * chars.length + 2) (skipSpace chars)).bind fun read =>
      if (skipSpace read.2).isEmpty then .ok read.1 else .error .malformedJson := by
  unfold parse
  rw [String.toList_ofList]
  rfl

/-! ### Documents that are given to references from outside -/

/-- A document that is loaded from its place is given to references from outside as well, exactly if its
text says the same in the notation for which it is taken there.  So it is if it is written in JSON, or in
YAML and does not start like JSON. -/
theorem Document.given_of_load {world : World} {s t u : Session} {l : String} {d : Document}
    (hplace : Location.IsPlace l) (hown : world.resolve (Path.read l) = Path.read l)
    (h : load l world s = (.ok d, t)) (hu : u.KeptRight world)
    (hkeep : u.externalSettings.CanKeep) :
    ∃ text, world.textAt? l = some text ∧
      ((External.load l world u).1 = .ok d.raw ↔
        parseContent (External.notationOf l text) l text = .ok d.raw) ∧
      ((notation? (Case.lower (Path.read l).extension) = some .yaml → ∀ rest,
          Blank.trimStart text.toList ≠ '\x7b' :: rest ∧
            Blank.trimStart text.toList ≠ '[' :: rest) →
        (External.load l world u).1 = .ok d.raw) := by
  obtain ⟨form, text, paths, hform, htext, hparse, -, -⟩ := read_of_load hplace hown h
  obtain ⟨text', htext', hstands⟩ := stands_iff_of_load hplace hown h
  obtain rfl := Option.some.inj (htext.symm.trans htext')
  obtain ⟨-, -, hgives⟩ := External.ensures_load hu hplace.not_isUrl
  have hgiven : (External.load l world u).1 = .ok d.raw ↔
      parseContent (External.notationOf l text) l text = .ok d.raw := by
    rw [← hstands]
    exact ⟨hgives.right d.raw, hgives.found hkeep d.raw⟩
  refine ⟨text, htext, hgiven, fun hopening => hgiven.mpr ?_⟩
  have hform' : External.notationOf l text = form := by
    cases form with
    | yaml => exact hplace.notationOf_yaml hform (hopening hform)
    | json =>
        refine hplace.notationOf_eq ?_ text
        unfold notation? at hform
        split at hform
        · assumption
        all_goals cases hform
  rw [hform']
  exact hparse

/-- A mapping of YAML in braces is taken for JSON from outside, which it is not. -/
example : External.notationOf "/api.yaml" "\x7bopenapi: 3.0.0\x7d" = .json ∧
    (Document.parseContent .yaml "/api.yaml" "\x7bopenapi: 3.0.0\x7d").isOk = true ∧
    (Document.parseContent .json "/api.yaml" "\x7bopenapi: 3.0.0\x7d").isOk = false := by
  decide +kernel

/-- A document of JSON with one schema. -/
def pairText (name schema : String) : List Char :=
  ["\x7b\"openapi\":\"3.0.0\",", "\"info\":\x7b\"title\":\"T\",\"version\":\"1\"\x7d,",
    "\"paths\":\x7b\x7d,\"components\":", "\x7b\"schemas\":\x7b", name, ":", schema,
    "\x7d\x7d\x7d"].flatMap String.toList

/-- Two documents, the first of which refers to the second one. -/
def pairTexts : List Char × List Char :=
  (pairText "\"A\"" "\x7b\"items\":\x7b\"$ref\":\"b.json#/components/schemas/B\"\x7d\x7d",
    pairText "\"B\"" "\x7b\"type\":\"string\"\x7d")

/-- A world with these two documents. -/
def pairWorld : World where
  workingDirectory := ⟨1, []⟩
  files := [(Path.read "/a.json", .ofText (String.ofList pairTexts.1)),
    (Path.read "/b.json", .ofText (String.ofList pairTexts.2))]
  reply := fun _ _ => (.int 0, .lost "ConnectError")
  followsRedirects := true

/-- Whether characters are those of a value of JSON that meets a condition. -/
def readsAs (condition : Value → Bool) (chars : List Char) : Bool :=
  match (Json.value (2 * chars.length + 2) (Json.skipSpace chars)).bind fun read =>
      if (Json.skipSpace read.2).isEmpty then .ok read.1 else .error .malformedJson with
  | .ok raw => condition raw
  | .error _ => false

theorem parse_of_readsAs {condition : Value → Bool} {chars : List Char}
    (h : readsAs condition chars = true) :
    ∃ raw, Json.parse (String.ofList chars) = .ok raw ∧ condition raw = true := by
  rw [Json.parse_ofList]
  unfold readsAs at h
  split at h
  · rename_i raw hraw
    exact ⟨raw, hraw, h⟩
  · cases h

theorem isPlace_pair : Location.IsPlace "/a.json" ∧ Location.IsPlace "/b.json" :=
  ⟨⟨by decide, by decide, by decide⟩, ⟨by decide, by decide, by decide⟩⟩

theorem resolve_pair : pairWorld.resolve (Path.read "/a.json") = Path.read "/a.json" ∧
    pairWorld.resolve (Path.read "/b.json") = Path.read "/b.json" := by
  decide

/-- Whether a value is a valid document without anything to point out. -/
def isAccepted (raw : Value) : Bool := (Document.validate raw).toOption.any (·.isEmpty)

theorem validate_of_isAccepted {raw : Value} (h : isAccepted raw = true) :
    Document.validate raw = .ok [] := by
  unfold isAccepted at h
  cases hvalid : Document.validate raw with
  | ok paths =>
      rw [hvalid] at h
      rw [List.isEmpty_iff.mp (show paths.isEmpty = true from h)]
  | error violation =>
      rw [hvalid] at h
      cases h

set_option maxRecDepth 4000 in
theorem accepted_pair : readsAs isAccepted (Document.unifyLines pairTexts.2) = true := by
  decide +kernel

/-- The second document of the pair is given to references from outside. -/
theorem given_of_load_pair : ∃ (d : Document) (s t : Session),
    Document.load "/b.json" pairWorld s = (.ok d, t) ∧
      (External.load "/b.json" pairWorld s).1 = .ok d.raw := by
  obtain ⟨raw, hparse, haccepted⟩ := parse_of_readsAs accepted_pair
  have hvalid := validate_of_isAccepted haccepted
  have hread : pairWorld.read (Path.read "/b.json") = _ := World.read_ofText rfl
  have hstart : (Session.start {} (.int 0, .int 0) 1).KeptRight pairWorld :=
    fun _ _ hentry => absurd hentry List.not_mem_nil
  have hkeep : (Session.start {} (.int 0, .int 0) 1).externalSettings.CanKeep :=
    fun _ => ⟨⟨_, rfl, rfl⟩, _, rfl⟩
  obtain ⟨t, hload⟩ := Document.load_json isPlace_pair.2 resolve_pair.2 (by decide) (by decide) hread
    hparse hvalid (Session.start {} (.int 0, .int 0) 1)
  obtain ⟨text, -, -, hgiven⟩ := Document.given_of_load isPlace_pair.2 resolve_pair.2 hload hstart hkeep
  refine ⟨_, _, t, hload, hgiven fun hyaml => ?_⟩
  exact absurd hyaml (by decide)

end SchemaGraph
