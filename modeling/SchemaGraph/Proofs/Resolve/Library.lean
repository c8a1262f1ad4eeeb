import SchemaGraph.Proofs.Document.Loaded
import SchemaGraph.Proofs.Resolve.Unguarded
import SchemaGraph.Proofs.Schema.Rebased
import SchemaGraph.Proofs.Schema.References

/-!
# Libraries of documents

A library is a set of file paths whose documents refer only to documents of the library.  From every
one of its documents a schema of the library is found under the same reference, once references are
made absolute; and what is found is the same, once its targets are made absolute.
-/

namespace SchemaGraph

open Node

/-- Whether a reference of the document at `base`, if it is well formed, names a document at one of
some file paths. -/
def Reference.Names (files : Set String) (base x : String) : Prop :=
  ∀ parsed, Reference.read? x = some parsed →
    ∃ l ∈ files, Location.join base parsed.location = .ok l

/-- A set of places, each its own absolute form, whose documents refer only to documents at places of
the set. -/
structure World.Library (w : World) (files : Set String) : Prop where
  place : ∀ l ∈ files, Location.IsPlace l
  resolved : ∀ l ∈ files, w.resolve (Path.read l) = Path.read l
  closed : ∀ l ∈ files, ∀ raw, w.documentAt? l = some raw →
    ∀ x ∈ raw.references, Reference.Names files l x

/-- A value whose schemas are in a mapping, if it declares any. -/
def Value.DeclaresTable (raw : Value) : Prop :=
  ∀ v, (raw.at? "components").bind (·.at? "schemas") = some v → v = .null ∨ ∃ table, v = .map table

/-- A document that stands at its place, and whose schemas are in a mapping, if it declares any. -/
structure Document.Stands (w : World) (d : Document) : Prop where
  place : Location.IsPlace d.source
  raw : w.documentAt? d.source = some d.raw
  table : d.raw.DeclaresTable

namespace Node

theorem membersFollow_eq (members : List Node) :
    membersFollow members = members.flatMap follows := by
  induction members with
  | nil => rfl
  | cons member rest ih => rw [membersFollow, ih, List.flatMap_cons]

/-- A schema with changed targets leads to the changed targets. -/
theorem follows_retargeted {change : Value → Value} (n : Node) :
    (n.retargeted change).follows = n.follows.map change := by
  induction n using nested with
  | hleaf n hn =>
      have hleaf : (n.retargeted change).isLeaf = true := by rw [isLeaf_retargeted, hn]
      rw [follows_leaf hleaf, follows_leaf hn, List.map_nil]
  | href info target => rfl
  | hcomposition info shape ih =>
      obtain ⟨kind, rawMembers, members, discriminator, properties, required⟩ := shape
      change ∀ member ∈ members, _ at ih
      rw [retargeted, retargetedComposition, follows, follows, retargetedEach_eq, membersFollow_eq,
        membersFollow_eq, List.map_flatMap, List.flatMap_map]
      exact List.flatMap_congr ih

theorem absoluteTarget_eq_str {base x : String} {target : Value}
    (h : absoluteTarget base target = .str x) :
    ∃ y, target = .str y ∧ Location.absolute base y = x := by
  cases target with
  | str y => exact ⟨y, rfl, Value.str.inj h⟩
  | _ => cases h

/-- Making targets absolute keeps what they name. -/
theorem namesKept_absolute {base base' : String} (hbase : Location.IsPlace base)
    (hbase' : Location.IsPlace base') :
    NamesKept Reference.IsGiven (absoluteTarget base) (absoluteTarget base') where
  skeleton := fun v => by cases v <;> rfl
  skeleton' := fun v => by cases v <;> rfl
  name := by
    rintro target target' ⟨x, hx⟩ hsame
    obtain rfl := Reference.eq_of_given hx
    obtain ⟨x', rfl, habsolute⟩ := absoluteTarget_eq_str hsame.symm
    obtain ⟨parsed, hread⟩ := Option.isSome_iff_exists.mp (Reference.given_eq_ok.mp hx)
    obtain ⟨-, -, -, -, hname⟩ :=
      Reference.read_of_absolute_eq hbase hbase' habsolute.symm hread
    exact Or.inl ⟨x, x', rfl, rfl, hname⟩

end Node

section Absolute

variable {files : Set String} {base base' : String} (hbase : Location.IsPlace base)
  (hbase' : Location.IsPlace base') {x x' : String}
  (h : Location.absolute base x = Location.absolute base' x')
include hbase hbase' h

/-- References that are equal once they were made absolute name the same documents. -/
theorem Reference.Names.of_absolute_eq (hnames : Names files base' x') : Names files base x := by
  intro parsed hread
  obtain ⟨location, hread', hjoin, -, -⟩ := read_of_absolute_eq hbase hbase' h hread
  obtain ⟨l, hl, heq⟩ := hnames _ hread'
  exact ⟨l, hl, hjoin.trans heq⟩

theorem Reference.given_of_absolute_eq (hgiven : given (.str x) = .ok x) :
    given (.str x') = .ok x' := by
  obtain ⟨parsed, hread⟩ := Option.isSome_iff_exists.mp (given_eq_ok.mp hgiven)
  obtain ⟨location, hread', -, -, -⟩ := read_of_absolute_eq hbase hbase' h hread
  exact given_eq_ok.mpr (Option.isSome_iff_exists.mpr ⟨_, hread'⟩)

end Absolute

section Finding

variable {w : World} {files : Set String} {d : Document}

theorem World.documentAt_eq_map {l : String} {raw : Value} (h : w.documentAt? l = some raw) :
    ∃ entries, raw = .map entries := by
  have hdefect : External.defect? l raw = none := by
    unfold documentAt? at h
    split at h
    · cases h
    · split at h
      · cases h
      · split at h
        · cases h
        · rename_i hnone
          rw [← Option.some.inj h]
          simpa using hnone
  cases raw with
  | map entries => exact ⟨entries, rfl⟩
  | _ => cases hdefect

namespace External

theorem schemasOf_eq (raw : Value) : schemasOf raw =
    (((raw.at? "components").bind (·.at? "schemas")).getD .null).orElse (.map []) := by
  unfold schemasOf
  cases raw.at? "components" with
  | none => rfl
  | some components => rfl

theorem references_schemasOf (raw : Value) : (schemasOf raw).references ⊆ raw.references :=
  (Value.inherited_references _).schemasOf (List.Subset.refl _)

end External

/-- The registry of a document holds what other documents find in it. -/
theorem Document.Stands.registry (hd : d.Stands w) :
    ∃ table, d.registry = .ok table ∧ External.schemasOf d.raw = .map table := by
  obtain ⟨entries, hentries⟩ := World.documentAt_eq_map hd.raw
  have htable := hd.table
  unfold Value.DeclaresTable at htable
  rw [External.schemasOf_eq]
  unfold Document.registry
  rw [hentries] at htable ⊢
  refine ⟨_, rfl, ?_⟩
  unfold tableAt
  change ∀ v, Option.bind (Table.at? entries "components") _ = some v → _ at htable
  change Value.orElse (Option.getD (Option.bind (Table.at? entries "components") _) _) _ = _
  cases hcomponents : Table.at? entries "components" with
  | none => rfl
  | some components =>
      rw [hcomponents, Option.bind_some] at htable
      rw [Option.bind_some]
      cases components with
      | map inner =>
          change ∀ v, Table.at? inner "schemas" = some v → _ at htable
          change Value.orElse (Option.getD (Table.at? inner "schemas") _) _ = _
          dsimp only
          cases hschemas : Table.at? inner "schemas" with
          | none => rfl
          | some v =>
              obtain rfl | ⟨table, rfl⟩ := htable v hschemas
              · rfl
              · cases table with
                | nil => rfl
                | cons entry rest => rfl
      | _ => rfl

/-- What a reference of a document finds is read from the value that it names. -/
theorem Document.Stands.find_eq (hd : d.Stands w) {x location : String} {parsed : Reference}
    (hread : Reference.read? x = some parsed)
    (hjoin : Location.join d.source parsed.location = .ok location) :
    ∃ base path, ReadFor d.source location base ∧ ∀ n, d.find w x = .ok n ↔
      ∃ v, w.valueAt? location parsed.segments = some v ∧ Node.parse base v path = .ok n := by
  unfold Document.find
  rw [hread]
  dsimp only
  rw [hjoin]
  dsimp only
  -- a document reads its own schemas without a base, those of others at their location
  by_cases hsame : location = d.source
  · refine ⟨"", x, Or.inl ⟨rfl, hsame.symm⟩, fun n => ?_⟩
    obtain ⟨table, hregistry, hschemas⟩ := hd.registry
    have hvalue : w.valueAt? location parsed.segments =
        (Pointer.walk (.map table) parsed.segments).toOption := by
      unfold World.valueAt?
      rw [hsame, hd.raw, Option.bind_some, hschemas]
    unfold Document.localTarget
    rw [if_pos hsame, hvalue, hregistry]
    dsimp only [orFail, bind, Except.bind]
    cases Pointer.walk (.map table) parsed.segments with
    | ok v => exact ⟨fun h => ⟨v, rfl, h⟩, fun ⟨_, heq, h⟩ => Option.some.inj heq ▸ h⟩
    | error fault =>
        refine iff_of_false (fun h => ?_) fun ⟨_, heq, _⟩ => nomatch heq
        cases fault <;> cases h
  · refine ⟨location, s!"{location}#{Reference.fragment x}", Or.inr rfl, fun n => ?_⟩
    rw [if_neg hsame]
    unfold World.schemaAt?
    cases w.valueAt? location parsed.segments with
    | none => exact iff_of_false (fun h => nomatch h) fun ⟨_, heq, _⟩ => nomatch heq
    | some v =>
        rw [Option.bind_some]
        cases hparse : Node.parse location v s!"{location}#{Reference.fragment x}" with
        | ok m => exact ⟨fun h => ⟨v, rfl, hparse.trans h⟩, fun ⟨_, heq, h⟩ =>
            hparse.symm.trans (Option.some.inj heq ▸ h)⟩
        | error failure =>
            refine iff_of_false (fun h => nomatch h) ?_
            rintro ⟨_, heq, h⟩
            rw [← Option.some.inj heq, hparse] at h
            cases h

theorem Document.read_of_find {x : String} {n : Node} (h : d.find w x = .ok n) :
    ∃ parsed, Reference.read? x = some parsed := by
  unfold find at h
  cases hread : Reference.read? x with
  | some parsed => exact ⟨parsed, rfl⟩
  | none =>
      rw [hread] at h
      cases h

variable (hlibrary : w.Library files)
include hlibrary

/-- In a library all references that can be met name its documents. -/
theorem names_of_eager (hd : d.Stands w) {x y : String}
    (hx : Reference.Names files d.source x) (h : Eager (d.find w) x y) :
    Reference.Names files d.source y := by
  obtain ⟨n, hn, hy⟩ := h
  obtain ⟨parsed, hread⟩ := Document.read_of_find hn
  obtain ⟨l, hl, hjoin⟩ := hx parsed hread
  obtain ⟨base, path, hfor, hfind⟩ := hd.find_eq hread hjoin
  obtain ⟨v, hv, hparse⟩ := (hfind n).mp hn
  have hplace := hlibrary.place l hl
  -- the schema as it is written where it stands
  obtain ⟨n', hparse', hsame⟩ := (parse_absolute hd.place hplace hplace hfor
    (Or.inl ⟨rfl, rfl⟩) v path path).exists_ok hparse
  have hin := List.mem_map_of_mem (f := absoluteTarget d.source) hy
  rw [← follows_retargeted, hsame, follows_retargeted] at hin
  obtain ⟨target, htarget, heq⟩ := List.mem_map.mp hin
  obtain ⟨y', rfl, habsolute⟩ := absoluteTarget_eq_str heq
  refine Reference.Names.of_absolute_eq hd.place hplace habsolute.symm ?_
  obtain ⟨raw, hraw, hwalk⟩ := Option.bind_eq_some_iff.mp hv
  refine hlibrary.closed l hl raw hraw y' (External.references_schemasOf raw ?_)
  exact Value.references_walk (toOption_eq_some.mp hwalk) (follows_parse hparse' htarget)

/-- Two documents of a library find the same schemas, however they spell the references. -/
theorem respells {home other : Document} (hhome : home.Stands w) (hother : other.Stands w) :
    Respells (absoluteTarget home.source) (absoluteTarget other.source)
      (Reference.Names files home.source) (home.find w) (other.find w) where
  names := namesKept_absolute hhome.place hother.place
  eager := fun hx h => names_of_eager hlibrary hhome hx h
  given := fun hsame hgiven =>
    Reference.given_of_absolute_eq hhome.place hother.place (Value.str.inj hsame) hgiven
  found := by
    intro x x' n hx hsame hn
    obtain ⟨parsed, hread⟩ := Document.read_of_find hn
    obtain ⟨location', hread', hjoin', -, -⟩ :=
      Reference.read_of_absolute_eq hhome.place hother.place (Value.str.inj hsame) hread
    obtain ⟨l, hl, hjoin⟩ := hx parsed hread
    obtain ⟨base, path, hfor, hfind⟩ := hhome.find_eq hread hjoin
    obtain ⟨base', path', hfor', hfind'⟩ := hother.find_eq hread' (hjoin'.symm.trans hjoin)
    obtain ⟨v, hv, hparse⟩ := (hfind n).mp hn
    obtain ⟨n', hparse', heq⟩ := (parse_absolute hhome.place (hlibrary.place l hl) hother.place hfor
      hfor' v path path').exists_ok hparse
    exact ⟨n', (hfind' n').mpr ⟨v, hv, hparse'⟩, heq⟩

end Finding

end SchemaGraph
