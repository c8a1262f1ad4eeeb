import SchemaGraph.Proofs.Schema.Rebased

/-!
# A schema seen from outside

A schema that is read with the location of its document as base is the one that is read without a base,
with every target made absolute: that of every reference and of every discriminator, however deep it
lies.  Nothing else depends on the base, and no base that is a file path makes reading fail.
-/

namespace SchemaGraph

/-- Steps that go along with a change of their results make one step that does. -/
theorem bind_eq_map {ε α β γ δ : Type} {f : α → γ} {g : β → δ} {first : Except ε α}
    {first' : Except ε γ} {next : α → Except ε β} {next' : γ → Except ε δ}
    (hfirst : first' = first.map f) (hnext : ∀ a, next' (f a) = (next a).map g) :
    (first' >>= next') = (first >>= next).map g := by
  subst hfirst
  cases first with
  | ok a => exact hnext a
  | error e => rfl

namespace Location

variable {base : String} (hbase : isUrl base = false)
include hbase

/-- Joining to a file path never fails. -/
theorem join_of_path (location : String) : ∃ l, join base location = .ok l := by
  unfold join
  dsimp only
  rw [if_neg (show ¬isUrl base = true by simp [hbase])]
  split
  · exact ⟨_, rfl⟩
  · split
    · exact ⟨_, rfl⟩
    · split
      · exact ⟨_, rfl⟩
      · exact ⟨_, rfl⟩

theorem rebase_of_path (x : String) : rebase base x = .ok (absolute base x) := by
  have hrebase : ∃ l, rebase base x = .ok l := by
    unfold rebase
    split
    · exact ⟨x, rfl⟩
    · cases Pieces.splitFirst '#' x.toList with
      | mk location fragment =>
          obtain ⟨l, hl⟩ := join_of_path hbase (String.ofList location)
          cases fragment with
          | none => exact ⟨l, hl⟩
          | some fragment =>
              dsimp only
              rw [hl]
              exact ⟨_, rfl⟩
  obtain ⟨l, hl⟩ := hrebase
  unfold absolute
  rw [hl]

end Location

namespace Node

mutual

/-- The schema with the targets of all its references and discriminators changed. -/
def mapTargets (change : Value → Value) : Node → Node
  | .bare info => .bare info
  | .ref info target => .ref info (change target)
  | .primitive info shape => .primitive info shape
  | .array info shape => .array info (mapTargetsArray change shape)
  | .object info shape => .object info (mapTargetsObject change shape)
  | .composition info shape => .composition info (mapTargetsComposition change shape)

/-- The parts of an array with all targets changed. -/
def mapTargetsArray (change : Value → Value) : ArrayShape Node → ArrayShape Node
  | ⟨items, minItems, maxItems, uniqueItems, nullable⟩ =>
    ⟨mapTargetsItems change items, minItems, maxItems, uniqueItems, nullable⟩

/-- The parts of an object with all targets changed. -/
def mapTargetsObject (change : Value → Value) : ObjectShape Node → ObjectShape Node
  | ⟨properties, required, additional, nullable, discriminator, oneOf, anyOf⟩ =>
    ⟨mapTargetsNamed change properties, required, mapTargetsAdditional change additional, nullable,
      discriminator.map (·.retargeted change), mapTargetsVariants change oneOf,
      mapTargetsVariants change anyOf⟩

/-- The parts of a composition with all targets changed; the members as they were written stay. -/
def mapTargetsComposition (change : Value → Value) :
    CompositionShape Node → CompositionShape Node
  | ⟨kind, rawMembers, members, discriminator, properties, required⟩ =>
    ⟨kind, rawMembers, mapTargetsEach change members, discriminator.map (·.retargeted change),
      mapTargetsNamed change properties, required⟩

/-- The schema of the items of an array with all targets changed. -/
def mapTargetsItems (change : Value → Value) : Option Node → Option Node
  | none => none
  | some item => some (mapTargets change item)

/-- What an object says of other properties, with all targets changed. -/
def mapTargetsAdditional (change : Value → Value) : Additional Node → Additional Node
  | .value v => .value v
  | .schema node => .schema (mapTargets change node)

/-- The schemas of named properties with all targets changed. -/
def mapTargetsNamed (change : Value → Value) : List (Value × Node) → List (Value × Node)
  | [] => []
  | (name, node) :: rest => (name, mapTargets change node) :: mapTargetsNamed change rest

/-- A list of schemas with all targets changed. -/
def mapTargetsEach (change : Value → Value) : List Node → List Node
  | [] => []
  | node :: rest => mapTargets change node :: mapTargetsEach change rest

/-- Variants with all targets changed. -/
def mapTargetsVariants (change : Value → Value) : List (Variant Node) → List (Variant Node)
  | [] => []
  | ⟨name, schema⟩ :: rest => ⟨name, mapTargets change schema⟩ :: mapTargetsVariants change rest

end

section Reading

/-- Whether a second reading gives what a first one does, with all targets changed. -/
def ReadsChanged (change : Value → Value) (read read' : Value → String → Except Failure Node) :
    Prop :=
  ∀ v path, read' v path = (read v path).map (mapTargets change)

variable {change : Value → Value} {read read' : Value → String → Except Failure Node}
  (hread : ReadsChanged change read read')

section Members

include hread

theorem parseEach_changed (path : String) (index : Nat) (items : List Value) :
    parseEach read' path index items =
      (parseEach read path index items).map (mapTargetsEach change) := by
  induction items generalizing index with
  | nil => rfl
  | cons item rest ih =>
      rw [parseEach, parseEach]
      apply bind_eq_map (hread item _)
      intro node
      apply bind_eq_map (ih (index + 1))
      intro others
      simp [mapTargetsEach, pure, Except.pure, Except.map]

theorem parseNamed_changed (path : String) (named : List (Value × Value)) :
    parseNamed read' path named = (parseNamed read path named).map (mapTargetsNamed change) := by
  induction named with
  | nil => rfl
  | cons entry rest ih =>
      obtain ⟨name, item⟩ := entry
      rw [parseNamed, parseNamed]
      apply bind_eq_map (hread item _)
      intro node
      apply bind_eq_map ih
      intro others
      simp [mapTargetsNamed, pure, Except.pure, Except.map]

theorem parseProperties_changed (path : String) (entries : Table Value) :
    parseProperties read' path entries =
      (parseProperties read path entries).map (mapTargetsNamed change) := by
  unfold parseProperties
  dsimp only
  split
  · rfl
  · cases field entries "properties" with
    | map named => exact parseNamed_changed hread path named
    | _ => rfl

theorem parseMembers_changed (path : String) (raw : Value) :
    parseMembers read' path raw = (parseMembers read path raw).map (mapTargetsEach change) := by
  cases raw with
  | list items => exact parseEach_changed hread path 0 items
  | _ => rfl

theorem parseItems_changed (path : String) (raw : Value) :
    parseItems read' path raw = (parseItems read path raw).map (mapTargetsItems change) := by
  cases raw with
  | null => rfl
  | _ =>
      apply bind_eq_map (hread _ _)
      intro node
      rfl

theorem parseAdditional_changed (path : String) (raw : Value) :
    parseAdditional read' path raw =
      (parseAdditional read path raw).map (mapTargetsAdditional change) := by
  cases raw with
  | map fields =>
      apply bind_eq_map (hread _ _)
      intro node
      rfl
  | _ => rfl

theorem parseArray_changed (path : String) (info : NodeInfo) (nullable : Bool)
    (entries : Table Value) :
    parseArray read' path info nullable entries =
      (parseArray read path info nullable entries).map (mapTargets change) := by
  unfold parseArray
  apply bind_eq_map (parseItems_changed hread path _)
  intro items
  simp [mapTargets, mapTargetsArray, pure, Except.pure, Except.map]

end Members

theorem parsePrimitive_changed (info : NodeInfo) (typeName : Value) (nullable : Bool)
    (entries : Table Value) :
    parsePrimitive info typeName nullable entries =
      (parsePrimitive info typeName nullable entries).map (mapTargets change) := by
  cases hparsed : parsePrimitive info typeName nullable entries with
  | error failure => rfl
  | ok n =>
      obtain ⟨declared, choices, -, -, rfl⟩ := parsePrimitive_eq_ok.mp hparsed
      simp [mapTargets, Except.map]

variable {base base' : String} (hrebase : ∀ v, rebaseValue base' v = (rebaseValue base v).map change)
include hrebase

theorem rebaseTargets_changed (targets : List (Value × Value)) :
    rebaseTargets base' targets = (rebaseTargets base targets).map (Table.mapItems change) := by
  induction targets with
  | nil => rfl
  | cons entry rest ih =>
      obtain ⟨name, target⟩ := entry
      rw [rebaseTargets, rebaseTargets]
      apply bind_eq_map (hrebase target)
      intro rebased
      apply bind_eq_map ih
      intro others
      rfl

theorem discriminator_changed (entries : Table Value) :
    discriminator base' entries =
      (discriminator base entries).map (Option.map (·.retargeted change)) := by
  unfold discriminator
  cases field entries "discriminator" with
  | map fields =>
      dsimp only
      split
      · rfl
      · split
        · rfl
        · cases field fields "mapping" with
          | map targets =>
              apply bind_eq_map (rebaseTargets_changed hrebase targets)
              intro table
              rfl
          | _ => rfl
  | _ => rfl

include hread

theorem parseComposition_changed (path : String) (info : NodeInfo) (kind : CompositionKind)
    (entries : Table Value) :
    parseComposition read' base' path info kind entries =
      (parseComposition read base path info kind entries).map (mapTargets change) := by
  unfold parseComposition
  apply bind_eq_map (parseMembers_changed hread _ _)
  intro members
  apply bind_eq_map (discriminator_changed hrebase entries)
  intro d
  apply bind_eq_map (parseProperties_changed hread path entries)
  intro properties
  apply bind_eq_map (f := id) (by cases requiredNames entries <;> rfl)
  intro required
  simp [mapTargets, mapTargetsComposition, pure, Except.pure, Except.map]

theorem parseObject_changed (path : String) (info : NodeInfo) (nullable : Bool)
    (entries : Table Value) :
    parseObject read' base' path info nullable entries =
      (parseObject read base path info nullable entries).map (mapTargets change) := by
  unfold parseObject
  apply bind_eq_map (parseAdditional_changed hread path _)
  intro additional
  apply bind_eq_map (parseProperties_changed hread path entries)
  intro properties
  apply bind_eq_map (f := id) (by cases requiredNames entries <;> rfl)
  intro required
  apply bind_eq_map (discriminator_changed hrebase entries)
  intro d
  simp [mapTargets, mapTargetsObject, mapTargetsVariants, pure, Except.pure, Except.map]

/-- Which kind of schema is read does not depend on the base, and its parts go along with a change. -/
theorem parseEntries_changed (path : String) (entries : Table Value) :
    parseEntries read' base' path entries =
      (parseEntries read base path entries).map (mapTargets change) := by
  unfold parseEntries
  apply bind_eq_map (f := id) (by cases metadata entries <;> rfl)
  intro table
  dsimp only [id]
  split
  · apply bind_eq_map (hrebase _)
    intro target
    simp [mapTargets, pure, Except.pure, Except.map]
  · split
    · exact parseComposition_changed hread hrebase path _ _ entries
    · split
      · exact parseArray_changed hread path _ _ entries
      · split
        · exact parseObject_changed hread hrebase path _ _ entries
        · exact parsePrimitive_changed _ _ _ entries

omit hread

theorem parseWithin_changed (levels : Nat) :
    ReadsChanged change (parseWithin base levels) (parseWithin base' levels) := by
  induction levels with
  | zero =>
      intro v path
      rfl
  | succ levels ih =>
      intro v path
      cases v with
      | map entries => exact parseEntries_changed ih hrebase path entries
      | _ => rfl

end Reading

variable {base : String} (hbase : Location.isUrl base = false)
include hbase

theorem rebaseValue_of_path (v : Value) : rebaseValue base v = .ok (absoluteTarget base v) := by
  cases v with
  | str x =>
      rw [rebaseValue, Location.rebase_of_path hbase x]
      rfl
  | _ => rfl

/-- A schema that is read with a file path as base is the one that is read without a base, with each
target of a reference or of a discriminator replaced by what rebasing it gives. -/
theorem parse_seen (v : Value) (path : String) :
    (∀ target, rebaseValue base target = .ok (absoluteTarget base target)) ∧
      parse base v path = (parse "" v path).map (mapTargets (absoluteTarget base)) := by
  refine ⟨rebaseValue_of_path hbase, ?_⟩
  apply parseWithin_changed
  intro target
  rw [rebaseValue_local, rebaseValue_of_path hbase]
  rfl

omit hbase

/-- The members and the discriminator of a `oneOf` are both seen from outside. -/
theorem parse_seen_oneOf :
    Location.isUrl "specs/common.yaml" = false ∧
      parse "specs/common.yaml" (.record
        [("oneOf", .list [.record [("$ref", .str "cats.yaml#/components/schemas/Cat")]]),
          ("discriminator", .record [("propertyName", .str "kind"),
            ("mapping", .record [("dog", .str "#/components/schemas/Dog")])])]) "#" =
        .ok (.composition ⟨"#", [], .null, .null⟩
          ⟨.oneOf, .list [.record [("$ref", .str "cats.yaml#/components/schemas/Cat")]],
            [.ref ⟨"#/oneOf/0", [], .null, .null⟩ (.str "specs/cats.yaml#/components/schemas/Cat")],
            some ⟨.str "kind",
              [(.str "dog", .str "specs/common.yaml#/components/schemas/Dog")]⟩, [], []⟩) := by
  have hbase : Location.isUrl "specs/common.yaml" = false := by decide
  exact ⟨hbase, (parse_seen hbase _ _).2.trans rfl⟩

end Node

end SchemaGraph
