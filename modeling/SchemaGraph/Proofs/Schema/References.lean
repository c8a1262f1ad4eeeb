import SchemaGraph.Resolve
import SchemaGraph.Proofs.Schema.Read
import SchemaGraph.Proofs.Resolve.Settled

/-!
# The references of a value

A schema that is read from a value leads only to references that are written in it, and following a
pointer or taking the registry of a document adds none.  So all references that resolving can meet
in a document are among those that are written in it.
-/

namespace SchemaGraph

namespace Value

/-- The text that an entry gives as a reference. -/
def entryReference (entry : Value × Value) : List String :=
  match entry.2 with
  | .str text => if entry.1.isText "$ref" then [text] else []
  | _ => []

mutual

/-- The texts that stand as references in a value. -/
def references : Value → List String
  | .list items => itemsReferences items
  | .map entries => entriesReferences entries
  | _ => []

/-- The texts that stand as references in a list of values. -/
def itemsReferences : List Value → List String
  | [] => []
  | item :: rest => references item ++ itemsReferences rest

/-- The texts that stand as references in the entries of a mapping. -/
def entriesReferences : List (Value × Value) → List String
  | [] => []
  | (key, item) :: rest =>
    entryReference (key, item) ++ references item ++ entriesReferences rest

end

theorem mem_itemsReferences {items : List Value} {x : String} :
    x ∈ itemsReferences items ↔ ∃ item ∈ items, x ∈ item.references := by
  induction items with
  | nil => simp [itemsReferences]
  | cons item rest ih => simp [itemsReferences, ih]

theorem mem_entriesReferences {entries : List (Value × Value)} {x : String} :
    x ∈ entriesReferences entries ↔
      ∃ entry ∈ entries, x ∈ entryReference entry ∨ x ∈ entry.2.references := by
  induction entries with
  | nil => simp [entriesReferences]
  | cons entry rest ih =>
      obtain ⟨key, item⟩ := entry
      rw [entriesReferences, List.mem_append, List.mem_append, ih]
      simp

theorem length_entryReference (entry : Value × Value) :
    (entryReference entry).length ≤ if entry.1.isText "$ref" then 1 else 0 := by
  unfold entryReference
  split
  · split
    · exact Nat.le_refl _
    · exact Nat.le_refl _
  · exact Nat.zero_le _

mutual

/-- There are not more references than are counted. -/
theorem length_references : ∀ v : Value, v.references.length ≤ v.referenceCount
  | .list items => by
      rw [references, referenceCount]
      exact length_itemsReferences items
  | .map entries => by
      rw [references, referenceCount]
      exact length_entriesReferences entries
  | .null | .bool _ | .int _ | .double _ | .str _ | .date _ | .moment _ | .bytes _ | .set _ => by
      simp [references]

theorem length_itemsReferences : ∀ items : List Value,
    (itemsReferences items).length ≤ itemReferences items
  | [] => by simp [itemsReferences]
  | item :: rest => by
      have hitem := length_references item
      have hrest := length_itemsReferences rest
      rw [itemsReferences, itemReferences, List.length_append]
      omega

theorem length_entriesReferences : ∀ entries : List (Value × Value),
    (entriesReferences entries).length ≤ entryReferences entries
  | [] => by simp [entriesReferences]
  | (key, item) :: rest => by
      have hitem := length_references item
      have hrest := length_entriesReferences rest
      have hown := length_entryReference (key, item)
      dsimp only at hown
      rw [entriesReferences, entryReferences, List.length_append, List.length_append]
      omega

end

theorem mem_of_at {α : Type} {table : Table α} {key : String} {item : α}
    (h : Table.at? table key = some item) : ∃ entry ∈ table, entry.1.isText key = true ∧
      entry.2 = item := by
  unfold Table.at? at h
  obtain ⟨entry, hfound, heq⟩ := Option.map_eq_some_iff.mp h
  exact ⟨entry, List.mem_of_find?_eq_some hfound,
    by simpa using List.find?_some hfound, heq⟩

theorem references_at {entries : List (Value × Value)} {key : String} {item : Value}
    (h : Table.at? entries key = some item) : item.references ⊆ entriesReferences entries := by
  obtain ⟨entry, hentry, -, rfl⟩ := mem_of_at h
  exact fun x hx => mem_entriesReferences.mpr ⟨entry, hentry, Or.inr hx⟩

theorem inherited_references (known : List String) :
    Inherited fun v => v.references ⊆ known where
  entry := fun h hat => List.Subset.trans (references_at hat) h
  item := fun h hitem => List.Subset.trans
    (fun _ hx => mem_itemsReferences.mpr ⟨_, hitem, hx⟩) h
  null := List.nil_subset _
  blank := List.nil_subset _

theorem references_field (entries : Table Value) (key : String) :
    (Node.field entries key).references ⊆ entriesReferences entries :=
  (inherited_references _).field (List.Subset.refl _) key

theorem references_walk {v w : Value} {segments : List String}
    (h : Pointer.walk v segments = .ok w) : w.references ⊆ v.references :=
  (inherited_references _).walk (List.Subset.refl _) h

end Value

namespace Node

open Value

section Following

variable {read : Value → String → Except Failure Node}

theorem follows_leaf {n : Node} (h : n.isLeaf = true) : n.follows = [] := by
  cases n with
  | ref info target => exact absurd h (by simp [isLeaf])
  | composition info shape => exact absurd h (by simp [isLeaf])
  | _ => rfl

/-- Whether a reference, as seen from outside of the document at `base`, is one of those that are
written in it. -/
def IsRebased (base : String) (written : List String) (x : String) : Prop :=
  ∃ y ∈ written, Location.rebase base y = .ok x

theorem IsRebased.mono {base x : String} {written written' : List String} (h : IsRebased base written x)
    (hsub : written ⊆ written') : IsRebased base written' x := by
  obtain ⟨y, hy, hx⟩ := h
  exact ⟨y, hsub hy, hx⟩

variable {base : String} (hread : ∀ item path n, read item path = .ok n → ∀ x, .str x ∈ n.follows →
  IsRebased base item.references x)
include hread

theorem follows_parseEach {path : String} {index : Nat} {items : List Value} {nodes : List Node}
    (h : parseEach read path index items = .ok nodes) {x : String}
    (hx : .str x ∈ membersFollow nodes) : IsRebased base (itemsReferences items) x := by
  induction items generalizing index nodes with
  | nil =>
      rw [← Except.ok.inj h] at hx
      exact absurd hx (by simp [membersFollow])
  | cons item rest ih =>
      obtain ⟨node, others, hnode, hothers, rfl⟩ := parseEach_cons_eq_ok.mp h
      rw [membersFollow, List.mem_append] at hx
      rw [itemsReferences]
      rcases hx with hx | hx
      · exact (hread item _ node hnode x hx).mono (List.subset_append_left _ _)
      · exact (ih hothers hx).mono (List.subset_append_right _ _)

theorem follows_parseEntries {path : String} {entries : Table Value} {n : Node}
    (h : parseEntries read base path entries = .ok n) {x : String} (hx : .str x ∈ n.follows) :
    IsRebased base (entriesReferences entries) x := by
  obtain ⟨table, -, hparsed⟩ := parseEntries_eq_ok.mp h
  have hleaf : n.isLeaf = true → IsRebased base (entriesReferences entries) x := by
    intro hn
    rw [follows_leaf hn] at hx
    exact absurd hx (by simp)
  -- settling follows a reference and the members of a composition, and nothing else
  cases hparsed with
  | @ref target _ href hrebased =>
      obtain rfl := List.mem_singleton.mp hx
      obtain ⟨y, rfl, hy⟩ := rebaseValue_eq_str hrebased
      obtain ⟨entry, hentry, hkey, hitem⟩ := mem_of_at href
      refine ⟨y, mem_entriesReferences.mpr ⟨entry, hentry, Or.inl ?_⟩, hy⟩
      unfold entryReference
      rw [hkey, hitem]
      exact List.mem_singleton.mpr rfl
  | @composition kind _ _ _ h =>
      obtain ⟨members, d, properties, required, hmembers, -, -, -, rfl⟩ :=
        parseComposition_eq_ok.mp h
      rcases parseMembers_eq_ok.mp hmembers with ⟨items, hfield, hmembers⟩ | ⟨-, rfl⟩
      · have hmember := follows_parseEach hread hmembers hx
        refine hmember.mono (List.Subset.trans ?_ (references_field entries kind.keyword))
        rw [hfield, references]
        exact List.Subset.refl _
      · exact absurd hx (by simp [follows, membersFollow])
  | array _ _ _ h =>
      obtain ⟨items, -, rfl⟩ := parseArray_eq_ok.mp h
      exact hleaf rfl
  | object _ _ _ _ h =>
      obtain ⟨additional, properties, required, d, -, -, -, -, rfl⟩ := parseObject_eq_ok.mp h
      exact hleaf rfl
  | primitive _ _ _ _ h =>
      obtain ⟨declared, choices, -, -, rfl⟩ := parsePrimitive_eq_ok.mp h
      exact hleaf rfl

omit hread

/-- A schema that is read leads only to references that are written in its value, as they are seen from
outside of its document. -/
theorem follows_parse_rebased {path : String} {v : Value} {n : Node} (h : parse base v path = .ok n)
    {x : String} (hx : .str x ∈ n.follows) : IsRebased base v.references x := by
  have hread : ∀ v path n, parseWithin base v.depth v path = .ok n →
      ∀ x, .str x ∈ n.follows → IsRebased base v.references x := fun v =>
    parseWithin_induction base (fun read hread entries path n h x hx =>
      follows_parseEntries hread h hx) v.depth v
  exact hread v path n h x hx

/-- A schema that is read leads only to references that are written in its value. -/
theorem follows_parse {path : String} {v : Value} {n : Node} (h : parse "" v path = .ok n)
    {x : String} (hx : .str x ∈ n.follows) : x ∈ v.references := by
  obtain ⟨y, hy, hrebased⟩ := follows_parse_rebased h hx
  rw [show Location.rebase "" y = .ok y from rfl] at hrebased
  rwa [← Except.ok.inj hrebased]

end Following

section Failing

/-- An outcome that is no reported cycle. -/
def Harmless {α : Type} (result : Except Failure α) : Prop :=
  ∀ failure, result = .error failure → failure.kind ≠ .circularReference

theorem harmless_ok {α : Type} (a : α) : Harmless (.ok a) := fun _ h => nomatch h

theorem harmless_error {α : Type} {failure : Failure} (h : failure.kind ≠ .circularReference) :
    Harmless (.error failure : Except Failure α) := by
  intro other heq
  rw [← Except.error.inj heq]
  exact h

theorem harmless_orFail {α : Type} (result : Except Fault α) : Harmless (orFail result) := by
  cases result with
  | ok a => exact harmless_ok a
  | error fault => exact harmless_error (by simp [Failure.kind])

theorem Harmless.bind {α β : Type} {first : Except Failure α} {next : α → Except Failure β}
    (h : Harmless first) (hnext : ∀ a, Harmless (next a)) : Harmless (first >>= next) := by
  cases first with
  | ok a => exact hnext a
  | error failure => exact harmless_error (h failure rfl)

variable {read : Value → String → Except Failure Node} (hread : ∀ v path, Harmless (read v path))

theorem harmless_metadata : ∀ entries : List (Value × Value), Harmless (metadata entries)
  | [] => harmless_ok _
  | (key, item) :: rest => by
      cases key with
      | str s => exact (harmless_metadata rest).bind fun _ => harmless_ok _
      | _ => exact harmless_error (by simp [Failure.kind])

theorem harmless_rebaseValue (base : String) (v : Value) : Harmless (rebaseValue base v) := by
  cases v with
  | str s => exact (harmless_orFail _).bind fun _ => harmless_ok _
  | _ => exact harmless_ok _

theorem harmless_rebaseTargets (base : String) :
    ∀ targets : List (Value × Value), Harmless (rebaseTargets base targets)
  | [] => harmless_ok _
  | (_, target) :: rest =>
      (harmless_rebaseValue base target).bind fun _ =>
        (harmless_rebaseTargets base rest).bind fun _ => harmless_ok _

theorem harmless_discriminator (base : String) (entries : Table Value) :
    Harmless (discriminator base entries) := by
  unfold discriminator
  split
  · dsimp only
    split
    · exact harmless_ok _
    · split
      · exact harmless_ok _
      · split
        · exact (harmless_rebaseTargets base _).bind fun _ => harmless_ok _
        · exact harmless_error (by simp [Failure.kind])
  · exact harmless_ok _

theorem harmless_requiredNames (entries : Table Value) : Harmless (requiredNames entries) := by
  unfold requiredNames
  dsimp only
  split
  · exact harmless_orFail _
  · exact harmless_ok _

theorem harmless_parsePrimitive (info : NodeInfo) (typeName : Value) (nullable : Bool)
    (entries : Table Value) : Harmless (parsePrimitive info typeName nullable entries) := by
  have htype : Harmless (primitiveType typeName (field entries "enum")) := by
    unfold primitiveType
    split
    · exact (harmless_orFail _).bind fun _ => harmless_ok _
    · exact harmless_ok _
  have hchoices : Harmless (listChoices (field entries "enum")) := by
    unfold listChoices
    split
    · exact harmless_ok _
    · exact (harmless_orFail _).bind fun _ => harmless_ok _
  exact htype.bind fun _ => hchoices.bind fun _ => harmless_ok _

include hread

theorem harmless_parseEach (path : String) (index : Nat) (items : List Value) :
    Harmless (parseEach read path index items) := by
  induction items generalizing index with
  | nil => exact harmless_ok _
  | cons item rest ih => exact (hread item _).bind fun _ => (ih _).bind fun _ => harmless_ok _

theorem harmless_parseNamed (path : String) (named : List (Value × Value)) :
    Harmless (parseNamed read path named) := by
  induction named with
  | nil => exact harmless_ok _
  | cons entry rest ih => exact (hread _ _).bind fun _ => ih.bind fun _ => harmless_ok _

theorem harmless_parseProperties (path : String) (entries : Table Value) :
    Harmless (parseProperties read path entries) := by
  unfold parseProperties
  dsimp only
  split
  · exact harmless_ok _
  · split
    · exact harmless_parseNamed hread path _
    · exact harmless_error (by simp [Failure.kind])

theorem harmless_parseEntries (base path : String) (entries : Table Value) :
    Harmless (parseEntries read base path entries) := by
  refine (harmless_metadata entries).bind fun table => ?_
  dsimp only
  -- the kinds as they are tried: reference, composition, array, object, primitive
  split
  · exact (harmless_rebaseValue base _).bind fun _ => harmless_ok _
  · split
    · rename_i kind hkind
      have hmembers : Harmless (parseMembers read s!"{path}/{kind.keyword}"
          (field entries kind.keyword)) := by
        unfold parseMembers
        split
        · exact harmless_parseEach hread _ 0 _
        · exact harmless_ok _
      exact hmembers.bind fun _ => (harmless_discriminator base entries).bind fun _ =>
        (harmless_parseProperties hread path entries).bind fun _ =>
          (harmless_requiredNames entries).bind fun _ => harmless_ok _
    · split
      · have hitems : Harmless (parseItems read path (field entries "items")) := by
          unfold parseItems
          split
          · exact harmless_ok _
          · exact (hread _ _).bind fun _ => harmless_ok _
        exact hitems.bind fun _ => harmless_ok _
      · split
        · have hadditional : Harmless (parseAdditional read path
              (field entries "additionalProperties")) := by
            unfold parseAdditional
            split
            · exact (hread _ _).bind fun _ => harmless_ok _
            · exact harmless_ok _
          exact hadditional.bind fun _ => (harmless_parseProperties hread path entries).bind fun _ =>
            (harmless_requiredNames entries).bind fun _ =>
              (harmless_discriminator base entries).bind fun _ => harmless_ok _
        · exact harmless_parsePrimitive _ _ _ _

omit hread in
/-- Reading a schema reports no cycle. -/
theorem harmless_parse (base : String) (v : Value) (path : String) :
    Harmless (parse base v path) := by
  have hwithin : ∀ levels v path, Harmless (parseWithin base levels v path) := by
    intro levels
    induction levels with
    | zero => exact fun _ _ => harmless_error (by simp [Failure.kind])
    | succ levels ih =>
        intro v path
        cases v with
        | map entries => exact harmless_parseEntries ih base path entries
        | _ => exact harmless_error (by simp [Failure.kind])
  exact hwithin v.depth v path

end Failing

end Node

end SchemaGraph
