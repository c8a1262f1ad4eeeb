import SchemaGraph.Proofs.Json.SameTree
import SchemaGraph.Proofs.Resolve.Followed
import SchemaGraph.Proofs.Resolve.Sound
import SchemaGraph.Proofs.Schema.Normal

/-!
# Schemas that are written alike

Compositions with one identity need not be alike: an annotation may be a date in one of them and its
text in the other.  But they are of one kind, and their members are written alike one by one: where
one has a reference the other has a reference to the same text, and where one has a composition the
other has one with the same identity.
-/

namespace SchemaGraph

namespace Table

theorem mem_put_other {table : Table Value} {key name : String} (hne : name ≠ key) {item v : Value} :
    (.str name, v) ∈ table.put (.str key) item ↔ (.str name, v) ∈ table := by
  have hdiffer : ∀ w : Value, (Value.str name, v) ≠ (.str key, w) := by
    intro w heq
    exact hne (Value.str.inj (Prod.mk.inj heq).1)
  induction table with
  | nil => simpa [put] using fun heq => absurd heq hne
  | cons first rest ih =>
      obtain ⟨k, old⟩ := first
      rw [put]
      split
      · rename_i hsame
        have hkey : ∀ w : Value, (Value.str name, v) ≠ (k, w) := by
          rintro w heq
          obtain ⟨rfl, rfl⟩ := Prod.mk.inj heq
          exact hne (by simpa [Value.same] using hsame)
        rw [List.mem_cons, List.mem_cons, or_iff_right (hkey _), or_iff_right (hkey _)]
      · exact List.mem_cons.trans ((or_congr_right ih).trans List.mem_cons.symm)

theorem key_of_mem_put {table : Table Value} {key : String} {item : Value}
    (htable : ∀ entry ∈ table, ∃ name, entry.1 = .str name) :
    ∀ entry ∈ table.put (.str key) item, ∃ name, entry.1 = .str name := by
  induction table with
  | nil =>
      intro entry hentry
      rw [List.mem_singleton.mp hentry]
      exact ⟨key, rfl⟩
  | cons first rest ih =>
      obtain ⟨k, old⟩ := first
      have hfirst := htable (k, old) List.mem_cons_self
      have hrest := ih fun entry hentry => htable entry (List.mem_cons_of_mem _ hentry)
      intro entry hentry
      rw [put] at hentry
      split at hentry
      · rcases List.mem_cons.mp hentry with rfl | hin
        · exact hfirst
        · exact htable entry (List.mem_cons_of_mem _ hin)
      · rcases List.mem_cons.mp hentry with rfl | hin
        · exact hfirst
        · exact hrest entry hin

end Table

namespace Node

section Fields

variable {n : Node}

/-- Annotations that may be written leave the fields of a schema as they are. -/
theorem mem_entries (hinfo : n.info.Marked) {name : String} (hname : isMetadataKey name = false)
    {v : Value} : (.str name, v) ∈ n.entries ↔ (.str name, v) ∈ n.titled := by
  unfold entries
  unfold NodeInfo.Marked at hinfo
  generalize n.titled = table
  generalize n.info.metadata = annotations at hinfo ⊢
  induction annotations generalizing table with
  | nil => exact Iff.rfl
  | cons entry rest ih =>
      obtain ⟨key, hkey, hmark⟩ := hinfo entry List.mem_cons_self
      have hne : name ≠ key := by
        rintro rfl
        rw [hname] at hmark
        cases hmark
      rw [Table.putAll_cons, ih _ fun given hgiven => hinfo given (List.mem_cons_of_mem _ hgiven),
        hkey]
      exact Table.mem_put_other hne

theorem exists_name_of_titled {entry : Value × Value} (h : entry ∈ n.titled) :
    ∃ name ∈ n.fieldNames, entry.1 = .str name := by
  obtain ⟨name, hname, heq⟩ :=
    List.mem_map.mp (n.titled_sublist.subset (List.mem_map_of_mem (f := (·.1)) h))
  exact ⟨name, hname, heq.symm⟩

theorem exists_name_of_entries (hinfo : n.info.Marked) :
    ∀ entry ∈ n.entries, ∃ name, entry.1 = .str name := by
  have htitled : ∀ entry ∈ n.titled, ∃ name, entry.1 = .str name := by
    intro entry hentry
    obtain ⟨name, -, heq⟩ := exists_name_of_titled hentry
    exact ⟨name, heq⟩
  unfold entries
  unfold NodeInfo.Marked at hinfo
  generalize n.titled = table at htitled ⊢
  generalize n.info.metadata = annotations at hinfo ⊢
  induction annotations generalizing table with
  | nil => exact htitled
  | cons entry rest ih =>
      obtain ⟨key, hkey, -⟩ := hinfo entry List.mem_cons_self
      rw [Table.putAll_cons]
      refine ih _ ?_ fun given hgiven => hinfo given (List.mem_cons_of_mem _ hgiven)
      rw [hkey]
      exact Table.key_of_mem_put htitled

/-- Only references and compositions have fields of these names. -/
theorem notMem_fieldNames (hn : n.isLeaf = true) {name : String}
    (hname : name ∈ ["$ref", "allOf", "oneOf", "anyOf"]) : name ∉ n.fieldNames := by
  have hall : ∀ names : List String,
      (∀ one ∈ ["$ref", "allOf", "oneOf", "anyOf"], one ∉ names) → name ∉ names :=
    fun names hnames => hnames name hname
  cases n with
  | ref info target => cases hn
  | composition info shape => cases hn
  | bare info => exact hall ["title", "description"] (by decide)
  | primitive info shape =>
      exact hall ["type", "format", "enum", "nullable", "minLength", "maxLength", "pattern",
        "minimum", "maximum", "exclusiveMinimum", "exclusiveMaximum", "multipleOf", "title",
        "description"] (by decide)
  | array info shape =>
      exact hall ["type", "items", "minItems", "maxItems", "uniqueItems", "nullable", "title",
        "description"] (by decide)
  | object info shape =>
      exact hall ["type", "properties", "required", "additionalProperties", "nullable",
        "discriminator", "oneOfVariants", "anyOfVariants", "title", "description"] (by decide)

/-- A field has one value. -/
theorem titled_unique {name : Value} {v w : Value} (hv : (name, v) ∈ n.titled)
    (hw : (name, w) ∈ n.titled) : v = w := by
  have hnodup : (n.titled.map (·.1)).Nodup :=
    (n.nodup_fieldNames.map fun _ _ heq => Value.str.inj heq).sublist n.titled_sublist
  exact (Prod.mk.inj (List.inj_on_of_nodup_map hnodup hv hw rfl)).2

end Fields

/-- Whether two schemas are written alike. -/
def Twin (n m : Node) : Prop := Json.SameTree n.write m.write

namespace Twin

variable {n m : Node}

/-- A field of one of two schemas that are written alike has its like in the other. -/
theorem field (h : Twin n m) (hn : n.info.Marked) (hm : m.info.Marked) {name : String}
    (hname : name ∈ fixedNames) {v : Value} (hv : (.str name, v) ∈ n.titled) :
    ∃ w, (.str name, w) ∈ m.titled ∧ Json.SameTree v w := by
  have hkey := isMetadataKey_fixedNames hname
  unfold Twin at h
  rw [write_eq, write_eq] at h
  obtain ⟨⟨key, w⟩, hentry, htext, hsame⟩ := h.entry ((mem_entries hn hkey).mpr hv)
  obtain ⟨name', heq⟩ := exists_name_of_entries hm _ hentry
  dsimp only at heq
  subst heq
  obtain rfl : name' = name := htext
  exact ⟨w, (mem_entries hm hkey).mp hentry, hsame⟩

/-- Only a reference is written as a reference. -/
theorem exists_ref {info : NodeInfo} {target : Value} (h : Twin (.ref info target) m)
    (hinfo : info.Marked) (hm : m.info.Marked) :
    ∃ info' target', m = .ref info' target' ∧ Json.SameTree target target' := by
  have hself : ∀ info target, (Value.str "$ref", target) ∈ (Node.ref info target).titled :=
    fun _ _ => List.mem_append_left _ (List.mem_append_left _ List.mem_cons_self)
  obtain ⟨w, hw, hsame⟩ := h.field hinfo hm (by decide) (hself info target)
  obtain ⟨name, hname, heq⟩ := exists_name_of_titled hw
  rw [← Value.str.inj heq] at hname
  cases m with
  | ref info' target' =>
      rw [titled_unique hw (hself info' target')] at hsame
      exact ⟨info', target', rfl, hsame⟩
  | composition info' shape' =>
      change "$ref" ∈ [shape'.kind.keyword, "discriminator", "properties", "required", "title",
        "description"] at hname
      cases hkind : shape'.kind <;> rw [hkind] at hname <;> exact absurd hname (by decide)
  | _ => exact absurd hname (notMem_fieldNames rfl (by decide))

/-- References that are written alike are references to one text. -/
theorem given_eq {target target' : Value} (h : Json.SameTree target target') {x y : String}
    (hx : Reference.given target = .ok x) (hy : Reference.given target' = .ok y) : y = x := by
  rw [Reference.eq_of_given hx, Reference.eq_of_given hy] at h
  exact h.text_inj.symm

/-- What is written of the members of a composition. -/
def writtenMembers (shape : CompositionShape Node) : Value :=
  match shape.rawMembers with
  | .list _ => .list (writeEach shape.members)
  | other => other

theorem mem_titled_composition (info : NodeInfo) (shape : CompositionShape Node) :
    (.str shape.kind.keyword, writtenMembers shape) ∈ (Node.composition info shape).titled := by
  obtain ⟨kind, rawMembers, members, discriminator, properties, required⟩ := shape
  exact List.mem_append_left _ (List.mem_append_left _ List.mem_cons_self)

theorem keyword_mem_fixedNames (kind : CompositionKind) : kind.keyword ∈ fixedNames := by
  cases kind <;> decide

/-- Only a composition is written as a composition, and it is of the same kind. -/
theorem exists_composition {info : NodeInfo} {shape : CompositionShape Node}
    (h : Twin (.composition info shape) m) (hinfo : info.Marked) (hm : m.info.Marked) :
    ∃ info' shape', m = .composition info' shape' ∧ shape'.kind = shape.kind ∧
      Json.SameTree (writtenMembers shape) (writtenMembers shape') := by
  obtain ⟨w, hw, hsame⟩ := h.field hinfo hm (keyword_mem_fixedNames shape.kind)
    (mem_titled_composition info shape)
  obtain ⟨name, hname, heq⟩ := exists_name_of_titled hw
  rw [← Value.str.inj heq] at hname
  cases m with
  | composition info' shape' =>
      change shape.kind.keyword ∈ [shape'.kind.keyword, "discriminator", "properties", "required",
        "title", "description"] at hname
      have hkind : shape'.kind = shape.kind := by
        cases hkind : shape.kind <;> cases hkind' : shape'.kind <;> rw [hkind, hkind'] at hname <;>
          first | rfl | exact absurd hname (by decide)
      have hthere := mem_titled_composition info' shape'
      rw [hkind] at hthere
      rw [titled_unique hw hthere] at hsame
      exact ⟨info', shape', rfl, hkind, hsame⟩
  | ref info' target' =>
      change shape.kind.keyword ∈ ["$ref", "title", "description"] at hname
      cases hkind : shape.kind <;> rw [hkind] at hname <;> exact absurd hname (by decide)
  | _ =>
      refine absurd hname (notMem_fieldNames rfl ?_)
      cases shape.kind <;> decide

theorem forall_of_writeEach {members members' : List Node}
    (h : List.Forall₂ Json.SameTree (writeEach members) (writeEach members')) :
    List.Forall₂ Twin members members' := by
  induction members generalizing members' with
  | nil =>
      cases members' with
      | nil => exact .nil
      | cons member' rest' => cases h
  | cons member rest ih =>
      cases members' with
      | nil => cases h
      | cons member' rest' =>
          cases h with
          | cons hmember hrest => exact .cons hmember (ih hrest)

/-- The members of compositions that are written alike are written alike, one by one. -/
theorem members {info info' : NodeInfo} {shape shape' : CompositionShape Node}
    (h : Twin (.composition info shape) (.composition info' shape')) (hinfo : info.Marked)
    (hinfo' : info'.Marked) (hdefect : memberDefect? shape.rawMembers = none) :
    List.Forall₂ Twin shape.members shape'.members := by
  obtain ⟨info'', shape'', heq, -, hsame⟩ := h.exists_composition hinfo hinfo'
  obtain ⟨rfl, rfl⟩ := Node.composition.inj heq
  cases hraw : shape.rawMembers with
  | list items =>
      rw [show writtenMembers shape = .list (writeEach shape.members) by
        unfold writtenMembers; rw [hraw]] at hsame
      obtain ⟨items', hitems'⟩ := hsame.exists_list
      cases hraw' : shape'.rawMembers with
      | list raw' =>
          rw [show writtenMembers shape' = .list (writeEach shape'.members) by
            unfold writtenMembers; rw [hraw']] at hsame
          exact forall_of_writeEach hsame.items
      | _ =>
          unfold writtenMembers at hitems'
          rw [hraw'] at hitems'
          cases hitems'
  | null =>
      rw [hraw] at hdefect
      cases hdefect
  | _ =>
      rw [hraw] at hdefect
      cases hdefect

/-- A member of a composition has its like in one that is written alike. -/
theorem exists_member {info info' : NodeInfo} {shape shape' : CompositionShape Node}
    (h : Twin (.composition info shape) (.composition info' shape')) (hinfo : info.Marked)
    (hinfo' : info'.Marked) (hdefect : memberDefect? shape.rawMembers = none) {member : Node}
    (hmember : member ∈ shape.members) : ∃ member' ∈ shape'.members, Twin member member' := by
  have hall := h.members hinfo hinfo' hdefect
  obtain ⟨index, hindex, rfl⟩ := List.mem_iff_getElem.mp hmember
  have hlength := hall.length_eq
  exact ⟨_, List.getElem_mem _, hall.get hindex (by omega)⟩

/-- And it has its like in the composition that the other is written like. -/
theorem exists_member_of {info info' : NodeInfo} {shape shape' : CompositionShape Node}
    (h : Twin (.composition info shape) (.composition info' shape')) (hinfo : info.Marked)
    (hinfo' : info'.Marked) (hdefect : memberDefect? shape.rawMembers = none) {member' : Node}
    (hmember' : member' ∈ shape'.members) : ∃ member ∈ shape.members, Twin member member' := by
  have hall := h.members hinfo hinfo' hdefect
  obtain ⟨index, hindex, rfl⟩ := List.mem_iff_getElem.mp hmember'
  have hlength := hall.length_eq
  exact ⟨_, List.getElem_mem (by omega), hall.get (by omega) hindex⟩

end Twin

/-- Compositions with one identity are written alike. -/
theorem twin_of_identity {info info' : NodeInfo} {shape shape' : CompositionShape Node}
    {key : String} (h : (Node.composition info shape).identity = .ok key)
    (h' : (Node.composition info' shape').identity = .ok key) :
    Twin (.composition info shape) (.composition info' shape') := by
  obtain ⟨text, htext, hsame⟩ := text_of_identity h h'
  exact .of_canonical htext hsame

/-- Compositions that are written alike have one identity, if they have any. -/
theorem Twin.identity_eq {info info' : NodeInfo} {shape shape' : CompositionShape Node}
    (h : Twin (.composition info shape) (.composition info' shape'))
    (hkind : shape'.kind = shape.kind) {key key' : String}
    (hkey : (Node.composition info shape).identity = .ok key)
    (hkey' : (Node.composition info' shape').identity = .ok key') : key = key' := by
  obtain ⟨text, htext, rfl⟩ := identity_eq_ok hkey
  obtain ⟨text', htext', rfl⟩ := identity_eq_ok hkey'
  rw [Json.SameTree.text_eq h htext htext', hkind]

end Node

end SchemaGraph
