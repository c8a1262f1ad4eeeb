import SchemaGraph.Proofs.Location.Place
import SchemaGraph.Proofs.Schema.Reread
import SchemaGraph.Proofs.Schema.Retargeted

/-!
# One schema seen from two documents

Reading a schema uses the base of its document only for targets, and the place at which it stands only
for names.  So a schema that is read from two bases gives the same twice, up to targets, wherever the
targets are the same after a change of each side.  Making targets absolute is such a change: a schema
of a document that is read in place differs only in its targets from the one that is seen from
outside.
-/

namespace SchemaGraph

namespace Node

section Reading

variable {change change' : Value → Value}

/-- Whether two readings give schemas that become equal when their targets are changed. -/
def ReadsSame (change change' : Value → Value) (read read' : Value → String → Except Failure Node) :
    Prop :=
  ∀ v path path', Agree (fun n n' => n.retargeted change = n'.retargeted change') (read v path)
    (read' v path')

/-- Whether two readings give such schemas of all values with a number of levels at most. -/
def ReadsSameTo (levels : Nat) (change change' : Value → Value)
    (read read' : Value → String → Except Failure Node) : Prop :=
  ∀ v path path', v.depth ≤ levels →
    Agree (fun n n' => n.retargeted change = n'.retargeted change') (read v path) (read' v path')

variable {levels : Nat} {read read' : Value → String → Except Failure Node}
  (hread : ReadsSameTo levels change change' read read')

section Members

include hread

theorem parseEach_agree (path path' : String) (index index' : Nat) {items : List Value}
    (hlevels : Value.itemsDepth items ≤ levels) :
    Agree (fun nodes nodes' => retargetedEach change nodes = retargetedEach change' nodes')
      (parseEach read path index items) (parseEach read' path' index' items) := by
  induction items generalizing index index' with
  | nil => exact .ok rfl
  | cons item rest ih =>
      rw [Value.itemsDepth, Nat.max_le] at hlevels
      rw [parseEach, parseEach]
      refine (hread item _ _ hlevels.1).bind fun n n' hn => ?_
      refine (ih (index + 1) (index' + 1) hlevels.2).bind fun others others' ho => ?_
      refine .ok ?_
      rw [retargetedEach, retargetedEach, hn, ho]

theorem parseNamed_agree (path path' : String) {named : List (Value × Value)}
    (hlevels : Value.entriesDepth named ≤ levels) :
    Agree (fun nodes nodes' => retargetedNamed change nodes = retargetedNamed change' nodes')
      (parseNamed read path named) (parseNamed read' path' named) := by
  induction named with
  | nil => exact .ok rfl
  | cons entry rest ih =>
      obtain ⟨name, item⟩ := entry
      rw [Value.entriesDepth, Nat.max_le] at hlevels
      rw [parseNamed, parseNamed]
      refine (hread item _ _ hlevels.1).bind fun n n' hn => ?_
      refine (ih hlevels.2).bind fun others others' ho => ?_
      refine .ok ?_
      rw [retargetedNamed, retargetedNamed, hn, ho]

theorem parseProperties_agree (path path' : String) {entries : Table Value}
    (hlevels : Value.entriesDepth entries ≤ levels) :
    Agree (fun nodes nodes' => retargetedNamed change nodes = retargetedNamed change' nodes')
      (parseProperties read path entries) (parseProperties read' path' entries) := by
  unfold parseProperties
  dsimp only
  split
  · exact .ok rfl
  · cases hnamed : field entries "properties" with
    | map named =>
        have hdepth := depth_le_of_field "properties" hlevels (by rw [hnamed]; rfl)
        rw [hnamed, Value.depth] at hdepth
        exact parseNamed_agree hread path path' (by omega)
    | _ => exact .error rfl

theorem parseMembers_agree (path path' : String) {raw : Value}
    (hlevels : raw.isNull = false → raw.depth ≤ levels) :
    Agree (fun nodes nodes' => retargetedEach change nodes = retargetedEach change' nodes')
      (parseMembers read path raw) (parseMembers read' path' raw) := by
  cases raw with
  | list items =>
      have hdepth := hlevels rfl
      rw [Value.depth] at hdepth
      exact parseEach_agree hread path path' 0 0 (by omega)
  | _ => exact .ok rfl

theorem parseItems_agree (path path' : String) {raw : Value}
    (hlevels : raw.isNull = false → raw.depth ≤ levels) :
    Agree (fun items items' => retargetedItems change items = retargetedItems change' items')
      (parseItems read path raw) (parseItems read' path' raw) := by
  cases raw with
  | null => exact .ok rfl
  | _ =>
      refine (hread _ _ _ (hlevels rfl)).bind fun n n' hn => .ok ?_
      rw [retargetedItems, retargetedItems, hn]

theorem parseAdditional_agree (path path' : String) {raw : Value}
    (hlevels : raw.isNull = false → raw.depth ≤ levels) :
    Agree (fun a a' => retargetedAdditional change a = retargetedAdditional change' a')
      (parseAdditional read path raw) (parseAdditional read' path' raw) := by
  cases raw with
  | map fields =>
      refine (hread (.map fields) _ _ (hlevels rfl)).bind fun n n' hn => .ok ?_
      rw [retargetedAdditional, retargetedAdditional, hn]
  | _ => exact .ok rfl

theorem parseArray_agree (path path' : String) {info info' : NodeInfo}
    (hinfo : info.unplaced = info'.unplaced) (nullable : Bool) {entries : Table Value}
    (hlevels : Value.entriesDepth entries ≤ levels) :
    Agree (fun n n' => n.retargeted change = n'.retargeted change')
      (parseArray read path info nullable entries)
      (parseArray read' path' info' nullable entries) := by
  unfold parseArray
  refine (parseItems_agree hread path path' (depth_le_of_field _ hlevels)).bind
    fun items items' hitems => .ok ?_
  rw [retargeted, retargeted, retargetedArray, retargetedArray, hinfo, hitems]

end Members

theorem parsePrimitive_agree {info info' : NodeInfo} (hinfo : info.unplaced = info'.unplaced)
    (typeName : Value) (nullable : Bool) (entries : Table Value) :
    Agree (fun n n' => n.retargeted change = n'.retargeted change')
      (parsePrimitive info typeName nullable entries)
      (parsePrimitive info' typeName nullable entries) := by
  unfold parsePrimitive
  refine (Agree.refl (fun _ => rfl) _).bind fun typeName' _ heq => ?_
  subst heq
  refine (Agree.refl (fun _ => rfl) _).bind fun choices _ heq => .ok ?_
  subst heq
  rw [retargeted, retargeted, hinfo]

variable {base base' : String}
  (hrebase : ∀ v, Agree (fun w w' => change w = change' w') (rebaseValue base v)
    (rebaseValue base' v))
include hrebase

theorem rebaseTargets_agree (targets : List (Value × Value)) :
    Agree (fun t t' => Table.mapItems change t = Table.mapItems change' t')
      (rebaseTargets base targets) (rebaseTargets base' targets) := by
  induction targets with
  | nil => exact .ok rfl
  | cons entry rest ih =>
      obtain ⟨name, target⟩ := entry
      rw [rebaseTargets, rebaseTargets]
      refine (hrebase target).bind fun w w' hw => ih.bind fun others others' ho => .ok ?_
      rw [Table.mapItems_cons, Table.mapItems_cons, hw, ho]

theorem discriminator_agree (entries : Table Value) :
    Agree (fun d d' : Option Discriminator =>
        d.map (·.retargeted change) = d'.map (·.retargeted change'))
      (discriminator base entries) (discriminator base' entries) := by
  unfold discriminator
  cases field entries "discriminator" with
  | map fields =>
      dsimp only
      split
      · exact .ok rfl
      · split
        · exact .ok rfl
        · cases field fields "mapping" with
          | map targets =>
              refine (rebaseTargets_agree hrebase targets).bind fun t t' ht => .ok ?_
              exact congrArg some (congrArg (Discriminator.mk _) ht)
          | _ => exact .error rfl
  | _ => exact .ok rfl

include hread

theorem parseComposition_agree (path path' : String) {info info' : NodeInfo}
    (hinfo : info.unplaced = info'.unplaced) (kind : CompositionKind) {entries : Table Value}
    (hlevels : Value.entriesDepth entries ≤ levels) :
    Agree (fun n n' => n.retargeted change = n'.retargeted change')
      (parseComposition read base path info kind entries)
      (parseComposition read' base' path' info' kind entries) := by
  unfold parseComposition
  refine (parseMembers_agree hread _ _ (depth_le_of_field _ hlevels)).bind
    fun members members' hmembers => ?_
  refine (discriminator_agree hrebase entries).bind fun d d' hd => ?_
  refine (parseProperties_agree hread path path' hlevels).bind fun properties properties' hp => ?_
  refine (Agree.refl (fun _ => rfl) _).bind fun required _ heq => .ok ?_
  subst heq
  rw [retargeted, retargeted, retargetedComposition, retargetedComposition, hinfo, hmembers, hd, hp]

theorem parseObject_agree (path path' : String) {info info' : NodeInfo}
    (hinfo : info.unplaced = info'.unplaced) (nullable : Bool) {entries : Table Value}
    (hlevels : Value.entriesDepth entries ≤ levels) :
    Agree (fun n n' => n.retargeted change = n'.retargeted change')
      (parseObject read base path info nullable entries)
      (parseObject read' base' path' info' nullable entries) := by
  unfold parseObject
  refine (parseAdditional_agree hread path path' (depth_le_of_field _ hlevels)).bind
    fun additional additional' ha => ?_
  refine (parseProperties_agree hread path path' hlevels).bind fun properties properties' hp => ?_
  refine (Agree.refl (fun _ => rfl) _).bind fun required _ heq => ?_
  subst heq
  refine (discriminator_agree hrebase entries).bind fun d d' hd => .ok ?_
  rw [retargeted, retargeted, retargetedObject, retargetedObject, hinfo, ha, hp, hd]
  rfl

theorem parseEntries_agree (path path' : String) {entries : Table Value}
    (hlevels : Value.entriesDepth entries ≤ levels) :
    Agree (fun n n' => n.retargeted change = n'.retargeted change')
      (parseEntries read base path entries) (parseEntries read' base' path' entries) := by
  unfold parseEntries
  refine (Agree.refl (fun _ => rfl) _).bind fun metadata _ heq => ?_
  subst heq
  dsimp only
  split
  · refine (hrebase _).bind fun w w' hw => .ok ?_
    rw [retargeted, retargeted, hw]
    rfl
  · split
    · exact parseComposition_agree hread hrebase path path' (by rfl) _ hlevels
    · split
      · exact parseArray_agree hread path path' (by rfl) _ hlevels
      · split
        · exact parseObject_agree hread hrebase path path' (by rfl) _ hlevels
        · exact parsePrimitive_agree (by rfl) _ _ entries

omit hread

/-- Reading does not depend on the number of levels, if it is that of the value at least. -/
theorem parseWithin_agree {levels levels' : Nat} {v : Value} (hv : v.depth ≤ levels)
    (hv' : v.depth ≤ levels') (path path' : String) :
    Agree (fun n n' => n.retargeted change = n'.retargeted change') (parseWithin base levels v path)
      (parseWithin base' levels' v path') := by
  induction levels generalizing levels' v path path' with
  | zero => cases v <;> simp [Value.depth] at hv
  | succ levels ih =>
      cases levels' with
      | zero => cases v <;> simp [Value.depth] at hv'
      | succ levels' =>
          cases v with
          | map entries =>
              rw [Value.depth] at hv hv'
              rw [parseWithin, parseWithin]
              have hread : ReadsSameTo (min levels levels') change change' (parseWithin base levels)
                  (parseWithin base' levels') :=
                fun item place place' hitem => ih (by omega) (by omega) place place'
              exact parseEntries_agree hread hrebase path path' (by omega)
          | _ => exact .error rfl

/-- A schema that is read from two bases gives the same, up to targets. -/
theorem parse_agree : ReadsSame change change' (parse base) (parse base') :=
  fun _ path path' => parseWithin_agree hrebase le_rfl le_rfl path path'

end Reading

section Absolute

/-- A target made absolute; one that is no text stays as it is. -/
def absoluteTarget (base : String) : Value → Value
  | .str x => .str (Location.absolute base x)
  | v => v

/-- How the schemas of the document at `location` are read for the document at `home`: as they are
if it is the same one, or else from outside. -/
def ReadFor (home location base : String) : Prop :=
  base = "" ∧ home = location ∨ base = location

variable {home location base : String} (hhome : Location.IsPlace home)
  (hlocation : Location.IsPlace location)
include hhome hlocation

/-- A target that was read for a document is absolute where the one that is written is. -/
theorem rebaseValue_absolute (h : ReadFor home location base) (v : Value) :
    ∃ w, rebaseValue base v = .ok w ∧ absoluteTarget home w = absoluteTarget location v := by
  cases v with
  | str x =>
      rcases h with ⟨rfl, rfl⟩ | rfl
      · exact ⟨.str x, rfl, rfl⟩
      · refine ⟨.str (Location.absolute base x), ?_, ?_⟩
        · rw [rebaseValue, Location.rebase_eq hlocation x]
          rfl
        · rw [absoluteTarget, absoluteTarget, Location.absolute_absolute hlocation hhome]
  | _ => exact ⟨_, rfl, rfl⟩

/-- A schema that is read for two documents gives the same, up to targets. -/
theorem parse_absolute {home' base' : String} (hhome' : Location.IsPlace home')
    (h : ReadFor home location base) (h' : ReadFor home' location base') :
    ReadsSame (absoluteTarget home) (absoluteTarget home') (parse base) (parse base') := by
  refine parse_agree fun v => ?_
  obtain ⟨w, hw, habsolute⟩ := rebaseValue_absolute hhome hlocation h v
  obtain ⟨w', hw', habsolute'⟩ := rebaseValue_absolute hhome' hlocation h' v
  rw [hw, hw']
  exact .ok (habsolute.trans habsolute'.symm)

end Absolute

end Node

end SchemaGraph
