import SchemaGraph.External
import SchemaGraph.Proofs.Value.ProperParts

/-!
# What is read is proper

A reader puts a value together from below, and writes the entries of a mapping one by one under keys
that may be keys.  So every value that is read from a text is proper, whatever its notation.
-/

namespace SchemaGraph

section Giving

variable {ε α β : Type} {P : α → Prop} {Q : β → Prop}

/-- Whether what a step gives, if it gives anything, has a property. -/
def Returns (P : α → Prop) (result : Except ε α) : Prop := ∀ a, result = .ok a → P a

theorem returns_ok {a : α} (h : P a) : Returns P (.ok a : Except ε α) :=
  fun _ heq => Except.ok.inj heq ▸ h

theorem returns_error (e : ε) : Returns P (.error e : Except ε α) := fun _ heq => nomatch heq

theorem Returns.bind {first : Except ε α} {next : α → Except ε β} (h : Returns P first)
    (hnext : ∀ a, P a → Returns Q (next a)) : Returns Q (first >>= next) := by
  intro b hb
  obtain ⟨a, ha, hb⟩ := bind_eq_ok.mp hb
  exact hnext a (h a ha) b hb

/-- Whatever the first step gives. -/
theorem returns_bind {first : Except ε α} {next : α → Except ε β}
    (hnext : ∀ a, Returns Q (next a)) : Returns Q (first >>= next) :=
  Returns.bind (P := fun _ => True) (fun _ _ => trivial) fun a _ => hnext a

theorem Returns.map {first : Except ε α} {f : α → β} (h : Returns P first)
    (hf : ∀ a, P a → Q (f a)) : Returns Q (first.map f) := by
  intro b hb
  cases first with
  | ok a =>
      rw [← Except.ok.inj hb]
      exact hf a (h a rfl)
  | error e => cases hb

end Giving

open Value

namespace Json

variable {text : List Char}

theorem proper_unsigned (negative : Bool) :
    Returns (fun read => read.1.Proper) (unsigned negative text) := by
  unfold unsigned
  extract_lets whole
  split
  · exact returns_error _
  · dsimp only
    split
    · split
      · exact returns_error _
      · exact returns_ok trivial
    · exact returns_ok trivial

theorem proper_atom : Returns (fun read => read.1.Proper) (atom text) := by
  unfold atom
  split
  case h_7 => exact proper_unsigned _
  case h_8 => exact proper_unsigned _
  all_goals exact returns_ok trivial

/-- Values, items and entries are proper, if those that were read before them are. -/
theorem proper_value (budget : Nat) :
    (∀ text, Returns (fun read => read.1.Proper) (value budget text)) ∧
    (∀ done text, (∀ item ∈ done, item.Proper) →
      Returns (fun read => read.1.Proper) (items budget done text)) ∧
    ∀ (done : Table Value) text, (Value.map done).Proper →
      Returns (fun read => read.1.Proper) (members budget done text) := by
  -- the three readers call one another with one budget, so they are read together
  induction budget with
  | zero =>
      refine ⟨fun text => ?_, fun done text _ => ?_, fun done text _ => ?_⟩
      · rw [value]
        exact returns_error _
      · rw [items]
        exact returns_error _
      · rw [members]
        exact returns_error _
  | succ budget ih =>
      obtain ⟨hvalue, hitems, hmembers⟩ := ih
      refine ⟨fun text => ?_, fun done text hdone => ?_, fun done text hdone => ?_⟩
      · unfold value
        split
        · split
          · exact returns_ok trivial
          · exact returns_error _
        · split
          · exact returns_ok trivial
          · exact hitems [] _ fun _ hitem => nomatch hitem
        · split
          · exact returns_ok inherited_proper.blank
          · exact hmembers [] _ inherited_proper.blank
        · exact proper_atom
      · rw [items]
        refine (hvalue text).bind fun read hread => ?_
        have hall : ∀ item ∈ read.1 :: done, item.Proper :=
          List.forall_mem_cons.mpr ⟨hread, hdone⟩
        dsimp only
        split
        · refine returns_ok (proper_list_iff.mpr fun item hitem => ?_)
          exact hall item (List.mem_reverse.mp hitem)
        · exact hitems _ _ hall
        · exact returns_error _
      · unfold members
        split
        · split
          · exact returns_error _
          · rename_i key after _
            split
            · refine (hvalue _).bind fun read hread => ?_
              dsimp only
              have hkey : (Value.str (String.ofList key)).hashable = true := rfl
              have hput := proper_put hdone hkey hread
              split
              · exact returns_ok hput
              · exact hmembers _ _ hput
              · exact returns_error _
            · exact returns_error _
        · exact returns_error _

/-- What is read from a text in JSON is proper. -/
theorem proper_parse (text : String) : Returns Proper (Json.parse text) := by
  unfold Json.parse
  refine ((proper_value _).1 _).bind fun read hread => ?_
  dsimp only
  split
  · exact returns_ok hread
  · exact returns_error _

end Json

namespace Yaml

section Scalars

variable (text : String)

theorem proper_bool : Returns Proper (Scalar.bool text) := by
  unfold Scalar.bool
  dsimp only
  split
  · exact returns_ok trivial
  · split
    · exact returns_ok trivial
    · exact returns_error _

theorem proper_int : Returns Proper (Scalar.int text) := by
  unfold Scalar.int
  dsimp only
  split
  · exact returns_error _
  · split
    · exact returns_ok trivial
    · exact returns_bind fun _ => returns_ok trivial
    · exact returns_bind fun _ => returns_ok trivial
    · exact returns_bind fun _ => returns_ok trivial
    · exact returns_error _
    · split
      · refine returns_bind fun parts => returns_bind fun total => ?_
        split
        · exact returns_ok trivial
        · exact returns_ok trivial
      · exact returns_bind fun _ => returns_ok trivial

theorem proper_float : Returns Proper (Scalar.float text) := by
  unfold Scalar.float
  dsimp only
  split
  · exact returns_error _
  · split
    · exact returns_ok trivial
    · split
      · exact returns_ok trivial
      · split
        · refine returns_bind fun parts => returns_bind fun total => ?_
          exact returns_bind fun _ => returns_ok trivial
        · exact returns_bind fun _ => returns_ok trivial

theorem proper_ofStamp (stamp : Tag.Stamp) : Returns Proper (Scalar.ofStamp stamp) := by
  unfold Scalar.ofStamp
  extract_lets year month day date withZone
  have hzone : ∀ zone, Returns Proper (withZone zone) := by
    intro zone
    dsimp only [withZone]
    split
    · exact returns_error _
    · split
      · exact returns_ok trivial
      · split
        · exact returns_error _
        · exact returns_ok trivial
  split
  · exact returns_bind hzone
  · exact returns_bind hzone
  · exact returns_bind hzone

theorem proper_timestamp : Returns Proper (Scalar.timestamp text) := by
  unfold Scalar.timestamp
  dsimp only
  split
  · exact proper_ofStamp _
  · exact returns_error _

theorem proper_binary : Returns Proper (Scalar.binary text) := by
  unfold Scalar.binary
  dsimp only
  split
  · exact Returns.map (P := fun _ => True) (fun _ _ => trivial) fun _ _ => trivial
  · exact returns_error _

end Scalars

section Verdicts

variable {α β γ : Type} {P : α → Prop} {Q : β → Prop} {R : γ → Prop}

theorem returns_both {f : α → β → γ} {verdict : Verdict α} {verdict' : Verdict β}
    (h : Returns P verdict) (h' : Returns Q verdict')
    (hf : ∀ a b, P a → Q b → R (f a b)) :
    Returns R (Verdict.both f verdict verdict') := by
  cases verdict with
  | error e => cases verdict' <;> exact returns_error _
  | ok a =>
      cases verdict' with
      | error e => exact returns_error _
      | ok b => exact returns_ok (hf a b (h a rfl) (h' b rfl))

theorem returns_all {verdicts : List (Verdict α)} (h : ∀ verdict ∈ verdicts, Returns P verdict) :
    Returns (fun items => ∀ item ∈ items, P item) (Verdict.all verdicts) := by
  induction verdicts with
  | nil => exact returns_ok fun _ hitem => nomatch hitem
  | cons verdict rest ih =>
      obtain ⟨hfirst, hrest⟩ := List.forall_mem_cons.mp h
      exact returns_both hfirst (ih hrest) fun a items ha hitems =>
        List.forall_mem_cons.mpr ⟨ha, hitems⟩

theorem returns_deeper {verdict : Verdict α} (h : Returns P verdict) :
    Returns P verdict.deeper := by
  cases verdict with
  | ok a => exact h
  | error e => exact returns_error _

theorem returns_ofExcept {result : Except Fault α} (h : Returns P result) :
    Returns P (Verdict.ofExcept result) := by
  cases result with
  | ok a => exact returns_ok (h a rfl)
  | error fault => exact returns_error _

end Verdicts

/-- Whether the key and the value of an entry are proper. -/
structure Entry.Proper (entry : Entry) : Prop where
  key : Returns Value.Proper entry.key
  value : Returns Value.Proper entry.value

/-- Whether all that the node around a node may use of it is proper. -/
structure Built.Proper (built : Built) : Prop where
  value : Returns Value.Proper built.value
  own : ∀ entries, built.own = some entries → ∀ entry ∈ entries, entry.Proper
  entries : Returns (fun entries => ∀ entry ∈ entries, entry.Proper) built.entries
  merged : Returns (fun entries => ∀ entry ∈ entries, entry.Proper) built.merged

namespace Built

theorem returns_keyOf (key : Verdict Value) : Returns (fun v => v.hashable = true) (keyOf key) := by
  unfold keyOf
  split
  · split
    · rename_i hkey
      exact returns_ok hkey
    · exact returns_error _
  · exact returns_error _
  · exact returns_error _

/-- The table of proper entries is proper. -/
theorem proper_table {entries : List Entry} (h : ∀ entry ∈ entries, entry.Proper) :
    Returns (fun table => (Value.map table).Proper) (table entries) := by
  unfold table
  refine (returns_all (P := fun entry => entry.1.hashable = true ∧ entry.2.Proper) ?_).map
    fun _ => proper_ofList
  intro verdict hverdict
  obtain ⟨entry, hentry, rfl⟩ := List.mem_map.mp hverdict
  exact returns_both (returns_keyOf _) (h entry hentry).value fun _ _ hkey hitem => ⟨hkey, hitem⟩

theorem proper_ofText {text : Except Fault String} {read : String → Except Fault Value}
    (h : ∀ s, Returns Value.Proper (read s)) : Returns Value.Proper (ofText text read) :=
  returns_ofExcept (returns_bind h)

theorem proper_pairs {items : List Built} (h : ∀ item ∈ items, item.Proper) :
    Returns Value.Proper (pairs items) := by
  unfold pairs
  refine (returns_all (P := Value.Proper) ?_).map fun _ => proper_list_iff.mpr
  intro verdict hverdict
  obtain ⟨item, hitem, rfl⟩ := List.mem_map.mp hverdict
  split
  · rename_i entry hown
    have hentry := (h item hitem).own _ hown entry List.mem_cons_self
    refine returns_both hentry.key hentry.value fun k v hk hv => ?_
    exact proper_list_iff.mpr (List.forall_mem_cons.mpr ⟨hk, List.forall_mem_singleton.mpr hv⟩)
  · exact returns_error _

/-- The value of a node is proper if its items and entries are. -/
theorem proper_valueOf (tag : Tag) (text : Except Fault String) {items : Option (List Built)}
    {entries : Except Fault (List Entry)}
    (hitems : ∀ given, items = some given → ∀ item ∈ given, item.Proper)
    (hentries : Returns (fun entries => ∀ entry ∈ entries, entry.Proper) entries) :
    Returns Value.Proper (valueOf tag text items entries) := by
  unfold valueOf
  extract_lets content mapping
  have hcontent : ∀ read : List Built → Verdict Value,
      (∀ given, (∀ item ∈ given, item.Proper) → Returns Value.Proper (read given)) →
      Returns Value.Proper (content read) := by
    intro read hread
    dsimp only [content]
    split
    · rename_i given
      exact returns_deeper (hread given (hitems given rfl))
    · exact returns_error _
  have hmapping : Returns (fun table => (Value.map table).Proper) mapping :=
    returns_deeper ((returns_ofExcept hentries).bind fun _ => proper_table)
  cases tag with
  | null => exact proper_ofText fun _ => returns_ok trivial
  | bool => exact proper_ofText proper_bool
  | int => exact proper_ofText proper_int
  | float => exact proper_ofText proper_float
  | timestamp => exact proper_ofText proper_timestamp
  | str => exact proper_ofText fun _ => returns_ok trivial
  | binary => exact proper_ofText proper_binary
  | seq =>
      refine hcontent _ fun given hgiven => ?_
      refine (returns_all (P := Value.Proper) ?_).map fun _ => proper_list_iff.mpr
      intro verdict hverdict
      obtain ⟨item, hitem, rfl⟩ := List.mem_map.mp hverdict
      exact (hgiven item hitem).value
  | omap => exact hcontent _ fun _ => proper_pairs
  | pairs => exact hcontent _ fun _ => proper_pairs
  | map => exact hmapping.map fun _ => id
  | set => exact hmapping.map fun _ htable => (proper_map_iff.mp htable).1
  | merge => exact returns_error _
  | value => exact returns_error _
  | unknown => exact returns_error _

theorem proper_scalar (tag : Tag) (text : String) : (scalar tag text).Proper := by
  have hnone : ∀ given, (none : Option (List Built)) = some given → ∀ item ∈ given, item.Proper :=
    fun _ h => nomatch h
  exact ⟨proper_valueOf tag _ hnone (returns_error _), (fun _ h => nomatch h), returns_error _,
    returns_error _⟩

theorem returns_mapM {α : Type} {f : α → Except Fault (List Entry)} {nodes : List α}
    (h : ∀ node ∈ nodes, Returns (fun entries => ∀ entry ∈ entries, entry.Proper) (f node)) :
    Returns (fun groups => ∀ group ∈ groups, ∀ entry ∈ group, entry.Proper) (nodes.mapM f) := by
  induction nodes with
  | nil => exact returns_ok fun _ hgroup => nomatch hgroup
  | cons node rest ih =>
      obtain ⟨hnode, hrest⟩ := List.forall_mem_cons.mp h
      rw [List.mapM_cons]
      refine hnode.bind fun group hgroup => (ih hrest).bind fun groups hgroups => ?_
      exact returns_ok (List.forall_mem_cons.mpr ⟨hgroup, hgroups⟩)

theorem proper_sequence (tag : Tag) {items : List Built} (h : ∀ item ∈ items, item.Proper) :
    (sequence tag items).Proper where
  value := proper_valueOf tag _ (fun _ heq => Option.some.inj heq ▸ h) (returns_error _)
  own := fun _ h => nomatch h
  entries := returns_error _
  merged := by
    refine (returns_mapM fun item hitem => (h item hitem).entries).bind fun groups hgroups => ?_
    refine returns_ok fun entry hentry => ?_
    obtain ⟨group, hgroup, hin⟩ := List.mem_flatten.mp hentry
    exact hgroups group (List.mem_reverse.mp hgroup) entry hin

/-- Whether the key and the value of an entry are proper nodes. -/
def ProperPair (entry : Tag × Built × Built) : Prop := entry.2.1.Proper ∧ entry.2.2.Proper

section Mappings

variable {entries : List (Tag × Built × Built)} (h : ∀ entry ∈ entries, ProperPair entry)
include h

theorem proper_merge :
    Returns (fun entries => ∀ entry ∈ entries, entry.Proper) (merge entries) := by
  unfold merge
  have hmerged : ∀ entry ∈ entries.filter (·.1 == .merge),
      Returns (fun entries => ∀ entry ∈ entries, entry.Proper) entry.2.2.merged :=
    fun entry hentry => (h entry (List.mem_of_mem_filter hentry)).2.merged
  refine (returns_mapM hmerged).bind fun groups hgroups => returns_ok ?_
  refine List.forall_mem_append.mpr ⟨fun entry hentry => ?_, fun entry hentry => ?_⟩
  · obtain ⟨group, hgroup, hin⟩ := List.mem_flatten.mp hentry
    exact hgroups group hgroup entry hin
  · obtain ⟨⟨tag, key, value⟩, hgiven, rfl⟩ := List.mem_map.mp hentry
    have hpair := h _ (List.mem_of_mem_filter hgiven)
    dsimp only
    split
    · exact ⟨proper_ofText fun _ => returns_ok trivial, hpair.2.value⟩
    · exact ⟨hpair.1.value, hpair.2.value⟩

theorem proper_mapping (tag : Tag) : (mapping tag entries).Proper := by
  have hnone : ∀ given, (none : Option (List Built)) = some given → ∀ item ∈ given, item.Proper :=
    fun _ h => nomatch h
  refine ⟨proper_valueOf tag _ hnone (proper_merge h), ?_, proper_merge h, proper_merge h⟩
  intro own hown entry hentry
  rw [← Option.some.inj hown] at hentry
  obtain ⟨given, hgiven, rfl⟩ := List.mem_map.mp hentry
  exact ⟨(h given hgiven).1.value, (h given hgiven).2.value⟩

end Mappings

end Built

namespace Tree

mutual

/-- What a node stands for is proper, all through the tree. -/
theorem proper_build : ∀ tree : Tree, tree.build.Proper
  | .scalar tag text => by
      rw [build]
      exact Built.proper_scalar tag text
  | .sequence tag items => by
      rw [build]
      exact Built.proper_sequence tag (proper_buildItems items)
  | .mapping tag entries => by
      rw [build]
      exact Built.proper_mapping (proper_buildEntries entries) tag

theorem proper_buildItems : ∀ items : List Tree, ∀ item ∈ buildItems items, item.Proper
  | [] => by
      rw [buildItems]
      exact fun _ hitem => nomatch hitem
  | item :: rest => by
      rw [buildItems]
      exact List.forall_mem_cons.mpr ⟨proper_build item, proper_buildItems rest⟩

theorem proper_buildEntries : ∀ entries : List (Tree × Tree),
    ∀ entry ∈ buildEntries entries, Built.ProperPair entry
  | [] => by
      rw [buildEntries]
      exact fun _ hentry => nomatch hentry
  | (key, value) :: rest => by
      rw [buildEntries]
      exact List.forall_mem_cons.mpr
        ⟨⟨proper_build key, proper_build value⟩, proper_buildEntries rest⟩

end

end Tree

/-- What is read from a text in YAML is proper. -/
theorem proper_parse (text : String) : Returns Value.Proper (Yaml.parse text) := by
  unfold Yaml.parse
  refine returns_bind fun found => ?_
  split
  · exact returns_ok trivial
  · rename_i tree
    unfold Tree.value
    split
    · rename_i v hv
      exact returns_ok (tree.proper_build.value v hv)
    · exact returns_error _

end Yaml

/-- What is read from a text is proper. -/
theorem Document.proper_parseContent (form : Notation) (source text : String) :
    Returns Value.Proper (parseContent form source text) := by
  unfold parseContent
  cases form with
  | json =>
      dsimp only
      split
      · rename_i v hv
        exact returns_ok (Json.proper_parse text v hv)
      · exact returns_error _
      · exact returns_error _
      · exact returns_error _
  | yaml =>
      dsimp only
      split
      · rename_i v hv
        exact returns_ok (Yaml.proper_parse text v hv)
      · exact returns_error _
      · exact returns_error _
      · exact returns_error _

theorem External.proper_parse (location text : String) :
    Returns Value.Proper (External.parse location text) := by
  have hcontent := Document.proper_parseContent (notationOf location text) location text
  unfold External.parse
  split
  · exact returns_error _
  · exact hcontent

end SchemaGraph
