import SchemaGraph.Proofs.Number.Text
import SchemaGraph.Proofs.Pointer.Written
import SchemaGraph.Proofs.Value.Congruence

/-!
# Where a pointer leads

A path leads into a value through the keys of mappings and, written in decimal, the positions of
lists.  Following the segments of such a path finds the value that it leads to; so a written
reference is a pointer to every value that its path leads to.

A key of digits is a key in a mapping and a position in a list: which of the two it is depends on
the value that was reached, not on the segment.
-/

namespace SchemaGraph

namespace Digit

theorem value_of_isDigit {c : Char} (h : c.isDigit = true) :
    value? c = some (c.toNat - '0'.toNat) := by
  rw [Char.isDigit_iff_toNat] at h
  have hzero : zeroes.find? (fun start => decide (start ≤ c.toNat ∧ c.toNat ≤ start + 9)) =
      some 0x30 := by
    apply List.find?_cons_of_pos
    exact decide_eq_true h
  unfold value?
  rw [hzero]
  rfl

/-- The number that is read from digits of ASCII, behind digits that were read before. -/
theorem number_of_isDigit {digits : List Char} (h : ∀ c ∈ digits, c.isDigit = true) (before : Nat) :
    digits.foldl (fun total c => do return 10 * (← total) + (← value? c)) (some before) =
      some (Nat.ofDigitChars 10 digits before) := by
  induction digits generalizing before with
  | nil => rfl
  | cons c rest ih =>
      rw [List.foldl_cons, value_of_isDigit (h c List.mem_cons_self), Nat.ofDigitChars_cons]
      exact ih (fun d hd => h d (List.mem_cons_of_mem _ hd)) _

theorem number_toString (n : Nat) : number? (toString n).toList = some n := by
  have hread := number_of_isDigit (Shortest.isDigit_toString n) 0
  rw [Shortest.ofDigitChars_toString] at hread
  exact hread

end Digit

namespace Value

/-- A list of a program holds fewer values than this: its length is a signed number of a machine. -/
def lengthLimit : Nat := 2 ^ 63

mutual

/-- Whether all lists inside a value are as short as lists of a program are. -/
def isHeld : Value → Bool
  | .list items => decide (items.length < lengthLimit) && itemsHeld items
  | .map entries => entriesHeld entries
  | _ => true

def itemsHeld : List Value → Bool
  | [] => true
  | item :: rest => isHeld item && itemsHeld rest

def entriesHeld : List (Value × Value) → Bool
  | [] => true
  | entry :: rest => isHeld entry.2 && entriesHeld rest

end

theorem isHeld_list {items : List Value} (h : isHeld (.list items) = true) :
    items.length < lengthLimit ∧ itemsHeld items = true := by
  rw [isHeld, Bool.and_eq_true, decide_eq_true_eq] at h
  exact h

theorem isHeld_of_mem_items {items : List Value} (h : itemsHeld items = true) {item : Value}
    (hitem : item ∈ items) : item.isHeld = true := by
  induction items with
  | nil => exact absurd hitem List.not_mem_nil
  | cons first rest ih =>
      rw [itemsHeld, Bool.and_eq_true] at h
      rcases List.mem_cons.mp hitem with rfl | hin
      · exact h.1
      · exact ih h.2 hin

theorem isHeld_of_mem_entries {entries : List (Value × Value)} (h : entriesHeld entries = true)
    {entry : Value × Value} (hentry : entry ∈ entries) : entry.2.isHeld = true := by
  induction entries with
  | nil => exact absurd hentry List.not_mem_nil
  | cons first rest ih =>
      rw [entriesHeld, Bool.and_eq_true] at h
      rcases List.mem_cons.mp hentry with rfl | hin
      · exact h.1
      · exact ih h.2 hin

end Value

namespace Pointer

/-- The segments on the way from a value to a value inside it. -/
inductive Leads : Value → List String → Value → Prop
  | here (v : Value) : Leads v [] v
  | key {entries : List (Value × Value)} {name : String} {inside v : Value}
      {path : List String} (hentry : (.str name, inside) ∈ entries) (h : Leads inside path v) :
      Leads (.map entries) (name :: path) v
  | item {items : List Value} {i : Nat} {inside v : Value} {path : List String}
      (hitem : items[i]? = some inside) (h : Leads inside path v) :
      Leads (.list items) (toString i :: path) v

section Positions

variable (i : Nat)

theorem toString_ne_nil : (toString i).toList ≠ [] := by
  rw [Nat.toString_eq_repr, Nat.toList_repr]
  exact List.ne_nil_of_length_pos Nat.length_toDigits_pos

theorem isPosition_toString : isPosition (toString i).toList = true := by
  have hdigit : (toString i).toList.all Digit.isDigitLike = true := by
    rw [List.all_eq_true]
    intro c hc
    unfold Digit.isDigitLike Digit.isDecimal
    rw [Digit.value_of_isDigit (Shortest.isDigit_toString i c hc)]
    rfl
  unfold isPosition
  rw [hdigit, Bool.and_true, Bool.not_eq_true', List.isEmpty_eq_false_iff]
  exact toString_ne_nil i

variable {i}

/-- The numeral of a position that a list has is read back as the position. -/
theorem position_toString (h : i < Value.lengthLimit) : position (toString i).toList = .ok i := by
  have hpower : i < 10 ^ 19 := h.trans (by decide)
  have hlength : (toString i).toList.length ≤ 19 := by
    rw [Nat.toString_eq_repr, Nat.toList_repr]
    exact Nat.toDigits_length 10 i 19 (by decide) hpower
  have hshort : ¬ digitLimit < (toString i).toList.length := by
    unfold digitLimit
    omega
  unfold position
  rw [if_neg hshort, Digit.number_toString]

end Positions

section Walking

variable {container v : Value} {segment : String} {path : List String}

theorem walk_cons_of_step {inside : Value} (h : step container segment = .ok inside)
    (path : List String) : walk container (segment :: path) = walk inside path := by
  unfold walk
  rw [List.foldlM_cons, h]
  rfl

theorem step_key {entries : List (Value × Value)} (hjson : (Value.map entries).isJson = true)
    {inside : Value} (hentry : (.str segment, inside) ∈ entries) :
    step (.map entries) segment = .ok inside := by
  unfold step
  dsimp only
  rw [Value.at_of_mem hjson hentry]

theorem step_item {items : List Value} (hshort : items.length < Value.lengthLimit) {i : Nat}
    {inside : Value} (hitem : items[i]? = some inside) :
    step (.list items) (toString i) = .ok inside := by
  obtain ⟨hi, -⟩ := List.getElem?_eq_some_iff.mp hitem
  unfold step
  dsimp only
  rw [if_pos (isPosition_toString i), position_toString (hi.trans hshort)]
  simp only [bind, Except.bind, hitem]
  rfl

/-- A path into a value of JSON is followed to its end. -/
theorem walk_of_leads (hjson : container.isJson = true) (hheld : container.isHeld = true)
    (h : Leads container path v) : walk container path = .ok v := by
  induction h with
  | here v => rfl
  | key hentry h ih =>
      rw [walk_cons_of_step (step_key hjson hentry)]
      exact ih (Value.isJson_of_mem_entries hjson hentry).2
        (Value.isHeld_of_mem_entries hheld hentry)
  | item hitem h ih =>
      obtain ⟨hshort, hitems⟩ := Value.isHeld_list hheld
      rw [walk_cons_of_step (step_item hshort hitem)]
      have hin := List.mem_of_getElem? hitem
      exact ih (Value.isJson_of_mem_items hjson hin) (Value.isHeld_of_mem_items hitems hin)

end Walking

end Pointer

namespace Reference

/-- A written reference reads back as its location and its segments, and following what was read
finds the value that the segments lead to. -/
theorem read_write_leads {location : String} {segments : List String}
    (hlocation : '#' ∉ location.toList) (hne : segments ≠ [])
    (hsegments : ∀ segment ∈ segments, segment ≠ "") :
    read? (write ⟨location, segments⟩) = some ⟨location, segments⟩ ∧
      ∀ {container v : Value}, container.isJson = true → container.isHeld = true →
        Pointer.Leads container segments v →
        (read? (write ⟨location, segments⟩)).map (fun r => Pointer.walk container r.segments) =
          some (.ok v) := by
  have hread : read? (write ⟨location, segments⟩) = some ⟨location, segments⟩ :=
    read_write hlocation hne hsegments
  refine ⟨hread, fun hjson hheld hleads => ?_⟩
  rw [hread, Option.map_some, Pointer.walk_of_leads hjson hheld hleads]

/-- A key with a slash and a tilde before a digit, a key of letters and a position. -/
theorem read_write_leads_escaped :
    let segments := ["a/b~1", "allOf", "0"]
    let container := Value.map [(.str "a/b~1", .map [(.str "allOf", .list [.str "first"])])]
    write ⟨"common.yaml", segments⟩ = "common.yaml#/components/schemas/a~1b~01/allOf/0" ∧
      container.isJson = true ∧ container.isHeld = true ∧
      Pointer.Leads container segments (.str "first") ∧
      read? (write ⟨"common.yaml", segments⟩) = some ⟨"common.yaml", segments⟩ ∧
      (read? (write ⟨"common.yaml", segments⟩)).map
        (fun r => Pointer.walk container r.segments) = some (.ok (.str "first")) := by
  intro segments container
  have hjson : container.isJson = true := by decide
  have hheld : container.isHeld = true := by decide
  have hleads : Pointer.Leads container segments (.str "first") :=
    .key List.mem_cons_self (.key List.mem_cons_self (.item (i := 0) rfl (.here _)))
  have hnames : ∀ segment ∈ segments, segment ≠ "" := by decide
  obtain ⟨hread, hwalk⟩ :=
    @read_write_leads "common.yaml" segments (by decide) (by decide) hnames
  exact ⟨by decide, hjson, hheld, hleads, hread, hwalk hjson hheld hleads⟩

end Reference

end SchemaGraph
