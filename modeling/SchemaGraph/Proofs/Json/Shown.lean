import SchemaGraph.Proofs.Json.Tree
import SchemaGraph.Proofs.Number.Text
import SchemaGraph.Proofs.Value.Atom

/-!
# The tree of a value

Writing a value in compact form writes its tree, unless a key stops it.  A value of JSON is
determined by its tree.
-/

namespace SchemaGraph

namespace Json

mutual

/-- The tree that the compact text of a value shows. -/
def tree : Value → Tree
  | .null => .bare "null".toList
  | .bool b => .bare (if b then "true" else "false").toList
  | .int n => .bare (toString n).toList
  | .double x => .bare (doubleText x).toList
  | .str s => .text s
  | .list items => .list (itemTrees items)
  | .map entries => .map (entryTrees entries)
  | .date d => .text (Value.display (.date d))
  | .moment t => .text (Value.display (.moment t))
  | .bytes octets => .text (Value.display (.bytes octets))
  | .set members => .text (Value.display (.set members))

/-- The trees of the items of a list. -/
def itemTrees : List Value → List Tree
  | [] => []
  | item :: rest => tree item :: itemTrees rest

/-- The trees of the entries of a mapping, under the texts of their keys. -/
def entryTrees : List (Value × Value) → List (String × Tree)
  | [] => []
  | (key, item) :: rest => ((keyText? key).getD "", tree item) :: entryTrees rest

end

namespace Emission

/-- What was written without a fault shows a text. -/
def Shows (e : Emission) (text : List Char) : Prop := e.fault = none → e.text.toList = text

theorem shows_ofText {text : String} {shown : List Char} (h : text.toList = shown) :
    (ofText text).Shows shown := fun _ => h

theorem shows_andThen {first : Emission} {next : Unit → Emission}
    {text text' shown : List Char} (hfirst : first.Shows text) (hnext : (next ()).Shows text')
    (hshown : text ++ text' = shown) : (first.andThen next).Shows shown := by
  intro hfault
  unfold andThen at hfault ⊢
  cases hcase : first.fault with
  | some fault =>
      rw [hcase] at hfault
      exact absurd hfault (by simp [hcase])
  | none =>
      rw [hcase] at hfault
      dsimp only at hfault ⊢
      rw [String.toList_append, hfirst hcase, hnext hfault, hshown]

theorem shows_fault (text : String) (fault : Fault) (shown : List Char) :
    Shows ⟨text, some fault⟩ shown := by
  intro hfault
  exact absurd hfault (by simp)

theorem andThen_assoc (first : Emission) (second third : Unit → Emission) :
    (first.andThen second).andThen third =
      first.andThen fun _ => (second ()).andThen third := by
  unfold andThen
  cases hfirst : first.fault with
  | some fault => simp [hfirst]
  | none =>
      cases hsecond : (second ()).fault with
      | some fault => simp [hsecond]
      | none => simp [String.append_assoc]

end Emission

/-- A mark of punctuation; compact texts have no line breaks before or after it. -/
theorem toList_mark {text : String} {mark : Char} (h : text.toList = [mark]) (level : Nat) :
    (compact.newline level ++ text).toList = [mark] ∧
      (text ++ compact.newline level).toList = [mark] := by
  simp [compact, Layout.newline, h]

theorem shows_marked {text : String} {mark : Char} (h : text.toList = [mark]) (level : Nat)
    {next : Unit → Emission} {shown : List Char} (hnext : (next ()).Shows shown) :
    ((Emission.ofText (text ++ compact.newline level)).andThen next).Shows (mark :: shown) :=
  Emission.shows_andThen (Emission.shows_ofText (toList_mark h level).2) hnext rfl

mutual

/-- Writing a value in compact form writes its tree. -/
theorem shows_emit : ∀ (level : Nat) (v : Value), (emit compact level v).Shows (tree v).chars
  | level, .null => Emission.shows_ofText rfl
  | level, .bool b => Emission.shows_ofText rfl
  | level, .int n => Emission.shows_ofText rfl
  | level, .double x => Emission.shows_ofText rfl
  | level, .str s => Emission.shows_ofText rfl
  | level, .list [] => Emission.shows_ofText rfl
  | level, .list (item :: rest) => by
      rw [emit]
      refine shows_marked rfl (level + 1) ?_
      refine Emission.shows_andThen (shows_emit (level + 1) item) ?_ rfl
      exact shows_emitItems (level + 1) (Emission.shows_ofText (toList_mark rfl level).1) rest
  | level, .map [] => Emission.shows_ofText rfl
  | level, .map ((key, item) :: rest) => by
      rw [emit]
      refine shows_marked rfl (level + 1) ?_
      cases hkey : keyText? key with
      | none => exact Emission.shows_fault _ _ _
      | some name =>
          have hname : (quote name ++ compact.keySeparator).toList = (quote name).toList ++ [':'] :=
            String.toList_append
          refine Emission.shows_andThen (Emission.shows_ofText hname)
            (Emission.shows_andThen (shows_emit (level + 1) item)
              (shows_emitEntries (level + 1) (Emission.shows_ofText (toList_mark rfl level).1) rest)
              rfl) ?_
          simp
  | level, .date d => Emission.shows_ofText rfl
  | level, .moment t => Emission.shows_ofText rfl
  | level, .bytes octets => Emission.shows_ofText rfl
  | level, .set members => Emission.shows_ofText rfl

theorem shows_emitItems (level : Nat) {closing : Emission} (hclosing : closing.Shows [']']) :
    ∀ items : List Value, ((emitItems compact level items).andThen fun _ => closing).Shows
      (Tree.itemChars (itemTrees items))
  | [] => by
      rw [emitItems]
      exact Emission.shows_andThen (Emission.shows_ofText rfl) hclosing rfl
  | item :: rest => by
      rw [emitItems, Emission.andThen_assoc]
      refine shows_marked rfl level ?_
      rw [Emission.andThen_assoc]
      exact Emission.shows_andThen (shows_emit level item) (shows_emitItems level hclosing rest) rfl

theorem shows_emitEntries (level : Nat) {closing : Emission} (hclosing : closing.Shows ['\x7d']) :
    ∀ entries : List (Value × Value),
      ((emitEntries compact level entries).andThen fun _ => closing).Shows
        (Tree.entryChars (entryTrees entries))
  | [] => by
      rw [emitEntries]
      exact Emission.shows_andThen (Emission.shows_ofText rfl) hclosing rfl
  | (key, item) :: rest => by
      rw [emitEntries]
      cases hkey : keyText? key with
      | none => exact Emission.shows_fault "" .typeMismatch _
      | some name =>
          have hname : (compact.itemSeparator ++ compact.newline level ++ quote name ++
              compact.keySeparator).toList = ',' :: ((quote name).toList ++ [':']) := by
            simp [compact, Layout.newline]
          have hitem : (((emit compact level item).andThen fun _ =>
              emitEntries compact level rest).andThen fun _ => closing).Shows
                ((tree item).chars ++ Tree.entryChars (entryTrees rest)) := by
            rw [Emission.andThen_assoc]
            exact Emission.shows_andThen (shows_emit level item)
              (shows_emitEntries level hclosing rest) rfl
          dsimp only
          rw [Emission.andThen_assoc]
          refine Emission.shows_andThen (Emission.shows_ofText hname) hitem ?_
          simp [entryTrees, Tree.entryChars, hkey]

end

section Words

/-- Characters of which numbers are written. -/
def isNumeral (c : Char) : Bool := c.isDigit || c == '.' || c == 'e' || c == '+' || c == '-'

theorem isMark_of_isNumeral {c : Char} (h : isNumeral c = true) : Tree.isMark c = false := by
  by_contra hmark
  simp only [Tree.isMark, Bool.not_eq_false, Bool.or_eq_true, beq_iff_eq] at hmark
  rcases hmark with (((((rfl | rfl) | rfl) | rfl) | rfl) | rfl) | rfl
  all_goals exact absurd h (by decide)

theorem isNumeral_of_isDigit {c : Char} (h : c.isDigit = true) : isNumeral c = true := by
  simp [isNumeral, h]

theorem toList_int (n : Int) :
    (toString n).toList =
      if n < 0 then '-' :: (toString n.natAbs).toList else (toString n.natAbs).toList := by
  cases n with
  | ofNat n =>
      rw [if_neg (by simp)]
      rfl
  | negSucc n =>
      rw [if_pos (Int.negSucc_lt_zero n)]
      change ("-" ++ toString (n + 1)).toList = _
      rw [String.toList_append]
      rfl

theorem toList_nat_ne_nil (n : Nat) : (toString n).toList ≠ [] := by
  rw [Nat.toString_eq_repr, Nat.toList_repr]
  exact Nat.toDigits_ne_nil

/-- Integers with one text are equal. -/
theorem int_text_inj {m n : Int} (h : (toString m).toList = (toString n).toList) : m = n := by
  have hhead : ∀ k : Nat, ∀ tail, (toString k).toList ≠ '-' :: tail := by
    intro k tail heq
    have hdigit := Shortest.isDigit_toString k '-' (by rw [heq]; exact List.mem_cons_self)
    exact absurd hdigit (by decide)
  have habs : ∀ {k l : Nat}, (toString k).toList = (toString l).toList → k = l := by
    intro k l hkl
    have hread := congrArg (fun cs => Nat.ofDigitChars 10 cs 0) hkl
    simpa only [Shortest.ofDigitChars_toString] using hread
  rw [toList_int, toList_int] at h
  by_cases hm : m < 0
  · by_cases hn : n < 0
    · rw [if_pos hm, if_pos hn] at h
      have hsame := habs (List.cons.inj h).2
      omega
    · rw [if_pos hm, if_neg hn] at h
      exact absurd h.symm (hhead _ _)
  · by_cases hn : n < 0
    · rw [if_neg hm, if_pos hn] at h
      exact absurd h (hhead _ _)
    · rw [if_neg hm, if_neg hn] at h
      have hsame := habs h
      omega

/-- An integer is written in digits, behind a sign if it is negative. -/
theorem int_chars (n : Int) : ∀ c ∈ (toString n).toList, c.isDigit = true ∨ c = '-' := by
  intro c hc
  rw [toList_int] at hc
  split at hc
  · rcases List.mem_cons.mp hc with rfl | hin
    · exact Or.inr rfl
    · exact Or.inl (Shortest.isDigit_toString _ c hin)
  · exact Or.inl (Shortest.isDigit_toString _ c hc)

theorem int_ne_nil (n : Int) : (toString n).toList ≠ [] := by
  rw [toList_int]
  split
  · simp
  · exact toList_nat_ne_nil _

/-- A layout has a point or an exponent, and nothing but numerals. -/
theorem layout_chars {digits : List Char} (hdigits : ∀ c ∈ digits, c.isDigit = true)
    (point : ℤ) :
    (∀ c ∈ Shortest.layout digits point, isNumeral c = true) ∧
      ('.' ∈ Shortest.layout digits point ∨ 'e' ∈ Shortest.layout digits point) := by
  have hplain : ∀ c ∈ digits, isNumeral c = true := fun c hc => isNumeral_of_isDigit (hdigits c hc)
  have hzeroes : ∀ count, ∀ c ∈ List.replicate count '0', isNumeral c = true := fun count c hc =>
    isNumeral_of_isDigit (Shortest.isDigit_replicate_zero count c hc)
  have hsize : ∀ n : Nat, ∀ c ∈ (toString n).toList, isNumeral c = true := fun n c hc =>
    isNumeral_of_isDigit (Shortest.isDigit_toString n c hc)
  unfold Shortest.layout
  dsimp only
  split
  · -- an exponent behind the digits, of which all but the first stand behind a point
    refine ⟨List.forall_mem_append.mpr ⟨List.forall_mem_append.mpr ⟨?_, ?_⟩, ?_⟩, Or.inr (by simp)⟩
    · cases digits with
      | nil => exact List.forall_mem_singleton.mpr rfl
      | cons first rest =>
          cases rest with
          | nil => exact hplain
          | cons second rest =>
              obtain ⟨hfirst, hrest⟩ := List.forall_mem_cons.mp hplain
              exact List.forall_mem_cons.mpr ⟨hfirst, List.forall_mem_cons.mpr ⟨rfl, hrest⟩⟩
    · refine List.forall_mem_cons.mpr ⟨rfl, List.forall_mem_singleton.mpr ?_⟩
      split <;> rfl
    · split
      · exact List.forall_mem_cons.mpr ⟨rfl, hsize _⟩
      · exact hsize _
  · split
    · -- zeroes between the point and the digits
      refine ⟨List.forall_mem_cons.mpr ⟨rfl, List.forall_mem_cons.mpr ⟨rfl, ?_⟩⟩, Or.inl (by simp)⟩
      exact List.forall_mem_append.mpr ⟨hzeroes _, hplain⟩
    · split
      · -- zeroes between the digits and the point
        refine ⟨List.forall_mem_append.mpr ⟨?_, ?_⟩, Or.inl (by simp)⟩
        · exact List.forall_mem_append.mpr ⟨hplain, hzeroes _⟩
        · exact List.forall_mem_cons.mpr ⟨rfl, List.forall_mem_singleton.mpr rfl⟩
      · refine ⟨List.forall_mem_append.mpr ⟨?_, ?_⟩, Or.inl (by simp)⟩
        · exact fun c hc => hplain c (List.mem_of_mem_take hc)
        · exact List.forall_mem_cons.mpr ⟨rfl, fun c hc => hplain c (List.mem_of_mem_drop hc)⟩

theorem body_chars (significand : Nat) (exponent : ℤ) :
    (∀ c ∈ Shortest.body significand exponent, isNumeral c = true) ∧
      ('.' ∈ Shortest.body significand exponent ∨ 'e' ∈ Shortest.body significand exponent) := by
  unfold Shortest.body
  by_cases hzero : significand = 0
  · rw [if_pos hzero]
    exact ⟨List.all_eq_true.mp (by decide), Or.inl (by decide)⟩
  · rw [if_neg hzero]
    exact layout_chars (Shortest.trimmed_digits _ (Nat.pos_of_ne_zero hzero)).1 _

/-- A finite double is written in numerals, with a point or an exponent. -/
theorem finite_chars {x : Binary64} (hx : x.isFinite = true) :
    (∀ c ∈ (doubleText x).toList, isNumeral c = true) ∧
      ('.' ∈ (doubleText x).toList ∨ 'e' ∈ (doubleText x).toList) := by
  cases x with
  | infinite negative => exact absurd hx (by simp [Binary64.isFinite])
  | nan => exact absurd hx (by simp [Binary64.isFinite])
  | finite negative significand exponent =>
      obtain ⟨hchars, hpoint⟩ := body_chars significand exponent
      rw [doubleText, Binary64.text_finite, String.toList_ofList]
      · split
        · refine ⟨?_, ?_⟩
          · intro c hc
            rcases List.mem_cons.mp hc with rfl | hin
            · rfl
            · exact hchars c hin
          · rcases hpoint with hdot | hexp
            · exact Or.inl (List.mem_cons_of_mem _ hdot)
            · exact Or.inr (List.mem_cons_of_mem _ hexp)
        · exact ⟨hchars, hpoint⟩
      · intro h
        exact absurd h (by simp)
      · intro negative h
        exact absurd h (by simp)

theorem word_of_numerals {word : List Char} (hne : word ≠ [])
    (h : ∀ c ∈ word, isNumeral c = true) : Tree.Word word :=
  ⟨hne, fun c hc => isMark_of_isNumeral (h c hc)⟩

theorem word_double (x : Binary64) : Tree.Word (doubleText x).toList := by
  cases hx : x.isFinite with
  | true =>
      obtain ⟨hchars, hpoint⟩ := finite_chars hx
      refine word_of_numerals ?_ hchars
      intro hnil
      rw [hnil] at hpoint
      exact absurd hpoint (by simp)
  | false =>
      cases x with
      | finite negative significand exponent => exact absurd hx (by simp [Binary64.isFinite])
      | infinite negative =>
          cases negative with
          | false => exact Tree.word_of_all (by decide) (by decide)
          | true => exact Tree.word_of_all (by decide) (by decide)
      | nan => exact Tree.word_of_all (by decide) (by decide)

theorem word_int (n : Int) : Tree.Word (toString n).toList := by
  refine word_of_numerals (int_ne_nil n) ?_
  intro c hc
  rcases int_chars n c hc with hdigit | rfl
  · exact isNumeral_of_isDigit hdigit
  · rfl

end Words

mutual

/-- The tree of a value can be read from its text. -/
theorem legible_tree : ∀ v : Value, (tree v).Legible
  | .null => Tree.word_of_all (by decide) (by decide)
  | .bool true => Tree.word_of_all (by decide) (by decide)
  | .bool false => Tree.word_of_all (by decide) (by decide)
  | .int n => word_int n
  | .double x => word_double x
  | .str s => trivial
  | .list items => legible_itemTrees items
  | .map entries => legible_entryTrees entries
  | .date d => trivial
  | .moment t => trivial
  | .bytes octets => trivial
  | .set members => trivial

theorem legible_itemTrees : ∀ items : List Value, Tree.LegibleItems (itemTrees items)
  | [] => trivial
  | item :: rest => ⟨legible_tree item, legible_itemTrees rest⟩

theorem legible_entryTrees : ∀ entries : List (Value × Value),
    Tree.LegibleEntries (entryTrees entries)
  | [] => trivial
  | (_, item) :: rest => ⟨legible_tree item, legible_entryTrees rest⟩

end

/-- The compact text of a value is that of its tree. -/
theorem toList_of_render {v : Value} {text : String} (h : render compact v = .ok text) :
    text.toList = (tree v).chars := by
  unfold render Emission.complete at h
  cases hfault : (emit compact 0 v).fault with
  | some fault =>
      rw [hfault] at h
      exact absurd h (by simp)
  | none =>
      rw [hfault] at h
      rw [← Except.ok.inj h]
      exact shows_emit 0 v hfault

/-- Values with one compact text show one tree. -/
theorem tree_eq_of_render {v w : Value} {text : String} (hv : render compact v = .ok text)
    (hw : render compact w = .ok text) : tree v = tree w := by
  refine Tree.chars_inj (legible_tree v) (legible_tree w) ?_
  rw [← toList_of_render hv, ← toList_of_render hw]

section Inversion

/-- A word that is no number: its first letter is no numeral. -/
theorem int_ne_word {n : Int} {c : Char} {tail : List Char} (hc : isNumeral c = false) :
    (toString n).toList ≠ c :: tail := by
  intro h
  rcases int_chars n c (by rw [h]; exact List.mem_cons_self) with hdigit | rfl
  · rw [isNumeral_of_isDigit hdigit] at hc
    exact absurd hc (by decide)
  · exact absurd hc (by decide)

theorem double_ne_word {x : Binary64} (hx : x.isMachine = true) {c : Char} {tail : List Char}
    (hc : isNumeral c = false) : (doubleText x).toList ≠ c :: tail := by
  intro h
  have hchar := (finite_chars (Binary64.isFinite_of_isMachine hx)).1 c
    (by rw [h]; exact List.mem_cons_self)
  rw [hchar] at hc
  exact absurd hc (by decide)

/-- No text is that of an integer and of a double. -/
theorem int_ne_double {n : Int} {x : Binary64} (hx : x.isMachine = true) :
    (toString n).toList ≠ (doubleText x).toList := by
  intro h
  have hpoint := (finite_chars (Binary64.isFinite_of_isMachine hx)).2
  rw [← h] at hpoint
  rcases hpoint with hdot | hexp
  · rcases int_chars n _ hdot with hdigit | hminus
    · exact absurd hdigit (by decide)
    · exact absurd hminus (by decide)
  · rcases int_chars n _ hexp with hdigit | hminus
    · exact absurd hdigit (by decide)
    · exact absurd hminus (by decide)

theorem doubleText_of_isMachine {x : Binary64} (hx : x.isMachine = true) :
    doubleText x = x.text := by
  cases x with
  | finite negative significand exponent => rfl
  | infinite negative => exact absurd hx (by simp [Binary64.isMachine])
  | nan => exact absurd hx (by simp [Binary64.isMachine])

/-- The values that are written as a bare word. -/
theorem bare_cases {v : Value} (hv : v.isJson = true) {word : List Char} (h : tree v = .bare word) :
    (v = .null ∧ word = "null".toList) ∨ (v = .bool true ∧ word = "true".toList) ∨
      (v = .bool false ∧ word = "false".toList) ∨
      (∃ n, v = .int n ∧ word = (toString n).toList) ∨
      ∃ x, v = .double x ∧ x.isMachine = true ∧ word = (doubleText x).toList := by
  cases v with
  | null => exact Or.inl ⟨rfl, (Tree.bare.inj h).symm⟩
  | bool b =>
      cases b with
      | true => exact Or.inr (Or.inl ⟨rfl, (Tree.bare.inj h).symm⟩)
      | false => exact Or.inr (Or.inr (Or.inl ⟨rfl, (Tree.bare.inj h).symm⟩))
  | int n => exact Or.inr (Or.inr (Or.inr (Or.inl ⟨n, rfl, (Tree.bare.inj h).symm⟩)))
  | double x => exact Or.inr (Or.inr (Or.inr (Or.inr ⟨x, rfl, hv, (Tree.bare.inj h).symm⟩)))
  | _ => exact absurd h (by simp [tree])

/-- Numbers, truth values and null are determined by their words. -/
theorem bare_inj {v w : Value} (hv : v.isJson = true) (hw : w.isJson = true) {word : List Char}
    (hvword : tree v = .bare word) (hwword : tree w = .bare word) : v = w := by
  -- the words of null and of the truth values start with letters that no number has
  have hletters : isNumeral 'n' = false ∧ isNumeral 't' = false ∧ isNumeral 'f' = false := by
    decide
  rcases bare_cases hv hvword with
    ⟨rfl, hm⟩ | ⟨rfl, hm⟩ | ⟨rfl, hm⟩ | ⟨m, rfl, hm⟩ | ⟨x, rfl, hx, hm⟩
  · rcases bare_cases hw hwword with
      ⟨rfl, hn⟩ | ⟨rfl, hn⟩ | ⟨rfl, hn⟩ | ⟨n, rfl, hn⟩ | ⟨y, rfl, hy, hn⟩
    · rfl
    · exact absurd (hm.symm.trans hn) (by decide)
    · exact absurd (hm.symm.trans hn) (by decide)
    · exact absurd (hn.symm.trans hm) (int_ne_word hletters.1)
    · exact absurd (hn.symm.trans hm) (double_ne_word hy hletters.1)
  · rcases bare_cases hw hwword with
      ⟨rfl, hn⟩ | ⟨rfl, hn⟩ | ⟨rfl, hn⟩ | ⟨n, rfl, hn⟩ | ⟨y, rfl, hy, hn⟩
    · exact absurd (hm.symm.trans hn) (by decide)
    · rfl
    · exact absurd (hm.symm.trans hn) (by decide)
    · exact absurd (hn.symm.trans hm) (int_ne_word hletters.2.1)
    · exact absurd (hn.symm.trans hm) (double_ne_word hy hletters.2.1)
  · rcases bare_cases hw hwword with
      ⟨rfl, hn⟩ | ⟨rfl, hn⟩ | ⟨rfl, hn⟩ | ⟨n, rfl, hn⟩ | ⟨y, rfl, hy, hn⟩
    · exact absurd (hm.symm.trans hn) (by decide)
    · exact absurd (hm.symm.trans hn) (by decide)
    · rfl
    · exact absurd (hn.symm.trans hm) (int_ne_word hletters.2.2)
    · exact absurd (hn.symm.trans hm) (double_ne_word hy hletters.2.2)
  · rcases bare_cases hw hwword with
      ⟨rfl, hn⟩ | ⟨rfl, hn⟩ | ⟨rfl, hn⟩ | ⟨n, rfl, hn⟩ | ⟨y, rfl, hy, hn⟩
    · exact absurd (hm.symm.trans hn) (int_ne_word hletters.1)
    · exact absurd (hm.symm.trans hn) (int_ne_word hletters.2.1)
    · exact absurd (hm.symm.trans hn) (int_ne_word hletters.2.2)
    · rw [int_text_inj (hm.symm.trans hn)]
    · exact absurd (hm.symm.trans hn) (int_ne_double hy)
  · rcases bare_cases hw hwword with
      ⟨rfl, hn⟩ | ⟨rfl, hn⟩ | ⟨rfl, hn⟩ | ⟨n, rfl, hn⟩ | ⟨y, rfl, hy, hn⟩
    · exact absurd (hm.symm.trans hn) (double_ne_word hx hletters.1)
    · exact absurd (hm.symm.trans hn) (double_ne_word hx hletters.2.1)
    · exact absurd (hm.symm.trans hn) (double_ne_word hx hletters.2.2)
    · exact absurd (hn.symm.trans hm) (int_ne_double hx)
    · have htext := hm.symm.trans hn
      rw [doubleText_of_isMachine hx, doubleText_of_isMachine hy, String.toList_inj] at htext
      rw [Binary64.text_inj hx hy htext]

/-- Dates, octets and sets are written as texts too, but no value of JSON has them. -/
theorem str_of_tree {v : Value} (hv : v.isJson = true) {s : String} (h : .text s = tree v) :
    v = .str s := by
  cases v with
  | str t => rw [Tree.text.inj h]
  | date d => exact absurd hv (by simp [Value.isJson])
  | moment t => exact absurd hv (by simp [Value.isJson])
  | bytes octets => exact absurd hv (by simp [Value.isJson])
  | set members => exact absurd hv (by simp [Value.isJson])
  | _ => exact absurd h (by simp [tree])

theorem list_of_tree {v : Value} {items : List Tree} (h : .list items = tree v) :
    ∃ values, v = .list values ∧ items = itemTrees values := by
  cases v with
  | list values => exact ⟨values, rfl, Tree.list.inj h⟩
  | _ => exact absurd h (by simp [tree])

theorem map_of_tree {v : Value} {entries : List (String × Tree)} (h : .map entries = tree v) :
    ∃ values, v = .map values ∧ entries = entryTrees values := by
  cases v with
  | map values => exact ⟨values, rfl, Tree.map.inj h⟩
  | _ => exact absurd h (by simp [tree])

mutual

/-- A value of JSON is determined by its tree. -/
theorem tree_inj : ∀ (v w : Value), v.isJson = true → w.isJson = true → tree v = tree w → v = w
  | .null, w, hv, hw, h => bare_inj hv hw rfl h.symm
  | .bool b, w, hv, hw, h => bare_inj hv hw rfl h.symm
  | .int n, w, hv, hw, h => bare_inj hv hw rfl h.symm
  | .double x, w, hv, hw, h => bare_inj hv hw rfl h.symm
  | .str s, w, hv, hw, h => (str_of_tree hw h).symm
  | .list items, w, hv, hw, h => by
      obtain ⟨items', rfl, hitems⟩ := list_of_tree h
      rw [itemTrees_inj items items' hv hw hitems]
  | .map entries, w, hv, hw, h => by
      obtain ⟨entries', rfl, hentries⟩ := map_of_tree h
      rw [entryTrees_inj entries entries' hv hw hentries]
  | .date d, w, hv, hw, h => absurd hv (by simp [Value.isJson])
  | .moment t, w, hv, hw, h => absurd hv (by simp [Value.isJson])
  | .bytes octets, w, hv, hw, h => absurd hv (by simp [Value.isJson])
  | .set members, w, hv, hw, h => absurd hv (by simp [Value.isJson])

theorem itemTrees_inj : ∀ (items items' : List Value), Value.itemsJson items = true →
    Value.itemsJson items' = true → itemTrees items = itemTrees items' → items = items'
  | [], items', _, _, h => by
      cases items' with
      | nil => rfl
      | cons item' rest' => exact absurd h (by simp [itemTrees])
  | item :: rest, items', hv, hw, h => by
      cases items' with
      | nil => exact absurd h (by simp [itemTrees])
      | cons item' rest' =>
          simp only [Value.itemsJson, Bool.and_eq_true] at hv hw
          obtain ⟨hitem, hrest⟩ := List.cons.inj h
          rw [tree_inj item item' hv.1 hw.1 hitem, itemTrees_inj rest rest' hv.2 hw.2 hrest]

theorem entryTrees_inj : ∀ (entries entries' : List (Value × Value)),
    Value.entriesJson entries = true → Value.entriesJson entries' = true →
    entryTrees entries = entryTrees entries' → entries = entries'
  | [], entries', _, _, h => by
      cases entries' with
      | nil => rfl
      | cons entry' rest' => exact absurd h (by simp [entryTrees])
  | (k, item) :: rest, entries', hv, hw, h => by
      cases entries' with
      | nil => exact absurd h (by simp [entryTrees])
      | cons entry' rest' =>
          obtain ⟨key, _, heq, -, hitem, hrest⟩ := Value.entriesJson_cons hv
          obtain ⟨rfl, rfl⟩ := Prod.mk.inj heq
          obtain ⟨key', item', rfl, -, hitem', hrest'⟩ := Value.entriesJson_cons hw
          obtain ⟨hfirst, htail⟩ := List.cons.inj h
          obtain ⟨hkey, htree⟩ := Prod.mk.inj hfirst
          obtain rfl : key = key' := hkey
          rw [tree_inj item item' hitem hitem' htree, entryTrees_inj rest rest' hrest hrest' htail]

end

end Inversion

end Json

end SchemaGraph
