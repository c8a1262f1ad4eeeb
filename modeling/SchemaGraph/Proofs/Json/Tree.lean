import SchemaGraph.Proofs.Json.Strings

/-!
# The tree behind a JSON text

A compact JSON text shows a tree: bare words, quoted texts, lists and mappings with texts as keys.
The text determines the tree, also when more text follows.  Values of different kinds may have one
tree: a date and its text, or a number and its text as keys.
-/

namespace SchemaGraph

namespace Json

/-- What a JSON text shows. -/
inductive Tree where
  | bare (word : List Char)
  | text (s : String)
  | list (items : List Tree)
  | map (entries : List (String × Tree))
  deriving Inhabited

namespace Tree

mutual

/-- The compact text of a tree. -/
def chars : Tree → List Char
  | .bare word => word
  | .text s => (quote s).toList
  | .list [] => ['[', ']']
  | .list (item :: rest) => '[' :: (chars item ++ itemChars rest)
  | .map [] => ['\x7b', '\x7d']
  | .map ((name, item) :: rest) =>
      '\x7b' :: ((quote name).toList ++ ':' :: (chars item ++ entryChars rest))

/-- The text of the items of a list after its first, with the closing bracket. -/
def itemChars : List Tree → List Char
  | [] => [']']
  | item :: rest => ',' :: (chars item ++ itemChars rest)

/-- The text of the entries of a mapping after its first, with the closing brace. -/
def entryChars : List (String × Tree) → List Char
  | [] => ['\x7d']
  | (name, item) :: rest =>
      ',' :: ((quote name).toList ++ ':' :: (chars item ++ entryChars rest))

end

/-- Characters that stand between the parts of a text. -/
def isMark (c : Char) : Bool :=
  c == '"' || c == ',' || c == ':' || c == '[' || c == ']' || c == '\x7b' || c == '\x7d'

/-- Words that a text can be cut into. -/
def Word (word : List Char) : Prop := word ≠ [] ∧ ∀ c ∈ word, isMark c = false

theorem word_of_all {word : List Char} (hne : word ≠ [])
    (h : word.all (fun c => !isMark c) = true) : Word word :=
  ⟨hne, fun c hc => by simpa using List.all_eq_true.mp h c hc⟩

mutual

/-- Whether all bare words of a tree are words. -/
def Legible : Tree → Prop
  | .bare word => Word word
  | .text _ => True
  | .list items => LegibleItems items
  | .map entries => LegibleEntries entries

/-- Whether all bare words in a list of trees are words. -/
def LegibleItems : List Tree → Prop
  | [] => True
  | item :: rest => Legible item ∧ LegibleItems rest

/-- Whether all bare words in the entries of a mapping are words. -/
def LegibleEntries : List (String × Tree) → Prop
  | [] => True
  | (_, item) :: rest => Legible item ∧ LegibleEntries rest

end

/-- A text that starts with a mark, or is empty. -/
def Marked (rest : List Char) : Prop := ∀ c tail, rest = c :: tail → isMark c = true

theorem marked_cons {c : Char} (h : isMark c = true) (rest : List Char) : Marked (c :: rest) := by
  intro d tail heq
  rw [← (List.cons.inj heq).1]
  exact h

theorem marked_nil : Marked [] := by
  intro c tail heq
  exact absurd heq (by simp)

theorem marked_itemChars (items : List Tree) (rest : List Char) :
    Marked (itemChars items ++ rest) := by
  cases items with
  | nil => exact marked_cons rfl _
  | cons item items => exact marked_cons rfl _

theorem marked_entryChars (entries : List (String × Tree)) (rest : List Char) :
    Marked (entryChars entries ++ rest) := by
  cases entries with
  | nil => exact marked_cons rfl _
  | cons entry entries => exact marked_cons rfl _

/-- A word ends at the first mark. -/
theorem word_append_inj {word word' rest rest' : List Char} (hword : ∀ c ∈ word, isMark c = false)
    (hword' : ∀ c ∈ word', isMark c = false) (hrest : Marked rest) (hrest' : Marked rest')
    (h : word ++ rest = word' ++ rest') : word = word' ∧ rest = rest' := by
  induction word generalizing word' with
  | nil =>
      cases word' with
      | nil => exact ⟨rfl, h⟩
      | cons c word' =>
          have hmark := hrest c _ h
          rw [hword' c List.mem_cons_self] at hmark
          exact absurd hmark (by decide)
  | cons c word ih =>
      cases word' with
      | nil =>
          have hmark := hrest' c _ h.symm
          rw [hword c List.mem_cons_self] at hmark
          exact absurd hmark (by decide)
      | cons c' word' =>
          obtain ⟨rfl, htail⟩ := List.cons.inj h
          obtain ⟨rfl, rfl⟩ := ih (fun d hd => hword d (List.mem_cons_of_mem _ hd))
            (fun d hd => hword' d (List.mem_cons_of_mem _ hd)) htail
          exact ⟨rfl, rfl⟩

/-- The mark with which a text starts, if it starts with one. -/
def opened : List Char → Option Char
  | c :: _ => if isMark c then some c else none
  | [] => none

/-- The mark with which the text of a tree starts; a bare word has none. -/
def opening : Tree → Option Char
  | .bare _ => none
  | .text _ => some '"'
  | .list _ => some '['
  | .map _ => some '\x7b'

theorem opened_chars {t : Tree} (h : t.Legible) (rest : List Char) :
    opened (t.chars ++ rest) = t.opening := by
  cases t with
  | bare word =>
      obtain ⟨hne, hmarks⟩ := h
      obtain ⟨c, tail, rfl⟩ := List.exists_cons_of_ne_nil hne
      change (if isMark c = true then some c else none) = none
      rw [hmarks c List.mem_cons_self]
      rfl
  | text s =>
      rw [chars, toList_quote]
      rfl
  | list items =>
      cases items with
      | nil => rfl
      | cons item others => rfl
  | map entries =>
      cases entries with
      | nil => rfl
      | cons entry others => rfl

/-- Trees whose texts start alike are of one kind. -/
theorem opening_eq {t u : Tree} (ht : t.Legible) (hu : u.Legible) {rest rest' : List Char}
    (h : t.chars ++ rest = u.chars ++ rest') : t.opening = u.opening := by
  rw [← opened_chars ht rest, h, opened_chars hu]

theorem ne_closing {t : Tree} (ht : t.Legible) {rest rest' : List Char} :
    t.chars ++ rest ≠ ']' :: rest' := by
  intro h
  have hopen := opened_chars ht rest
  rw [h] at hopen
  cases t with
  | bare word => exact absurd hopen (by simp [opened, opening, isMark])
  | text s => exact absurd hopen (by simp [opened, opening, isMark])
  | list items => exact absurd hopen (by simp [opened, opening, isMark])
  | map entries => exact absurd hopen (by simp [opened, opening, isMark])

/-- Only a bare word starts without a mark. -/
theorem bare_of_opening {t : Tree} (h : none = t.opening) : ∃ word, t = .bare word := by
  cases t with
  | bare word => exact ⟨word, rfl⟩
  | text s => exact absurd h (by simp [opening])
  | list items => exact absurd h (by simp [opening])
  | map entries => exact absurd h (by simp [opening])

/-- Only a text starts with a quotation mark. -/
theorem text_of_opening {t : Tree} (h : some '"' = t.opening) : ∃ s, t = .text s := by
  cases t with
  | bare word => exact absurd h (by simp [opening])
  | text s => exact ⟨s, rfl⟩
  | list items => exact absurd h (by simp [opening])
  | map entries => exact absurd h (by simp [opening])

/-- Only a list starts with a bracket. -/
theorem list_of_opening {t : Tree} (h : some '[' = t.opening) : ∃ items, t = .list items := by
  cases t with
  | bare word => exact absurd h (by simp [opening])
  | text s => exact absurd h (by simp [opening])
  | list items => exact ⟨items, rfl⟩
  | map entries => exact absurd h (by simp [opening])

/-- Only a mapping starts with a brace. -/
theorem map_of_opening {t : Tree} (h : some '\x7b' = t.opening) :
    ∃ entries, t = .map entries := by
  cases t with
  | bare word => exact absurd h (by simp [opening])
  | text s => exact absurd h (by simp [opening])
  | list items => exact absurd h (by simp [opening])
  | map entries => exact ⟨entries, rfl⟩

mutual

/-- A text determines the tree that it starts with. -/
theorem chars_append_inj : ∀ (t u : Tree) {rest rest' : List Char}, t.Legible → u.Legible →
    Marked rest → Marked rest' → t.chars ++ rest = u.chars ++ rest' → t = u ∧ rest = rest'
  -- the first character of the two texts settles the kind of `u`
  | .bare word, u, rest, rest', ht, hu, hrest, hrest', h => by
      obtain ⟨word', rfl⟩ := bare_of_opening (opening_eq ht hu h)
      obtain ⟨rfl, rfl⟩ := word_append_inj ht.2 hu.2 hrest hrest' h
      exact ⟨rfl, rfl⟩
  | .text s, u, rest, rest', ht, hu, _, _, h => by
      obtain ⟨s', rfl⟩ := text_of_opening (opening_eq ht hu h)
      obtain ⟨rfl, rfl⟩ := quote_append_inj h
      exact ⟨rfl, rfl⟩
  | .list [], u, rest, rest', ht, hu, _, _, h => by
      obtain ⟨items', rfl⟩ := list_of_opening (opening_eq ht hu h)
      cases items' with
      | nil => exact ⟨rfl, List.append_cancel_left h⟩
      | cons item' others' =>
          simp only [chars, List.cons_append, List.nil_append, List.append_assoc,
            List.cons.injEq, true_and] at h
          exact absurd h.symm (ne_closing hu.1)
  | .list (item :: others), u, rest, rest', ht, hu, _, _, h => by
      obtain ⟨items', rfl⟩ := list_of_opening (opening_eq ht hu h)
      cases items' with
      | nil =>
          simp only [chars, List.cons_append, List.nil_append, List.append_assoc,
            List.cons.injEq, true_and] at h
          exact absurd h (ne_closing ht.1)
      | cons item' others' =>
          simp only [chars, List.cons_append, List.append_assoc, List.cons.injEq,
            true_and] at h
          -- what follows an item is a comma or a bracket, so the word of a bare item ends there
          obtain ⟨rfl, htails⟩ := chars_append_inj item item' ht.1 hu.1
            (marked_itemChars _ _) (marked_itemChars _ _) h
          obtain ⟨rfl, rfl⟩ := itemChars_append_inj others others' ht.2 hu.2 htails
          exact ⟨rfl, rfl⟩
  | .map [], u, rest, rest', ht, hu, _, _, h => by
      obtain ⟨entries', rfl⟩ := map_of_opening (opening_eq ht hu h)
      cases entries' with
      | nil => exact ⟨rfl, List.append_cancel_left h⟩
      | cons entry' others' => simp [chars, toList_quote] at h
  | .map ((name, item) :: others), u, rest, rest', ht, hu, _, _, h => by
      obtain ⟨entries', rfl⟩ := map_of_opening (opening_eq ht hu h)
      cases entries' with
      | nil => simp [chars, toList_quote] at h
      | cons entry' others' =>
          obtain ⟨name', item'⟩ := entry'
          simp only [chars, List.cons_append, List.append_assoc, List.cons.injEq,
            true_and] at h
          obtain ⟨rfl, hitems⟩ := quote_append_inj h
          obtain ⟨rfl, htails⟩ := chars_append_inj item item' ht.1 hu.1
            (marked_entryChars _ _) (marked_entryChars _ _) (List.cons.inj hitems).2
          obtain ⟨rfl, rfl⟩ := entryChars_append_inj others others' ht.2 hu.2 htails
          exact ⟨rfl, rfl⟩

theorem itemChars_append_inj : ∀ (items items' : List Tree) {rest rest' : List Char},
    LegibleItems items → LegibleItems items' →
    itemChars items ++ rest = itemChars items' ++ rest' → items = items' ∧ rest = rest'
  | [], items', rest, rest', _, _, h => by
      cases items' with
      | nil => exact ⟨rfl, List.append_cancel_left h⟩
      | cons item' others' => simp [itemChars] at h
  | item :: others, items', rest, rest', ht, hu, h => by
      cases items' with
      | nil => simp [itemChars] at h
      | cons item' others' =>
          simp only [itemChars, List.cons_append, List.append_assoc, List.cons.injEq,
            true_and] at h
          obtain ⟨rfl, htails⟩ := chars_append_inj item item' ht.1 hu.1
            (marked_itemChars _ _) (marked_itemChars _ _) h
          obtain ⟨rfl, rfl⟩ := itemChars_append_inj others others' ht.2 hu.2 htails
          exact ⟨rfl, rfl⟩

theorem entryChars_append_inj : ∀ (entries entries' : List (String × Tree))
    {rest rest' : List Char}, LegibleEntries entries → LegibleEntries entries' →
    entryChars entries ++ rest = entryChars entries' ++ rest' →
    entries = entries' ∧ rest = rest'
  | [], entries', rest, rest', _, _, h => by
      cases entries' with
      | nil => exact ⟨rfl, List.append_cancel_left h⟩
      | cons entry' others' => simp [entryChars] at h
  | (name, item) :: others, entries', rest, rest', ht, hu, h => by
      cases entries' with
      | nil => simp [entryChars] at h
      | cons entry' others' =>
          obtain ⟨name', item'⟩ := entry'
          simp only [entryChars, List.cons_append, List.append_assoc, List.cons.injEq,
            true_and] at h
          obtain ⟨rfl, hitems⟩ := quote_append_inj h
          obtain ⟨rfl, htails⟩ := chars_append_inj item item' ht.1 hu.1
            (marked_entryChars _ _) (marked_entryChars _ _) (List.cons.inj hitems).2
          obtain ⟨rfl, rfl⟩ := entryChars_append_inj others others' ht.2 hu.2 htails
          exact ⟨rfl, rfl⟩

end

/-- Trees with one text are equal. -/
theorem chars_inj {t u : Tree} (ht : t.Legible) (hu : u.Legible) (h : t.chars = u.chars) :
    t = u := by
  have happend : t.chars ++ [] = u.chars ++ [] := by rw [h]
  exact (chars_append_inj t u ht hu marked_nil marked_nil happend).1

end Tree

end Json

end SchemaGraph
