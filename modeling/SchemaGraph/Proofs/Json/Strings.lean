import SchemaGraph.Json.Reader
import SchemaGraph.Json.Writer

/-!
# JSON strings read back

Reading undoes quoting: the reader takes a quoted text apart into the text and what stands after
the closing quote.  So a quoted text is known from any text that starts with it.
-/

namespace SchemaGraph

namespace Json

/-- Four digits to base sixteen, most significant first. -/
def fourDigits (n : Nat) : List Char :=
  [Nat.digitChar (n / 4096), Nat.digitChar (n / 256 % 16), Nat.digitChar (n / 16 % 16),
    Nat.digitChar (n % 16)]

theorem hexDigits_step {n : Nat} (h : 16 ≤ n) :
    Quoted.hexDigits n = Quoted.hexDigits (n / 16) ++ [Nat.digitChar (n % 16)] :=
  Nat.toDigits_of_base_le (by decide) h

theorem hexDigits_one {n : Nat} (h : n < 16) : Quoted.hexDigits n = [Nat.digitChar n] :=
  Nat.toDigits_of_lt_base h

theorem hex_four {n : Nat} (h : n < 0x10000) : Quoted.hex 4 n = fourDigits n := by
  have hdiv : n / 16 / 16 = n / 256 := Nat.div_div_eq_div_mul n 16 16
  have hdiv' : n / 256 / 16 = n / 4096 := Nat.div_div_eq_div_mul n 256 16
  unfold Quoted.hex fourDigits
  dsimp only
  by_cases hone : n < 16
  · rw [hexDigits_one hone, show n / 4096 = 0 by omega, show n / 256 % 16 = 0 by omega,
      show n / 16 % 16 = 0 by omega, show n % 16 = n by omega]
    rfl
  · rw [hexDigits_step (by omega)]
    by_cases htwo : n / 16 < 16
    · rw [hexDigits_one htwo, show n / 4096 = 0 by omega, show n / 256 % 16 = 0 by omega,
        show n / 16 % 16 = n / 16 by omega]
      rfl
    · rw [hexDigits_step (by omega), hdiv]
      by_cases hthree : n / 256 < 16
      · rw [hexDigits_one hthree, show n / 4096 = 0 by omega,
          show n / 256 % 16 = n / 256 by omega]
        rfl
      · rw [hexDigits_step (by omega), hdiv', hexDigits_one (by omega)]
        rfl

theorem hexValue_digitChar : ∀ d < 16, hexValue? (Nat.digitChar d) = some d := by
  decide

/-- Four digits are read as the code unit that they write. -/
theorem unit_fourDigits {n : Nat} (h : n < 0x10000) :
    unit? (Nat.digitChar (n / 4096)) (Nat.digitChar (n / 256 % 16))
      (Nat.digitChar (n / 16 % 16)) (Nat.digitChar (n % 16)) = some n := by
  unfold unit?
  rw [hexValue_digitChar _ (by omega), hexValue_digitChar _ (by omega),
    hexValue_digitChar _ (by omega), hexValue_digitChar _ (by omega)]
  simp only [Option.bind_eq_bind, Option.bind_some, Option.pure_def, Option.some.injEq]
  omega

theorem unitEscape_eq {n : Nat} (h : n < 0x10000) :
    unitEscape n = '\\' :: 'u' :: fourDigits n := by
  unfold unitEscape
  rw [hex_four h]

/-- Where an escape by code unit starts, it is complete; this is what the reader looks ahead for. -/
def CompleteUnit (text : List Char) : Prop :=
  ∀ a b c d rest, text = '\\' :: 'u' :: a :: b :: c :: d :: rest → (unit? a b c d).isSome = true

theorem completeUnit_of_head_ne {c : Char} (h : c ≠ '\\') (rest : List Char) :
    CompleteUnit (c :: rest) := by
  intro a b c' d tail heq
  exact absurd (List.cons.inj heq).1 h

theorem completeUnit_short {c : Char} (h : c ≠ 'u') (rest : List Char) :
    CompleteUnit ('\\' :: c :: rest) := by
  intro a b c' d tail heq
  exact absurd (List.cons.inj (List.cons.inj heq).2).1 h

theorem completeUnit_unit {n : Nat} (h : n < 0x10000) (rest : List Char) :
    CompleteUnit (unitEscape n ++ rest) := by
  intro a b c d tail heq
  rw [unitEscape_eq h] at heq
  simp only [fourDigits, List.cons_append, List.nil_append, List.cons.injEq, true_and] at heq
  obtain ⟨rfl, rfl, rfl, rfl, -⟩ := heq
  rw [unit_fourDigits h]
  rfl

/-- A character that is no surrogate. -/
theorem not_surrogate (c : Char) : ¬ (0xD800 ≤ c.toNat ∧ c.toNat < 0xE000) := by
  intro hhalf
  rcases c.valid with hlow | hhigh
  · have hbelow : c.toNat < 0xD800 := hlow
    omega
  · have habove : 0xDFFF < c.toNat := hhigh.1
    omega

/-- A code unit that stands for a character by itself is read as that character. -/
theorem stringBody_unit {c : Char} (h : c.toNat < 0x10000) (done : List Char) {rest : List Char}
    (hrest : CompleteUnit rest) :
    stringBody done (unitEscape c.toNat ++ rest) = stringBody (c :: done) rest := by
  have hlone := not_surrogate c
  have hloneUnit : loneUnit c.toNat = c := by
    unfold loneUnit
    rw [if_neg hlone, Char.ofNat_toNat]
  have hpair : ∀ low, pair? c.toNat low = none := by
    intro low
    unfold pair?
    rw [if_neg]
    omega
  rw [unitEscape_eq h]
  unfold fourDigits
  simp only [List.cons_append, List.nil_append]
  by_cases hnext : ∃ e f g k tail, rest = '\\' :: 'u' :: e :: f :: g :: k :: tail
  · obtain ⟨e, f, g, k, tail, rfl⟩ := hnext
    obtain ⟨low, hlow⟩ := Option.isSome_iff_exists.mp (hrest e f g k tail rfl)
    rw [stringBody, unit_fourDigits h, hlow]
    simp only [hpair, hloneUnit]
  · rw [stringBody]
    · rw [unit_fourDigits h]
      simp only [hloneUnit]
    · intro e f g k tail heq
      exact hnext ⟨e, f, g, k, tail, heq⟩

theorem char_eq_of_toNat {c : Char} {n : Nat} (h : c.toNat = n) : Char.ofNat n = c := by
  rw [← h, Char.ofNat_toNat]

theorem toNat_lt (c : Char) : c.toNat < 0x110000 := by
  rcases c.valid with hlow | hhigh
  · have hbelow : c.toNat < 0xD800 := hlow
    omega
  · exact hhigh.2

/-- Two code units that form a pair are read as its character. -/
theorem stringBody_units {high low : Nat} {c : Char} (hhigh : high < 0x10000)
    (hlow : low < 0x10000) (hpair : pair? high low = some c) (done rest : List Char) :
    stringBody done (unitEscape high ++ (unitEscape low ++ rest)) =
      stringBody (c :: done) rest := by
  rw [unitEscape_eq hhigh, unitEscape_eq hlow]
  unfold fourDigits
  simp only [List.cons_append, List.nil_append]
  rw [stringBody, unit_fourDigits hhigh, unit_fourDigits hlow]
  simp only [hpair]

/-- The two code units of a character beyond the first plane form a pair. -/
theorem pair_units {c : Char} {high low : Nat} (h : 0x10000 ≤ c.toNat)
    (hhigh : high = 0xD800 + (c.toNat - 0x10000) / 0x400)
    (hlow : low = 0xDC00 + (c.toNat - 0x10000) % 0x400) :
    high < 0xDC00 ∧ low < 0xE000 ∧ pair? high low = some c := by
  have hbound := toNat_lt c
  refine ⟨by omega, by omega, ?_⟩
  unfold pair?
  rw [if_pos (by omega)]
  exact congrArg some (char_eq_of_toNat (by omega))

/-- One escaped character is read as itself. -/
theorem stringBody_escapeChar (c : Char) (done : List Char) {rest : List Char}
    (hrest : CompleteUnit rest) :
    stringBody done (escapeChar c ++ rest) = stringBody (c :: done) rest := by
  unfold escapeChar
  -- the seven characters with an escape of their own come first
  split
  · next h => subst h; simp [stringBody, shortEscape?]
  split
  · next h => subst h; simp [stringBody, shortEscape?]
  split
  · next h => subst h; simp [stringBody, shortEscape?]
  split
  · next h => subst h; simp [stringBody, shortEscape?]
  split
  · next h => subst h; simp [stringBody, shortEscape?]
  split
  · next h => simp [stringBody, shortEscape?, ← char_eq_of_toNat h]
  split
  · next h => simp [stringBody, shortEscape?, ← char_eq_of_toNat h]
  split
  · -- a printable character of ASCII stands for itself
    next hquote hslash _ _ _ _ _ hplain =>
      rw [List.singleton_append, stringBody.eq_def]
      split
      · next heq => exact absurd (List.cons.inj heq).1 hquote
      · next heq => exact absurd (List.cons.inj heq).1 hslash
      · next heq => exact absurd (List.cons.inj heq).1 hslash
      · next heq => exact absurd (List.cons.inj heq).1 hslash
      · next heq =>
          obtain ⟨rfl, rfl⟩ := List.cons.inj heq
          rw [if_neg]
          rintro (hlow | hback)
          · omega
          · exact hslash hback
      · next heq => exact absurd heq (by simp)
  split
  · next hunit => exact stringBody_unit hunit done hrest
  · -- a character beyond one unit is a pair of surrogates
    next hunit =>
      dsimp only
      generalize heq : 0xD800 + (c.toNat - 0x10000) / 0x400 = high
      generalize heq' : 0xDC00 + (c.toNat - 0x10000) % 0x400 = low
      obtain ⟨hhigh, hlow, hpair⟩ := pair_units (by omega) heq.symm heq'.symm
      rw [List.append_assoc]
      exact stringBody_units (by omega) (by omega) hpair done rest

theorem completeUnit_escapeChar (c : Char) {rest : List Char} :
    CompleteUnit (escapeChar c ++ rest) := by
  unfold escapeChar
  split
  · exact completeUnit_short (by decide) _
  split
  · exact completeUnit_short (by decide) _
  split
  · exact completeUnit_short (by decide) _
  split
  · exact completeUnit_short (by decide) _
  split
  · exact completeUnit_short (by decide) _
  split
  · exact completeUnit_short (by decide) _
  split
  · exact completeUnit_short (by decide) _
  split
  · next hslash _ _ _ _ _ _ => exact completeUnit_of_head_ne hslash _
  split
  · next hunit => exact completeUnit_unit hunit _
  · next hunit =>
      dsimp only
      rw [List.append_assoc]
      have hbound := toNat_lt c
      exact completeUnit_unit (by omega) _

theorem stringBody_escaped (cs done rest : List Char) :
    stringBody done (cs.flatMap escapeChar ++ '"' :: rest) = some (done.reverse ++ cs, rest) := by
  induction cs generalizing done with
  | nil => simp [stringBody]
  | cons c cs ih =>
      rw [List.flatMap_cons, List.append_assoc, stringBody_escapeChar c done, ih (c :: done)]
      · simp
      · cases cs with
        | nil => exact completeUnit_of_head_ne (by decide) _
        | cons d ds =>
            rw [List.flatMap_cons, List.append_assoc]
            exact completeUnit_escapeChar d

/-- The characters of a quoted text. -/
theorem toList_quote (s : String) :
    (quote s).toList = '"' :: s.toList.flatMap escapeChar ++ ['"'] := by
  unfold quote
  rw [String.toList_ofList]

/-- A quoted text is known from any text that starts with it. -/
theorem quote_append_inj {s t : String} {rest rest' : List Char}
    (h : (quote s).toList ++ rest = (quote t).toList ++ rest') : s = t ∧ rest = rest' := by
  rw [toList_quote, toList_quote] at h
  simp only [List.cons_append, List.append_assoc, List.nil_append, List.cons.injEq,
    true_and] at h
  have hread := stringBody_escaped s.toList [] rest
  rw [h, stringBody_escaped t.toList [] rest'] at hread
  simp only [List.reverse_nil, List.nil_append, Option.some.injEq, Prod.mk.injEq] at hread
  exact ⟨(String.toList_inj.mp hread.1).symm, hread.2.symm⟩

end Json

end SchemaGraph
