import SchemaGraph.Proofs.Number.Shortest

/-!
# Decimal text determines the double

The text of a double is read back as a rational: digits with a point somewhere, and an exponent.
However the digits are laid out, the rational is that of the shortest decimal; so doubles in
machine form with one text are equal.
-/

namespace SchemaGraph

namespace Shortest

/-- The exponent at the end of a decimal text; zero if there is none. -/
def exponentReading : List Char → ℤ
  | 'e' :: '-' :: digits => -(Nat.ofDigitChars 10 digits 0 : ℤ)
  | 'e' :: _ :: digits => Nat.ofDigitChars 10 digits 0
  | _ => 0

/-- The rational that a decimal text without a sign stands for. -/
def reading (text : List Char) : ℚ :=
  let mantissa := text.takeWhile (· != 'e')
  let whole := mantissa.takeWhile (· != '.')
  let fraction := (mantissa.dropWhile (· != '.')).drop 1
  decimalValue (Nat.ofDigitChars 10 (whole ++ fraction) 0)
    (exponentReading (text.dropWhile (· != 'e')) - fraction.length)

section Reading

variable {whole fraction digits tail : List Char}

theorem ne_of_isDigit {c mark : Char} (hc : c.isDigit = true) (hmark : mark.isDigit = false) :
    (c != mark) = true := by
  rw [bne_iff_ne]
  intro heq
  rw [heq, hmark] at hc
  exact absurd hc (by decide)

/-- Digits, a point and digits, with or without an exponent after them. -/
theorem reading_pointed_append (hwhole : ∀ c ∈ whole, c.isDigit = true)
    (hfraction : ∀ c ∈ fraction, c.isDigit = true) (htail : tail = [] ∨ ∃ t, tail = 'e' :: t) :
    reading (whole ++ '.' :: fraction ++ tail) =
      decimalValue (Nat.ofDigitChars 10 (whole ++ fraction) 0)
        (exponentReading tail - fraction.length) := by
  have hmantissa : ∀ c ∈ whole ++ '.' :: fraction, (c != 'e') = true := by
    intro c hc
    rcases List.mem_append.mp hc with hin | hin
    · exact ne_of_isDigit (hwhole c hin) rfl
    · rcases List.mem_cons.mp hin with rfl | hin
      · rfl
      · exact ne_of_isDigit (hfraction c hin) rfl
  have htake : (whole ++ '.' :: fraction ++ tail).takeWhile (· != 'e') =
      whole ++ '.' :: fraction := by
    rw [List.takeWhile_append_of_pos hmantissa]
    rcases htail with rfl | ⟨t, rfl⟩
    · simp
    · simp
  have hdrop : (whole ++ '.' :: fraction ++ tail).dropWhile (· != 'e') = tail := by
    rw [List.dropWhile_append_of_pos hmantissa]
    rcases htail with rfl | ⟨t, rfl⟩
    · rfl
    · simp
  have hpoint : ∀ c ∈ whole, (c != '.') = true := fun c hc => ne_of_isDigit (hwhole c hc) rfl
  unfold reading
  dsimp only
  rw [htake, hdrop, List.takeWhile_append_of_pos hpoint, List.dropWhile_append_of_pos hpoint]
  simp

theorem reading_pointed (hwhole : ∀ c ∈ whole, c.isDigit = true)
    (hfraction : ∀ c ∈ fraction, c.isDigit = true) :
    reading (whole ++ '.' :: fraction) =
      decimalValue (Nat.ofDigitChars 10 (whole ++ fraction) 0) (-fraction.length) := by
  have hreading := reading_pointed_append hwhole hfraction (Or.inl rfl)
  simpa [exponentReading] using hreading

/-- Digits without a point, with an exponent after them. -/
theorem reading_whole (hwhole : ∀ c ∈ whole, c.isDigit = true) (t : List Char) :
    reading (whole ++ 'e' :: t) =
      decimalValue (Nat.ofDigitChars 10 whole 0) (exponentReading ('e' :: t)) := by
  have hmantissa : ∀ c ∈ whole, (c != 'e') = true := fun c hc =>
    ne_of_isDigit (hwhole c hc) rfl
  have hpoint : ∀ c ∈ whole, (c != '.') = true := fun c hc => ne_of_isDigit (hwhole c hc) rfl
  have hnone : whole.dropWhile (· != '.') = [] := by
    have hdrop := @List.dropWhile_append_of_pos _ _ _ [] hpoint
    simpa using hdrop
  have hall : whole.takeWhile (· != '.') = whole := by
    have htake := @List.takeWhile_append_of_pos _ _ _ [] hpoint
    simpa using htake
  unfold reading
  dsimp only
  rw [List.takeWhile_append_of_pos hmantissa, List.dropWhile_append_of_pos hmantissa]
  simp [hnone, hall]

theorem isDigit_replicate_zero (count : Nat) :
    ∀ c ∈ List.replicate count '0', c.isDigit = true := by
  intro c hc
  rw [List.eq_of_mem_replicate hc]
  rfl

theorem isDigit_toString (n : Nat) : ∀ c ∈ (toString n).toList, c.isDigit = true := by
  intro c hc
  rw [Nat.toString_eq_repr, Nat.toList_repr] at hc
  exact Nat.isDigit_of_mem_toDigits (by decide) (by decide) hc

theorem ofDigitChars_toString (n : Nat) : Nat.ofDigitChars 10 (toString n).toList 0 = n := by
  rw [Nat.toString_eq_repr, Nat.toList_repr, Nat.ofDigitChars_ten_toDigits]

theorem ofDigitChars_zero_cons (cs : List Char) :
    Nat.ofDigitChars 10 ('0' :: cs) 0 = Nat.ofDigitChars 10 cs 0 := by
  rw [Nat.ofDigitChars_cons]
  rfl

theorem ofDigitChars_zeroes (cs : List Char) (count : Nat) :
    Nat.ofDigitChars 10 (cs ++ List.replicate count '0') 0 =
      10 ^ count * Nat.ofDigitChars 10 cs 0 := by
  rw [Nat.ofDigitChars_append, Nat.ofDigitChars_replicate_zero]

theorem decimalValue_shift (n count : Nat) (power : ℤ) :
    decimalValue (10 ^ count * n) power = decimalValue n (power + count) := by
  unfold decimalValue
  rw [zpow_add₀ (by norm_num), zpow_natCast]
  push_cast
  ring

theorem exponentReading_plus (cs : List Char) :
    exponentReading ('e' :: '+' :: cs) = Nat.ofDigitChars 10 cs 0 :=
  rfl

/-- The exponent is written with its sign and at least two digits. -/
theorem exponentReading_layout (exponent : ℤ) :
    exponentReading ('e' :: (if exponent < 0 then '-' else '+') ::
      (if (toString exponent.natAbs).toList.length < 2 then '0' :: (toString exponent.natAbs).toList
        else (toString exponent.natAbs).toList)) = exponent := by
  have hsize : Nat.ofDigitChars 10
      (if (toString exponent.natAbs).toList.length < 2 then '0' :: (toString exponent.natAbs).toList
        else (toString exponent.natAbs).toList) 0 = exponent.natAbs := by
    split
    · rw [ofDigitChars_zero_cons, ofDigitChars_toString]
    · rw [ofDigitChars_toString]
  by_cases hneg : exponent < 0
  · rw [if_pos hneg, exponentReading, hsize]
    omega
  · rw [if_neg hneg, exponentReading_plus, hsize]
    omega

/-- Whatever the layout, the text stands for the digits with the point after `point` of them. -/
theorem reading_layout (hdigits : ∀ c ∈ digits, c.isDigit = true) (hne : digits ≠ [])
    (point : ℤ) :
    reading (layout digits point) =
      decimalValue (Nat.ofDigitChars 10 digits 0) (point - digits.length) := by
  have hexponent := exponentReading_layout (point - 1)
  unfold layout
  dsimp only
  split
  · -- an exponent: one digit before the point
    obtain ⟨first, rest, rfl⟩ := List.exists_cons_of_ne_nil hne
    cases rest with
    | nil =>
        refine (reading_whole hdigits _).trans ?_
        erw [hexponent]
        simp
    | cons second rest =>
        have hfirst : ∀ c ∈ [first], c.isDigit = true := by
          intro c hc
          exact hdigits c (List.mem_append_left (second :: rest) hc)
        have hrest : ∀ c ∈ second :: rest, c.isDigit = true := by
          intro c hc
          exact hdigits c (List.mem_cons_of_mem _ hc)
        rw [List.append_assoc]
        refine (reading_pointed_append hfirst hrest (Or.inr ⟨_, rfl⟩)).trans ?_
        erw [hexponent]
        rw [List.singleton_append]
        congr 1
        simp only [List.length_cons, Nat.cast_add, Nat.cast_one]
        ring
  · split
    · -- zeroes between the point and the digits
      next hpoint =>
        have hzero : ∀ c ∈ ['0'], c.isDigit = true := isDigit_replicate_zero 1
        have hfraction : ∀ c ∈ List.replicate (-point).toNat '0' ++ digits, c.isDigit = true := by
          intro c hc
          rcases List.mem_append.mp hc with hin | hin
          · exact isDigit_replicate_zero _ c hin
          · exact hdigits c hin
        refine (reading_pointed hzero hfraction).trans ?_
        rw [List.singleton_append, ofDigitChars_zero_cons, Nat.ofDigitChars_append,
          Nat.ofDigitChars_replicate_zero]
        simp only [mul_zero, List.length_append, List.length_replicate]
        congr 1
        push_cast
        omega
    · next hpoint =>
        split
        · -- zeroes between the digits and the point
          next hshort =>
            have hwhole : ∀ c ∈ digits ++ List.replicate (point.toNat - digits.length) '0',
                c.isDigit = true := by
              intro c hc
              rcases List.mem_append.mp hc with hin | hin
              · exact hdigits c hin
              · exact isDigit_replicate_zero _ c hin
            refine (reading_pointed hwhole (isDigit_replicate_zero 1)).trans ?_
            rw [List.append_assoc, ← List.replicate_add, ofDigitChars_zeroes, decimalValue_shift]
            simp only [List.length_replicate]
            congr 1
            push_cast
            omega
        · next hlong =>
            have hwhole : ∀ c ∈ digits.take point.toNat, c.isDigit = true :=
              fun c hc => hdigits c (List.mem_of_mem_take hc)
            have hfraction : ∀ c ∈ digits.drop point.toNat, c.isDigit = true :=
              fun c hc => hdigits c (List.mem_of_mem_drop hc)
            refine (reading_pointed hwhole hfraction).trans ?_
            rw [List.take_append_drop, List.length_drop]
            congr 1
            push_cast [Nat.cast_sub (by omega : point.toNat ≤ digits.length)]
            omega

/-- A layout starts with a digit. -/
theorem layout_cons (hdigits : ∀ c ∈ digits, c.isDigit = true) (hne : digits ≠ [])
    (point : ℤ) : ∃ c t, layout digits point = c :: t ∧ c.isDigit = true := by
  obtain ⟨first, rest, rfl⟩ := List.exists_cons_of_ne_nil hne
  have hfirst : first.isDigit = true := hdigits first List.mem_cons_self
  unfold layout
  dsimp only
  split
  · cases rest with
    | nil => exact ⟨first, _, rfl, hfirst⟩
    | cons second rest => exact ⟨first, _, rfl, hfirst⟩
  · split
    · exact ⟨'0', _, rfl, rfl⟩
    · next hpoint =>
        split
        · exact ⟨first, _, rfl, hfirst⟩
        · obtain ⟨count, hcount⟩ : ∃ count, point.toNat = count + 1 :=
            ⟨point.toNat - 1, by omega⟩
          rw [hcount]
          exact ⟨first, _, rfl, hfirst⟩

theorem trimZeroes_append (digits : List Char) :
    ∃ count, digits = trimZeroes digits ++ List.replicate count '0' := by
  refine ⟨(digits.reverse.takeWhile (· == '0')).length, ?_⟩
  have hzeroes : digits.reverse.takeWhile (· == '0') =
      List.replicate (digits.reverse.takeWhile (· == '0')).length '0' := by
    refine List.eq_replicate_of_mem ?_
    intro c hc
    exact beq_iff_eq.mp (List.all_eq_true.mp List.all_takeWhile c hc)
  have hsplit := List.takeWhile_append_dropWhile (p := (· == '0')) (l := digits.reverse)
  rw [hzeroes] at hsplit
  have hreverse := congrArg List.reverse hsplit
  rw [List.reverse_append, List.reverse_replicate, List.reverse_reverse] at hreverse
  exact hreverse.symm

end Reading

/-- The text of the magnitude of a double. -/
def body (significand : Nat) (exponent : ℤ) : List Char :=
  if significand = 0 then "0.0".toList
  else
    layout (trimZeroes (toString (decimal significand exponent).1).toList)
      ((toString (decimal significand exponent).1).toList.length +
        (decimal significand exponent).2)

theorem decimal_pos {significand : Nat} (exponent : ℤ) (hpos : 0 < significand) :
    0 < decimalValue (decimal significand exponent).1 (decimal significand exponent).2 := by
  have hlow := (holds_decimal exponent hpos).1
  rw [low_eq] at hlow
  have hquarters : (0 : ℚ) < lowQuarters significand exponent := by
    exact_mod_cast lowQuarters_pos hpos
  exact lt_of_lt_of_le (by positivity) hlow

/-- The digits of a shortest decimal without their trailing zeroes. -/
theorem trimmed_digits {significand : Nat} (exponent : ℤ) (hpos : 0 < significand) :
    (∀ c ∈ trimZeroes (toString (decimal significand exponent).1).toList, c.isDigit = true) ∧
      trimZeroes (toString (decimal significand exponent).1).toList ≠ [] := by
  obtain ⟨count, hcount⟩ := trimZeroes_append (toString (decimal significand exponent).1).toList
  constructor
  · intro c hc
    refine isDigit_toString (decimal significand exponent).1 c ?_
    rw [hcount]
    exact List.mem_append_left _ hc
  · intro hnil
    have hvalue := ofDigitChars_toString (decimal significand exponent).1
    rw [hcount, ofDigitChars_zeroes, hnil] at hvalue
    have hdecimal := decimal_pos exponent hpos
    rw [← hvalue] at hdecimal
    simp [decimalValue] at hdecimal

/-- The text of a magnitude stands for its shortest decimal. -/
theorem reading_body {significand : Nat} {exponent : ℤ} (hpos : 0 < significand) :
    reading (body significand exponent) =
      decimalValue (decimal significand exponent).1 (decimal significand exponent).2 := by
  obtain ⟨hdigits, hne⟩ := trimmed_digits exponent hpos
  obtain ⟨count, hcount⟩ := trimZeroes_append (toString (decimal significand exponent).1).toList
  have hvalue := ofDigitChars_toString (decimal significand exponent).1
  have hlength := congrArg List.length hcount
  rw [List.length_append, List.length_replicate] at hlength
  rw [hcount, ofDigitChars_zeroes] at hvalue
  unfold body
  rw [if_neg (by omega), reading_layout hdigits hne]
  conv_rhs => rw [← hvalue, decimalValue_shift]
  congr 1
  rw [hlength]
  push_cast
  ring

theorem body_cons (significand : Nat) (exponent : ℤ) :
    ∃ c t, body significand exponent = c :: t ∧ c.isDigit = true := by
  unfold body
  by_cases hzero : significand = 0
  · rw [if_pos hzero]
    exact ⟨'0', ['.', '0'], rfl, rfl⟩
  · rw [if_neg hzero]
    obtain ⟨hdigits, hne⟩ := trimmed_digits exponent (Nat.pos_of_ne_zero hzero)
    exact layout_cons hdigits hne _

theorem reading_zero : reading (body 0 Binary64.minExponent) = 0 := by
  have hreading := reading_pointed (isDigit_replicate_zero 1) (isDigit_replicate_zero 1)
  refine hreading.trans ?_
  have hdigits : Nat.ofDigitChars 10 (List.replicate 1 '0' ++ List.replicate 1 '0') 0 = 0 := rfl
  rw [hdigits, decimalValue]
  simp

/-- Magnitudes in machine form with one text are equal. -/
theorem eq_of_body {significand significand' : Nat} {exponent exponent' : ℤ}
    {negative negative' : Bool}
    (hx : (Binary64.finite negative significand exponent).isMachine = true)
    (hy : (Binary64.finite negative' significand' exponent').isMachine = true)
    (h : body significand exponent = body significand' exponent') :
    significand = significand' ∧ exponent = exponent' := by
  have hread := congrArg reading h
  have hsmallest : ∀ {negative : Bool} {exponent : ℤ},
      (Binary64.finite negative 0 exponent).isMachine = true → exponent = Binary64.minExponent := by
    intro negative exponent hzero
    simp only [Binary64.isMachine, Bool.and_eq_true, Bool.or_eq_true, decide_eq_true_eq,
      beq_iff_eq] at hzero
    rcases hzero.2 with hfull | hmin
    · exact absurd hfull (by decide)
    · exact hmin
  rcases Nat.eq_zero_or_pos significand with rfl | hpos
  · obtain rfl := hsmallest hx
    rcases Nat.eq_zero_or_pos significand' with rfl | hpos'
    · obtain rfl := hsmallest hy
      exact ⟨rfl, rfl⟩
    · rw [reading_zero, reading_body hpos'] at hread
      exact absurd hread (decimal_pos _ hpos').ne
  · rcases Nat.eq_zero_or_pos significand' with rfl | hpos'
    · obtain rfl := hsmallest hy
      rw [reading_zero, reading_body hpos] at hread
      exact absurd hread (decimal_pos _ hpos).ne'
    · rw [reading_body hpos, reading_body hpos'] at hread
      have hholds := holds_decimal exponent' hpos'
      rw [← hread] at hholds
      exact eq_of_holds hx hy (holds_decimal _ hpos) hholds

end Shortest

namespace Binary64

theorem text_finite (negative : Bool) (significand : Nat) (exponent : ℤ) :
    (finite negative significand exponent).text =
      String.ofList (if negative then '-' :: Shortest.body significand exponent
        else Shortest.body significand exponent) :=
  rfl

/-- Doubles in machine form with one text are equal. -/
theorem text_inj {x y : Binary64} (hx : x.isMachine = true) (hy : y.isMachine = true)
    (h : x.text = y.text) : x = y := by
  cases x with
  | infinite negative => simp [isMachine] at hx
  | nan => simp [isMachine] at hx
  | finite negative significand exponent =>
      cases y with
      | infinite negative' => simp [isMachine] at hy
      | nan => simp [isMachine] at hy
      | finite negative' significand' exponent' =>
          rw [text_finite, text_finite, String.ofList_inj] at h
          obtain ⟨c, t, hbody, hdigit⟩ := Shortest.body_cons significand exponent
          obtain ⟨c', t', hbody', hdigit'⟩ := Shortest.body_cons significand' exponent'
          -- a body starts with a digit, so the first character tells the sign
          have hsign : negative = negative' := by
            cases negative with
            | false =>
                cases negative' with
                | false => rfl
                | true =>
                    rw [if_neg (by decide), if_pos rfl, hbody] at h
                    rw [(List.cons.inj h).1] at hdigit
                    exact absurd hdigit (by decide)
            | true =>
                cases negative' with
                | true => rfl
                | false =>
                    rw [if_pos rfl, if_neg (by decide), hbody'] at h
                    rw [← (List.cons.inj h).1] at hdigit'
                    exact absurd hdigit' (by decide)
          subst hsign
          have hsame : Shortest.body significand exponent = Shortest.body significand' exponent' := by
            cases negative with
            | false => simpa using h
            | true => simpa using h
          obtain ⟨rfl, rfl⟩ := Shortest.eq_of_body hx hy hsame
          rfl

end Binary64

end SchemaGraph
