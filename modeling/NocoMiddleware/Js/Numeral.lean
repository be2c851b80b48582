import NocoMiddleware.Js.Number

/-!
# Reading numerals back

The text of a number is a decimal numeral: digits, an optional fraction and an
optional exponent.  `readNumeral` reads such numerals, and reading the text of
a number gives the number (`readNumeral_text`).  A number is *plain* when its
text has no exponent; this is a range condition on its absolute value
(`plain_iff`).
-/

namespace NocoMiddleware
namespace Js

/-! ## The reader -/

/-- An optional sign, and what follows it. -/
def readSign : JsString → Bool × JsString
  | [] => (false, [])
  | unit :: rest =>
      if unit = hyphenUnit then (true, rest)
      else if unit = 43 then (false, rest)
      else (false, unit :: rest)

/-- The exponent part of a numeral; the empty text is exponent zero. -/
def readExponent : JsString → Option Int
  | [] => some 0
  | unit :: rest =>
      if unit = 101 ∨ unit = 69 then
        match readSign rest with
        | (negative, digits) =>
            if digits ≠ [] ∧ digits.all isDigit then
              some (if negative then -(digitsValue digits) else digitsValue digits)
            else none
      else none

/-- A fraction, if there is one, and what follows it. -/
def readFraction : JsString → JsString × JsString
  | [] => ([], [])
  | unit :: rest =>
      if unit = fullStop then (rest.takeWhile isDigit, rest.dropWhile isDigit)
      else ([], unit :: rest)

/-- The number that a decimal numeral denotes. -/
def readNumeral (text : JsString) : Option Decimal :=
  match readSign text with
  | (negative, body) =>
      let whole := body.takeWhile isDigit
      match readFraction (body.dropWhile isDigit) with
      | (fraction, rest) =>
          if whole = [] ∧ fraction = [] then none
          else
            (readExponent rest).map fun exponent =>
              Decimal.normalize negative (digitsValue (whole ++ fraction))
                (exponent - fraction.length)

example : readNumeral (js "-12.50") = some (Decimal.normalize true 125 (-1)) := by decide
example : readNumeral (js "1e+21") = some (Decimal.normalize false 1 21) := by decide
example : readNumeral (js "1e+") = none := by decide

/-! ## The parts of a numeral -/

/-- An unsigned numeral by its parts: a nonempty whole part, a fraction, which
is left out when empty, and an exponent, which is left out when zero. -/
structure NumeralParts where
  whole : JsString
  fraction : JsString
  exponent : Int
  whole_ne_nil : whole ≠ []
  whole_digits : ∀ unit ∈ whole, isDigit unit = true
  fraction_digits : ∀ unit ∈ fraction, isDigit unit = true

namespace NumeralParts

/-- The fraction as it is written. -/
def fractionText (parts : NumeralParts) : JsString :=
  if parts.fraction = [] then [] else fullStop :: parts.fraction

/-- The exponent as it is written. -/
def exponentPart (parts : NumeralParts) : JsString :=
  if parts.exponent = 0 then [] else exponentText parts.exponent

/-- The numeral as it is written. -/
def text (parts : NumeralParts) : JsString :=
  parts.whole ++ parts.fractionText ++ parts.exponentPart

/-- The number that the numeral denotes, under a sign. -/
def number (parts : NumeralParts) (negative : Bool) : Decimal :=
  Decimal.normalize negative (digitsValue (parts.whole ++ parts.fraction))
    (parts.exponent - parts.fraction.length)

end NumeralParts

theorem isDigit_ne {unit other : CodeUnit} (h : isDigit unit = true)
    (hother : isDigit other = false) : unit ≠ other := by
  rintro rfl
  rw [h] at hother
  contradiction

private theorem takeWhile_digits_append {digits rest : JsString}
    (hdigits : ∀ unit ∈ digits, isDigit unit = true)
    (hrest : ∀ unit ∈ rest.head?, isDigit unit = false) :
    (digits ++ rest).takeWhile isDigit = digits ∧
      (digits ++ rest).dropWhile isDigit = rest := by
  have hstop : rest.takeWhile isDigit = [] ∧ rest.dropWhile isDigit = rest := by
    cases rest with
    | nil => simp
    | cons unit rest =>
        have hunit : isDigit unit = false := hrest unit rfl
        simp [hunit]
  rw [List.takeWhile_append_of_pos hdigits, List.dropWhile_append_of_pos hdigits,
    hstop.1, hstop.2]
  simp

private theorem readExponent_signed {rest digits : JsString} {negative : Bool}
    (hsign : readSign rest = (negative, digits)) (hne : digits ≠ [])
    (hdigits : digits.all isDigit = true) :
    readExponent (js "e" ++ rest) =
      some (if negative then -((digitsValue digits : Nat) : Int) else digitsValue digits) := by
  change readExponent (101 :: rest) = _
  simp [readExponent, hsign, hne, hdigits]

theorem readExponent_exponentPart (parts : NumeralParts) :
    readExponent parts.exponentPart = some parts.exponent := by
  unfold NumeralParts.exponentPart
  split
  · next h => simp [readExponent, h]
  · next h =>
      have hne : decimalDigits parts.exponent.natAbs ≠ [] :=
        decimalDigits_ne_nil (by omega)
      have hdigits : (decimalDigits parts.exponent.natAbs).all isDigit = true :=
        List.all_eq_true.mpr fun unit hunit => isDigit_of_mem_decimalDigits hunit
      by_cases hnegative : parts.exponent < 0
      · have hsign : readSign (js "-" ++ decimalDigits parts.exponent.natAbs) =
            (true, decimalDigits parts.exponent.natAbs) := rfl
        rw [exponentText, if_pos hnegative, List.append_assoc,
          readExponent_signed hsign hne hdigits, digitsValue_decimalDigits, if_pos rfl]
        congr 1
        omega
      · have hsign : readSign (js "+" ++ decimalDigits parts.exponent.natAbs) =
            (false, decimalDigits parts.exponent.natAbs) := rfl
        rw [exponentText, if_neg hnegative, List.append_assoc,
          readExponent_signed hsign hne hdigits, digitsValue_decimalDigits,
          if_neg Bool.false_ne_true]
        congr 1
        omega

private theorem exponentPart_head (parts : NumeralParts) :
    ∀ unit ∈ parts.exponentPart.head?, isDigit unit = false ∧ unit ≠ fullStop := by
  intro unit hunit
  unfold NumeralParts.exponentPart at hunit
  split at hunit
  · simp at hunit
  · obtain rfl : (101 : CodeUnit) = unit := by
      simpa [exponentText, js] using hunit
    decide

theorem readFraction_text (parts : NumeralParts) :
    readFraction (parts.fractionText ++ parts.exponentPart) =
      (parts.fraction, parts.exponentPart) := by
  have hhead := exponentPart_head parts
  unfold NumeralParts.fractionText
  split
  · next h =>
      rw [h, List.nil_append]
      cases hpart : parts.exponentPart with
      | nil => rfl
      | cons unit rest =>
          have hunit : unit ≠ fullStop := (hhead unit (by simp [hpart])).2
          simp [readFraction, hunit]
  · obtain ⟨htake, hdrop⟩ := takeWhile_digits_append parts.fraction_digits
      fun unit hunit => (hhead unit hunit).1
    simp only [List.cons_append, readFraction, if_true]
    rw [htake, hdrop]

/-- The reader inverts the written form of a numeral. -/
theorem readNumeral_parts (parts : NumeralParts) (negative : Bool) :
    readNumeral ((if negative then js "-" else []) ++ parts.text) =
      some (parts.number negative) := by
  have hbody : parts.text = parts.whole ++ (parts.fractionText ++ parts.exponentPart) :=
    List.append_assoc _ _ _
  have hsign : readSign ((if negative then js "-" else []) ++ parts.text) =
      (negative, parts.text) := by
    cases negative with
    | true => rfl
    | false =>
        obtain ⟨first, rest, hwhole⟩ := List.exists_cons_of_ne_nil parts.whole_ne_nil
        have hfirst : isDigit first = true := parts.whole_digits first (by simp [hwhole])
        have hhyphen : first ≠ hyphenUnit := isDigit_ne hfirst (by decide)
        have hplus : first ≠ 43 := isDigit_ne hfirst (by decide)
        rw [hbody, hwhole]
        simp [readSign, hhyphen, hplus]
  have hrest : ∀ unit ∈ (parts.fractionText ++ parts.exponentPart).head?,
      isDigit unit = false := by
    intro unit hunit
    unfold NumeralParts.fractionText at hunit
    split at hunit
    · exact (exponentPart_head parts unit (by simpa using hunit)).1
    · obtain rfl : fullStop = unit := by simpa using hunit
      decide
  obtain ⟨htake, hdrop⟩ := takeWhile_digits_append parts.whole_digits hrest
  unfold readNumeral
  rw [hsign]
  simp only
  rw [hbody, htake, hdrop, readFraction_text]
  simp [parts.whole_ne_nil, readExponent_exponentPart, NumeralParts.number]

/-! ## The parts of a number's text -/

namespace Decimal

/-- The number's text has no exponent. -/
def Plain (x : Decimal) : Prop :=
  x.coefficient = 0 ∨ (-6 < x.pointPosition ∧ x.pointPosition ≤ 21)

instance (x : Decimal) : Decidable x.Plain :=
  inferInstanceAs (Decidable (_ ∨ _))

private theorem digitUnit_zero_isDigit : isDigit (digitUnit 0) = true := by decide

private theorem isDigit_of_mem_zeros {count : Nat} {unit : CodeUnit}
    (h : unit ∈ List.replicate count (digitUnit 0)) : isDigit unit = true := by
  rw [List.eq_of_mem_replicate h]
  exact digitUnit_zero_isDigit

/-- The numeral is the unsigned text of the number and denotes it, with an exponent exactly
when the number is not plain. -/
def Writes (parts : NumeralParts) (x : Decimal) : Prop :=
  x.unsignedText = parts.text ∧ parts.number x.negative = x ∧ (parts.exponent = 0 ↔ x.Plain)

private theorem length_add_exponent (x : Decimal) :
    ((decimalDigits x.coefficient).length : Int) + x.exponent = x.pointPosition := by
  simp [pointPosition]

private theorem isDigit_decimalDigits {x : Decimal} :
    ∀ unit ∈ decimalDigits x.coefficient, isDigit unit = true :=
  fun _ hunit => isDigit_of_mem_decimalDigits hunit

/-- All digits stand before the point, followed by zeros. -/
private theorem writes_integer {x : Decimal} (hne : x.coefficient ≠ 0)
    (hinteger : ((decimalDigits x.coefficient).length : Int) ≤ x.pointPosition ∧
      x.pointPosition ≤ 21) : ∃ parts, Writes parts x := by
  have hpoint := length_add_exponent x
  have hvalue := digitsValue_decimalDigits x.coefficient
  have hdigits_ne := decimalDigits_ne_nil hne
  have hlength := List.length_pos_iff.mpr hdigits_ne
  have hdigits := @isDigit_decimalDigits x
  set digits := decimalDigits x.coefficient with hdefinition
  have hzeros : ((x.pointPosition.toNat - digits.length : Nat) : Int) = x.exponent := by omega
  refine ⟨⟨digits ++ List.replicate (x.pointPosition.toNat - digits.length) (digitUnit 0), [], 0,
    by simp [hdigits_ne], ?_, by simp⟩, ?_, ?_, ?_⟩
  · intro unit hunit
    rcases List.mem_append.mp hunit with h | h
    · exact hdigits unit h
    · exact isDigit_of_mem_zeros h
  · rw [unsignedText, ← hdefinition, if_pos hinteger]
    simp [NumeralParts.text, NumeralParts.fractionText, NumeralParts.exponentPart]
  · have hnormal := normalize_mul_pow x hne (x.pointPosition.toNat - digits.length)
    rw [hzeros] at hnormal
    simp only [NumeralParts.number, List.append_nil, digitsValue_append_zeros, hvalue]
    simpa using hnormal
  · simp [Plain]
    omega

/-- The point stands among the digits. -/
private theorem writes_inside {x : Decimal} (hne : x.coefficient ≠ 0)
    (hinteger : ¬ (((decimalDigits x.coefficient).length : Int) ≤ x.pointPosition ∧
      x.pointPosition ≤ 21))
    (hinside : 0 < x.pointPosition ∧ x.pointPosition ≤ 21) : ∃ parts, Writes parts x := by
  have hpoint := length_add_exponent x
  have hvalue := digitsValue_decimalDigits x.coefficient
  have hdigits_ne := decimalDigits_ne_nil hne
  have hdigits := @isDigit_decimalDigits x
  set digits := decimalDigits x.coefficient with hdefinition
  have hlt : x.pointPosition.toNat < digits.length := by omega
  have hfraction : digits.drop x.pointPosition.toNat ≠ [] := by
    simpa using hlt
  refine ⟨⟨digits.take x.pointPosition.toNat, digits.drop x.pointPosition.toNat, 0, ?_,
    fun unit hunit => hdigits unit (List.mem_of_mem_take hunit),
    fun unit hunit => hdigits unit (List.mem_of_mem_drop hunit)⟩, ?_, ?_, ?_⟩
  · simp [hdigits_ne]
    omega
  · rw [unsignedText, ← hdefinition, if_neg hinteger, if_pos hinside]
    simp [NumeralParts.text, NumeralParts.fractionText, NumeralParts.exponentPart, hfraction,
      js, fullStop]
  · have hexponent : (0 : Int) - (digits.drop x.pointPosition.toNat).length = x.exponent := by
      rw [List.length_drop]
      omega
    simp only [NumeralParts.number, List.take_append_drop, hvalue, hexponent]
    exact normalize_self x
  · simp [Plain]
    omega

/-- Zeros stand between the point and the digits. -/
private theorem writes_before {x : Decimal} (hne : x.coefficient ≠ 0)
    (hbefore : -6 < x.pointPosition ∧ x.pointPosition ≤ 0) : ∃ parts, Writes parts x := by
  have hpoint := length_add_exponent x
  have hvalue := digitsValue_decimalDigits x.coefficient
  have hdigits_ne := decimalDigits_ne_nil hne
  have hlength := List.length_pos_iff.mpr hdigits_ne
  have hdigits := @isDigit_decimalDigits x
  set digits := decimalDigits x.coefficient with hdefinition
  set zeros := List.replicate (-x.pointPosition).toNat (digitUnit 0) with hzeros
  have hinteger : ¬ ((digits.length : Int) ≤ x.pointPosition ∧ x.pointPosition ≤ 21) := by omega
  have hinside : ¬ (0 < x.pointPosition ∧ x.pointPosition ≤ 21) := by omega
  refine ⟨⟨[digitUnit 0], zeros ++ digits, 0, by simp, by simp [digitUnit_zero_isDigit], ?_⟩,
    ?_, ?_, ?_⟩
  · intro unit hunit
    rcases List.mem_append.mp hunit with h | h
    · exact isDigit_of_mem_zeros h
    · exact hdigits unit h
  · rw [unsignedText, ← hdefinition, if_neg hinteger, if_neg hinside, if_pos hbefore]
    simp [NumeralParts.text, NumeralParts.fractionText, NumeralParts.exponentPart, hdigits_ne,
      hzeros, js, fullStop, digitUnit]
  · have hexponent : (0 : Int) - (zeros ++ digits).length = x.exponent := by
      rw [List.length_append, hzeros, List.length_replicate]
      omega
    have hone : [digitUnit 0] ++ (zeros ++ digits) =
        List.replicate ((-x.pointPosition).toNat + 1) (digitUnit 0) ++ digits := by
      rw [List.replicate_succ]
      rfl
    simp only [NumeralParts.number, hexponent, hone, digitsValue_zeros_append, hvalue]
    exact normalize_self x
  · simp [Plain]
    omega

/-- One digit stands before the point, and an exponent follows. -/
private theorem writes_exponent {x : Decimal} (hne : x.coefficient ≠ 0)
    (hplain : ¬ (-6 < x.pointPosition ∧ x.pointPosition ≤ 21)) : ∃ parts, Writes parts x := by
  have hpoint := length_add_exponent x
  have hvalue := digitsValue_decimalDigits x.coefficient
  have hdigits_ne := decimalDigits_ne_nil hne
  have hlength := List.length_pos_iff.mpr hdigits_ne
  have hdigits := @isDigit_decimalDigits x
  set digits := decimalDigits x.coefficient with hdefinition
  have hinteger : ¬ ((digits.length : Int) ≤ x.pointPosition ∧ x.pointPosition ≤ 21) := by omega
  have hinside : ¬ (0 < x.pointPosition ∧ x.pointPosition ≤ 21) := by omega
  have hbefore : ¬ (-6 < x.pointPosition ∧ x.pointPosition ≤ 0) := by omega
  have hexponent_ne : x.pointPosition - 1 ≠ 0 := by omega
  refine ⟨⟨digits.take 1, digits.drop 1, x.pointPosition - 1, by simp [hdigits_ne],
    fun unit hunit => hdigits unit (List.mem_of_mem_take hunit),
    fun unit hunit => hdigits unit (List.mem_of_mem_drop hunit)⟩, ?_, ?_, ?_⟩
  · have hfraction : digits.drop 1 = [] ↔ digits.length = 1 := by
      rw [List.drop_eq_nil_iff]
      omega
    rw [unsignedText, ← hdefinition, if_neg hinteger, if_neg hinside, if_neg hbefore]
    simp only [NumeralParts.text, NumeralParts.fractionText, NumeralParts.exponentPart,
      hfraction, if_neg hexponent_ne]
    rfl
  · have hexponent : (x.pointPosition - 1) - (digits.drop 1).length = x.exponent := by
      rw [List.length_drop]
      omega
    simp only [NumeralParts.number, List.take_append_drop, hvalue, hexponent]
    exact normalize_self x
  · simp [Plain, hne]
    omega

/-- The unsigned text of a nonzero number is a numeral that denotes it, and it
has an exponent exactly when the number is not plain. -/
theorem unsignedText_parts (x : Decimal) (hne : x.coefficient ≠ 0) :
    ∃ parts : NumeralParts, x.unsignedText = parts.text ∧
      parts.number x.negative = x ∧ (parts.exponent = 0 ↔ x.Plain) := by
  by_cases hplain : -6 < x.pointPosition ∧ x.pointPosition ≤ 21
  · by_cases hinteger :
        ((decimalDigits x.coefficient).length : Int) ≤ x.pointPosition ∧ x.pointPosition ≤ 21
    · exact writes_integer hne hinteger
    · by_cases hpositive : 0 < x.pointPosition
      · exact writes_inside hne hinteger ⟨hpositive, hplain.2⟩
      · exact writes_before hne ⟨hplain.1, not_lt.mp hpositive⟩
  · exact writes_exponent hne hplain

/-- Reading the text of a number gives the number. -/
theorem readNumeral_text (x : Decimal) : readNumeral x.text = some x := by
  unfold text
  split
  · next h =>
      have hzero : x = ofNat 0 := by
        rcases x.canonical with hcanonical | hmod
        · ext <;> simp [ofNat, normalize, hcanonical]
        · exact absurd (by rw [h]) hmod
      rw [hzero]
      decide
  · next hne =>
      obtain ⟨parts, htext, hnumber, -⟩ := unsignedText_parts x hne
      have hread := readNumeral_parts parts x.negative
      rw [hnumber, ← htext] at hread
      cases hnegative : x.negative with
      | true => simpa [hnegative] using hread
      | false => simpa [hnegative] using hread

theorem text_injective : Function.Injective text := by
  intro x y h
  have hread := congrArg readNumeral h
  rw [readNumeral_text, readNumeral_text] at hread
  exact Option.some.inj hread

/-- The code units that the text of a number may contain. -/
def isNumberUnit (unit : CodeUnit) : Bool :=
  isDigit unit || unit = hyphenUnit || unit = fullStop || unit = 101 || unit = 43

private theorem isNumberUnit_text_parts (parts : NumeralParts) :
    ∀ unit ∈ parts.text, isNumberUnit unit = true := by
  intro unit hunit
  simp only [NumeralParts.text, List.mem_append] at hunit
  rcases hunit with (hunit | hunit) | hunit
  · simp [isNumberUnit, parts.whole_digits unit hunit]
  · unfold NumeralParts.fractionText at hunit
    split at hunit
    · simp at hunit
    · rcases List.mem_cons.mp hunit with rfl | hunit
      · decide
      · simp [isNumberUnit, parts.fraction_digits unit hunit]
  · unfold NumeralParts.exponentPart at hunit
    split at hunit
    · simp at hunit
    · simp only [exponentText, List.mem_append] at hunit
      rcases hunit with (hunit | hunit) | hunit
      · obtain rfl : unit = 101 := by simpa [js] using hunit
        decide
      · split at hunit
        · obtain rfl : unit = 45 := by simpa [js] using hunit
          decide
        · obtain rfl : unit = 43 := by simpa [js] using hunit
          decide
      · simp [isNumberUnit, isDigit_of_mem_decimalDigits hunit]

theorem isNumberUnit_of_mem_text {x : Decimal} {unit : CodeUnit} (h : unit ∈ x.text) :
    isNumberUnit unit = true := by
  unfold text at h
  split at h
  · obtain rfl : unit = 48 := by simpa [js] using h
    decide
  · next hne =>
      obtain ⟨parts, htext, -, -⟩ := unsignedText_parts x hne
      rw [htext] at h
      split at h
      · rcases List.mem_append.mp h with h | h
        · obtain rfl : unit = 45 := by simpa [js] using h
          decide
        · exact isNumberUnit_text_parts parts unit h
      · exact isNumberUnit_text_parts parts unit h

theorem text_ne_nil (x : Decimal) : x.text ≠ [] := by
  intro h
  have hread := readNumeral_text x
  rw [h] at hread
  have hnil : readNumeral [] = none := by decide
  rw [hnil] at hread
  contradiction

/-! ## Plain numbers -/

/-- A plain number is written as a sign, digits and possibly a fraction. -/
theorem text_of_plain {x : Decimal} (h : x.Plain) :
    ∃ (negative : Bool) (parts : NumeralParts), parts.exponent = 0 ∧
      x.text = (if negative then js "-" else []) ++ parts.text := by
  by_cases hne : x.coefficient = 0
  · refine ⟨false, ⟨js "0", [], 0, by decide, forall_units (by decide), by simp⟩, rfl, ?_⟩
    simp [text, hne, NumeralParts.text, NumeralParts.fractionText,
      NumeralParts.exponentPart]
  · obtain ⟨parts, htext, -, hplain⟩ := unsignedText_parts x hne
    refine ⟨x.negative, parts, hplain.mpr h, ?_⟩
    cases hnegative : x.negative <;> simp [text, hne, hnegative, htext]

/-- A number that is not plain has an `e` in its text. -/
theorem mem_text_of_not_plain {x : Decimal} (h : ¬ x.Plain) : (101 : CodeUnit) ∈ x.text := by
  have hne : x.coefficient ≠ 0 := fun hzero => h (Or.inl hzero)
  obtain ⟨parts, htext, -, hplain⟩ := unsignedText_parts x hne
  have hexponent : parts.exponent ≠ 0 := fun hzero => h (hplain.mp hzero)
  have hmem : (101 : CodeUnit) ∈ parts.text := by
    simp [NumeralParts.text, NumeralParts.exponentPart, hexponent, exponentText, js]
  unfold text
  rw [if_neg hne, htext]
  split
  · exact List.mem_append_right _ hmem
  · exact hmem

/-- A number is plain exactly when it is zero or lies, up to its sign, between
`1e-6` and `1e21`, the upper end excluded. -/
theorem plain_iff (x : Decimal) :
    x.Plain ↔
      x.value = 0 ∨ ((10 : ℚ) ^ (-6 : Int) ≤ |x.value| ∧ |x.value| < (10 : ℚ) ^ (21 : Int)) := by
  have hten : (1 : ℚ) < 10 := by norm_num
  have hpower : (0 : ℚ) < 10 ^ x.exponent := zpow_pos (by norm_num) _
  have hsign : |(if x.negative then (-1 : ℚ) else 1)| = 1 := by
    split <;> simp
  by_cases hzero : x.coefficient = 0
  · simp [Plain, hzero, value]
  · have habs : |x.value| = x.coefficient * 10 ^ x.exponent := by
      rw [value, abs_mul, abs_mul, hsign, one_mul, abs_of_pos hpower, Nat.abs_cast]
    have hcoefficient : (0 : ℚ) < x.coefficient := by
      exact_mod_cast Nat.pos_of_ne_zero hzero
    have hvalue : x.value ≠ 0 := by
      rw [← abs_pos, habs]
      positivity
    set k := (Nat.digits 10 x.coefficient).length with hk
    have hkpos : 0 < k := by
      rw [hk, List.length_pos_iff]
      exact Nat.digits_ne_nil_iff_ne_zero.mpr hzero
    -- the coefficient has `k` digits, so the value lies in the decade that the
    -- point position names
    have hupper : |x.value| < 10 ^ (k + x.exponent) := by
      rw [habs, zpow_add₀ (by norm_num), zpow_natCast]
      have := Nat.lt_base_pow_length_digits (b := 10) (m := x.coefficient) (by norm_num)
      exact mul_lt_mul_of_pos_right (by exact_mod_cast this) hpower
    have hlower : (10 : ℚ) ^ (k + x.exponent - 1) ≤ |x.value| := by
      have hsplit : (k : Int) + x.exponent - 1 = ((k - 1 : Nat) : Int) + x.exponent := by omega
      rw [habs, hsplit, zpow_add₀ (by norm_num), zpow_natCast]
      have hle : 10 ^ (k - 1) ≤ x.coefficient :=
        (Nat.lt_digits_length_iff (by norm_num) _).mp (by omega)
      exact mul_le_mul_of_nonneg_right (by exact_mod_cast hle) hpower.le
    have hposition : x.pointPosition = k + x.exponent := rfl
    constructor
    · rintro (h | ⟨hlow, hhigh⟩)
      · exact absurd h hzero
      · refine Or.inr ⟨?_, ?_⟩
        · exact (zpow_le_zpow_right₀ hten.le (by omega)).trans hlower
        · exact hupper.trans_le (zpow_le_zpow_right₀ hten.le (by omega))
    · rintro (h | ⟨hlow, hhigh⟩)
      · exact absurd h hvalue
      · refine Or.inr ⟨?_, ?_⟩
        · have := (zpow_lt_zpow_iff_right₀ hten).mp (hlow.trans_lt hupper)
          omega
        · have := (zpow_lt_zpow_iff_right₀ hten).mp (hlower.trans_lt hhigh)
          omega

/-- A natural number is plain exactly when it is below `1e21`. -/
theorem plain_ofNat_iff (n : Nat) : (ofNat n).Plain ↔ n < 10 ^ 21 := by
  have hupper : (n : ℚ) < (10 : ℚ) ^ (21 : Int) ↔ n < 10 ^ 21 := by
    have hpower : (10 : ℚ) ^ (21 : Int) = ((10 ^ 21 : Nat) : ℚ) := by norm_num
    rw [hpower, Nat.cast_lt]
  rw [plain_iff, value_ofNat, Nat.abs_cast, hupper]
  constructor
  · rintro (hzero | ⟨-, h⟩)
    · have hn : n = 0 := by exact_mod_cast hzero
      omega
    · exact h
  · intro h
    by_cases hzero : n = 0
    · left
      exact_mod_cast hzero
    · right
      have hone : (1 : ℚ) ≤ n := by exact_mod_cast Nat.one_le_iff_ne_zero.mpr hzero
      have hsmall : (10 : ℚ) ^ (-6 : Int) ≤ 1 := by norm_num
      exact ⟨hsmall.trans hone, h⟩

end Decimal

namespace JsNumber

theorem text_ne_nil (x : JsNumber) : x.text ≠ [] := by
  cases x with
  | nan => decide
  | infinity negative => cases negative <;> decide
  | finite x => exact x.text_ne_nil

/-- The text of a number contains no white space. -/
theorem not_isWhiteSpace_of_mem_text {x : JsNumber} {unit : CodeUnit} (h : unit ∈ x.text) :
    isWhiteSpace unit = false := by
  have htext : ∀ text : JsString, text.all (fun unit => isWhiteSpace unit = false) = true →
      unit ∈ text → isWhiteSpace unit = false := fun _ hall hmem => forall_units hall unit hmem
  cases x with
  | nan => exact htext _ (by decide) h
  | infinity negative => cases negative <;> exact htext _ (by decide) h
  | finite x =>
      have hunit := Decimal.isNumberUnit_of_mem_text h
      simp only [Decimal.isNumberUnit, isDigit, hyphenUnit, fullStop, Bool.or_eq_true,
        Bool.and_eq_true, decide_eq_true_eq, ← UInt16.toNat_inj] at hunit
      simp only [isWhiteSpace, Bool.or_eq_false_iff, Bool.and_eq_false_iff,
        decide_eq_false_iff_not]
      have hcodes : (45 : CodeUnit).toNat = 45 ∧ (46 : CodeUnit).toNat = 46 ∧
          (101 : CodeUnit).toNat = 101 ∧ (43 : CodeUnit).toNat = 43 := by decide
      omega

end JsNumber

end Js
end NocoMiddleware
