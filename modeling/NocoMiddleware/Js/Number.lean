import Mathlib.Data.Nat.Digits.Lemmas
import Mathlib.Data.Rat.Defs
import Mathlib.Tactic
import NocoMiddleware.Js.Text

/-!
# JavaScript numbers and their text

`String(x)` writes a finite number `x` from the shortest decimal that rounds to
`x`.  That decimal determines `x`, and it is all that `String`, `===`, the
integer test and the sign test depend on, so a finite number is represented
here by it: a coefficient without trailing zero and a power of ten.  The type
does not bound the number of digits.  It therefore contains every double, and
more; what is proved for all of it holds for the doubles.

`-0` is identified with `0`: the two have the same text, the same truth value
and are equal under `===` and as keys of a `Map` or `Set`.
-/

namespace NocoMiddleware
namespace Js

/-- The number of zeros at the end of a positive decimal numeral. -/
@[semireducible] def trailingZeros (n : Nat) : Nat :=
  if n ≠ 0 ∧ n % 10 = 0 then trailingZeros (n / 10) + 1 else 0
termination_by n
decreasing_by omega

theorem pow_trailingZeros_dvd (n : Nat) : 10 ^ trailingZeros n ∣ n := by
  induction n using trailingZeros.induct with
  | case1 n h ih =>
      rw [trailingZeros, if_pos h, pow_succ]
      have hn : n = n / 10 * 10 := by omega
      have hdvd : 10 ^ trailingZeros (n / 10) * 10 ∣ n / 10 * 10 := Nat.mul_dvd_mul_right ih 10
      rwa [← hn] at hdvd
  | case2 n h => simp [trailingZeros, h]

theorem div_pow_trailingZeros_mod {n : Nat} (hn : n ≠ 0) :
    n / 10 ^ trailingZeros n % 10 ≠ 0 := by
  induction n using trailingZeros.induct with
  | case1 n h ih =>
      rw [trailingZeros, if_pos h, pow_succ, Nat.mul_comm, ← Nat.div_div_eq_div_mul]
      exact ih (by omega)
  | case2 n h =>
      have hmod : n % 10 ≠ 0 := by tauto
      rw [trailingZeros, if_neg h]
      simpa using hmod

/-! ## Finite numbers -/

/-- A finite number: `(-1)^negative * coefficient * 10^exponent`, written with
the shortest coefficient. -/
@[ext] structure Decimal where
  negative : Bool
  coefficient : Nat
  exponent : Int
  canonical : (coefficient = 0 ∧ negative = false ∧ exponent = 0) ∨ coefficient % 10 ≠ 0
  deriving DecidableEq

namespace Decimal

/-- The number `(-1)^negative * coefficient * 10^exponent`. -/
def normalize (negative : Bool) (coefficient : Nat) (exponent : Int) : Decimal :=
  if h : coefficient = 0 then
    ⟨false, 0, 0, Or.inl ⟨rfl, rfl, rfl⟩⟩
  else
    ⟨negative, coefficient / 10 ^ trailingZeros coefficient,
      exponent + trailingZeros coefficient, Or.inr (div_pow_trailingZeros_mod h)⟩

/-- A natural number. -/
def ofNat (n : Nat) : Decimal :=
  normalize false n 0

/-- The rational number that a decimal denotes. -/
def value (x : Decimal) : ℚ :=
  (if x.negative then -1 else 1) * x.coefficient * 10 ^ x.exponent

theorem value_normalize (negative : Bool) (coefficient : Nat) (exponent : Int) :
    (normalize negative coefficient exponent).value =
      (if negative then -1 else 1) * coefficient * 10 ^ exponent := by
  unfold normalize
  split
  · next h => simp [value, h]
  · have hdvd := pow_trailingZeros_dvd coefficient
    have hcast : ((coefficient / 10 ^ trailingZeros coefficient : Nat) : ℚ) *
        10 ^ trailingZeros coefficient = coefficient := by
      exact_mod_cast Nat.div_mul_cancel hdvd
    simp only [value]
    rw [zpow_add₀ (by norm_num), zpow_natCast]
    calc (if negative then (-1 : ℚ) else 1) *
          ((coefficient / 10 ^ trailingZeros coefficient : Nat) : ℚ) *
          (10 ^ exponent * 10 ^ trailingZeros coefficient)
        = (if negative then (-1 : ℚ) else 1) *
          (((coefficient / 10 ^ trailingZeros coefficient : Nat) : ℚ) *
            10 ^ trailingZeros coefficient) * 10 ^ exponent := by ring
      _ = _ := by rw [hcast]

@[simp] theorem value_ofNat (n : Nat) : (ofNat n).value = n := by
  simp [ofNat, value_normalize]

theorem ofNat_injective : Function.Injective ofNat := by
  intro n m h
  have hvalue := congrArg value h
  rw [value_ofNat, value_ofNat] at hvalue
  exact_mod_cast hvalue

@[simp] theorem ofNat_inj {n m : Nat} : ofNat n = ofNat m ↔ n = m :=
  ofNat_injective.eq_iff

/-- A canonical decimal is what its own parts normalize to. -/
theorem normalize_self (x : Decimal) :
    normalize x.negative x.coefficient x.exponent = x := by
  rcases x with ⟨negative, coefficient, exponent, hcanonical⟩
  rcases hcanonical with ⟨rfl, rfl, rfl⟩ | hmod
  · rfl
  · have hne : coefficient ≠ 0 := by
      rintro rfl
      simp at hmod
    have hzeros : trailingZeros coefficient = 0 := by
      rw [trailingZeros, if_neg (by tauto)]
    simp [normalize, hne, hzeros]

private theorem trailingZeros_mul_pow {n : Nat} (hn : n % 10 ≠ 0) (k : Nat) :
    trailingZeros (n * 10 ^ k) = k := by
  have hpos : 0 < n := by omega
  induction k with
  | zero =>
      rw [trailingZeros, if_neg]
      simp [hn]
  | succ k ih =>
      have hne : n * 10 ^ (k + 1) ≠ 0 := by positivity
      have hmod : n * 10 ^ (k + 1) % 10 = 0 := by
        rw [pow_succ, ← Nat.mul_assoc]
        exact Nat.mul_mod_left _ 10
      have hdiv : n * 10 ^ (k + 1) / 10 = n * 10 ^ k := by
        rw [pow_succ, ← Nat.mul_assoc]
        exact Nat.mul_div_cancel _ (by norm_num)
      rw [trailingZeros, if_pos ⟨hne, hmod⟩, hdiv, ih]

/-- Zeros appended to the coefficient move into the exponent. -/
theorem normalize_mul_pow (x : Decimal) (hne : x.coefficient ≠ 0) (k : Nat) :
    normalize x.negative (x.coefficient * 10 ^ k) (x.exponent - k) = x := by
  have hmod : x.coefficient % 10 ≠ 0 := by
    rcases x.canonical with h | h
    · exact absurd h.1 hne
    · exact h
  have hzeros := trailingZeros_mul_pow hmod k
  have hproduct : x.coefficient * 10 ^ k ≠ 0 := by positivity
  unfold normalize
  rw [dif_neg hproduct]
  ext <;> simp [hzeros]

/-- `Number.isInteger`, on a finite number. -/
def isInteger (x : Decimal) : Bool :=
  0 ≤ x.exponent

/-- `x > 0`, on a finite number. -/
def isPositive (x : Decimal) : Bool :=
  !x.negative && x.coefficient ≠ 0

/-- The positive integers among the numbers are the natural numbers. -/
theorem positive_integer_iff (x : Decimal) :
    (x.isInteger = true ∧ x.isPositive = true) ↔ ∃ n : Nat, 0 < n ∧ x = ofNat n := by
  simp only [isInteger, isPositive, decide_eq_true_eq, Bool.and_eq_true,
    Bool.not_eq_true']
  constructor
  · rintro ⟨hexponent, hnegative, hne⟩
    obtain ⟨k, hk⟩ := Int.eq_ofNat_of_zero_le hexponent
    refine ⟨x.coefficient * 10 ^ k, by positivity, ?_⟩
    have h := normalize_mul_pow x hne k
    rw [hnegative, hk] at h
    simpa [ofNat] using h.symm
  · rintro ⟨n, hn, rfl⟩
    have hne : n ≠ 0 := by omega
    refine ⟨?_, ?_, ?_⟩
    · simp [ofNat, normalize, hne]
    · simp [ofNat, normalize, hne]
    · have hmod := div_pow_trailingZeros_mod hne
      intro hzero
      simp only [ofNat, normalize, hne, dite_false] at hzero
      simp [hzero] at hmod

end Decimal

/-! ## The text of a number -/

/-- The code unit of a decimal digit. -/
def digitUnit (digit : Nat) : CodeUnit :=
  UInt16.ofNat (48 + digit)

/-- `\d`. -/
def isDigit (unit : CodeUnit) : Bool :=
  48 ≤ unit.toNat && unit.toNat ≤ 57

/-- The number that a digit stands for. -/
def digitValue (unit : CodeUnit) : Nat :=
  unit.toNat - 48

/-- The decimal digits of a positive natural number, most significant first. -/
def decimalDigits (n : Nat) : JsString :=
  (Nat.digits 10 n).reverse.map digitUnit

/-- The number that a sequence of digits spells. -/
def digitsValue (digits : JsString) : Nat :=
  Nat.ofDigits 10 (digits.map digitValue).reverse

theorem toNat_digitUnit {digit : Nat} (h : digit < 10) :
    (digitUnit digit).toNat = 48 + digit := by
  unfold digitUnit
  rw [UInt16.toNat_ofNat']
  omega

theorem isDigit_digitUnit {digit : Nat} (h : digit < 10) :
    isDigit (digitUnit digit) = true := by
  simp [isDigit, toNat_digitUnit h]
  omega

theorem digitValue_digitUnit {digit : Nat} (h : digit < 10) :
    digitValue (digitUnit digit) = digit := by
  simp [digitValue, toNat_digitUnit h]

theorem isDigit_of_mem_decimalDigits {n : Nat} {unit : CodeUnit}
    (h : unit ∈ decimalDigits n) : isDigit unit = true := by
  simp only [decimalDigits, List.mem_map, List.mem_reverse] at h
  obtain ⟨digit, hdigit, rfl⟩ := h
  exact isDigit_digitUnit (Nat.digits_lt_base (by norm_num) hdigit)

@[simp] theorem length_decimalDigits (n : Nat) :
    (decimalDigits n).length = (Nat.digits 10 n).length := by
  simp [decimalDigits]

@[simp] theorem digitsValue_decimalDigits (n : Nat) : digitsValue (decimalDigits n) = n := by
  have hmap : (Nat.digits 10 n).map (digitValue ∘ digitUnit) = Nat.digits 10 n := by
    conv_rhs => rw [← List.map_id (Nat.digits 10 n)]
    apply List.map_congr_left
    intro digit hdigit
    exact digitValue_digitUnit (Nat.digits_lt_base (by norm_num) hdigit)
  unfold digitsValue decimalDigits
  rw [List.map_map, ← List.map_reverse, List.reverse_reverse, hmap, Nat.ofDigits_digits]

theorem decimalDigits_ne_nil {n : Nat} (hn : n ≠ 0) : decimalDigits n ≠ [] := by
  intro h
  have hvalue := congrArg digitsValue h
  rw [digitsValue_decimalDigits] at hvalue
  exact hn hvalue

theorem digitsValue_append_zeros (digits : JsString) (count : Nat) :
    digitsValue (digits ++ List.replicate count (digitUnit 0)) =
      digitsValue digits * 10 ^ count := by
  have hzero : digitValue (digitUnit 0) = 0 := by decide
  simp [digitsValue, Nat.ofDigits_append, hzero, Nat.ofDigits_replicate_zero]
  ring

theorem digitsValue_zeros_append (digits : JsString) (count : Nat) :
    digitsValue (List.replicate count (digitUnit 0) ++ digits) = digitsValue digits := by
  have hzero : digitValue (digitUnit 0) = 0 := by decide
  simp [digitsValue, hzero, Nat.ofDigits_append_replicate_zero]

/-- The exponent part of a number's text: `e`, a sign, and the digits. -/
def exponentText (exponent : Int) : JsString :=
  js "e" ++ (if exponent < 0 then js "-" else js "+") ++ decimalDigits exponent.natAbs

namespace Decimal

/-- The position of the decimal point relative to the first digit of the
coefficient: the `n` of the specification of `Number::toString`. -/
def pointPosition (x : Decimal) : Int :=
  (Nat.digits 10 x.coefficient).length + x.exponent

/-- The text of a positive number. -/
def unsignedText (x : Decimal) : JsString :=
  let digits := decimalDigits x.coefficient
  let n := x.pointPosition
  if digits.length ≤ n ∧ n ≤ 21 then
    digits ++ List.replicate (n.toNat - digits.length) (digitUnit 0)
  else if 0 < n ∧ n ≤ 21 then
    digits.take n.toNat ++ js "." ++ digits.drop n.toNat
  else if -6 < n ∧ n ≤ 0 then
    js "0." ++ List.replicate (-n).toNat (digitUnit 0) ++ digits
  else
    digits.take 1 ++ (if digits.length = 1 then [] else js "." ++ digits.drop 1) ++
      exponentText (n - 1)

/-- `String(x)` for a finite number. -/
def text (x : Decimal) : JsString :=
  if x.coefficient = 0 then js "0"
  else if x.negative then js "-" ++ x.unsignedText
  else x.unsignedText

end Decimal

example : (Decimal.ofNat 1200).text = js "1200" := by decide
example : (Decimal.normalize true 15 (-1)).text = js "-1.5" := by decide
example : (Decimal.normalize false 1 21).text = js "1e+21" := by decide
example : (Decimal.normalize false 123 (-9)).text = js "1.23e-7" := by decide

/-- A number of the language. -/
inductive JsNumber where
  | nan
  | infinity (negative : Bool)
  | finite (x : Decimal)
  deriving DecidableEq

namespace JsNumber

/-- The number of a natural number. -/
def ofNat (n : Nat) : JsNumber :=
  finite (Decimal.ofNat n)

@[simp] theorem ofNat_inj {n m : Nat} : ofNat n = ofNat m ↔ n = m := by
  simp [ofNat]

/-- `String(x)`. -/
def text : JsNumber → JsString
  | nan => js "NaN"
  | infinity negative => if negative then js "-Infinity" else js "Infinity"
  | finite x => x.text

/-- `Number.isInteger`. -/
def isInteger : JsNumber → Bool
  | finite x => x.isInteger
  | _ => false

/-- `isFinite`, of a number. -/
def isFinite : JsNumber → Bool
  | finite _ => true
  | _ => false

/-- `x > 0`. -/
def isPositive : JsNumber → Bool
  | nan => false
  | infinity negative => !negative
  | finite x => x.isPositive

/-- `Boolean(x)`. -/
def truthy : JsNumber → Bool
  | nan => false
  | infinity _ => true
  | finite x => x.coefficient ≠ 0

theorem truthy_ofNat {n : Nat} (hpositive : 0 < n) : (ofNat n).truthy = true := by
  have hne : (Decimal.ofNat n).coefficient ≠ 0 := by
    intro hzero
    have hvalue := Decimal.value_ofNat n
    rw [Decimal.value, hzero] at hvalue
    have hn : (n : ℚ) = 0 := by simpa using hvalue.symm
    have hcast : n = 0 := by exact_mod_cast hn
    omega
  simpa [truthy, ofNat] using hne

/-- `Number.isInteger(x) && x > 0` holds exactly of the positive naturals. -/
theorem positive_integer_iff (x : JsNumber) :
    (x.isInteger && x.isPositive) = true ↔ ∃ n : Nat, 0 < n ∧ x = ofNat n := by
  cases x with
  | nan => simp [isInteger, ofNat]
  | infinity negative => simp [isInteger, ofNat]
  | finite x =>
      simp only [isInteger, isPositive, Bool.and_eq_true, ofNat, finite.injEq]
      exact Decimal.positive_integer_iff x

end JsNumber

end Js
end NocoMiddleware
