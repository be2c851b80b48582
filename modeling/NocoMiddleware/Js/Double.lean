import Mathlib.Algebra.Order.Field.Power
import NocoMiddleware.Js.Numeral

/-!
# Rounding to a double

The number that a numeral denotes is the double nearest to its decimal value, where a value in the
middle goes to the even mantissa, and `Infinity` beyond the largest double.  A double is again
represented by its shortest decimal (`Double.shortest`), and a number that has been rounded stays
what it is when it is rounded again (`isDouble_toDouble`).
-/

namespace NocoMiddleware
namespace Js

/-! ## Fractions -/

/-- A fraction that is not negative. -/
structure Fraction where
  numerator : Nat
  denominator : Nat
  positive : 0 < denominator

namespace Fraction

/-- The rational number that a fraction denotes. -/
def value (f : Fraction) : ℚ :=
  f.numerator / f.denominator

/-- `f * base ^ power`. -/
def scale (f : Fraction) (base : Nat) (power : Int) (hbase : 0 < base) : Fraction where
  numerator := f.numerator * base ^ power.toNat
  denominator := f.denominator * base ^ (-power).toNat
  positive := Nat.mul_pos f.positive (Nat.pow_pos hbase)

theorem value_scale (f : Fraction) {base : Nat} (power : Int) (hbase : 0 < base) :
    (f.scale base power hbase).value = f.value * (base : ℚ) ^ power := by
  have hpositive : (0 : ℚ) < base := by exact_mod_cast hbase
  have hsplit : power = (power.toNat : Int) - ((-power).toNat : Int) := by omega
  conv_rhs => rw [hsplit, zpow_sub₀ hpositive.ne', zpow_natCast, zpow_natCast]
  simp only [value, scale, Nat.cast_mul, Nat.cast_pow]
  rw [mul_div_mul_comm]

/-- The part before the point. -/
def floor (f : Fraction) : Nat :=
  f.numerator / f.denominator

theorem floor_lt_iff (f : Fraction) (n : Nat) : f.floor < n ↔ f.value < n := by
  have hdenominator : (0 : ℚ) < f.denominator := by exact_mod_cast f.positive
  rw [floor, Nat.div_lt_iff_lt_mul f.positive, value, div_lt_iff₀ hdenominator]
  exact_mod_cast Iff.rfl

theorem le_floor_iff (f : Fraction) (n : Nat) : n ≤ f.floor ↔ (n : ℚ) ≤ f.value := by
  rw [← not_lt, floor_lt_iff, not_lt]

/-- The nearest natural number, the even one of two. -/
def round (f : Fraction) : Nat :=
  let twice := 2 * (f.numerator % f.denominator)
  if twice < f.denominator ∨ (twice = f.denominator ∧ f.floor % 2 = 0) then f.floor
  else f.floor + 1

theorem floor_le_round (f : Fraction) : f.floor ≤ f.round := by
  unfold round
  dsimp only
  split <;> omega

theorem round_le (f : Fraction) : f.round ≤ f.floor + 1 := by
  unfold round
  dsimp only
  split <;> omega

theorem round_of_value {f : Fraction} {n : Nat} (h : f.value = n) : f.round = n := by
  have hdenominator : (f.denominator : ℚ) ≠ 0 := by exact_mod_cast f.positive.ne'
  have hnumerator : f.numerator = n * f.denominator := by
    rw [value, div_eq_iff hdenominator] at h
    exact_mod_cast h
  have hfloor : f.floor = n := by
    rw [floor, hnumerator]
    exact Nat.mul_div_cancel n f.positive
  have hrest : f.numerator % f.denominator = 0 := by
    rw [hnumerator]
    exact Nat.mul_mod_left n f.denominator
  unfold round
  dsimp only
  rw [hrest, hfloor, if_pos (Or.inl f.positive)]

/-- The exponent of the greatest power of two that is not above the fraction. -/
def floorLog2 (f : Fraction) : Int :=
  let estimate : Int := f.numerator.log2 - f.denominator.log2
  if 1 ≤ (f.scale 2 (-estimate) two_pos).floor then estimate else estimate - 1

/-- The logarithms of the parts tell the exponent up to one. -/
theorem value_between {f : Fraction} (h : f.numerator ≠ 0) :
    (2 : ℚ) ^ ((f.numerator.log2 : Int) - f.denominator.log2 - 1) < f.value ∧
      f.value < (2 : ℚ) ^ ((f.numerator.log2 : Int) - f.denominator.log2 + 1) := by
  have htwo : (2 : ℚ) ≠ 0 := two_ne_zero
  have hdenominator : (0 : ℚ) < f.denominator := by exact_mod_cast f.positive
  have hlow : (2 : ℚ) ^ f.numerator.log2 ≤ f.numerator := by
    exact_mod_cast Nat.log2_self_le h
  have hhigh : (f.numerator : ℚ) < (2 : ℚ) ^ (f.numerator.log2 + 1) := by
    exact_mod_cast Nat.lt_log2_self (n := f.numerator)
  have hlow' : (2 : ℚ) ^ f.denominator.log2 ≤ f.denominator := by
    exact_mod_cast Nat.log2_self_le f.positive.ne'
  have hhigh' : (f.denominator : ℚ) < (2 : ℚ) ^ (f.denominator.log2 + 1) := by
    exact_mod_cast Nat.lt_log2_self (n := f.denominator)
  generalize f.numerator.log2 = a at hlow hhigh ⊢
  generalize f.denominator.log2 = b at hlow' hhigh' ⊢
  constructor
  · have hpower : (2 : ℚ) ^ ((a : Int) - b - 1) * 2 ^ (b + 1) = 2 ^ a := by
      rw [← zpow_natCast 2 (b + 1), ← zpow_add₀ htwo, ← zpow_natCast 2 a]
      congr 1
      push_cast
      omega
    rw [value, lt_div_iff₀ hdenominator]
    calc (2 : ℚ) ^ ((a : Int) - b - 1) * f.denominator
        < 2 ^ ((a : Int) - b - 1) * 2 ^ (b + 1) := by gcongr
      _ = 2 ^ a := hpower
      _ ≤ f.numerator := hlow
  · have hpower : (2 : ℚ) ^ ((a : Int) - b + 1) * 2 ^ b = 2 ^ (a + 1) := by
      rw [← zpow_natCast 2 b, ← zpow_add₀ htwo, ← zpow_natCast 2 (a + 1)]
      congr 1
      push_cast
      omega
    rw [value, div_lt_iff₀ hdenominator]
    calc (f.numerator : ℚ) < 2 ^ (a + 1) := hhigh
      _ = 2 ^ ((a : Int) - b + 1) * 2 ^ b := hpower.symm
      _ ≤ 2 ^ ((a : Int) - b + 1) * f.denominator := by gcongr

theorem floorLog2_spec {f : Fraction} (h : f.numerator ≠ 0) :
    (2 : ℚ) ^ f.floorLog2 ≤ f.value ∧ f.value < (2 : ℚ) ^ (f.floorLog2 + 1) := by
  obtain ⟨hlow, hhigh⟩ := value_between h
  have htest : ∀ estimate : Int, 1 ≤ (f.scale 2 (-estimate) two_pos).floor ↔
      (2 : ℚ) ^ estimate ≤ f.value := by
    intro estimate
    have hpower : (0 : ℚ) < 2 ^ estimate := zpow_pos two_pos _
    rw [le_floor_iff, value_scale, Nat.cast_one, Nat.cast_ofNat, zpow_neg, ← div_eq_mul_inv,
      one_le_div₀ hpower]
  unfold floorLog2
  dsimp only
  by_cases hle : (2 : ℚ) ^ ((f.numerator.log2 : Int) - f.denominator.log2) ≤ f.value
  · rw [if_pos ((htest _).mpr hle)]
    exact ⟨hle, hhigh⟩
  · rw [if_neg (mt (htest _).mp hle), sub_add_cancel]
    exact ⟨hlow.le, not_le.mp hle⟩

/-- The exponent is told by the value. -/
theorem floorLog2_of_value {f : Fraction} {exponent : Int} (hlow : (2 : ℚ) ^ exponent ≤ f.value)
    (hhigh : f.value < (2 : ℚ) ^ (exponent + 1)) : f.floorLog2 = exponent := by
  have hpositive : 0 < f.value := lt_of_lt_of_le (zpow_pos two_pos _) hlow
  have hne : f.numerator ≠ 0 := by
    intro hzero
    rw [value, hzero, Nat.cast_zero, zero_div] at hpositive
    exact lt_irrefl _ hpositive
  obtain ⟨hlow', hhigh'⟩ := floorLog2_spec hne
  have h1 := (zpow_lt_zpow_iff_right₀ (one_lt_two (α := ℚ))).mp (hlow.trans_lt hhigh')
  have h2 := (zpow_lt_zpow_iff_right₀ (one_lt_two (α := ℚ))).mp (hlow'.trans_lt hhigh)
  omega

end Fraction

/-! ## Doubles -/

/-- The double `mantissa * 2 ^ exponent`, with no bound on the exponent from above.  Below `2 ^ 52`
stand the mantissas of the numbers with the least exponent only. -/
@[ext] structure Double where
  mantissa : Nat
  exponent : Int
  canonical : mantissa < 2 ^ 53 ∧ -1074 ≤ exponent ∧ (2 ^ 52 ≤ mantissa ∨ exponent = -1074)
  deriving DecidableEq

namespace Fraction

/-- The exponent of the last place of the double nearest to a fraction. -/
def unitExponent (f : Fraction) : Int :=
  max (-1074) (f.floorLog2 - 52)

/-- The fraction in units of that place, rounded. -/
def units (f : Fraction) : Nat :=
  (f.scale 2 (-f.unitExponent) two_pos).round

theorem units_le {f : Fraction} (h : f.numerator ≠ 0) :
    f.units ≤ 2 ^ 53 ∧ (2 ^ 52 ≤ f.units ∨ f.unitExponent = -1074) := by
  obtain ⟨hlow, hhigh⟩ := floorLog2_spec h
  have hscaled : (f.scale 2 (-f.unitExponent) two_pos).value =
      f.value * (2 : ℚ) ^ (-f.unitExponent) := value_scale f _ two_pos
  have hpower : (0 : ℚ) < 2 ^ (-f.unitExponent) := zpow_pos two_pos _
  have hfloor := floor_le_round (f.scale 2 (-f.unitExponent) two_pos)
  have hround := round_le (f.scale 2 (-f.unitExponent) two_pos)
  have hexponent : f.unitExponent = max (-1074) (f.floorLog2 - 52) := rfl
  constructor
  · have hlt : (f.scale 2 (-f.unitExponent) two_pos).floor < 2 ^ 53 := by
      rw [floor_lt_iff, hscaled]
      calc f.value * (2 : ℚ) ^ (-f.unitExponent)
          < 2 ^ (f.floorLog2 + 1) * 2 ^ (-f.unitExponent) := by gcongr
        _ = 2 ^ (f.floorLog2 + 1 - f.unitExponent) := by
            rw [← zpow_add₀ two_ne_zero, sub_eq_add_neg]
        _ ≤ 2 ^ (53 : Int) := zpow_le_zpow_right₀ one_le_two (by omega)
        _ = ((2 ^ 53 : Nat) : ℚ) := by norm_num
    unfold units
    omega
  · by_cases hleast : f.unitExponent = -1074
    · exact Or.inr hleast
    · have hle : 2 ^ 52 ≤ (f.scale 2 (-f.unitExponent) two_pos).floor := by
        rw [le_floor_iff, hscaled]
        calc ((2 ^ 52 : Nat) : ℚ) = 2 ^ (52 : Int) := by norm_num
          _ = 2 ^ f.floorLog2 * 2 ^ (-f.unitExponent) := by
              rw [← zpow_add₀ two_ne_zero]
              congr 1
              omega
          _ ≤ f.value * 2 ^ (-f.unitExponent) := by gcongr
      exact Or.inl (hle.trans hfloor)

end Fraction

namespace Double

/-- The double nearest to a fraction. -/
def nearest (f : Fraction) : Double :=
  if h : f.numerator = 0 then ⟨0, -1074, by decide⟩
  else if hcarry : f.units = 2 ^ 53 then
    ⟨2 ^ 52, f.unitExponent + 1, by
      have hexponent : f.unitExponent = max (-1074) (f.floorLog2 - 52) := rfl
      omega⟩
  else
    ⟨f.units, f.unitExponent, by
      have hexponent : f.unitExponent = max (-1074) (f.floorLog2 - 52) := rfl
      obtain ⟨hle, hleast⟩ := Fraction.units_le h
      omega⟩

/-- The double as a fraction. -/
def magnitude (x : Double) : Fraction :=
  Fraction.scale ⟨x.mantissa, 1, one_pos⟩ 2 x.exponent two_pos

/-- A fraction that is a double is rounded to it. -/
theorem nearest_of_value {f : Fraction} {x : Double} (hne : x.mantissa ≠ 0)
    (h : f.value = x.mantissa * (2 : ℚ) ^ x.exponent) : nearest f = x := by
  obtain ⟨hlt, hexponent, hnormal⟩ := x.canonical
  have hpower : (0 : ℚ) < 2 ^ x.exponent := zpow_pos two_pos _
  have hmantissa : (0 : ℚ) < x.mantissa := by exact_mod_cast Nat.pos_of_ne_zero hne
  have hnumerator : f.numerator ≠ 0 := by
    intro hzero
    have hpositive := mul_pos hmantissa hpower
    rw [← h, Fraction.value, hzero, Nat.cast_zero, zero_div] at hpositive
    exact lt_irrefl _ hpositive
  have hlog : f.floorLog2 = x.mantissa.log2 + x.exponent := by
    have hlow : (2 : ℚ) ^ x.mantissa.log2 ≤ x.mantissa := by
      exact_mod_cast Nat.log2_self_le hne
    have hhigh : (x.mantissa : ℚ) < (2 : ℚ) ^ (x.mantissa.log2 + 1) := by
      exact_mod_cast Nat.lt_log2_self (n := x.mantissa)
    apply Fraction.floorLog2_of_value
    · rw [h, zpow_add₀ two_ne_zero, zpow_natCast]
      gcongr
    · rw [h, add_right_comm, zpow_add₀ two_ne_zero]
      have hcast : (2 : ℚ) ^ ((x.mantissa.log2 : Int) + 1) = 2 ^ (x.mantissa.log2 + 1) := by
        exact_mod_cast zpow_natCast (2 : ℚ) (x.mantissa.log2 + 1)
      rw [hcast]
      gcongr
  have hunit : f.unitExponent = x.exponent := by
    have hbound : x.mantissa.log2 < 53 := (Nat.log2_lt hne).mpr hlt
    unfold Fraction.unitExponent
    rw [hlog]
    rcases hnormal with hnormal | hleast
    · have hlog52 : 52 ≤ x.mantissa.log2 := (Nat.le_log2 hne).mpr hnormal
      omega
    · omega
  have hunits : f.units = x.mantissa := by
    apply Fraction.round_of_value
    rw [Fraction.value_scale, h, hunit, Nat.cast_ofNat, mul_assoc, ← zpow_add₀ two_ne_zero,
      add_neg_cancel, zpow_zero, mul_one]
  unfold nearest
  rw [dif_neg hnumerator, dif_neg (by omega)]
  exact Double.ext hunits hunit

theorem numerator_ne_zero_of_nearest {f : Fraction} (h : (nearest f).mantissa ≠ 0) :
    f.numerator ≠ 0 := by
  intro hzero
  apply h
  unfold nearest
  rw [dif_pos hzero]

end Double

/-! ## The shortest decimal of a double -/

namespace Decimal

/-- A number without its sign. -/
def magnitude (x : Decimal) : Fraction :=
  Fraction.scale ⟨x.coefficient, 1, one_pos⟩ 10 x.exponent (by norm_num)

theorem value_magnitude (x : Decimal) :
    x.magnitude.value = x.coefficient * (10 : ℚ) ^ x.exponent := by
  rw [magnitude, Fraction.value_scale]
  simp [Fraction.value]

theorem value_magnitude_normalize (negative : Bool) (coefficient : Nat) (exponent : Int) :
    (normalize negative coefficient exponent).magnitude.value =
      coefficient * (10 : ℚ) ^ exponent := by
  have h := value_normalize false coefficient exponent
  rw [value_magnitude]
  by_cases hzero : coefficient = 0
  · simp [normalize, hzero]
  · simpa [value, normalize, hzero] using h

end Decimal

namespace Double

/-- A position that is not to the right of the decimal point of a double, as 0.30103 is the
logarithm of two. -/
def position (x : Double) : Int :=
  (x.mantissa.log2 + x.exponent) * 30103 / 100000 + 3

/-- The decimals next to a double that are multiples of a power of ten, the nearest first. -/
def decimalsAt (x : Double) (negative : Bool) (power : Int) : List Decimal :=
  let f := x.magnitude.scale 10 (-power) (by norm_num)
  [f.round, f.floor, f.floor + 1].map fun coefficient =>
    Decimal.normalize negative coefficient power

/-- All digits of a double. -/
def exact (x : Double) (negative : Bool) : Decimal :=
  Decimal.normalize negative (x.mantissa * 2 ^ x.exponent.toNat * 5 ^ (-x.exponent).toNat)
    (min x.exponent 0)

/-- The decimal with the fewest digits that is rounded to a double, and of these the nearest one.
Seventeen digits are enough. -/
def shortest (x : Double) (negative : Bool) : Decimal :=
  (((List.range 22).flatMap fun index : Nat => x.decimalsAt negative (x.position - index)).find?
    fun decimal => nearest decimal.magnitude = x).getD (x.exact negative)

theorem nearest_exact {x : Double} (hne : x.mantissa ≠ 0) (negative : Bool) :
    nearest (x.exact negative).magnitude = x := by
  apply nearest_of_value hne
  rw [exact, Decimal.value_magnitude_normalize]
  rcases le_total 0 x.exponent with hexponent | hexponent
  · obtain ⟨k, hk⟩ := Int.eq_ofNat_of_zero_le hexponent
    have hzero : (-x.exponent).toNat = 0 := by omega
    rw [hzero, min_eq_right hexponent, hk]
    simp
  · obtain ⟨k, hk⟩ := Int.eq_ofNat_of_zero_le (Int.neg_nonneg.mpr hexponent)
    have hnegative : x.exponent = -(k : Int) := by omega
    have hzero : x.exponent.toNat = 0 := by omega
    have hten : (10 : ℚ) ^ k = 2 ^ k * 5 ^ k := by
      rw [← mul_pow]
      norm_num
    rw [hzero, min_eq_left hexponent, hnegative, neg_neg, Int.toNat_natCast, zpow_neg, zpow_neg,
      zpow_natCast, zpow_natCast, hten]
    push_cast
    field_simp

theorem nearest_shortest {x : Double} (hne : x.mantissa ≠ 0) (negative : Bool) :
    nearest (x.shortest negative).magnitude = x := by
  unfold shortest
  generalize hfound : List.find? _ _ = found
  cases found with
  | none => exact nearest_exact hne negative
  | some decimal =>
      have hnearest := List.find?_some hfound
      exact of_decide_eq_true hnearest

theorem negative_shortest {x : Double} (hne : x.mantissa ≠ 0) (negative : Bool) :
    (x.shortest negative).negative = negative := by
  have hcoefficient : (x.shortest negative).coefficient ≠ 0 := by
    have h := numerator_ne_zero_of_nearest (f := (x.shortest negative).magnitude)
      (by rwa [nearest_shortest hne])
    intro hzero
    apply h
    simp [Decimal.magnitude, Fraction.scale, hzero]
  have hsigned : ∀ (coefficient : Nat) (power : Int),
      (Decimal.normalize negative coefficient power).coefficient ≠ 0 →
      (Decimal.normalize negative coefficient power).negative = negative := by
    intro coefficient power h
    unfold Decimal.normalize at h ⊢
    by_cases hzero : coefficient = 0
    · simp [hzero] at h
    · rw [dif_neg hzero]
  revert hcoefficient
  unfold shortest
  generalize hfound : List.find? _ _ = found
  cases found with
  | none => exact hsigned _ _
  | some decimal =>
      have hmem := List.mem_of_find?_eq_some hfound
      obtain ⟨index, -, hdecimal⟩ := List.mem_flatMap.mp hmem
      obtain ⟨coefficient, -, rfl⟩ := List.mem_map.mp hdecimal
      exact hsigned _ _

end Double

/-! ## Rounding -/

namespace Decimal

/-- The double nearest to a number. -/
def toDouble (x : Decimal) : JsNumber :=
  let double := Double.nearest x.magnitude
  if 971 < double.exponent then .infinity x.negative
  else if double.mantissa = 0 then .ofNat 0
  else .finite (double.shortest x.negative)

end Decimal

namespace JsNumber

/-- A number of the language, as the type of the numbers holds more decimals than doubles. -/
def IsDouble : JsNumber → Prop
  | finite x => x.toDouble = finite x
  | _ => True

instance : DecidablePred IsDouble := fun x =>
  match x with
  | nan => isTrue trivial
  | infinity _ => isTrue trivial
  | finite x => inferInstanceAs (Decidable (x.toDouble = finite x))

end JsNumber

/-- What is rounded is a double. -/
theorem isDouble_toDouble (x : Decimal) : x.toDouble.IsDouble := by
  unfold Decimal.toDouble
  dsimp only
  by_cases hlarge : 971 < (Double.nearest x.magnitude).exponent
  · rw [if_pos hlarge]
    trivial
  · rw [if_neg hlarge]
    by_cases hzero : (Double.nearest x.magnitude).mantissa = 0
    · rw [if_pos hzero]
      decide
    · rw [if_neg hzero]
      show Decimal.toDouble _ = _
      unfold Decimal.toDouble
      dsimp only
      rw [Double.nearest_shortest hzero, Double.negative_shortest hzero, if_neg hlarge,
        if_neg hzero]

example : (Decimal.ofNat 9007199254740993).toDouble = .ofNat 9007199254740992 := by decide +kernel
example : (Decimal.normalize false 1 999).toDouble = .infinity false := by decide +kernel
example : (Decimal.normalize true 1 (-1)).toDouble = .finite (Decimal.normalize true 1 (-1)) := by
  decide +kernel

end Js
end NocoMiddleware
