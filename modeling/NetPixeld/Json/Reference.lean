import NetPixeld.Json.Vendored

/-!
# Correctly rounded doubles

A double that is not negative is a whole number of units of `2 ^ -1074`, and that number grows with
the bit pattern. The pattern at or below a number is found bit by bit, and the nearest double has
that pattern or the next one. A double is written with the fewest digits that round back to it.
-/

namespace NetPixeld

/-! ## Bit patterns in order -/

namespace Double

/-- The binary places of the smallest double, which are its decimal places too. -/
def places : ℕ := 1074

/-- A pattern without a sign as a multiple of the smallest double. Infinity counts as `2 ^ 1024`. -/
def units (pattern : ℕ) : ℕ :=
  if pattern < 2 ^ 52 then pattern
  else (2 ^ 52 + pattern % 2 ^ 52) * 2 ^ (pattern / 2 ^ 52 - 1)

theorem units_lt_succ (pattern : ℕ) : units pattern < units (pattern + 1) := by
  unfold units
  split_ifs with hleft hright
  · omega
  · -- from the largest subnormal to the smallest normal double
    obtain rfl : pattern = 2 ^ 52 - 1 := by omega
    decide
  · omega
  · by_cases hcarry : (pattern + 1) % 2 ^ 52 = 0
    · have hdiv : (pattern + 1) / 2 ^ 52 - 1 = pattern / 2 ^ 52 - 1 + 1 := by omega
      have hmod : pattern % 2 ^ 52 = 2 ^ 52 - 1 := by omega
      rw [hcarry, hmod, hdiv, pow_succ 2 (pattern / 2 ^ 52 - 1), mul_comm (2 ^ _) 2, ← mul_assoc]
      exact Nat.mul_lt_mul_of_pos_right (by decide) (by positivity)
    · have hdiv : (pattern + 1) / 2 ^ 52 = pattern / 2 ^ 52 := by omega
      have hmod : (pattern + 1) % 2 ^ 52 = pattern % 2 ^ 52 + 1 := by omega
      rw [hmod, hdiv]
      exact Nat.mul_lt_mul_of_pos_right (by omega) (by positivity)

theorem units_strictMono : StrictMono units := strictMono_nat_of_lt_succ units_lt_succ

/-- The largest pattern whose units are at most a fraction, by the bits still to be decided. -/
def below (numerator denominator : ℕ) : ℕ → ℕ → ℕ
  | 0, pattern => pattern
  | bit + 1, pattern =>
      below numerator denominator bit
        (if units (pattern + 2 ^ bit) * denominator ≤ numerator then pattern + 2 ^ bit else pattern)

theorem below_eq {numerator denominator result : ℕ}
    (hlow : units result * denominator ≤ numerator)
    (hhigh : numerator < units (result + 1) * denominator) {bits pattern : ℕ}
    (hpattern : pattern ≤ result) (hbits : result < pattern + 2 ^ bits) :
    below numerator denominator bits pattern = result := by
  induction bits generalizing pattern with
  | zero =>
    rw [pow_zero] at hbits
    rw [below]
    omega
  | succ bit ih =>
    rw [pow_succ] at hbits
    rw [below]
    split_ifs with htest
    · have hle : pattern + 2 ^ bit ≤ result := by
        by_contra hlt
        have hunits : units (result + 1) ≤ units (pattern + 2 ^ bit) :=
          units_strictMono.monotone (Nat.succ_le_of_lt (not_le.mp hlt))
        have hmul := Nat.mul_le_mul_right denominator hunits
        omega
      exact ih hle (by omega)
    · have hlt : result < pattern + 2 ^ bit := by
        by_contra hle
        have hunits : units (pattern + 2 ^ bit) ≤ units result :=
          units_strictMono.monotone (not_lt.mp hle)
        have hmul := Nat.mul_le_mul_right denominator hunits
        omega
      exact ih hpattern hlt

/-- The nearest double, of two the one with an even pattern, and infinity beyond the range. -/
def nearest (number : ℚ) : Double :=
  let numerator := number.num.toNat * 2 ^ places
  let pattern := below numerator number.den 63 0
  let sum := (units pattern + units (pattern + 1)) * number.den
  let down := 2 * numerator < sum ∨ 2 * numerator = sum ∧ pattern % 2 = 0
  ⟨UInt64.ofNat (min (2047 * 2 ^ 52) (if down then pattern else pattern + 1))⟩

theorem pattern_lt {value : Double} (hfinite : value.isFinite = true)
    (hnegative : value.negative = false) : value.bits.toNat < 2047 * 2 ^ 52 := by
  have hexponent : value.exponent ≠ 2 ^ 11 - 1 := of_decide_eq_true hfinite
  rw [exponent] at hexponent
  simp only [negative, decide_eq_false_iff_not] at hnegative
  omega

/-- A number that is a double is rounded to itself. -/
theorem nearest_units {value : Double} (hfinite : value.isFinite = true)
    (hnegative : value.negative = false) :
    nearest (units value.bits.toNat / 2 ^ places) = value := by
  have hpattern := pattern_lt hfinite hnegative
  have hsucc := units_lt_succ value.bits.toNat
  have hone : (2 : ℚ) ^ places ≠ 0 := pow_ne_zero _ two_ne_zero
  generalize hnumber : (units value.bits.toNat : ℚ) / 2 ^ places = number
  have hnonneg : 0 ≤ number.num := by
    rw [Rat.num_nonneg, ← hnumber]
    exact div_nonneg (Nat.cast_nonneg _) (pow_nonneg zero_le_two _)
  have hnumerator : number.num.toNat * 2 ^ places = units value.bits.toNat * number.den := by
    have hcast : (number.num.toNat : ℚ) = number * number.den := by
      rw [Rat.mul_den_eq_num, ← Int.cast_natCast, Int.toNat_of_nonneg hnonneg]
    have hrat : ((number.num.toNat * 2 ^ places : ℕ) : ℚ) =
        (units value.bits.toNat * number.den : ℕ) := by
      rw [Nat.cast_mul, Nat.cast_mul, Nat.cast_pow, Nat.cast_ofNat, hcast, mul_right_comm,
        ← hnumber, div_mul_cancel₀ _ hone]
    exact Nat.cast_injective hrat
  have hden : 0 < number.den := number.den_pos
  have hbelow : below (number.num.toNat * 2 ^ places) number.den 63 0 = value.bits.toNat := by
    refine below_eq hnumerator.ge ?_ (Nat.zero_le _) (by omega)
    rw [hnumerator]
    exact Nat.mul_lt_mul_of_pos_right hsucc hden
  have hdown : 2 * (number.num.toNat * 2 ^ places) <
      (units value.bits.toNat + units (value.bits.toNat + 1)) * number.den := by
    rw [hnumerator, ← mul_assoc]
    exact Nat.mul_lt_mul_of_pos_right (by omega) hden
  obtain ⟨bits⟩ := value
  rw [nearest, hbelow, if_pos (Or.inl hdown), min_eq_right hpattern.le, UInt64.ofNat_toNat]

theorem nearest_zero : nearest 0 = ⟨0⟩ := by decide +kernel

/-! ## Digits -/

/-- A double in the decimal places of the smallest one. -/
def exact (value : Double) : ℕ := units value.bits.toNat * 5 ^ places

/-- The places of the exact number that are not written with the given count of digits. -/
def zeros (value : Double) (count : ℕ) : ℕ := (Nat.digits 10 value.exact).length - count

/-- The exact number rounded to a count of digits. -/
def rounded (value : Double) (count : ℕ) : ℕ :=
  (value.exact + 10 ^ value.zeros count / 2) / 10 ^ value.zeros count

/-- The decimal number with the given count of digits that is nearest to a double. -/
def approximation (value : Double) (count : ℕ) : ℚ :=
  value.rounded count * 10 ^ (value.zeros count - places : ℤ)

/-- The fewest digits that round to the double; seventeen are enough for every double. -/
def digitCount (value : Double) : ℕ :=
  ((List.range 18).find? fun count ↦ nearest (value.approximation count) = value).getD
    (Nat.digits 10 value.exact).length

/-- The digits that are written. -/
def digits (value : Double) : Bytes := decimal (value.rounded value.digitCount)

/-- The power of ten of the last digit. -/
def decimalExponent (value : Double) : ℤ := value.zeros value.digitCount - places

theorem exact_eq (number places : ℕ) :
    ((number * 5 ^ places : ℕ) : ℚ) * 10 ^ (-places : ℤ) = number / 2 ^ places := by
  have hfive : (5 : ℚ) ^ places ≠ 0 := pow_ne_zero _ (by norm_num)
  have hten : (10 : ℚ) = 2 * 5 := by norm_num
  rw [zpow_neg, zpow_natCast, ← div_eq_mul_inv, hten, mul_pow, Nat.cast_mul, Nat.cast_pow,
    Nat.cast_ofNat, mul_div_mul_right _ _ hfive]

/-- Nothing is rounded with all the digits. -/
theorem rounded_length (value : Double) :
    value.rounded (Nat.digits 10 value.exact).length = value.exact := by
  rw [rounded, zeros, Nat.sub_self, pow_zero, Nat.div_one, Nat.div_eq_of_lt one_lt_two,
    Nat.add_zero]

theorem approximation_length (value : Double) :
    value.approximation (Nat.digits 10 value.exact).length =
      units value.bits.toNat / 2 ^ places := by
  rw [approximation, rounded_length, zeros, Nat.sub_self, Nat.cast_zero, zero_sub, exact, exact_eq]

theorem digitCount_le (value : Double) :
    value.digitCount < 18 ∨ value.digitCount = (Nat.digits 10 value.exact).length := by
  unfold digitCount
  cases hfind : (List.range 18).find? fun count ↦ nearest (value.approximation count) = value with
  | some count =>
    rw [Option.getD_some]
    exact Or.inl (List.mem_range.mp (List.mem_of_find?_eq_some hfind))
  | none =>
    rw [Option.getD_none]
    exact Or.inr rfl

section

variable {value : Double} (hfinite : value.isFinite = true) (hnegative : value.negative = false)
include hfinite hnegative

theorem nearest_approximation : nearest (value.approximation value.digitCount) = value := by
  unfold digitCount
  cases hfind : (List.range 18).find? fun count ↦ nearest (value.approximation count) = value with
  | some count =>
    have hround := List.find?_some hfind
    exact of_decide_eq_true hround
  | none =>
    rw [Option.getD_none, approximation_length]
    exact nearest_units hfinite hnegative

/-- The digits round back to the double. -/
theorem nearest_digits :
    nearest (Lexer.digitsValue value.digits * 10 ^ value.decimalExponent) = value := by
  have hvalue := nearest_approximation hfinite hnegative
  rw [approximation] at hvalue
  rw [digits, Lexer.digitsValue_decimal, decimalExponent]
  exact hvalue

theorem rounded_ne_zero (hbits : value.bits ≠ 0) : value.rounded value.digitCount ≠ 0 := by
  intro hzero
  have hvalue := nearest_approximation hfinite hnegative
  rw [approximation, hzero, Nat.cast_zero, zero_mul, nearest_zero] at hvalue
  exact hbits (congrArg Double.bits hvalue).symm

theorem digits_significant (hbits : value.bits ≠ 0) : Floats.Significant value.digits :=
  Grammar.significant_decimal (rounded_ne_zero hfinite hnegative hbits)

/-- In the places of the smallest double, every double has 700 to 1400 digits. -/
theorem exact_digits (hbits : value.bits ≠ 0) :
    700 < (Nat.digits 10 value.exact).length ∧ (Nat.digits 10 value.exact).length ≤ 1400 := by
  have hpattern := pattern_lt hfinite hnegative
  have hpos : 0 < value.bits.toNat := by
    rw [Nat.pos_iff_ne_zero]
    exact fun hzero ↦ hbits (UInt64.toNat_inj.mp hzero)
  rw [Nat.lt_digits_length_iff (by decide), Nat.digits_length_le_iff (by decide)]
  constructor
  · have hsmall : 10 ^ 700 ≤ units 1 * 5 ^ places := by decide +kernel
    exact hsmall.trans (Nat.mul_le_mul_right _ (units_strictMono.monotone hpos))
  · have hlarge : units (2047 * 2 ^ 52) * 5 ^ places ≤ 10 ^ 1400 := by decide +kernel
    refine lt_of_lt_of_le ?_ hlarge
    exact Nat.mul_lt_mul_of_pos_right (units_strictMono hpattern) (by decide +kernel)

end

/-- Rounding up may take one more digit. -/
theorem rounded_lt {value : Double} {count : ℕ} (h : count ≤ (Nat.digits 10 value.exact).length) :
    value.rounded count < 10 ^ (count + 1) := by
  have hexact : value.exact < 10 ^ (Nat.digits 10 value.exact).length :=
    Nat.lt_base_pow_length_digits (by decide)
  have hlength : (Nat.digits 10 value.exact).length = count + value.zeros count := by
    rw [zeros]
    omega
  rw [hlength, pow_add] at hexact
  unfold rounded
  generalize value.zeros count = zeros at hexact
  have hpos : 0 < 10 ^ zeros := by positivity
  have hone : 10 ^ zeros ≤ 10 ^ count * 10 ^ zeros := Nat.le_mul_of_pos_left _ (by positivity)
  rw [Nat.div_lt_iff_lt_mul hpos, pow_succ, mul_right_comm]
  omega

theorem decimal_length {number : ℕ} (h : number ≠ 0) :
    (decimal number).length = (Nat.digits 10 number).length := by
  rw [decimal, if_neg h, List.length_map, List.length_reverse]

theorem digits_exponent {value : Double} (hfinite : value.isFinite = true)
    (hnegative : value.negative = false) (hbits : value.bits ≠ 0) :
    (value.digits.length + value.decimalExponent - 1).natAbs < 1000 := by
  obtain ⟨hmany, hfew⟩ := exact_digits hfinite hnegative hbits
  have hplaces : places = 1074 := rfl
  have hcount := value.digitCount_le
  rw [digits, decimalExponent, decimal_length (rounded_ne_zero hfinite hnegative hbits), zeros]
  rcases hcount with hfewer | hall
  · have hlength := (Nat.digits_length_le_iff (by decide) _).mpr
      (@rounded_lt value value.digitCount (by omega))
    omega
  · rw [hall, rounded_length]
    omega

end Double

/-! ## The library -/

namespace Floats

/-- The fewest digits that round back, and correct rounding. -/
def reference : Floats where
  grisu2 value := (value.digits, value.decimalExponent)
  round := Double.nearest

theorem reference_digits (value : Double) : (reference.grisu2 value).1 = value.digits := rfl

theorem reference_exponent (value : Double) :
    (reference.grisu2 value).2 = value.decimalExponent := rfl

theorem reference_round : reference.round = Double.nearest := rfl

theorem reference_lawful : reference.Lawful where
  grisu2_significant hfinite hnegative hbits := by
    rw [reference_digits]
    exact Double.digits_significant hfinite hnegative hbits
  grisu2_exponent hfinite hnegative hbits := by
    rw [reference_digits, reference_exponent]
    exact Double.digits_exponent hfinite hnegative hbits
  round_grisu2 hfinite hnegative _ := by
    rw [reference_digits, reference_exponent, reference_round]
    exact Double.nearest_digits hfinite hnegative
  round_zero := by
    rw [reference_round]
    exact Double.nearest_zero

example : reference.toChars ⟨0x3FB999999999999A⟩ = text "0.1" := by decide +kernel

end Floats

namespace JsonLib

/-- The vendored library with correctly rounded doubles. -/
def reference : JsonLib := vendored Floats.reference

theorem reference_lawful : reference.Lawful := lawful_of_floats Floats.reference_lawful

theorem reference_whole : reference.Whole := whole_of_floats Floats.reference_lawful

/-- The laws hold for correctly rounded doubles, written with the fewest digits. -/
theorem vendored_lawful_reference :
    (vendored Floats.reference).Lawful ∧ (vendored Floats.reference).Whole :=
  vendored_lawful Floats.reference_lawful

end JsonLib

end NetPixeld
