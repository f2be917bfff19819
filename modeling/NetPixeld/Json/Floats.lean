import Mathlib.Algebra.Order.Field.Rat
import Mathlib.Data.List.Induction
import Mathlib.Tactic.FieldSimp
import NetPixeld.Json.Grammar

/-!
# The text of floating-point numbers

`to_chars` writes the digits that Grisu2 chooses in one of four layouts. In every layout the text is
a numeral with a fraction or an exponent, and it denotes the digits times their power of ten. The
choice of the digits and the rounding of `std::strtod` to the nearest double are parameters.
-/

namespace NetPixeld.Floats

open Grammar
open Lexer (isDigit digitsValue)

/-! ## The value of a numeral -/

/-- The exponent behind its letter. -/
def exponentValue : Bytes → ℤ
  | 43 :: digits => digitsValue digits
  | 45 :: digits => -digitsValue digits
  | digits => digitsValue digits

/-- A numeral without its sign. -/
def unsigned : Bytes → Bytes
  | 45 :: digits => digits
  | digits => digits

/-- The digits of a fraction and what follows them. -/
def fraction : Bytes → Bytes × Bytes
  | 46 :: digits => (digits.takeWhile isDigit, digits.dropWhile isDigit)
  | exponent => ([], exponent)

/-- The absolute value a numeral denotes. -/
def magnitude (numeral : Bytes) : ℚ :=
  let whole := (unsigned numeral).takeWhile isDigit
  let parts := fraction ((unsigned numeral).dropWhile isDigit)
  digitsValue (whole ++ parts.1) * 10 ^ (exponentValue parts.2.tail - parts.1.length)

theorem digitsValue_append (left right : Bytes) :
    digitsValue (left ++ right) = digitsValue left * 10 ^ right.length + digitsValue right := by
  induction right using List.reverseRecOn with
  | nil => simp [digitsValue]
  | append_singleton right digit ih =>
    rw [← List.append_assoc, Lexer.digitsValue_append_singleton,
      Lexer.digitsValue_append_singleton, ih, List.length_append, List.length_singleton, pow_succ]
    ring

theorem digitsValue_zeros (count : ℕ) : digitsValue (List.replicate count 48) = 0 := by
  induction count with
  | zero => rfl
  | succ count ih =>
    rw [List.replicate_succ', Lexer.digitsValue_append_singleton, ih]
    rfl

theorem span_digits {digits rest : Bytes} (hdigits : ∀ digit ∈ digits, isDigit digit = true)
    (hrest : ∀ byte ∈ rest.head?, isDigit byte = false) :
    (digits ++ rest).takeWhile isDigit = digits ∧ (digits ++ rest).dropWhile isDigit = rest := by
  rw [List.takeWhile_append_of_pos hdigits, List.dropWhile_append_of_pos hdigits]
  cases rest with
  | nil => simp
  | cons byte rest =>
    have hbyte : isDigit byte = false := hrest byte rfl
    simp [hbyte]

theorem unsigned_digits {first : UInt8} {rest : Bytes} (hfirst : isDigit first = true) :
    unsigned (first :: rest) = first :: rest := by
  unfold unsigned
  split
  · next heq =>
    obtain ⟨rfl, _⟩ := List.cons.inj heq
    exact absurd hfirst (by decide)
  · rfl

/-- A numeral with a decimal point. -/
theorem magnitude_point {first : UInt8} {whole digits exponent : Bytes}
    (hfirst : isDigit first = true) (hwhole : ∀ digit ∈ whole, isDigit digit = true)
    (hdigits : ∀ digit ∈ digits, isDigit digit = true)
    (hexponent : ∀ byte ∈ exponent.head?, isDigit byte = false) :
    magnitude (first :: whole ++ 46 :: (digits ++ exponent)) =
      digitsValue (first :: whole ++ digits) *
        10 ^ (exponentValue exponent.tail - digits.length) := by
  have hall : ∀ digit ∈ first :: whole, isDigit digit = true :=
    List.forall_mem_cons.mpr ⟨hfirst, hwhole⟩
  obtain ⟨htake, hdrop⟩ := @span_digits _ (46 :: (digits ++ exponent)) hall
    (by rintro _ ⟨⟩; rfl)
  obtain ⟨htake', hdrop'⟩ := span_digits hdigits hexponent
  have hunsigned : unsigned (first :: whole ++ 46 :: (digits ++ exponent)) =
      first :: whole ++ 46 :: (digits ++ exponent) := unsigned_digits hfirst
  rw [magnitude, hunsigned, htake, hdrop]
  simp only [fraction, htake', hdrop']

/-- A numeral without a decimal point. -/
theorem magnitude_whole {first : UInt8} {whole exponent : Bytes} (hfirst : isDigit first = true)
    (hwhole : ∀ digit ∈ whole, isDigit digit = true)
    (hexponent : ∀ byte ∈ exponent.head?, isDigit byte = false ∧ byte ≠ 46) :
    magnitude (first :: whole ++ exponent) =
      digitsValue (first :: whole) * 10 ^ exponentValue exponent.tail := by
  have hall : ∀ digit ∈ first :: whole, isDigit digit = true :=
    List.forall_mem_cons.mpr ⟨hfirst, hwhole⟩
  obtain ⟨htake, hdrop⟩ := span_digits hall fun byte hbyte ↦ (hexponent byte hbyte).1
  have hunsigned : unsigned (first :: whole ++ exponent) = first :: whole ++ exponent :=
    unsigned_digits hfirst
  have hfraction : fraction exponent = ([], exponent) := by
    unfold fraction
    split
    · exact absurd rfl (hexponent 46 rfl).2
    · rfl
  rw [magnitude, hunsigned, htake, hdrop, hfraction]
  simp

/-! ## The layouts -/

/-- `append_exponent`: a sign and at least two digits. -/
def appendExponent (exponent : ℤ) : Bytes :=
  let k := exponent.natAbs
  (if exponent < 0 then 45 else 43) ::
    if k < 10 then [48, UInt8.ofNat (48 + k)]
    else if k < 100 then [UInt8.ofNat (48 + k / 10), UInt8.ofNat (48 + k % 10)]
    else
      [UInt8.ofNat (48 + k / 100), UInt8.ofNat (48 + k % 100 / 10), UInt8.ofNat (48 + k % 100 % 10)]

/-- `format_buffer` with the bounds that `to_chars` passes. -/
def formatBuffer (digits : Bytes) (decimalExponent : ℤ) : Bytes :=
  let k := digits.length
  let n := k + decimalExponent
  if k ≤ n ∧ n ≤ 15 then digits ++ List.replicate (n.toNat - k) 48 ++ [46, 48]
  else if 0 < n ∧ n ≤ 15 then digits.take n.toNat ++ 46 :: digits.drop n.toNat
  else if -4 < n ∧ n ≤ 0 then [48, 46] ++ List.replicate (-n).toNat 48 ++ digits
  else
    (if k = 1 then digits else digits.take 1 ++ 46 :: digits.drop 1) ++
      101 :: appendExponent (n - 1)

/-- The digits of a positive number, without leading zeros. -/
def Significant (digits : Bytes) : Prop :=
  ∃ first rest, digits = first :: rest ∧ isDigit first = true ∧ first ≠ 48 ∧
    ∀ digit ∈ rest, isDigit digit = true

theorem isDigit_ofNat {digit : ℕ} (h : digit < 10) : isDigit (UInt8.ofNat (48 + digit)) = true := by
  have hall : ∀ digit < 10, isDigit (UInt8.ofNat (48 + digit)) = true := by decide
  exact hall digit h

theorem toNat_ofNat {digit : ℕ} (h : digit < 10) :
    (UInt8.ofNat (48 + digit)).toNat - 48 = digit := by
  have hall : ∀ digit < 10, (UInt8.ofNat (48 + digit)).toNat - 48 = digit := by decide
  exact hall digit h

/-- The digits behind the sign of an exponent, and their value. -/
theorem appendExponent_spec {exponent : ℤ} (h : exponent.natAbs < 1000) :
    ∃ digits, appendExponent exponent = (if exponent < 0 then 45 else 43) :: digits ∧
      Digits digits ∧ digitsValue digits = exponent.natAbs := by
  unfold appendExponent
  generalize exponent.natAbs = k at h
  refine ⟨_, rfl, ?_⟩
  split_ifs with hone htwo
  · refine ⟨⟨List.cons_ne_nil _ _, ?_⟩, ?_⟩
    · exact List.forall_mem_cons.mpr ⟨rfl, List.forall_mem_singleton.mpr (isDigit_ofNat hone)⟩
    · have hzero : (48 : UInt8).toNat - 48 = 0 := rfl
      simp only [digitsValue, List.foldl_cons, List.foldl_nil, toNat_ofNat hone, hzero]
      omega
  · have htens : k / 10 < 10 := by omega
    have hunits : k % 10 < 10 := by omega
    refine ⟨⟨List.cons_ne_nil _ _, ?_⟩, ?_⟩
    · exact List.forall_mem_cons.mpr
        ⟨isDigit_ofNat htens, List.forall_mem_singleton.mpr (isDigit_ofNat hunits)⟩
    · simp only [digitsValue, List.foldl_cons, List.foldl_nil, toNat_ofNat htens,
        toNat_ofNat hunits]
      omega
  · have hhundreds : k / 100 < 10 := by omega
    have htens : k % 100 / 10 < 10 := by omega
    have hunits : k % 100 % 10 < 10 := by omega
    refine ⟨⟨List.cons_ne_nil _ _, ?_⟩, ?_⟩
    · exact List.forall_mem_cons.mpr ⟨isDigit_ofNat hhundreds, List.forall_mem_cons.mpr
        ⟨isDigit_ofNat htens, List.forall_mem_singleton.mpr (isDigit_ofNat hunits)⟩⟩
    · simp only [digitsValue, List.foldl_cons, List.foldl_nil, toNat_ofNat hhundreds,
        toNat_ofNat htens, toNat_ofNat hunits]
      omega

/-- The exponent that is written is the one that is read. -/
theorem exponentValue_appendExponent {exponent : ℤ} (h : exponent.natAbs < 1000) :
    exponentValue (appendExponent exponent) = exponent := by
  obtain ⟨digits, hdigits, _, hvalue⟩ := appendExponent_spec h
  rw [hdigits]
  split_ifs with hsign
  · rw [exponentValue, hvalue]
    omega
  · rw [exponentValue, hvalue]
    omega

theorem exponent_appendExponent {exponent : ℤ} (h : exponent.natAbs < 1000) :
    Exponent (101 :: appendExponent exponent) := by
  obtain ⟨digits, hdigits, hall, _⟩ := appendExponent_spec h
  rw [hdigits]
  split_ifs
  · exact @Exponent.digits _ [45] digits (Or.inl rfl) (by simp) hall
  · exact @Exponent.digits _ [43] digits (Or.inl rfl) (by simp) hall

theorem zeros_digits (count : ℕ) : ∀ digit ∈ List.replicate count 48, isDigit digit = true := by
  intro digit hdigit
  rw [List.eq_of_mem_replicate hdigit]
  rfl

/-- A text that is read as a floating-point number whatever its sign, and what it denotes. -/
def Floating (body : Bytes) (value : ℚ) : Prop :=
  (∃ whole suffix, body = whole ++ suffix ∧ Whole whole ∧ ∀ type, Suffix type suffix .float) ∧
    magnitude body = value

theorem Floating.congr {body other : Bytes} {value result : ℚ} (h : Floating body value)
    (hbody : other = body) (hvalue : result = value) : Floating other result := by
  rw [hbody, hvalue]
  exact h

/-- Digits moved behind the decimal point are made up for by the exponent. -/
theorem shift (value places : ℕ) {left right : ℤ} (h : left = places + right) :
    (value : ℚ) * 10 ^ left = (value * 10 ^ places : ℕ) * 10 ^ right := by
  rw [h, zpow_add₀ (by norm_num), zpow_natCast, Nat.cast_mul, Nat.cast_pow, Nat.cast_ofNat,
    mul_assoc]

theorem whole_digits {whole : Bytes} (h : Whole whole) :
    ∃ first rest, whole = first :: rest ∧ isDigit first = true ∧
      ∀ digit ∈ rest, isDigit digit = true := by
  cases h with
  | zero => exact ⟨48, [], rfl, rfl, by simp⟩
  | digits hfirst _ hrest => exact ⟨_, _, rfl, hfirst, hrest⟩

theorem exponent_head {exponent : Bytes} (h : Exponent exponent) :
    ∀ byte ∈ exponent.head?, isDigit byte = false ∧ byte ≠ 46 := by
  cases h with
  | none =>
    rintro _ ⟨⟩
  | digits hletter _ _ =>
    rintro _ ⟨⟩
    rcases hletter with rfl | rfl <;> decide

theorem floating_point {whole digits exponent : Bytes} (hwhole : Whole whole)
    (hdigits : Digits digits) (hexponent : Exponent exponent) :
    Floating (whole ++ 46 :: (digits ++ exponent))
      (digitsValue (whole ++ digits) * 10 ^ (exponentValue exponent.tail - digits.length)) := by
  refine ⟨⟨whole, 46 :: (digits ++ exponent), rfl, hwhole, fun type ↦ ?_⟩, ?_⟩
  · exact .float (.digits hdigits) hexponent (by simp)
  · obtain ⟨first, rest, rfl, hfirst, hrest⟩ := whole_digits hwhole
    exact magnitude_point hfirst hrest hdigits.2 fun byte hbyte ↦
      (exponent_head hexponent byte hbyte).1

theorem floating_exponent {whole exponent : Bytes} (hwhole : Whole whole)
    (hexponent : Exponent exponent) (hne : exponent ≠ []) :
    Floating (whole ++ exponent) (digitsValue whole * 10 ^ exponentValue exponent.tail) := by
  refine ⟨⟨whole, exponent, rfl, hwhole, fun type ↦ .float .none hexponent hne⟩, ?_⟩
  obtain ⟨first, rest, rfl, hfirst, hrest⟩ := whole_digits hwhole
  exact magnitude_whole hfirst hrest (exponent_head hexponent)

theorem digits_zero : Digits [48] := ⟨by simp, List.forall_mem_singleton.mpr rfl⟩

/-- Every layout is a floating-point numeral that denotes the digits times their power of ten. -/
theorem formatBuffer_floating {digits : Bytes} (hdigits : Significant digits)
    {decimalExponent : ℤ} (hexponent : (digits.length + decimalExponent - 1).natAbs < 1000) :
    Floating (formatBuffer digits decimalExponent)
      (digitsValue digits * 10 ^ decimalExponent) := by
  obtain ⟨first, rest, hcons, hfirst, hzero, hrest⟩ := hdigits
  have hall : ∀ digit ∈ digits, isDigit digit = true := by
    rw [hcons]
    exact List.forall_mem_cons.mpr ⟨hfirst, hrest⟩
  have hlength : digits.length = rest.length + 1 := by rw [hcons, List.length_cons]
  unfold formatBuffer
  dsimp only
  generalize hn : (digits.length : ℤ) + decimalExponent = n at hexponent
  have hleading (count : ℕ) (zeros : ℕ) (hcount : 0 < count) :
      Whole (digits.take count ++ List.replicate zeros 48) := by
    obtain ⟨count, rfl⟩ := Nat.exists_eq_add_of_lt hcount
    rw [hcons, Nat.zero_add, List.take_succ_cons, List.cons_append]
    refine .digits hfirst hzero (List.forall_mem_append.mpr ⟨fun digit hdigit ↦ ?_, zeros_digits _⟩)
    exact hrest digit (List.mem_of_mem_take hdigit)
  have hnone : exponentValue ([] : Bytes).tail = 0 := rfl
  split_ifs with hwhole hpoint hsmall hone
  · -- the digits, zeros and a fraction of one zero
    have h := floating_point (hleading digits.length (n.toNat - digits.length) (by omega))
      digits_zero .none
    refine h.congr (by simp) ?_
    rw [List.take_length, List.append_assoc, ← List.replicate_succ', digitsValue_append,
      digitsValue_zeros, List.length_replicate, Nat.add_zero, hnone, List.length_singleton]
    exact shift _ _ (by omega)
  · -- the decimal point among the digits
    have hfraction : Digits (digits.drop n.toNat) :=
      ⟨by simp only [ne_eq, List.drop_eq_nil_iff]; omega,
        fun digit hdigit ↦ hall digit (List.mem_of_mem_drop hdigit)⟩
    have h := floating_point (hleading n.toNat 0 (by omega)) hfraction .none
    refine h.congr (by simp) ?_
    rw [List.replicate_zero, List.append_nil, List.take_append_drop, hnone, List.length_drop]
    congr 2
    omega
  · -- zeros behind the decimal point
    have hfraction : Digits (List.replicate (-n).toNat 48 ++ digits) :=
      ⟨by simp [hcons], List.forall_mem_append.mpr ⟨zeros_digits _, hall⟩⟩
    have h := floating_point .zero hfraction .none
    refine h.congr (by simp) ?_
    rw [← List.append_assoc, ← List.replicate_one, ← List.replicate_add, digitsValue_append,
      digitsValue_zeros, Nat.zero_mul, Nat.zero_add, hnone, List.length_append,
      List.length_replicate]
    congr 2
    omega
  · -- one digit and an exponent
    have h := floating_exponent (hleading digits.length 0 (by omega))
      (exponent_appendExponent hexponent) (by simp)
    refine h.congr (by simp) ?_
    rw [List.take_length, List.replicate_zero, List.append_nil, List.tail_cons,
      exponentValue_appendExponent hexponent]
    congr 2
    omega
  · -- a decimal point behind the first digit, and an exponent
    have hfraction : Digits (digits.drop 1) :=
      ⟨by simp only [ne_eq, List.drop_eq_nil_iff]; omega,
        fun digit hdigit ↦ hall digit (List.mem_of_mem_drop hdigit)⟩
    have h := floating_point (hleading 1 0 Nat.one_pos) hfraction
      (exponent_appendExponent hexponent)
    refine h.congr (by simp) ?_
    rw [List.replicate_zero, List.append_nil, List.take_append_drop, List.tail_cons,
      exponentValue_appendExponent hexponent, List.length_drop]
    congr 2
    omega

/-- The text of digits and an exponent is a floating-point numeral, and denotes the number. -/
theorem formatBuffer_denotes {digits : Bytes} (hdigits : Significant digits)
    {decimalExponent : ℤ} (hexponent : (digits.length + decimalExponent - 1).natAbs < 1000) :
    Numeral .float (formatBuffer digits decimalExponent) ∧
      magnitude (formatBuffer digits decimalExponent) =
        digitsValue digits * 10 ^ decimalExponent := by
  obtain ⟨⟨whole, suffix, htext, hwhole, hsuffix⟩, hvalue⟩ :=
    formatBuffer_floating hdigits hexponent
  refine ⟨?_, hvalue⟩
  rw [htext]
  exact .positive hwhole (hsuffix _)

/-- One and a quarter. -/
theorem formatBuffer_denotes_quarter :
    formatBuffer [49, 50, 53] (-2) = text "1.25" ∧
      Numeral .float (formatBuffer [49, 50, 53] (-2)) ∧
      magnitude (formatBuffer [49, 50, 53] (-2)) = digitsValue [49, 50, 53] * 10 ^ (-2 : ℤ) := by
  refine ⟨by decide, formatBuffer_denotes ⟨49, [50, 53], rfl, rfl, by decide, ?_⟩ (by decide)⟩
  exact List.forall_mem_cons.mpr ⟨rfl, List.forall_mem_singleton.mpr rfl⟩

end NetPixeld.Floats

namespace NetPixeld

/-! ## Doubles as text -/

namespace Double

/-- A double without its sign. -/
def abs (x : Double) : Double := ⟨UInt64.ofNat (x.bits.toNat % 2 ^ 63)⟩

/-- A double under a sign. -/
def signed (negative : Bool) (x : Double) : Double :=
  if negative then ⟨UInt64.ofNat (x.bits.toNat % 2 ^ 63 + 2 ^ 63)⟩ else x

theorem bits_abs (x : Double) : x.abs.bits.toNat = x.bits.toNat % 2 ^ 63 := by
  have hlt := x.bits.toNat_lt
  simp only [abs, UInt64.toNat_ofNat']
  omega

theorem negative_abs (x : Double) : x.abs.negative = false := by
  have hbits := x.bits_abs
  simp only [negative, decide_eq_false_iff_not]
  omega

theorem isFinite_abs (x : Double) : x.abs.isFinite = x.isFinite := by
  have hbits := x.bits_abs
  have hexponent : x.abs.exponent = x.exponent := by
    simp only [exponent]
    omega
  rw [isFinite, isFinite, hexponent]

theorem signed_abs (x : Double) : x.abs.signed x.negative = x := by
  have hbits := x.bits_abs
  have hlt := x.bits.toNat_lt
  obtain ⟨bits⟩ := x
  unfold signed
  split_ifs with hnegative
  · simp only [negative, decide_eq_true_eq] at hnegative
    rw [hbits, Double.mk.injEq]
    have hsum : bits.toNat % 2 ^ 63 % 2 ^ 63 + 2 ^ 63 = bits.toNat := by
      dsimp only at hlt
      omega
    rw [hsum, UInt64.ofNat_toNat]
  · simp only [negative, decide_eq_true_eq] at hnegative
    have hsmall : bits.toNat % 2 ^ 63 = bits.toNat := by omega
    rw [abs, hsmall, UInt64.ofNat_toNat]

end Double

/-- The conversions between doubles and decimal numbers that are not embedded. -/
structure Floats where
  /-- `grisu2`: the digits of a positive double and their power of ten. -/
  grisu2 : Double → Bytes × ℤ
  /-- The double nearest to a number that is not negative. -/
  round : ℚ → Double

namespace Floats

/-- `to_chars`. -/
def toChars (floats : Floats) (value : Double) : Bytes :=
  (if value.negative then [45] else []) ++
    if value.abs.bits = 0 then text "0.0"
    else formatBuffer (floats.grisu2 value.abs).1 (floats.grisu2 value.abs).2

/-- `std::strtod` on a numeral: the nearest double under the sign. -/
def strtod (floats : Floats) (numeral : Bytes) : Double :=
  (floats.round (magnitude numeral)).signed (numeral.head? = some 45)

/-- Grisu2 yields digits that round back to the double, and zero is exact. -/
structure Lawful (floats : Floats) : Prop where
  grisu2_significant {value : Double} : value.isFinite = true → value.negative = false →
    value.bits ≠ 0 → Significant (floats.grisu2 value).1
  grisu2_exponent {value : Double} : value.isFinite = true → value.negative = false →
    value.bits ≠ 0 →
      ((floats.grisu2 value).1.length + (floats.grisu2 value).2 - 1).natAbs < 1000
  round_grisu2 {value : Double} : value.isFinite = true → value.negative = false →
    value.bits ≠ 0 →
      floats.round (Lexer.digitsValue (floats.grisu2 value).1 * 10 ^ (floats.grisu2 value).2) =
        value
  round_zero : floats.round 0 = ⟨0⟩

open Grammar
open Lexer (isDigit digitsValue)

/-- The text behind the sign. -/
theorem toChars_floating {floats : Floats} (h : floats.Lawful) {value : Double}
    (hfinite : value.isFinite = true) :
    ∃ body number, floats.toChars value = (if value.negative then [45] else []) ++ body ∧
      Floating body number ∧ floats.round number = value.abs := by
  have hfinite : value.abs.isFinite = true := by rw [value.isFinite_abs]; exact hfinite
  have hnegative := value.negative_abs
  by_cases hzero : value.abs.bits = 0
  · have hbody : Floating (text "0.0") (digitsValue [48, 48] * 10 ^ (0 - 1 : ℤ)) :=
      floating_point .zero digits_zero .none
    refine ⟨text "0.0", _, by rw [toChars, if_pos hzero], hbody, ?_⟩
    have hnumber : (digitsValue [48, 48] : ℚ) * 10 ^ (0 - 1 : ℤ) = 0 := by
      have hvalue : digitsValue [48, 48] = 0 := rfl
      rw [hvalue, Nat.cast_zero, zero_mul]
    rw [hnumber, h.round_zero, ← hzero]
  · refine ⟨_, _, by rw [toChars, if_neg hzero], formatBuffer_floating
      (h.grisu2_significant hfinite hnegative hzero)
      (h.grisu2_exponent hfinite hnegative hzero), ?_⟩
    exact h.round_grisu2 hfinite hnegative hzero

/-- A finite double is written as a floating-point numeral. -/
theorem toChars_numeral {floats : Floats} (h : floats.Lawful) {value : Double}
    (hfinite : value.isFinite = true) : Numeral .float (floats.toChars value) := by
  obtain ⟨body, number, htext, ⟨⟨whole, suffix, rfl, hwhole, hsuffix⟩, _⟩, _⟩ :=
    toChars_floating h hfinite
  rw [htext]
  split_ifs
  · have hnumeral : Numeral .float (45 :: (whole ++ suffix)) := .negative hwhole (hsuffix _)
    exact hnumeral
  · have hnumeral : Numeral .float (whole ++ suffix) := .positive hwhole (hsuffix _)
    exact hnumeral

/-- Reading a double's text gives it back, bit by bit. -/
theorem strtod_toChars {floats : Floats} (h : floats.Lawful) {value : Double}
    (hfinite : value.isFinite = true) : floats.strtod (floats.toChars value) = value := by
  obtain ⟨body, number, htext, ⟨⟨whole, suffix, hbody, hwhole, _⟩, hnumber⟩, hround⟩ :=
    toChars_floating h hfinite
  obtain ⟨first, rest, rfl, hfirst, _⟩ := whole_digits hwhole
  have hunsigned : unsigned body = body := by
    rw [hbody]
    exact unsigned_digits hfirst
  have hhead : body.head? ≠ some 45 := by
    rw [hbody]
    rintro ⟨⟩
    exact absurd hfirst (by decide)
  have hsigned := value.signed_abs
  unfold strtod
  rw [htext]
  split_ifs with hnegative
  · have hmagnitude : magnitude ([45] ++ body) = number := by
      rw [← hnumber, magnitude, magnitude, hunsigned]
      rfl
    rw [hmagnitude, hround]
    rw [hnegative] at hsigned
    exact hsigned
  · rw [List.nil_append, hnumber, hround, decide_eq_false hhead]
    rw [Bool.eq_false_of_not_eq_true hnegative] at hsigned
    exact hsigned

end Floats

end NetPixeld
