import Mathlib.Data.List.Lex
import Mathlib.Data.Nat.Digits.Defs
import Mathlib.Order.Lattice

/-!
# Byte strings

A C++ `std::string` is an arbitrary sequence of bytes, not a sequence of Unicode characters, so
strings are lists of bytes throughout. Comparison is the unsigned lexicographic order of
`std::char_traits<char>`, which is the key order of `std::map<std::string, _>`.
-/

namespace NetPixeld

/-- The contents of a `std::string`. -/
abbrev Bytes := List UInt8

/-- The bytes of a string literal. -/
def text (literal : String) : Bytes := literal.toByteArray.data.toList

instance instLinearOrderUInt8 : LinearOrder UInt8 where
  le_refl := UInt8.le_refl
  le_trans _ _ _ := UInt8.le_trans
  le_antisymm _ _ := UInt8.le_antisymm
  le_total := UInt8.le_total
  lt_iff_le_not_ge left right := by
    rw [UInt8.lt_iff_toNat_lt, UInt8.le_iff_toNat_le, UInt8.le_iff_toNat_le]
    omega
  toDecidableLE := inferInstance
  toDecidableEq := inferInstance
  toDecidableLT := inferInstance

/-- `'\n'`. -/
def newline : UInt8 := 10

/-- `'\r'`. -/
def carriageReturn : UInt8 := 13

instance decidableMemBytes (byte : UInt8) (bytes : Bytes) : Decidable (byte ∈ bytes) :=
  List.instDecidableMemOfLawfulBEq byte bytes

/-- A lower-case hexadecimal digit. -/
def hexDigit (value : ℕ) : UInt8 :=
  if value < 10 then UInt8.ofNat (48 + value) else UInt8.ofNat (87 + value)

theorem hexDigit_ascii {value : ℕ} (h : value < 16) :
    0x20 ≤ hexDigit value ∧ hexDigit value < 0x80 := by
  have hall : ∀ digit < 16, 0x20 ≤ hexDigit digit ∧ hexDigit digit < 0x80 := by decide
  exact hall value h

/-- Sixteen hexadecimal digits, padded with zeros. -/
def hex16 (value : UInt64) : Bytes :=
  (List.range 16).map fun place ↦ hexDigit (value.toNat / 16 ^ (15 - place) % 16)

theorem hex16_ascii {value : UInt64} {byte : UInt8} (h : byte ∈ hex16 value) : byte < 0x80 := by
  obtain ⟨place, _, rfl⟩ := List.mem_map.mp h
  exact (hexDigit_ascii (Nat.mod_lt _ (by decide))).2

theorem hexDigit_inj {left right : ℕ} (hleft : left < 16) (hright : right < 16)
    (h : hexDigit left = hexDigit right) : left = right := by
  have hall : ∀ left < 16, ∀ right < 16, hexDigit left = hexDigit right → left = right := by decide
  exact hall left hleft right hright h

/-- A lower-case hexadecimal digit of a number. -/
theorem hexDigit_mem {value : ℕ} (h : value < 16) : hexDigit value ∈ text "0123456789abcdef" := by
  have hall : ∀ digit < 16, hexDigit digit ∈ text "0123456789abcdef" := by decide
  exact hall value h

theorem hex16_length (value : UInt64) : (hex16 value).length = 16 := by
  rw [hex16, List.length_map, List.length_range]

theorem hex16_digits {value : UInt64} {byte : UInt8} (h : byte ∈ hex16 value) :
    byte ∈ text "0123456789abcdef" := by
  obtain ⟨place, _, rfl⟩ := List.mem_map.mp h
  exact hexDigit_mem (Nat.mod_lt _ (by decide))

/-- Numbers with the same digits agree below the places compared. -/
theorem mod_pow_eq_of_digits {left right : ℕ} (places : ℕ)
    (h : ∀ place < places, left / 16 ^ place % 16 = right / 16 ^ place % 16) :
    left % 16 ^ places = right % 16 ^ places := by
  induction places with
  | zero => rw [pow_zero, Nat.mod_one, Nat.mod_one]
  | succ places ih =>
    have hlower := ih fun place hplace ↦ h place (Nat.lt_succ_of_lt hplace)
    rw [Nat.mod_pow_succ, Nat.mod_pow_succ, hlower, h places (Nat.lt_succ_self places)]

/-- The padding keeps the digits apart. -/
theorem hex16_injective : Function.Injective hex16 := by
  intro left right h
  have hdigits : ∀ place < 16,
      left.toNat / 16 ^ place % 16 = right.toNat / 16 ^ place % 16 := by
    intro place hplace
    have hmem : 15 - place ∈ List.range 16 := List.mem_range.mpr (by omega)
    have heq := List.map_inj_left.mp h (15 - place) hmem
    rw [show 15 - (15 - place) = place by omega] at heq
    exact hexDigit_inj (Nat.mod_lt _ (by decide)) (Nat.mod_lt _ (by decide)) heq
  have hmod := mod_pow_eq_of_digits 16 hdigits
  have hpow : 2 ^ 64 = 16 ^ 16 := by norm_num
  rw [← hpow, Nat.mod_eq_of_lt left.toNat_lt, Nat.mod_eq_of_lt right.toNat_lt] at hmod
  exact UInt64.toNat_inj.mp hmod

/-- The decimal digits of a natural number, most significant first. -/
def decimal (value : ℕ) : Bytes :=
  if value = 0 then [48] else (Nat.digits 10 value).reverse.map fun digit ↦ UInt8.ofNat (48 + digit)

theorem decimal_digit {value : ℕ} {byte : UInt8} (h : byte ∈ decimal value) :
    ∃ digit < 10, byte = UInt8.ofNat (48 + digit) := by
  unfold decimal at h
  split at h
  · exact ⟨0, by decide, by simpa using h⟩
  · obtain ⟨digit, hdigit, rfl⟩ := List.mem_map.mp h
    exact ⟨digit, Nat.digits_lt_base (by decide) (List.mem_reverse.mp hdigit), rfl⟩

theorem decimal_ascii {value : ℕ} {byte : UInt8} (h : byte ∈ decimal value) :
    0x20 ≤ byte ∧ byte < 0x80 := by
  obtain ⟨digit, hdigit, rfl⟩ := decimal_digit h
  have hall : ∀ digit < 10, (0x20 : UInt8) ≤ UInt8.ofNat (48 + digit) ∧
      UInt8.ofNat (48 + digit) < 0x80 := by decide
  exact hall digit hdigit

end NetPixeld
