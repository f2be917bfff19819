import NetPixeld.Json.Value

/-!
# Numbers read from JSON

`get<T>` for an integer type is a `static_cast` without a range check. A number that is not an
integer of the range of the type is read as another number: integers are reduced modulo the width,
fractions are cut off and booleans count as zero and one. Every other value is rejected.
-/

namespace NetPixeld

/-- The integer types that fields are read as. -/
inductive IntegerType where
  | uint8
  | uint32
  /-- `unsigned long long`, which is not the library's own unsigned type. -/
  | ull
  /-- `uint64_t`, the library's own unsigned type. -/
  | uint64
  | int
deriving DecidableEq

namespace IntegerType

def bits : IntegerType → ℕ
  | uint8 => 8
  | uint32 => 32
  | ull | uint64 => 64
  | int => 32

/-- The least value of a type. -/
def low : IntegerType → ℤ
  | int => -2 ^ 31
  | uint8 | uint32 | ull | uint64 => 0

/-- A value of the type. -/
def InRange (target : IntegerType) (value : ℤ) : Prop :=
  target.low ≤ value ∧ value < target.low + 2 ^ target.bits

instance (target : IntegerType) (value : ℤ) : Decidable (target.InRange value) := instDecidableAnd

/-- The value of the type that is congruent to an integer modulo the width. -/
def cast (target : IntegerType) (value : ℤ) : ℤ :=
  target.low + (value - target.low) % 2 ^ target.bits

/-- `get<T>()`, as a mathematical integer. -/
def read : IntegerType → Json → Except Exn ℤ
  | uint8, json => json.getUInt8.map fun value ↦ value.toNat
  | uint32, json => json.getUInt32.map fun value ↦ value.toNat
  | ull, json => json.getULL.map fun value ↦ value.toNat
  | uint64, json => json.getUInt64.map fun value ↦ value.toNat
  | int, json => json.getInt32.map Int32.toInt

/-- What a JSON value is converted to. Of a floating-point number whose integer part is out of range
nothing is said: the language leaves that conversion undefined. -/
def Converts (target : IntegerType) (json : Json) (result : ℤ) : Prop :=
  match json with
  | .num value => result = target.cast value
  | .bool value => target ≠ .uint64 ∧ result = value.toInt
  | .float value => target.InRange value.truncate → result = value.truncate
  | _ => False

/-! ## Casts -/

theorem width_pos (target : IntegerType) : (0 : ℤ) < 2 ^ target.bits := by positivity

theorem cast_inRange (target : IntegerType) (value : ℤ) : target.InRange (target.cast value) := by
  have hpos := target.width_pos
  have hlow := Int.emod_nonneg (value - target.low) hpos.ne'
  have hhigh := Int.emod_lt_of_pos (value - target.low) hpos
  constructor
  · rw [cast]
    omega
  · rw [cast]
    omega

/-- Exactly the values of the type are kept. -/
theorem cast_eq_self_iff {target : IntegerType} {value : ℤ} :
    target.cast value = value ↔ target.InRange value := by
  constructor
  · intro h
    rw [← h]
    exact target.cast_inRange value
  · rintro ⟨hlow, hhigh⟩
    rw [cast, Int.emod_eq_of_lt (by omega) (by omega)]
    omega

theorem cast_of_low_zero {target : IntegerType} (h : target.low = 0) (value : ℤ) :
    target.cast value = value % 2 ^ target.bits := by
  rw [cast, h, zero_add, sub_zero]

theorem cast_int (value : ℤ) : int.cast value = value.bmod (2 ^ 32) := by
  have hlow : int.low = -2 ^ 31 := rfl
  have hbits : int.bits = 32 := rfl
  rw [cast, hlow, hbits, Int.bmod_def]
  norm_num
  split <;> omega

/-! ## Reading -/

theorem toNat_uint8 (value : ℤ) : ((UInt8.ofInt value).toNat : ℤ) = uint8.cast value := by
  rw [cast_of_low_zero rfl, UInt8.ofInt, UInt8.toNat_ofNat']
  simp only [bits]
  omega

theorem toNat_uint32 (value : ℤ) : ((UInt32.ofInt value).toNat : ℤ) = uint32.cast value := by
  rw [cast_of_low_zero rfl, UInt32.ofInt, UInt32.toNat_ofNat']
  simp only [bits]
  omega

theorem toNat_uint64 {target : IntegerType} (hlow : target.low = 0) (hbits : target.bits = 64)
    (value : ℤ) : ((UInt64.ofInt value).toNat : ℤ) = target.cast value := by
  rw [cast_of_low_zero hlow, hbits, UInt64.ofInt, UInt64.toNat_ofNat']
  omega

theorem toInt_int32 (value : ℤ) : (Int32.ofInt value).toInt = int.cast value := by
  rw [cast_int, Int32.toInt_ofInt]
  rfl

/-- Except that the library's own type rejects booleans, reading is a cast of the number. -/
theorem read_eq {target : IntegerType} {json : Json}
    (h : target = .uint64 → ∀ value, json ≠ .bool value) :
    target.read json = json.getArithmetic.map target.cast := by
  have hmap : ∀ {α : Type} {convert : ℤ → α} {back : α → ℤ},
      (∀ value, back (convert value) = target.cast value) →
      (json.getArithmetic.map convert).map back = json.getArithmetic.map target.cast := by
    intro α convert back hback
    cases json.getArithmetic with
    | error exception => rfl
    | ok value => exact congrArg Except.ok (hback value)
  cases target with
  | uint8 => exact hmap toNat_uint8
  | uint32 => exact hmap toNat_uint32
  | ull => exact hmap (toNat_uint64 rfl rfl)
  | int => exact hmap toInt_int32
  | uint64 =>
    have hull : json.getUInt64 = json.getULL := by
      cases json with
      | bool value => exact absurd rfl (h rfl value)
      | null | num _ | float _ | str _ | arr _ | obj _ => rfl
    rw [read, hull]
    exact hmap (toNat_uint64 rfl rfl)

/-- What is read is what the value is converted to. -/
theorem converts_of_read {target : IntegerType} {json : Json} {result : ℤ}
    (h : target.read json = .ok result) : target.Converts json result := by
  by_cases hrejects : target = .uint64 ∧ ∃ value, json = .bool value
  · obtain ⟨rfl, value, rfl⟩ := hrejects
    cases h
  · rw [read_eq fun htarget value hjson ↦ hrejects ⟨htarget, value, hjson⟩] at h
    obtain ⟨value, hvalue, rfl⟩ := map_eq_ok.mp h
    cases json with
    | num number =>
      cases hvalue
      exact rfl
    | float number =>
      cases hvalue
      exact fun hrange ↦ cast_eq_self_iff.mpr hrange
    | bool flag =>
      cases hvalue
      refine ⟨fun htarget ↦ hrejects ⟨htarget, flag, rfl⟩, cast_eq_self_iff.mpr ?_⟩
      cases flag <;> cases target <;> decide
    | null | str _ | arr _ | obj _ => cases hvalue

/-- An integer is read as itself exactly when it is a value of the type. -/
theorem read_num_iff {target : IntegerType} {value : ℤ} :
    target.read (.num value) = .ok value ↔ target.InRange value := by
  rw [read_eq (by simp)]
  exact (Except.ok.injEq ..).to_iff.trans cast_eq_self_iff

/-- What is no number, and no boolean where booleans count, is rejected. -/
theorem read_error {target : IntegerType} {json : Json}
    (h : ∀ result, ¬target.Converts json result) : target.read json = .error (.typeError 302) := by
  cases json with
  | num value => exact absurd rfl (h _)
  | float value => exact absurd (fun _ ↦ rfl) (h value.truncate)
  | bool value =>
    have htarget : target = .uint64 := by
      by_contra hne
      exact h value.toInt ⟨hne, rfl⟩
    rw [htarget]
    rfl
  | null | str _ | arr _ | obj _ =>
    rw [read_eq (by simp)]
    rfl

end IntegerType

end NetPixeld
