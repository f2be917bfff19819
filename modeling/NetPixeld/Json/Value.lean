import NetPixeld.Foundation.Exception
import NetPixeld.Foundation.SortedMap
import NetPixeld.Json.Utf8

/-!
# JSON values

The value type of the vendored library and the accessors used on it. An object is a `std::map`, so
its members are kept sorted by key. The two integer representations of the library (signed and
unsigned) compare equal when their values agree and convert alike, so a single integer constructor
holds the value; a floating-point number is kept as its bit pattern.
-/

namespace NetPixeld

/-- An IEEE-754 double, by its bit pattern. -/
structure Double where
  bits : UInt64
deriving DecidableEq

namespace Double

def exponent (x : Double) : ℕ := x.bits.toNat / 2 ^ 52 % 2 ^ 11

def mantissa (x : Double) : ℕ := x.bits.toNat % 2 ^ 52

def negative (x : Double) : Bool := 2 ^ 63 ≤ x.bits.toNat

/-- `std::isfinite`. -/
def isFinite (x : Double) : Bool := x.exponent ≠ 2 ^ 11 - 1

/-- The magnitude of a finite double with its fraction cut off. -/
def magnitude (x : Double) : ℕ :=
  if x.exponent = 0 then 0
  else if 1075 ≤ x.exponent then (2 ^ 52 + x.mantissa) * 2 ^ (x.exponent - 1075)
  else (2 ^ 52 + x.mantissa) / 2 ^ (1075 - x.exponent)

/-- The integer a conversion to an integer type truncates a finite double to. -/
def truncate (x : Double) : ℤ := if x.negative then -x.magnitude else x.magnitude

end Double

inductive Json where
  | null
  | bool (value : Bool)
  | num (value : ℤ)
  | float (value : Double)
  | str (value : Bytes)
  | arr (elements : List Json)
  | obj (members : List (Bytes × Json))

namespace Json

/-! ## Well-formed documents -/

mutual

/-- What a document needs to survive a dump: strings in UTF-8, integers of 64 bits, finite
floating-point numbers and sorted members. -/
def WellFormed : Json → Prop
  | .null => True
  | .bool _ => True
  | .num value => -2 ^ 63 ≤ value ∧ value < 2 ^ 64
  | .float value => value.isFinite = true
  | .str value => Utf8.Valid value
  | .arr elements => WellFormedElements elements
  | .obj members => Items.Sorted members ∧ WellFormedMembers members
termination_by structural json => json

def WellFormedElements : List Json → Prop
  | [] => True
  | element :: rest => element.WellFormed ∧ WellFormedElements rest
termination_by structural elements => elements

def WellFormedMembers : List (Bytes × Json) → Prop
  | [] => True
  | (key, value) :: rest => Utf8.Valid key ∧ value.WellFormed ∧ WellFormedMembers rest
termination_by structural members => members

end

theorem wellFormedMembers_iff {members : List (Bytes × Json)} :
    WellFormedMembers members ↔
      ∀ member ∈ members, Utf8.Valid member.1 ∧ member.2.WellFormed := by
  induction members with
  | nil => simp [WellFormedMembers]
  | cons member rest ih =>
    obtain ⟨key, value⟩ := member
    simp [WellFormedMembers, ih, and_assoc]

theorem wellFormedElements_iff {elements : List Json} :
    WellFormedElements elements ↔ ∀ element ∈ elements, element.WellFormed := by
  induction elements with
  | nil => simp [WellFormedElements]
  | cons element rest ih => simp [WellFormedElements, ih]

theorem wellFormedMembers_insert {key : Bytes} {value : Json}
    {members : List (Bytes × Json)} (hkey : Utf8.Valid key) (hvalue : value.WellFormed)
    (h : WellFormedMembers members) : WellFormedMembers (Items.insert key value members) := by
  induction members with
  | nil => exact ⟨hkey, hvalue, trivial⟩
  | cons head rest ih =>
    obtain ⟨first, old⟩ := head
    obtain ⟨hfirst, hold, hrest⟩ := h
    simp only [Items.insert]
    split
    · exact ⟨hkey, hvalue, hfirst, hold, hrest⟩
    split
    · exact ⟨hfirst, hvalue, hrest⟩
    · exact ⟨hfirst, hold, ih hrest⟩

/-- An object built from well-formed members is well formed. -/
theorem wellFormed_obj_insertAll {pairs : List (Bytes × Json)} (h : WellFormedMembers pairs) :
    (Json.obj (Items.insertAll pairs)).WellFormed := by
  refine ⟨Items.sorted_insertAll pairs, ?_⟩
  have hstep : ∀ members : List (Bytes × Json), WellFormedMembers members →
      WellFormedMembers
        (pairs.foldl (fun collected pair ↦ Items.insert pair.1 pair.2 collected) members) := by
    induction pairs with
    | nil => exact fun _ hmembers ↦ hmembers
    | cons pair pairs ih =>
      obtain ⟨key, value⟩ := pair
      obtain ⟨hkey, hvalue, hrest⟩ := h
      exact fun members hmembers ↦ ih hrest _
        (wellFormedMembers_insert hkey hvalue hmembers)
  exact hstep [] trivial

/-! ## Accessors -/

/-- `at(key)`: 304 when the value is not an object, 403 when the key is missing. -/
def atKey (json : Json) (key : Bytes) : Except Exn Json :=
  match json with
  | .obj members =>
      match Items.find key members with
      | some value => .ok value
      | none => .error (.outOfRange 403)
  | _ => .error (.typeError 304)

/-- The members an object was built from. -/
theorem atKey_insertAll {pairs : List (Bytes × Json)} (hnodup : (pairs.map Prod.fst).Nodup)
    {key : Bytes} {value : Json} (h : (key, value) ∈ pairs) :
    (Json.obj (Items.insertAll pairs)).atKey key = .ok value := by
  simp only [atKey, Items.find_insertAll hnodup, Items.find_of_mem hnodup h]

/-- `get<std::string>()`. -/
def getString : Json → Except Exn Bytes
  | .str value => .ok value
  | _ => .error (.typeError 302)

/-- The arithmetic `from_json`: the number before the cast to the target type. -/
def getArithmetic : Json → Except Exn ℤ
  | .num value => .ok value
  | .float value => .ok value.truncate
  | .bool value => .ok value.toInt
  | _ => .error (.typeError 302)

/-- `get<uint8_t>()`. -/
def getUInt8 (json : Json) : Except Exn UInt8 :=
  (json.getArithmetic).map UInt8.ofInt

/-- `get<uint32_t>()`. -/
def getUInt32 (json : Json) : Except Exn UInt32 :=
  (json.getArithmetic).map UInt32.ofInt

/-- `get<unsigned long long>()`. -/
def getULL (json : Json) : Except Exn UInt64 :=
  (json.getArithmetic).map UInt64.ofInt

/-- `get<uint64_t>()`: the library's own unsigned type, whose conversion rejects booleans. -/
def getUInt64 : Json → Except Exn UInt64
  | .bool _ => .error (.typeError 302)
  | json => json.getULL

/-- `get<int>()`. -/
def getInt32 (json : Json) : Except Exn Int32 :=
  (json.getArithmetic).map Int32.ofInt

@[simp]
theorem getString_str (value : Bytes) : (Json.str value).getString = .ok value := rfl

@[simp]
theorem getUInt8_num (value : UInt8) : (Json.num value.toNat).getUInt8 = .ok value := by
  have hlt := value.toNat_lt
  have hmod : ((value.toNat : ℤ) % 2 ^ 8).toNat = value.toNat := by omega
  simp only [getUInt8, getArithmetic, Except.map, UInt8.ofInt, hmod, UInt8.ofNat_toNat]

@[simp]
theorem getUInt32_num (value : UInt32) : (Json.num value.toNat).getUInt32 = .ok value := by
  have hlt := value.toNat_lt
  have hmod : ((value.toNat : ℤ) % 2 ^ 32).toNat = value.toNat := by omega
  simp only [getUInt32, getArithmetic, Except.map, UInt32.ofInt, hmod, UInt32.ofNat_toNat]

@[simp]
theorem getULL_num (value : UInt64) : (Json.num value.toNat).getULL = .ok value := by
  have hlt := value.toNat_lt
  have hmod : ((value.toNat : ℤ) % 2 ^ 64).toNat = value.toNat := by omega
  simp only [getULL, getArithmetic, Except.map, UInt64.ofInt, hmod, UInt64.ofNat_toNat]

@[simp]
theorem getUInt64_num (value : UInt64) : (Json.num value.toNat).getUInt64 = .ok value :=
  getULL_num value

@[simp]
theorem getInt32_num (value : Int32) : (Json.num value.toInt).getInt32 = .ok value := by
  simp only [getInt32, getArithmetic, Except.map, Int32.ofInt_toInt]

/-- Every value of an unsigned type of at most 64 bits is in range. -/
theorem wellFormed_num_of_lt {value : ℕ} (h : value < 2 ^ 64) : (Json.num value).WellFormed := by
  constructor <;> omega

theorem wellFormed_num_int32 (value : Int32) : (Json.num value.toInt).WellFormed := by
  have hlow := value.le_toInt
  have hhigh := value.toInt_lt
  constructor <;> omega

/-- `value(key, default)`: 306 when the value is not an object. -/
def value {α : Type} (json : Json) (key : Bytes) (get : Json → Except Exn α) (default : α) :
    Except Exn α :=
  match json with
  | .obj members =>
      match Items.find key members with
      | some found => get found
      | none => .ok default
  | _ => .error (.typeError 306)

/-- `items()`: the members of an object, the elements of an array under their indices, nothing for
`null`, and any other value once under the empty key. -/
def items : Json → List (Bytes × Json)
  | .obj members => members
  | .arr elements => elements.mapIdx fun index element ↦ (decimal index, element)
  | .null => []
  | json => [([], json)]

/-- The keys and values `items()` visits are those of the document. -/
theorem wellFormed_of_mem_items {json : Json} (h : json.WellFormed) {entry : Bytes × Json}
    (hentry : entry ∈ json.items) : Utf8.Valid entry.1 ∧ entry.2.WellFormed := by
  cases json with
  | obj members => exact wellFormedMembers_iff.mp h.2 entry hentry
  | arr elements =>
    obtain ⟨index, hindex, rfl⟩ := List.mem_mapIdx.mp hentry
    refine ⟨Utf8.valid_of_ascii fun byte hbyte ↦ (decimal_ascii hbyte).2, ?_⟩
    exact wellFormedElements_iff.mp h _ (List.getElem_mem hindex)
  | null => cases hentry
  | bool _ | num _ | float _ | str _ =>
    cases List.mem_singleton.mp hentry
    exact ⟨Utf8.valid_nil, h⟩

theorem wellFormed_find {members : List (Bytes × Json)} (h : WellFormedMembers members)
    {key : Bytes} {found : Json} (hfound : Items.find key members = some found) :
    found.WellFormed :=
  (wellFormedMembers_iff.mp h _ (Items.mem_of_find hfound)).2

theorem wellFormed_atKey {json found : Json} (h : json.WellFormed) {key : Bytes}
    (hfound : json.atKey key = .ok found) : found.WellFormed := by
  cases json with
  | obj members =>
    simp only [atKey] at hfound
    split at hfound
    · next hmember =>
      cases hfound
      exact wellFormed_find h.2 hmember
    · cases hfound
  | null | bool _ | num _ | float _ | str _ | arr _ => cases hfound

/-- A property of the default and of everything read from a well-formed member holds of the
result of `value`. -/
theorem value_property {α : Type} {json : Json} (h : json.WellFormed) {key : Bytes}
    {get : Json → Except Exn α} {default result : α} (property : α → Prop)
    (hdefault : property default)
    (hget : ∀ {found result}, found.WellFormed → get found = .ok result → property result)
    (hresult : json.value key get default = .ok result) : property result := by
  cases json with
  | obj members =>
    simp only [value] at hresult
    split at hresult
    · next found hfound => exact hget (wellFormed_find h.2 hfound) hresult
    · cases hresult
      exact hdefault
  | null | bool _ | num _ | float _ | str _ | arr _ => cases hresult

theorem getString_valid {json : Json} (h : json.WellFormed) {string : Bytes}
    (hstring : json.getString = .ok string) : Utf8.Valid string := by
  cases json with
  | str value =>
    cases hstring
    exact h
  | null | bool _ | num _ | float _ | arr _ | obj _ => cases hstring

end Json

end NetPixeld
