import NetPixeld.Foundation.Bytes
import Mathlib.Data.Nat.Bitwise

/-!
# The UTF-8 decoder of the JSON serializer

The serializer walks a string byte by byte through a table-driven automaton. State `0` accepts,
state `1` rejects, and the states `2` to `8` wait for continuation bytes. A string is valid when
the automaton ends in the accepting state; a rejected byte or an incomplete end makes `dump` throw.
-/

namespace NetPixeld.Utf8

/-- The table `utf8d`: byte classes first, then sixteen transitions for each of the nine states. -/
@[irreducible]
def utf8d : List ℕ := [
  0, 0, 0, 0, 0, 0, 0, 0, 0, 0, 0, 0, 0, 0, 0, 0, 0, 0, 0, 0, 0, 0, 0, 0, 0, 0, 0, 0, 0, 0, 0, 0,
  0, 0, 0, 0, 0, 0, 0, 0, 0, 0, 0, 0, 0, 0, 0, 0, 0, 0, 0, 0, 0, 0, 0, 0, 0, 0, 0, 0, 0, 0, 0, 0,
  0, 0, 0, 0, 0, 0, 0, 0, 0, 0, 0, 0, 0, 0, 0, 0, 0, 0, 0, 0, 0, 0, 0, 0, 0, 0, 0, 0, 0, 0, 0, 0,
  0, 0, 0, 0, 0, 0, 0, 0, 0, 0, 0, 0, 0, 0, 0, 0, 0, 0, 0, 0, 0, 0, 0, 0, 0, 0, 0, 0, 0, 0, 0, 0,
  1, 1, 1, 1, 1, 1, 1, 1, 1, 1, 1, 1, 1, 1, 1, 1, 9, 9, 9, 9, 9, 9, 9, 9, 9, 9, 9, 9, 9, 9, 9, 9,
  7, 7, 7, 7, 7, 7, 7, 7, 7, 7, 7, 7, 7, 7, 7, 7, 7, 7, 7, 7, 7, 7, 7, 7, 7, 7, 7, 7, 7, 7, 7, 7,
  8, 8, 2, 2, 2, 2, 2, 2, 2, 2, 2, 2, 2, 2, 2, 2, 2, 2, 2, 2, 2, 2, 2, 2, 2, 2, 2, 2, 2, 2, 2, 2,
  0xA, 0x3, 0x3, 0x3, 0x3, 0x3, 0x3, 0x3, 0x3, 0x3, 0x3, 0x3, 0x3, 0x4, 0x3, 0x3,
  0xB, 0x6, 0x6, 0x6, 0x5, 0x8, 0x8, 0x8, 0x8, 0x8, 0x8, 0x8, 0x8, 0x8, 0x8, 0x8,
  0x0, 0x1, 0x2, 0x3, 0x5, 0x8, 0x7, 0x1, 0x1, 0x1, 0x4, 0x6, 0x1, 0x1, 0x1, 0x1,
  1, 1, 1, 1, 1, 1, 1, 1, 1, 1, 1, 1, 1, 1, 1, 1, 1, 0, 1, 1, 1, 1, 1, 0, 1, 0, 1, 1, 1, 1, 1, 1,
  1, 2, 1, 1, 1, 1, 1, 2, 1, 2, 1, 1, 1, 1, 1, 1, 1, 1, 1, 1, 1, 1, 1, 2, 1, 1, 1, 1, 1, 1, 1, 1,
  1, 2, 1, 1, 1, 1, 1, 1, 1, 2, 1, 1, 1, 1, 1, 1, 1, 1, 1, 1, 1, 1, 1, 3, 1, 3, 1, 1, 1, 1, 1, 1,
  1, 3, 1, 1, 1, 1, 1, 3, 1, 3, 1, 1, 1, 1, 1, 1, 1, 3, 1, 1, 1, 1, 1, 1, 1, 1, 1, 1, 1, 1, 1, 1]

def accept : ℕ := 0

def reject : ℕ := 1

/-- The class of a byte. -/
def byteType (byte : UInt8) : ℕ := utf8d.getD byte.toNat 0

/-- The state after one more byte. -/
def nextState (state : ℕ) (byte : UInt8) : ℕ :=
  utf8d.getD (256 + state * 16 + byteType byte) 0

/-- The code point collected after one more byte. -/
def nextCodepoint (state codepoint : ℕ) (byte : UInt8) : ℕ :=
  if state ≠ accept then (byte.toNat &&& 0x3f) ||| (codepoint <<< 6)
  else (0xFF >>> byteType byte) &&& byte.toNat

/-- Run the automaton to the end of a string. -/
def runFrom (state : ℕ) : Bytes → ℕ
  | [] => state
  | byte :: rest =>
      if nextState state byte = reject then reject else runFrom (nextState state byte) rest

/-- A string the strict serializer accepts. -/
def Valid (string : Bytes) : Prop := runFrom accept string = accept

instance (string : Bytes) : Decidable (Valid string) :=
  inferInstanceAs (Decidable (runFrom accept string = accept))

/-! ## The transitions -/

/-- The state after a byte of a class. -/
def transition (state type : ℕ) : ℕ := utf8d.getD (256 + state * 16 + type) 0

theorem nextState_eq (state : ℕ) (byte : UInt8) :
    nextState state byte = transition state (byteType byte) := rfl

theorem utf8d_length : utf8d.length = 400 := by
  decide +kernel

theorem getElem?_utf8d {place : ℕ} (h : place < 400) :
    utf8d[place]? = some (utf8d.getD place 0) := by
  rw [List.getD_eq_getElem?_getD, List.getElem?_eq_getElem (by rw [utf8d_length]; exact h)]
  rfl

/-- A Boolean property checked along the first part of the table holds of every byte. -/
theorem forall_byteType (property : ℕ → UInt8 → Bool)
    (h : ((utf8d.take 256).zipIdx.all fun entry ↦
      property entry.1 (UInt8.ofNat entry.2)) = true)
    (byte : UInt8) : property (byteType byte) byte = true := by
  have hlt := byte.toNat_lt
  have hmem : (byteType byte, byte.toNat) ∈ (utf8d.take 256).zipIdx := by
    rw [List.mem_zipIdx_iff_getElem?, List.getElem?_take_of_lt hlt]
    exact getElem?_utf8d (by omega)
  simpa using List.all_eq_true.mp h _ hmem

/-- A Boolean property checked along the second part of the table holds of every state and class. -/
theorem forall_transition (property : ℕ → ℕ → ℕ → Bool)
    (h : ((utf8d.drop 256).zipIdx.all fun entry ↦
      property (entry.2 / 16) (entry.2 % 16) entry.1) = true)
    {state type : ℕ} (hstate : state < 9) (htype : type < 16) :
    property state type (transition state type) = true := by
  have hmem : (transition state type, state * 16 + type) ∈ (utf8d.drop 256).zipIdx := by
    rw [List.mem_zipIdx_iff_getElem?, List.getElem?_drop, ← Nat.add_assoc]
    exact getElem?_utf8d (by omega)
  have hentry := List.all_eq_true.mp h _ hmem
  rwa [show (state * 16 + type) / 16 = state by omega,
    show (state * 16 + type) % 16 = type by omega] at hentry

/-- The class of a byte, and where the bytes of the classes that continue a character lie. -/
theorem byteType_spec (byte : UInt8) :
    byteType byte < 16 ∧ (byte < 0x80 ↔ byteType byte = 0) ∧
      (byteType byte = 1 ∨ byteType byte = 7 ∨ byteType byte = 9 → 0x80 ≤ byte) ∧
      (byteType byte = 7 → 2 ≤ byte.toNat &&& 0x3f) ∧
      (byteType byte = 9 → 1 ≤ byte.toNat &&& 0x3f) := by
  have hall := forall_byteType (fun type byte ↦ decide
      (type < 16 ∧ (byte < 0x80 ↔ type = 0) ∧ (type = 1 ∨ type = 7 ∨ type = 9 → 0x80 ≤ byte) ∧
        (type = 7 → 2 ≤ byte.toNat &&& 0x3f) ∧ (type = 9 → 1 ≤ byte.toNat &&& 0x3f)))
    (by decide +kernel) byte
  exact of_decide_eq_true hall

/-- The bits that the first byte of a character contributes. -/
theorem lead_spec (byte : UInt8) :
    (byteType byte = 0 → (0xFF >>> byteType byte) &&& byte.toNat = byte.toNat) ∧
      (byteType byte = 2 → 2 ≤ (0xFF >>> byteType byte) &&& byte.toNat) ∧
      (3 ≤ byteType byte ∧ byteType byte ≤ 6 → 1 ≤ (0xFF >>> byteType byte) &&& byte.toNat) := by
  have hall := forall_byteType (fun type byte ↦ decide
      ((type = 0 → (0xFF >>> type) &&& byte.toNat = byte.toNat) ∧
        (type = 2 → 2 ≤ (0xFF >>> type) &&& byte.toNat) ∧
        (3 ≤ type ∧ type ≤ 6 → 1 ≤ (0xFF >>> type) &&& byte.toNat)))
    (by decide +kernel) byte
  exact of_decide_eq_true hall

theorem nextState_lt {state : ℕ} (h : state < 9) (byte : UInt8) : nextState state byte < 9 := by
  have hall := forall_transition (fun _ _ next ↦ next < 9) (by decide +kernel) h
    (byteType_spec byte).1
  exact of_decide_eq_true hall

/-- An ASCII byte is a character of its own and never continues one. -/
theorem nextState_of_ascii {state : ℕ} (h : state < 9) {byte : UInt8} (hbyte : byte < 0x80) :
    nextState state byte = if state = accept then accept else reject := by
  obtain ⟨htype, hascii, _⟩ := byteType_spec byte
  have hall := forall_transition (fun state type next ↦
      decide (type = 0 → next = if state = accept then accept else reject))
    (by decide +kernel) h htype
  have himplies := of_decide_eq_true hall
  exact himplies (hascii.mp hbyte)

/-- A byte that neither ends a character nor is rejected lies beyond ASCII. -/
theorem high_of_inside {state : ℕ} (h : state < 9) {byte : UInt8}
    (hreject : nextState state byte ≠ reject) (haccept : nextState state byte ≠ accept) :
    0x80 ≤ byte := by
  by_contra hlow
  have hnext := nextState_of_ascii h (not_le.mp hlow)
  split at hnext
  · exact haccept hnext
  · exact hreject hnext

/-- The code point read so far is large enough that no accepted multi-byte character falls into
the ASCII range. -/
def CodepointBound (state codepoint : ℕ) : Prop :=
  (state = 2 → 2 ≤ codepoint) ∧ (state = 3 ∨ state = 5 ∨ state = 7 ∨ state = 8 → 1 ≤ codepoint)

theorem codepointBound_accept (codepoint : ℕ) : CodepointBound accept codepoint := by
  constructor
  · intro h
    exact absurd h (by decide)
  · intro h
    exact absurd h (by decide)

/-- The first byte of a character. -/
theorem nextCodepoint_of_lead (codepoint : ℕ) (byte : UInt8) :
    (byte < 0x80 → nextCodepoint accept codepoint byte = byte.toNat) ∧
      (0x80 ≤ byte → nextState accept byte ≠ accept) ∧
      CodepointBound (nextState accept byte) (nextCodepoint accept codepoint byte) := by
  obtain ⟨htype, hascii, _⟩ := byteType_spec byte
  obtain ⟨hzero, htwo, hthree⟩ := lead_spec byte
  have hcodepoint : nextCodepoint accept codepoint byte =
      (0xFF >>> byteType byte) &&& byte.toNat := by
    simp [nextCodepoint]
  have hall := forall_transition (fun state type next ↦ decide (state = accept →
      (next = accept → type = 0) ∧ (next = 2 → type = 2) ∧
        (next = 3 ∨ next = 5 ∨ next = 7 ∨ next = 8 → 3 ≤ type ∧ type ≤ 6)))
    (by decide +kernel) (by decide : accept < 9) htype
  have himplies := of_decide_eq_true hall
  obtain ⟨haccept, hlead, hleads⟩ := himplies rfl
  rw [hcodepoint, nextState_eq]
  refine ⟨fun hbyte ↦ hzero (hascii.mp hbyte), fun hbyte hnext ↦ ?_,
    fun hnext ↦ htwo (hlead hnext), fun hnext ↦ hthree (hleads hnext)⟩
  exact absurd (hascii.mpr (haccept hnext)) (not_lt.mpr hbyte)

/-- A continuation byte shifts the bits read so far and adds its own. -/
theorem le_nextCodepoint {state : ℕ} (h : state ≠ accept) (codepoint : ℕ) (byte : UInt8) :
    codepoint * 64 ≤ nextCodepoint state codepoint byte ∧
      byte.toNat &&& 0x3f ≤ nextCodepoint state codepoint byte := by
  simp only [nextCodepoint, if_pos h]
  refine ⟨?_, Nat.left_le_or⟩
  calc
    codepoint * 64 = codepoint <<< 6 := by rw [Nat.shiftLeft_eq]
    _ ≤ _ := Nat.right_le_or

/-- Which states a continuation byte leads to. -/
theorem nextState_of_continuation {state : ℕ} (h : state < 9) (hstate : state ≠ accept)
    (byte : UInt8) :
    (nextState state byte = accept → state = 2 ∧ 0x80 ≤ byte) ∧
      (nextState state byte = 2 →
        state = 3 ∨ state = 5 ∨ state = 4 ∧ 2 ≤ byte.toNat &&& 0x3f) ∧
      (nextState state byte = 3 → state = 7 ∨ state = 8 ∨ state = 6 ∧ 1 ≤ byte.toNat &&& 0x3f) ∧
      nextState state byte ≤ 3 := by
  obtain ⟨htype, _, hhigh, hseven, hnine⟩ := byteType_spec byte
  have hall := forall_transition (fun state type next ↦ decide (state ≠ accept →
      (next = accept → state = 2 ∧ (type = 1 ∨ type = 7 ∨ type = 9)) ∧
        (next = 2 → state = 3 ∨ state = 5 ∨ state = 4 ∧ type = 7) ∧
        (next = 3 → state = 7 ∨ state = 8 ∨ state = 6 ∧ (type = 7 ∨ type = 9)) ∧ next ≤ 3))
    (by decide +kernel) h htype
  have himplies := of_decide_eq_true hall
  obtain ⟨haccept, htwo, hthree, hle⟩ := himplies hstate
  rw [nextState_eq]
  refine ⟨fun hnext ↦ ⟨(haccept hnext).1, hhigh (haccept hnext).2⟩, fun hnext ↦ ?_,
    fun hnext ↦ ?_, hle⟩
  · rcases htwo hnext with hs | hs | ⟨hs, hclass⟩
    · exact Or.inl hs
    · exact Or.inr (Or.inl hs)
    · exact Or.inr (Or.inr ⟨hs, hseven hclass⟩)
  · rcases hthree hnext with hs | hs | ⟨hs, hclass | hclass⟩
    · exact Or.inl hs
    · exact Or.inr (Or.inl hs)
    · exact Or.inr (Or.inr ⟨hs, (Nat.le_succ 1).trans (hseven hclass)⟩)
    · exact Or.inr (Or.inr ⟨hs, hnine hclass⟩)

theorem codepointBound_next {state codepoint : ℕ} (h : state < 9)
    (hbound : CodepointBound state codepoint) (byte : UInt8) :
    CodepointBound (nextState state byte) (nextCodepoint state codepoint byte) := by
  by_cases hstate : state = accept
  · subst hstate
    exact (nextCodepoint_of_lead codepoint byte).2.2
  · obtain ⟨hshift, hlow⟩ := le_nextCodepoint hstate codepoint byte
    obtain ⟨_, htwo, hthree, hle⟩ := nextState_of_continuation h hstate byte
    obtain ⟨_, hone⟩ := hbound
    constructor
    · intro hnext
      rcases htwo hnext with hs | hs | ⟨_, hbits⟩
      · have := hone (Or.inl hs)
        omega
      · have := hone (Or.inr (Or.inl hs))
        omega
      · omega
    · intro hnext
      have hnext : nextState state byte = 3 := by omega
      rcases hthree hnext with hs | hs | ⟨_, hbits⟩
      · have := hone (Or.inr (Or.inr (Or.inl hs)))
        omega
      · have := hone (Or.inr (Or.inr (Or.inr hs)))
        omega
      · omega

/-- An accepted code point is an ASCII byte of its own, or lies beyond ASCII. -/
theorem accepted_codepoint {state codepoint : ℕ} (h : state < 9)
    (hbound : CodepointBound state codepoint) {byte : UInt8}
    (haccept : nextState state byte = accept) :
    (byte < 0x80 ∧ nextCodepoint state codepoint byte = byte.toNat) ∨
      (0x80 ≤ byte ∧ 0x80 ≤ nextCodepoint state codepoint byte) := by
  by_cases hstate : state = accept
  · subst hstate
    obtain ⟨hascii, hhigh, _⟩ := nextCodepoint_of_lead codepoint byte
    rcases lt_or_ge byte 0x80 with hbyte | hbyte
    · exact Or.inl ⟨hbyte, hascii hbyte⟩
    · exact absurd haccept (hhigh hbyte)
  · obtain ⟨hfinal, _⟩ := nextState_of_continuation h hstate byte
    obtain ⟨htwo, hbyte⟩ := hfinal haccept
    have hshift := (le_nextCodepoint hstate codepoint byte).1
    have hcodepoint := hbound.1 htwo
    exact Or.inr ⟨hbyte, by omega⟩

/-! ## Valid strings -/

theorem valid_nil : Valid [] := rfl

theorem runFrom_cons_of_accept {state : ℕ} {byte : UInt8} (rest : Bytes)
    (h : nextState state byte = accept) :
    runFrom state (byte :: rest) = runFrom accept rest := by
  have haccept : ¬accept = reject := by decide
  simp only [runFrom, h, if_neg haccept]

/-- Text in the ASCII range is valid. -/
theorem valid_of_ascii {string : Bytes} (h : ∀ byte ∈ string, byte < 0x80) : Valid string := by
  unfold Valid
  induction string with
  | nil => rfl
  | cons byte rest ih =>
    have hstate : nextState accept byte = accept :=
      nextState_of_ascii (by decide) (h byte (List.mem_cons_self ..))
    exact (runFrom_cons_of_accept rest hstate).trans
      (ih fun other hother ↦ h other (List.mem_cons_of_mem _ hother))

/-- The literals of the source are ASCII. -/
theorem valid_text {literal : String}
    (h : ((text literal).all fun byte ↦ byte < 0x80) = true) : Valid (text literal) :=
  valid_of_ascii fun byte hbyte ↦ of_decide_eq_true (List.all_eq_true.mp h byte hbyte)

end NetPixeld.Utf8
