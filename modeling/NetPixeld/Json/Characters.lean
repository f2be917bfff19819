import Mathlib.Data.List.Forall2
import NetPixeld.Json.DumpText
import NetPixeld.Json.Lexer

/-!
# Characters in strings

The serializer checks UTF-8 with a table of states, the lexer with the ranges of the bytes behind
each first byte. Both accept exactly the encodings of Unicode characters, so `dump_escaped` is a map
over the characters of its string.
-/

namespace NetPixeld.Utf8

open Lexer (continuations)

/-- The UTF-8 encoding of a text. -/
def encode (characters : List Char) : Bytes := characters.flatMap String.utf8EncodeChar

@[simp]
theorem encode_nil : encode [] = [] := rfl

@[simp]
theorem encode_cons (character : Char) (characters : List Char) :
    encode (character :: characters) = String.utf8EncodeChar character ++ encode characters := rfl

/-! ## Encodings by ranges -/

/-- Bytes that lie in their ranges one by one. -/
def InRanges (ranges : List (UInt8 × UInt8)) (bytes : Bytes) : Prop :=
  List.Forall₂ (fun range byte ↦ range.1 ≤ byte ∧ byte ≤ range.2) ranges bytes

/-- The first byte of a character and the bytes its ranges admit. -/
def Formed (bytes : Bytes) : Prop :=
  ∃ lead ranges tail, bytes = lead :: tail ∧ continuations lead = some ranges ∧ InRanges ranges tail

theorem continuations_eq (lead : UInt8) :
    continuations lead =
      if lead.toNat ≤ 0x7F then some []
      else if 0xC2 ≤ lead.toNat ∧ lead.toNat ≤ 0xDF then some [(0x80, 0xBF)]
      else if lead.toNat = 0xE0 then some [(0xA0, 0xBF), (0x80, 0xBF)]
      else if lead.toNat = 0xED then some [(0x80, 0x9F), (0x80, 0xBF)]
      else if 0xE1 ≤ lead.toNat ∧ lead.toNat ≤ 0xEF then some [(0x80, 0xBF), (0x80, 0xBF)]
      else if lead.toNat = 0xF0 then some [(0x90, 0xBF), (0x80, 0xBF), (0x80, 0xBF)]
      else if 0xF1 ≤ lead.toNat ∧ lead.toNat ≤ 0xF3 then
        some [(0x80, 0xBF), (0x80, 0xBF), (0x80, 0xBF)]
      else if lead.toNat = 0xF4 then some [(0x80, 0x8F), (0x80, 0xBF), (0x80, 0xBF)]
      else none := by
  simp only [continuations, UInt8.le_iff_toNat_le, ← UInt8.toNat_inj, UInt8.reduceToNat]

theorem inRanges_nil {bytes : Bytes} : InRanges [] bytes ↔ bytes = [] :=
  List.forall₂_nil_left_iff

theorem inRanges_cons {low high : UInt8} {ranges : List (UInt8 × UInt8)} {bytes : Bytes} :
    InRanges ((low, high) :: ranges) bytes ↔
      ∃ byte rest, bytes = byte :: rest ∧ low.toNat ≤ byte.toNat ∧ byte.toNat ≤ high.toNat ∧
        InRanges ranges rest := by
  unfold InRanges
  rw [List.forall₂_cons_left_iff]
  constructor
  · rintro ⟨byte, rest, ⟨hlow, hhigh⟩, hrest, rfl⟩
    exact ⟨byte, rest, rfl, UInt8.le_iff_toNat_le.mp hlow, UInt8.le_iff_toNat_le.mp hhigh, hrest⟩
  · rintro ⟨byte, rest, rfl, hlow, hhigh, hrest⟩
    exact ⟨byte, rest, ⟨UInt8.le_iff_toNat_le.mpr hlow, UInt8.le_iff_toNat_le.mpr hhigh⟩, hrest,
      rfl⟩

theorem toNat_ofNat {value : ℕ} (h : value < 256) : (UInt8.ofNat value).toNat = value := by
  rw [UInt8.toNat_ofNat', Nat.mod_eq_of_lt h]

theorem ofNat_eq {value : ℕ} {byte : UInt8} (h : value = byte.toNat) :
    UInt8.ofNat value = byte := by
  rw [h, UInt8.ofNat_toNat]

/-- A byte given by its value, in front of others. -/
theorem inRanges_ofNat {low high : UInt8} {ranges : List (UInt8 × UInt8)} {value : ℕ}
    {rest : Bytes} (hlow : low.toNat ≤ value) (hhigh : value ≤ high.toNat)
    (hrest : InRanges ranges rest) :
    InRanges ((low, high) :: ranges) (UInt8.ofNat value :: rest) := by
  have hvalue := toNat_ofNat (hhigh.trans_lt high.toNat_lt)
  exact inRanges_cons.mpr ⟨_, rest, rfl, by rw [hvalue]; exact hlow, by rw [hvalue]; exact hhigh,
    hrest⟩

/-- The bytes behind the first one, where nothing but the continuation bits is asked of them. -/
theorem inRanges_continuation {ranges : List (UInt8 × UInt8)} {value : ℕ} {rest : Bytes}
    (hrest : InRanges ranges rest) :
    InRanges ((0x80, 0xBF) :: ranges) (UInt8.ofNat (value % 64 + 128) :: rest) :=
  inRanges_ofNat (show 0x80 ≤ value % 64 + 128 by omega) (show value % 64 + 128 ≤ 0xBF by omega)
    hrest

theorem formed_cons {lead : ℕ} {ranges : List (UInt8 × UInt8)} {tail : Bytes} (hlt : lead < 256)
    (hlead : (UInt8.ofNat lead).toNat = lead → continuations (UInt8.ofNat lead) = some ranges)
    (htail : InRanges ranges tail) : Formed (UInt8.ofNat lead :: tail) :=
  ⟨_, ranges, tail, rfl, hlead (toNat_ofNat hlt), htail⟩

/-- The encoding of a character has its bytes in the ranges of the first one. -/
theorem formed_encodeChar (character : Char) : Formed (String.utf8EncodeChar character) := by
  have hvalid : character.val.toNat < 0xD800 ∨
      0xDFFF < character.val.toNat ∧ character.val.toNat < 0x110000 := character.valid
  generalize hvalue : character.val.toNat = value at hvalid
  have hcontinuation : InRanges [(0x80, 0xBF)] [UInt8.ofNat (value % 64 + 128)] :=
    inRanges_continuation .nil
  unfold String.utf8EncodeChar
  simp only [hvalue]
  split_ifs with hone htwo hthree
  · refine formed_cons (by omega) (fun hlead ↦ ?_) .nil
    rw [continuations_eq, hlead, if_pos hone]
  · refine formed_cons (by omega) (fun hlead ↦ ?_) hcontinuation
    rw [continuations_eq, hlead, if_neg (by omega), if_pos (by omega)]
  · have hmiddle : InRanges [(0x80, 0xBF), (0x80, 0xBF)]
        [UInt8.ofNat (value / 64 % 64 + 128), UInt8.ofNat (value % 64 + 128)] :=
      inRanges_continuation hcontinuation
    by_cases hshort : value < 0x1000
    · have hsecond : InRanges [(0xA0, 0xBF), (0x80, 0xBF)]
          [UInt8.ofNat (value / 64 % 64 + 128), UInt8.ofNat (value % 64 + 128)] :=
        inRanges_ofNat (show 0xA0 ≤ value / 64 % 64 + 128 by omega)
          (show value / 64 % 64 + 128 ≤ 0xBF by omega) hcontinuation
      refine formed_cons (by omega) (fun hlead ↦ ?_) hsecond
      rw [continuations_eq, hlead, if_neg (by omega), if_neg (by omega), if_pos (by omega)]
    by_cases hsurrogate : value / 4096 = 13
    · have hsecond : InRanges [(0x80, 0x9F), (0x80, 0xBF)]
          [UInt8.ofNat (value / 64 % 64 + 128), UInt8.ofNat (value % 64 + 128)] :=
        inRanges_ofNat (show 0x80 ≤ value / 64 % 64 + 128 by omega)
          (show value / 64 % 64 + 128 ≤ 0x9F by omega) hcontinuation
      refine formed_cons (by omega) (fun hlead ↦ ?_) hsecond
      rw [continuations_eq, hlead, if_neg (by omega), if_neg (by omega), if_neg (by omega),
        if_pos (by omega)]
    · refine formed_cons (by omega) (fun hlead ↦ ?_) hmiddle
      rw [continuations_eq, hlead, if_neg (by omega), if_neg (by omega), if_neg (by omega),
        if_neg (by omega), if_pos (by omega)]
  · have hmiddle : InRanges [(0x80, 0xBF), (0x80, 0xBF)]
        [UInt8.ofNat (value / 64 % 64 + 128), UInt8.ofNat (value % 64 + 128)] :=
      inRanges_continuation hcontinuation
    by_cases hshort : value < 0x40000
    · have hsecond : InRanges [(0x90, 0xBF), (0x80, 0xBF), (0x80, 0xBF)]
          (UInt8.ofNat (value / 4096 % 64 + 128) ::
            [UInt8.ofNat (value / 64 % 64 + 128), UInt8.ofNat (value % 64 + 128)]) :=
        inRanges_ofNat (show 0x90 ≤ value / 4096 % 64 + 128 by omega)
          (show value / 4096 % 64 + 128 ≤ 0xBF by omega) hmiddle
      refine formed_cons (by omega) (fun hlead ↦ ?_) hsecond
      rw [continuations_eq, hlead, if_neg (by omega), if_neg (by omega), if_neg (by omega),
        if_neg (by omega), if_neg (by omega), if_pos (by omega)]
    by_cases hlong : 0x100000 ≤ value
    · have hsecond : InRanges [(0x80, 0x8F), (0x80, 0xBF), (0x80, 0xBF)]
          (UInt8.ofNat (value / 4096 % 64 + 128) ::
            [UInt8.ofNat (value / 64 % 64 + 128), UInt8.ofNat (value % 64 + 128)]) :=
        inRanges_ofNat (show 0x80 ≤ value / 4096 % 64 + 128 by omega)
          (show value / 4096 % 64 + 128 ≤ 0x8F by omega) hmiddle
      refine formed_cons (by omega) (fun hlead ↦ ?_) hsecond
      rw [continuations_eq, hlead, if_neg (by omega), if_neg (by omega), if_neg (by omega),
        if_neg (by omega), if_neg (by omega), if_neg (by omega), if_neg (by omega),
        if_pos (by omega)]
    · refine formed_cons (by omega) (fun hlead ↦ ?_) (inRanges_continuation hmiddle)
      rw [continuations_eq, hlead, if_neg (by omega), if_neg (by omega), if_neg (by omega),
        if_neg (by omega), if_neg (by omega), if_neg (by omega), if_pos (by omega)]

theorem exists_character {value : ℕ}
    (hvalid : value < 0xD800 ∨ 0xDFFF < value ∧ value < 0x110000) :
    ∃ character : Char, character.val.toNat = value :=
  ⟨Char.ofNatAux value hvalid, rfl⟩

theorem encodeChar_two {character : Char} {first second : UInt8}
    (hfirst : 0xC2 ≤ first.toNat ∧ first.toNat ≤ 0xDF)
    (hsecond : 0x80 ≤ second.toNat ∧ second.toNat ≤ 0xBF)
    (hvalue : character.val.toNat = (first.toNat - 0xC0) * 64 + (second.toNat - 0x80)) :
    String.utf8EncodeChar character = [first, second] := by
  unfold String.utf8EncodeChar
  dsimp only
  rw [if_neg (by omega), if_pos (by omega)]
  rw [@ofNat_eq _ first (by omega), @ofNat_eq _ second (by omega)]

theorem encodeChar_three {character : Char} {first second third : UInt8}
    (hfirst : 0xE0 ≤ first.toNat ∧ first.toNat ≤ 0xEF)
    (hsecond : 0x80 ≤ second.toNat ∧ second.toNat ≤ 0xBF)
    (hthird : 0x80 ≤ third.toNat ∧ third.toNat ≤ 0xBF)
    (hvalue : character.val.toNat = (first.toNat - 0xE0) * 4096 + (second.toNat - 0x80) * 64 +
      (third.toNat - 0x80)) (hlong : 0x800 ≤ character.val.toNat) :
    String.utf8EncodeChar character = [first, second, third] := by
  unfold String.utf8EncodeChar
  dsimp only
  rw [if_neg (by omega), if_neg (by omega), if_pos (by omega)]
  rw [@ofNat_eq _ first (by omega), @ofNat_eq _ second (by omega),
    @ofNat_eq _ third (by omega)]

theorem encodeChar_four {character : Char} {first second third fourth : UInt8}
    (hfirst : 0xF0 ≤ first.toNat ∧ first.toNat ≤ 0xF4)
    (hsecond : 0x80 ≤ second.toNat ∧ second.toNat ≤ 0xBF)
    (hthird : 0x80 ≤ third.toNat ∧ third.toNat ≤ 0xBF)
    (hfourth : 0x80 ≤ fourth.toNat ∧ fourth.toNat ≤ 0xBF)
    (hvalue : character.val.toNat = (first.toNat - 0xF0) * 262144 + (second.toNat - 0x80) * 4096 +
      (third.toNat - 0x80) * 64 + (fourth.toNat - 0x80)) (hlong : 0x10000 ≤ character.val.toNat) :
    String.utf8EncodeChar character = [first, second, third, fourth] := by
  unfold String.utf8EncodeChar
  dsimp only
  rw [if_neg (by omega), if_neg (by omega), if_neg (by omega)]
  rw [@ofNat_eq _ first (by omega), @ofNat_eq _ second (by omega),
    @ofNat_eq _ third (by omega), @ofNat_eq _ fourth (by omega)]

/-- Bytes in the ranges of their first one encode a character. -/
theorem encodeChar_of_formed {bytes : Bytes} (h : Formed bytes) :
    ∃ character, String.utf8EncodeChar character = bytes := by
  obtain ⟨lead, ranges, tail, rfl, hlead, htail⟩ := h
  rw [continuations_eq] at hlead
  split_ifs at hlead with h₁ h₂ h₃ h₄ h₅ h₆ h₇ h₈
  all_goals
    cases hlead
    simp only [inRanges_cons, inRanges_nil, UInt8.reduceToNat] at htail
  · subst htail
    obtain ⟨character, hvalue⟩ := @exists_character lead.toNat (by omega)
    refine ⟨character, ?_⟩
    unfold String.utf8EncodeChar
    dsimp only
    rw [hvalue, if_pos h₁, UInt8.ofNat_toNat]
  · obtain ⟨second, _, rfl, hlow, hhigh, rfl⟩ := htail
    obtain ⟨character, hvalue⟩ :=
      @exists_character ((lead.toNat - 0xC0) * 64 + (second.toNat - 0x80)) (by omega)
    exact ⟨character, encodeChar_two h₂ ⟨hlow, hhigh⟩ hvalue⟩
  iterate 3
    · obtain ⟨second, _, rfl, hlow, hhigh, third, _, rfl, hthird, hthird', rfl⟩ := htail
      obtain ⟨character, hvalue⟩ :=
        @exists_character ((lead.toNat - 0xE0) * 4096 + (second.toNat - 0x80) * 64 +
          (third.toNat - 0x80)) (by omega)
      exact ⟨character, encodeChar_three (by omega) (by omega) ⟨hthird, hthird'⟩ hvalue (by omega)⟩
  all_goals
    obtain ⟨second, _, rfl, hlow, hhigh, third, _, rfl, hthird, hthird', fourth, _, rfl, hfourth,
      hfourth', rfl⟩ := htail
    obtain ⟨character, hvalue⟩ :=
      @exists_character ((lead.toNat - 0xF0) * 262144 + (second.toNat - 0x80) * 4096 +
        (third.toNat - 0x80) * 64 + (fourth.toNat - 0x80)) (by omega)
    exact ⟨character, encodeChar_four (by omega) (by omega) ⟨hthird, hthird'⟩
      ⟨hfourth, hfourth'⟩ hvalue (by omega)⟩

theorem encodeChar_ascii {character : Char} (h : character.toNat < 0x80) :
    String.utf8EncodeChar character = [UInt8.ofNat character.toNat] := by
  have hvalue : character.val.toNat ≤ 0x7F := Nat.le_of_lt_succ h
  unfold String.utf8EncodeChar
  dsimp only
  rw [if_pos hvalue]
  rfl

/-- Beyond ASCII, every byte lies beyond it. -/
theorem encodeChar_high {character : Char} (h : 0x80 ≤ character.toNat) :
    ∀ byte ∈ String.utf8EncodeChar character, 0x80 ≤ byte.toNat := by
  have hvalue : ¬character.val.toNat ≤ 0x7F := not_le.mpr h
  have hbyte (value : ℕ) (base : ℕ) (hbase : 0x80 ≤ base) (hlt : value + base < 256) :
      0x80 ≤ (UInt8.ofNat (value + base)).toNat := by
    rw [toNat_ofNat hlt]
    omega
  unfold String.utf8EncodeChar
  dsimp only
  rw [if_neg hvalue]
  split_ifs
  all_goals
    simp only [List.mem_cons, List.not_mem_nil, or_false, forall_eq_or_imp, forall_eq]
  · exact ⟨hbyte _ _ (by omega) (by omega), hbyte _ _ (by omega) (by omega)⟩
  · exact ⟨hbyte _ _ (by omega) (by omega), hbyte _ _ (by omega) (by omega),
      hbyte _ _ (by omega) (by omega)⟩
  · exact ⟨hbyte _ _ (by omega) (by omega), hbyte _ _ (by omega) (by omega),
      hbyte _ _ (by omega) (by omega), hbyte _ _ (by omega) (by omega)⟩

/-- An ASCII character is its first byte. -/
theorem toNat_lead {character : Char} {lead : UInt8} {tail : Bytes}
    (h : String.utf8EncodeChar character = lead :: tail) (hlead : lead.toNat < 0x80) :
    character.toNat = lead.toNat ∧ tail = [] := by
  by_cases hlow : character.toNat < 0x80
  · rw [encodeChar_ascii hlow] at h
    cases h
    rw [toNat_ofNat (by omega)]
    exact ⟨rfl, rfl⟩
  · have hhigh := encodeChar_high (not_lt.mp hlow) lead (by rw [h]; exact List.mem_cons_self ..)
    omega

/-- The first byte of a character tells whether it is ASCII and which. -/
theorem toNat_lt_iff {bound : ℕ} (hbound : bound ≤ 0x80) {character : Char} {lead : UInt8}
    {tail : Bytes} (h : String.utf8EncodeChar character = lead :: tail) :
    character.toNat < bound ↔ lead.toNat < bound := by
  constructor
  · intro hlow
    rw [encodeChar_ascii (hlow.trans_le hbound)] at h
    cases h
    rw [toNat_ofNat (by omega)]
    exact hlow
  · intro hlow
    rw [(toNat_lead h (hlow.trans_le hbound)).1]
    exact hlow

/-! ## The table of the serializer -/

/-- The ranges of the bytes a state of the table waits for. -/
def owed : ℕ → Option (List (UInt8 × UInt8))
  | 0 => some []
  | 2 => some [(0x80, 0xBF)]
  | 3 => some [(0x80, 0xBF), (0x80, 0xBF)]
  | 4 => some [(0xA0, 0xBF), (0x80, 0xBF)]
  | 5 => some [(0x80, 0x9F), (0x80, 0xBF)]
  | 6 => some [(0x90, 0xBF), (0x80, 0xBF), (0x80, 0xBF)]
  | 7 => some [(0x80, 0xBF), (0x80, 0xBF), (0x80, 0xBF)]
  | 8 => some [(0x80, 0x8F), (0x80, 0xBF), (0x80, 0xBF)]
  | _ => none

/-- One byte read against the ranges that are owed. -/
def advance : List (UInt8 × UInt8) → UInt8 → Option (List (UInt8 × UInt8))
  | [], byte => continuations byte
  | (low, high) :: ranges, byte => if low ≤ byte ∧ byte ≤ high then some ranges else none

/-- The table and the ranges of the lexer agree byte by byte. -/
theorem owed_nextState {state : ℕ} (hstate : state < 9) {ranges : List (UInt8 × UInt8)}
    (h : owed state = some ranges) (byte : UInt8) :
    owed (nextState state byte) = advance ranges byte := by
  have hall := forall_byteType (fun type byte ↦ (List.range 9).all fun state ↦
      (owed state).all fun ranges ↦ decide (owed (transition state type) = advance ranges byte))
    (by decide +kernel) byte
  have hstates := List.all_eq_true.mp hall state (List.mem_range.mpr hstate)
  rw [h] at hstates
  exact of_decide_eq_true hstates

/-- Only the accepting state is owed nothing, and only rejection has no ranges. -/
theorem owed_spec {state : ℕ} (hstate : state < 9) :
    (owed state = some [] ↔ state = accept) ∧ (owed state = none ↔ state = reject) := by
  have hall : ∀ state < 9,
      (owed state = some [] ↔ state = accept) ∧ (owed state = none ↔ state = reject) := by decide
  exact hall state hstate

/-- What an accepted string holds behind a state: the bytes that were owed, and a valid rest. -/
theorem exists_owed {ranges : List (UInt8 × UInt8)} {state : ℕ} (hstate : state < 9)
    (howed : owed state = some ranges) {string : Bytes} (h : runFrom state string = accept) :
    ∃ tail rest, string = tail ++ rest ∧ InRanges ranges tail ∧ Valid rest := by
  induction ranges generalizing state string with
  | nil =>
    rw [(owed_spec hstate).1.mp howed] at h
    exact ⟨[], string, rfl, .nil, h⟩
  | cons range ranges ih =>
    cases string with
    | nil =>
      rw [runFrom] at h
      rw [(owed_spec hstate).1.mpr h] at howed
      cases howed
    | cons byte string =>
      have hnext := nextState_lt hstate byte
      have hadvance := owed_nextState hstate howed byte
      rw [runFrom] at h
      split at h
      · cases h
      · next hreject =>
        rw [advance] at hadvance
        split at hadvance
        · next hrange =>
          obtain ⟨tail, rest, rfl, htail, hrest⟩ := ih hnext hadvance h
          exact ⟨byte :: tail, rest, rfl, .cons hrange htail, hrest⟩
        · exact absurd ((owed_spec hnext).2.mp hadvance) hreject

/-- A string the serializer accepts is the encoding of a text. -/
theorem encode_of_valid {string : Bytes} (h : Valid string) :
    ∃ characters, encode characters = string := by
  induction hlength : string.length using Nat.strong_induction_on generalizing string with
  | _ length ih =>
    cases string with
    | nil => exact ⟨[], rfl⟩
    | cons lead string =>
      have hnext := nextState_lt (by decide : accept < 9) lead
      have hadvance := owed_nextState (by decide) (rfl : owed accept = some []) lead
      unfold Valid at h
      rw [runFrom] at h
      split at h
      · cases h
      · next hreject =>
        rw [advance] at hadvance
        cases hlead : continuations lead with
        | none =>
          rw [hlead] at hadvance
          exact absurd ((owed_spec hnext).2.mp hadvance) hreject
        | some ranges =>
          rw [hlead] at hadvance
          obtain ⟨tail, rest, rfl, htail, hrest⟩ := exists_owed hnext hadvance h
          obtain ⟨character, hcharacter⟩ := encodeChar_of_formed ⟨lead, ranges, tail, rfl, hlead,
            htail⟩
          simp only [List.length_cons, List.length_append] at hlength
          obtain ⟨characters, hcharacters⟩ := ih rest.length (by omega) hrest rfl
          exact ⟨character :: characters, by rw [encode_cons, hcharacter, hcharacters]; rfl⟩

end NetPixeld.Utf8

namespace NetPixeld.Json

open Utf8 (encode owed owed_spec owed_nextState InRanges)

/-! ## `dump_escaped` over characters -/

/-- The text of one character of a string. -/
def escapeCharacter (character : Char) : Bytes :=
  if character.toNat < 0x80 then escape character.toNat (UInt8.ofNat character.toNat)
  else String.utf8EncodeChar character

/-- The code point of the character before has no influence. -/
theorem dumpEscapedFrom_accept (codepoint : ℕ) (string : Bytes) :
    dumpEscapedFrom Utf8.accept codepoint string = dumpEscaped string := by
  cases string with
  | nil => rfl
  | cons byte rest => rfl

theorem escape_of_high {codepoint : ℕ} {byte : UInt8} (h : 0x80 ≤ codepoint) :
    escape codepoint byte = [byte] := by
  unfold escape
  split_ifs
  iterate 8 omega
  rfl

/-- The bytes a state is owed are copied. -/
theorem dumpEscapedFrom_owed {ranges : List (UInt8 × UInt8)} {tail : Bytes}
    (htail : InRanges ranges tail) {state codepoint : ℕ} (hstate : state < 9)
    (haccept : state ≠ Utf8.accept) (hbound : Utf8.CodepointBound state codepoint)
    (howed : owed state = some ranges) (rest : Bytes) :
    dumpEscapedFrom state codepoint (tail ++ rest) = (dumpEscaped rest).map (tail ++ ·) := by
  induction ranges generalizing tail state codepoint with
  | nil => exact absurd ((owed_spec hstate).1.mp howed) haccept
  | cons range ranges ih =>
    cases htail with
    | @cons _ byte _ tail hrange htail =>
    have hnext := Utf8.nextState_lt hstate byte
    have hadvance := owed_nextState hstate howed byte
    rw [Utf8.advance, if_pos hrange] at hadvance
    have hreject : Utf8.nextState state byte ≠ Utf8.reject := by
      intro hreject
      rw [(owed_spec hnext).2.mpr hreject] at hadvance
      cases hadvance
    rw [List.cons_append, dumpEscapedFrom, if_neg hreject]
    by_cases hfinal : Utf8.nextState state byte = Utf8.accept
    · rw [(owed_spec hnext).1.mpr hfinal] at hadvance
      cases hadvance
      cases htail
      have hcopied : escape (Utf8.nextCodepoint state codepoint byte) byte = [byte] := by
        obtain ⟨hcontinued, _⟩ := Utf8.nextState_of_continuation hstate haccept byte
        rcases Utf8.accepted_codepoint hstate hbound hfinal with ⟨hlow, _⟩ | ⟨_, hhigh⟩
        · exact absurd hlow (not_lt.mpr (hcontinued hfinal).2)
        · exact escape_of_high hhigh
      rw [hfinal, if_pos rfl, hcopied, List.nil_append, dumpEscapedFrom_accept]
      cases dumpEscaped rest with
      | ok escaped => rfl
      | error exception => rfl
    · rw [if_neg hfinal, ih htail hnext hfinal (Utf8.codepointBound_next hstate hbound byte)
        hadvance]
      cases dumpEscaped rest with
      | ok escaped => rfl
      | error exception => rfl

/-- One character is escaped on its own. -/
theorem dumpEscaped_character (character : Char) (rest : Bytes) :
    dumpEscaped (String.utf8EncodeChar character ++ rest) =
      (dumpEscaped rest).map (escapeCharacter character ++ ·) := by
  obtain ⟨lead, ranges, tail, hbytes, hlead, htail⟩ := Utf8.formed_encodeChar character
  have hnext := Utf8.nextState_lt (by decide : Utf8.accept < 9) lead
  have hadvance := owed_nextState (by decide) (rfl : owed Utf8.accept = some []) lead
  rw [Utf8.advance, hlead] at hadvance
  have hreject : Utf8.nextState Utf8.accept lead ≠ Utf8.reject := by
    intro hreject
    rw [(owed_spec hnext).2.mpr hreject] at hadvance
    cases hadvance
  obtain ⟨hascii, hhigh, hbound⟩ := Utf8.nextCodepoint_of_lead 0 lead
  rw [hbytes, List.cons_append, dumpEscaped, dumpEscapedFrom, if_neg hreject]
  by_cases hfinal : Utf8.nextState Utf8.accept lead = Utf8.accept
  · rw [(owed_spec hnext).1.mpr hfinal] at hadvance
    cases hadvance
    cases htail
    have hlow : lead < 0x80 := by
      by_contra hlow
      exact hhigh (not_lt.mp hlow) hfinal
    have hcharacter := (Utf8.toNat_lt_iff le_rfl hbytes).mpr (UInt8.lt_iff_toNat_lt.mp hlow)
    have hescape : escapeCharacter character = escape lead.toNat lead := by
      rw [Utf8.encodeChar_ascii hcharacter] at hbytes
      cases hbytes
      rw [escapeCharacter, if_pos hcharacter, Utf8.toNat_ofNat (by omega)]
    rw [hfinal, if_pos rfl, hascii hlow, hescape, List.nil_append, dumpEscapedFrom_accept]
    cases dumpEscaped rest with
    | ok escaped => rfl
    | error exception => rfl
  · have hlow : ¬lead < 0x80 := by
      intro hlow
      exact hfinal (Utf8.nextState_of_ascii (by decide) hlow)
    have hcharacter : ¬character.toNat < 0x80 :=
      fun h ↦ hlow (UInt8.lt_iff_toNat_lt.mpr ((Utf8.toNat_lt_iff le_rfl hbytes).mp h))
    have hescape : escapeCharacter character = lead :: tail := by
      rw [escapeCharacter, if_neg hcharacter, hbytes]
    rw [if_neg hfinal, dumpEscapedFrom_owed htail hnext hfinal hbound hadvance, hescape]
    cases dumpEscaped rest with
    | ok escaped => rfl
    | error exception => rfl

/-- A text is escaped character by character. -/
theorem dumpEscaped_encode (characters : List Char) :
    dumpEscaped (encode characters) = .ok (characters.flatMap escapeCharacter) := by
  induction characters with
  | nil => rfl
  | cons character characters ih =>
    rw [Utf8.encode_cons, dumpEscaped_character, ih, List.flatMap_cons]
    rfl

/-- `dump_escaped` maps over the characters of its string and refuses everything else. -/
theorem dumpEscaped_eq_ok_iff {string escaped : Bytes} :
    dumpEscaped string = .ok escaped ↔
      ∃ characters, string = encode characters ∧
        escaped = characters.flatMap escapeCharacter := by
  constructor
  · intro h
    obtain ⟨characters, rfl⟩ := Utf8.encode_of_valid (runFrom_of_dumpEscapedFrom h)
    rw [dumpEscaped_encode] at h
    exact ⟨characters, rfl, (Except.ok.inj h).symm⟩
  · rintro ⟨characters, rfl, rfl⟩
    exact dumpEscaped_encode characters

end NetPixeld.Json

namespace NetPixeld.Utf8

theorem valid_encode (characters : List Char) : Valid (encode characters) :=
  Json.runFrom_of_dumpEscapedFrom (Json.dumpEscaped_encode characters)

/-- The table accepts exactly the encodings of texts. -/
theorem valid_iff {string : Bytes} : Valid string ↔ ∃ characters, encode characters = string := by
  constructor
  · exact encode_of_valid
  · rintro ⟨characters, rfl⟩
    exact valid_encode characters

end NetPixeld.Utf8
