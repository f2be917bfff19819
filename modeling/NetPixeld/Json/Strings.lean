import NetPixeld.Json.Characters

/-!
# String literals

The text between the quotes of a string literal spells characters: each as itself, as a one-letter
escape, or as one or two `\u` escapes. `scan_string` reads exactly this language up to the first
quote that is not escaped, and yields the UTF-8 encoding of the characters.
-/

namespace NetPixeld.Grammar

/-- Four hexadecimal digits of either case and their value. -/
def Hex4 (digits : Bytes) (value : ℕ) : Prop :=
  ∃ first second third fourth a b c d, digits = [first, second, third, fourth] ∧
    Lexer.hexDigitValue first = some a ∧ Lexer.hexDigitValue second = some b ∧
    Lexer.hexDigitValue third = some c ∧ Lexer.hexDigitValue fourth = some d ∧
    value = a * 0x1000 + b * 0x100 + c * 0x10 + d

/-- The letters of the short escapes and the code points they stand for. -/
def escapeLetters : List (UInt8 × ℕ) :=
  [(34, 0x22), (92, 0x5C), (47, 0x2F), (98, 0x08), (102, 0x0C), (110, 0x0A), (114, 0x0D),
    (116, 0x09)]

/-- An escape behind its backslash and the character it stands for. -/
inductive Escape : Bytes → Char → Prop where
  | letter {code : UInt8} {character : Char} :
      (code, character.toNat) ∈ escapeLetters → Escape [code] character
  | unicode {digits : Bytes} {character : Char} :
      Hex4 digits character.toNat → Escape (117 :: digits) character
  | surrogates {digits lowDigits : Bytes} {high low : ℕ} {character : Char} :
      Hex4 digits high → 0xD800 ≤ high ∧ high ≤ 0xDBFF →
      Hex4 lowDigits low → 0xDC00 ≤ low ∧ low ≤ 0xDFFF →
      character.toNat = 0x10000 + (high - 0xD800) * 0x400 + (low - 0xDC00) →
      Escape (117 :: digits ++ 92 :: 117 :: lowDigits) character

/-- The text between the quotes and the characters it spells. -/
inductive Contents : Bytes → List Char → Prop where
  | nil : Contents [] []
  | plain {character : Char} {body : Bytes} {characters : List Char} :
      0x20 ≤ character.toNat → character.toNat ≠ 0x22 → character.toNat ≠ 0x5C →
      Contents body characters →
      Contents (String.utf8EncodeChar character ++ body) (character :: characters)
  | escape {escaped body : Bytes} {character : Char} {characters : List Char} :
      Escape escaped character → Contents body characters →
      Contents (92 :: escaped ++ body) (character :: characters)

end NetPixeld.Grammar

namespace NetPixeld.Lexer

open Grammar Utf8

/-! ## Escapes -/

theorem hexDigitValue_lt {current : UInt8} {value : ℕ} (h : hexDigitValue current = some value) :
    value < 16 := by
  simp only [hexDigitValue, UInt8.le_iff_toNat_le, UInt8.reduceToNat] at h
  split_ifs at h <;> cases h <;> omega

theorem hex4_lt {digits : Bytes} {value : ℕ} (h : Hex4 digits value) : value < 0x10000 := by
  obtain ⟨_, _, _, _, a, b, c, d, _, ha, hb, hc, hd, rfl⟩ := h
  have ha := hexDigitValue_lt ha
  have hb := hexDigitValue_lt hb
  have hc := hexDigitValue_lt hc
  have hd := hexDigitValue_lt hd
  omega

theorem getCodepointFrom_cons {codepoint factor result : ℕ} {factors : List ℕ}
    {input rest : Bytes} :
    getCodepointFrom codepoint (factor :: factors) input = some (result, rest) ↔
      ∃ current behind digit, input = current :: behind ∧ hexDigitValue current = some digit ∧
        getCodepointFrom (codepoint + digit <<< factor) factors behind = some (result, rest) := by
  cases input with
  | nil =>
    constructor
    · intro h
      cases h
    · rintro ⟨_, _, _, h, _⟩
      cases h
  | cons current input =>
    rw [getCodepointFrom]
    constructor
    · intro h
      split at h
      · next digit hdigit => exact ⟨current, input, digit, rfl, hdigit, h⟩
      · cases h
    · rintro ⟨_, _, digit, heq, hdigit, h⟩
      cases heq
      rw [hdigit]
      exact h

/-- `get_codepoint` reads four digits. -/
theorem getCodepoint_iff {input rest : Bytes} {codepoint : ℕ} :
    getCodepoint input = some (codepoint, rest) ↔
      ∃ digits, input = digits ++ rest ∧ Hex4 digits codepoint := by
  simp only [getCodepoint, getCodepointFrom_cons]
  constructor
  · rintro ⟨first, _, a, rfl, ha, second, _, b, rfl, hb, third, _, c, rfl, hc, fourth, behind, d,
      rfl, hd, h⟩
    cases h
    refine ⟨[first, second, third, fourth], rfl, first, second, third, fourth, a, b, c, d, rfl, ha,
      hb, hc, hd, ?_⟩
    simp only [Nat.shiftLeft_eq]
    omega
  · rintro ⟨_, rfl, first, second, third, fourth, a, b, c, d, rfl, ha, hb, hc, hd, rfl⟩
    refine ⟨first, _, a, rfl, ha, second, _, b, rfl, hb, third, _, c, rfl, hc, fourth, rest, d, rfl,
      hd, ?_⟩
    simp only [getCodepointFrom, Nat.shiftLeft_eq]
    congr 2
    omega

/-- A sum of bits that do not overlap is their disjunction. -/
theorem or_eq_add {high low : ℕ} (place : ℕ) (hhigh : 2 ^ place ∣ high) (hlow : low < 2 ^ place) :
    high ||| low = low + high := by
  obtain ⟨factor, rfl⟩ := hhigh
  rw [← Nat.two_pow_add_eq_or_of_lt hlow, Nat.add_comm]

/-- The code point of a character is translated into its UTF-8 encoding. -/
theorem codepointBytes_toNat (character : Char) :
    codepointBytes character.toNat = String.utf8EncodeChar character := by
  have hvalid : character.val.toNat < 0xD800 ∨
      0xDFFF < character.val.toNat ∧ character.val.toNat < 0x110000 := character.valid
  change codepointBytes character.val.toNat = _
  unfold String.utf8EncodeChar codepointBytes
  generalize character.val.toNat = value at hvalid
  have hlast : 0x80 ||| value &&& 0x3F = value % 64 + 0x80 := by
    rw [Nat.and_two_pow_sub_one_eq_mod value 6, or_eq_add 6 (by decide) (by omega)]
  have hmiddle (place : ℕ) : 0x80 ||| value >>> place &&& 0x3F = value / 2 ^ place % 64 + 0x80 := by
    rw [Nat.shiftRight_eq_div_pow, Nat.and_two_pow_sub_one_eq_mod _ 6,
      or_eq_add 6 (by decide) (by omega)]
  dsimp only
  split_ifs with h₁ h₂ h₃ h₄ h₅ h₆ h₇
  all_goals try omega
  · rfl
  · rw [hlast, Nat.shiftRight_eq_div_pow, or_eq_add 6 (by decide) (by omega),
      Nat.mod_eq_of_lt (show value / 64 < 32 by omega)]
  · rw [hlast, hmiddle 6, Nat.shiftRight_eq_div_pow, or_eq_add 4 (by decide) (by omega),
      Nat.mod_eq_of_lt (show value / 4096 < 16 by omega)]
    rfl
  · rw [hlast, hmiddle 6, hmiddle 12, Nat.shiftRight_eq_div_pow,
      or_eq_add 3 (by decide) (by omega), Nat.mod_eq_of_lt (show value / 262144 < 8 by omega)]
    rfl

/-- A `\u` escape behind its letter. -/
theorem scanUnicode_iff {input added rest : Bytes} :
    scanUnicode input = some (added, rest) ↔
      ∃ text character, input = text ++ rest ∧ Escape (117 :: text) character ∧
        added = String.utf8EncodeChar character := by
  constructor
  · intro h
    unfold scanUnicode at h
    split at h
    · cases h
    next codepoint1 behind hfirst =>
    obtain ⟨digits, rfl, hdigits⟩ := getCodepoint_iff.mp hfirst
    have hlt := hex4_lt hdigits
    split at h
    · next hhigh =>
      split at h
      · next behind =>
        split at h
        · cases h
        next codepoint2 last hsecond =>
        obtain ⟨lowDigits, rfl, hlowDigits⟩ := getCodepoint_iff.mp hsecond
        split at h
        · next hlow =>
          obtain ⟨rfl, rfl⟩ := Prod.mk.inj (Option.some.inj h)
          have hpair : codepoint1 <<< 10 + codepoint2 - 0x35FDC00 =
              0x10000 + (codepoint1 - 0xD800) * 0x400 + (codepoint2 - 0xDC00) := by
            rw [Nat.shiftLeft_eq]
            omega
          obtain ⟨character, hcharacter⟩ := @exists_character
            (codepoint1 <<< 10 + codepoint2 - 0x35FDC00) (by omega)
          change character.toNat = _ at hcharacter
          refine ⟨digits ++ 92 :: 117 :: lowDigits, character, ?_, ?_, ?_⟩
          · simp only [List.append_assoc, List.cons_append]
          · exact .surrogates hdigits hhigh hlowDigits hlow (hcharacter.trans hpair)
          · rw [← hcharacter, codepointBytes_toNat]
        · cases h
      · cases h
    split at h
    · cases h
    · next hlow =>
      obtain ⟨rfl, rfl⟩ := Prod.mk.inj (Option.some.inj h)
      obtain ⟨character, hcharacter⟩ := @exists_character codepoint1 (by omega)
      change character.toNat = _ at hcharacter
      subst hcharacter
      exact ⟨digits, character, rfl, .unicode hdigits, codepointBytes_toNat character⟩
  · rintro ⟨text, character, rfl, hescape, rfl⟩
    generalize htext : 117 :: text = escaped at hescape
    cases hescape with
    | letter hcode =>
      cases htext
      simp [escapeLetters] at hcode
    | unicode hdigits =>
      cases htext
      have hvalid : character.toNat < 0xD800 ∨
          0xDFFF < character.toNat ∧ character.toNat < 0x110000 := character.valid
      rw [scanUnicode, getCodepoint_iff.mpr ⟨text, rfl, hdigits⟩]
      dsimp only
      rw [if_neg (by omega), if_neg (by omega), codepointBytes_toNat]
    | @surrogates digits lowDigits high low _ hdigits hhigh hlowDigits hlow hcharacter =>
      obtain ⟨_, rfl⟩ := List.cons.inj (htext.trans List.cons_append)
      have hpair : high <<< 10 + low - 0x35FDC00 = character.toNat := by
        rw [Nat.shiftLeft_eq]
        omega
      rw [scanUnicode, getCodepoint_iff.mpr ⟨digits, List.append_assoc _ _ _, hdigits⟩]
      dsimp only [List.cons_append]
      rw [if_pos hhigh]
      simp only [getCodepoint_iff.mpr ⟨lowDigits, rfl, hlowDigits⟩]
      rw [if_pos hlow, hpair, codepointBytes_toNat]

theorem simpleEscape_iff {code byte : UInt8} :
    simpleEscape code = some byte ↔ (code, byte.toNat) ∈ escapeLetters := by
  constructor
  · intro h
    unfold simpleEscape at h
    split_ifs at h
    all_goals
      cases h
      subst code
      decide
  · intro h
    have hall : ∀ entry ∈ escapeLetters, simpleEscape entry.1 = some (UInt8.ofNat entry.2) := by
      decide
    have hentry := hall _ h
    rwa [UInt8.ofNat_toNat] at hentry

theorem escapeLetters_lt {code : UInt8} {codepoint : ℕ} (h : (code, codepoint) ∈ escapeLetters) :
    codepoint < 0x80 := by
  have hall : ∀ entry ∈ escapeLetters, entry.2 < 0x80 := by decide
  exact hall _ h

/-- An escape behind its backslash. -/
theorem scanEscape_iff {input added rest : Bytes} :
    scanEscape input = some (added, rest) ↔
      ∃ escaped character, input = escaped ++ rest ∧ Escape escaped character ∧
        added = String.utf8EncodeChar character := by
  constructor
  · intro h
    cases input with
    | nil => cases h
    | cons code input =>
      rw [scanEscape] at h
      split at h
      · next byte hletter =>
        obtain ⟨rfl, rfl⟩ := Prod.mk.inj (Option.some.inj h)
        have hcode := simpleEscape_iff.mp hletter
        have hlow := escapeLetters_lt hcode
        obtain ⟨character, hcharacter⟩ := @exists_character byte.toNat (by omega)
        change character.toNat = _ at hcharacter
        refine ⟨[code], character, rfl, .letter (hcharacter ▸ hcode), ?_⟩
        rw [encodeChar_ascii (hcharacter ▸ hlow), hcharacter, UInt8.ofNat_toNat]
      split at h
      · next hunicode =>
        subst hunicode
        obtain ⟨text, character, rfl, hescape, rfl⟩ := scanUnicode_iff.mp h
        exact ⟨117 :: text, character, rfl, hescape, rfl⟩
      · cases h
  · rintro ⟨escaped, character, rfl, hescape, rfl⟩
    have hnone : simpleEscape 117 = none := by decide
    cases hescape with
    | @letter code _ hcode =>
      have hlow := escapeLetters_lt hcode
      have hbyte : (UInt8.ofNat character.toNat).toNat = character.toNat := toNat_ofNat (by omega)
      rw [List.singleton_append, scanEscape, simpleEscape_iff.mpr (hbyte.symm ▸ hcode),
        encodeChar_ascii hlow]
    | @unicode digits _ hdigits =>
      rw [List.cons_append, scanEscape, hnone]
      exact scanUnicode_iff.mpr ⟨digits, character, rfl, .unicode hdigits, rfl⟩
    | @surrogates digits lowDigits high low _ hdigits hhigh hlowDigits hlow hcharacter =>
      rw [List.cons_append, List.cons_append, scanEscape, hnone]
      exact scanUnicode_iff.mpr ⟨digits ++ 92 :: 117 :: lowDigits, character, rfl,
        .surrogates hdigits hhigh hlowDigits hlow hcharacter, rfl⟩

/-! ## Characters -/

theorem nextByteInRange_iff {ranges : List (UInt8 × UInt8)} {input added rest : Bytes} :
    nextByteInRange ranges input = some (added, rest) ↔
      input = added ++ rest ∧ InRanges ranges added := by
  induction ranges generalizing input added with
  | nil =>
    rw [nextByteInRange, inRanges_nil]
    constructor
    · rintro ⟨⟩
      exact ⟨rfl, rfl⟩
    · rintro ⟨rfl, rfl⟩
      rfl
  | cons range ranges ih =>
    constructor
    · intro h
      cases input with
      | nil => cases h
      | cons current input =>
        rw [nextByteInRange] at h
        split at h
        · next hrange =>
          obtain ⟨⟨scanned, behind⟩, hscanned, heq⟩ := Option.map_eq_some_iff.mp h
          obtain ⟨rfl, rfl⟩ := Prod.mk.inj heq
          obtain ⟨rfl, hranges⟩ := ih.mp hscanned
          exact ⟨rfl, .cons hrange hranges⟩
        · cases h
    · rintro ⟨rfl, hranges⟩
      cases hranges with
      | @cons _ current _ added hrange hranges =>
        rw [List.cons_append, nextByteInRange, if_pos hrange, ih.mpr ⟨rfl, hranges⟩]
        rfl

/-- A character that is neither a quote nor an escape. -/
theorem scanCharacter_iff {current : UInt8} {input added rest : Bytes} :
    scanCharacter current input = some (added, rest) ↔
      ∃ character : Char, current :: input = added ++ rest ∧ 0x20 ≤ character.toNat ∧
        added = String.utf8EncodeChar character := by
  unfold scanCharacter
  constructor
  · intro h
    split at h
    · cases h
    next hcontrol =>
    split at h
    · next ranges hlead =>
      obtain ⟨⟨scanned, behind⟩, hscanned, heq⟩ := Option.map_eq_some_iff.mp h
      obtain ⟨rfl, rfl⟩ := Prod.mk.inj heq
      obtain ⟨rfl, hranges⟩ := nextByteInRange_iff.mp hscanned
      obtain ⟨character, hcharacter⟩ := encodeChar_of_formed ⟨current, ranges, scanned, rfl, hlead,
        hranges⟩
      refine ⟨character, rfl, ?_, hcharacter.symm⟩
      rw [UInt8.lt_iff_toNat_lt] at hcontrol
      exact not_lt.mp fun hlow ↦ hcontrol ((toNat_lt_iff (by decide) hcharacter).mp hlow)
    · cases h
  · rintro ⟨character, happend, hcontrol, rfl⟩
    obtain ⟨lead, ranges, tail, hbytes, hlead, htail⟩ := formed_encodeChar character
    rw [hbytes, List.cons_append] at happend
    obtain ⟨rfl, rfl⟩ := List.cons.inj happend
    have hcurrent : ¬current < 0x20 := by
      rw [UInt8.lt_iff_toNat_lt]
      exact fun hlow ↦ not_lt.mpr hcontrol ((toNat_lt_iff (by decide) hbytes).mpr hlow)
    rw [hbytes, if_neg hcurrent, hlead]
    dsimp only
    rw [nextByteInRange_iff.mpr ⟨rfl, htail⟩]
    rfl

/-! ## Literals -/

/-- A character that is not escaped is neither a quote nor a backslash to the lexer. -/
theorem lead_ne {character : Char} {lead : UInt8} {tail : Bytes}
    (h : String.utf8EncodeChar character = lead :: tail) {code : UInt8} (hcode : code.toNat < 0x80)
    (hne : character.toNat ≠ code.toNat) : lead ≠ code := by
  rintro rfl
  exact hne (toNat_lead h hcode).1

/-- `scan_string` reads what a literal spells, up to its quote. -/
theorem scanStringFrom_contents {body : Bytes} {characters : List Char}
    (h : Contents body characters) (tokenBuffer rest : Bytes) :
    scanStringFrom tokenBuffer (body ++ 34 :: rest) =
      some (tokenBuffer ++ encode characters, rest) := by
  induction h generalizing tokenBuffer with
  | nil => rw [List.nil_append, scanStringFrom_quote, encode_nil, List.append_nil]
  | @plain character body characters hcontrol hquote hbackslash _ ih =>
    obtain ⟨lead, _, tail, hbytes, _⟩ := formed_encodeChar character
    have hscan : scanCharacter lead (tail ++ (body ++ 34 :: rest)) =
        some (String.utf8EncodeChar character, body ++ 34 :: rest) :=
      scanCharacter_iff.mpr ⟨character, by rw [hbytes]; rfl, hcontrol, rfl⟩
    rw [List.append_assoc, hbytes, List.cons_append,
      scanStringFrom_character _ _ (lead_ne hbytes (by decide) hquote)
        (lead_ne hbytes (by decide) hbackslash), hscan, Option.bind_some, ih, encode_cons,
      List.append_assoc]
  | @escape escaped body character characters hescape _ ih =>
    have hscan : scanEscape (escaped ++ (body ++ 34 :: rest)) =
        some (String.utf8EncodeChar character, body ++ 34 :: rest) :=
      scanEscape_iff.mpr ⟨escaped, character, rfl, hescape, rfl⟩
    rw [List.append_assoc, List.cons_append, scanStringFrom_escape, hscan, Option.bind_some, ih,
      encode_cons, List.append_assoc]

/-- What `scan_string` reads is a literal. -/
theorem contents_of_scanStringFrom {input tokenBuffer value rest : Bytes}
    (h : scanStringFrom tokenBuffer input = some (value, rest)) :
    ∃ body characters, input = body ++ 34 :: rest ∧ Contents body characters ∧
      value = tokenBuffer ++ encode characters := by
  induction hlength : input.length using Nat.strong_induction_on generalizing tokenBuffer input with
  | _ length ih =>
    cases input with
    | nil =>
      rw [scanStringFrom] at h
      cases h
    | cons current input =>
      rw [List.length_cons] at hlength
      by_cases hquote : current = 34
      · subst hquote
        rw [scanStringFrom_quote] at h
        cases h
        exact ⟨[], [], rfl, .nil, by rw [encode_nil, List.append_nil]⟩
      by_cases hbackslash : current = 92
      · subst hbackslash
        rw [scanStringFrom_escape] at h
        obtain ⟨⟨added, behind⟩, hscan, h⟩ := Option.bind_eq_some_iff.mp h
        have hbehind := scanEscape_length hscan
        obtain ⟨body, characters, rfl, hbody, rfl⟩ := ih behind.length (by omega) h rfl
        obtain ⟨escaped, character, rfl, hescape, rfl⟩ := scanEscape_iff.mp hscan
        refine ⟨92 :: escaped ++ body, character :: characters, ?_, .escape hescape hbody, ?_⟩
        · simp only [List.cons_append, List.append_assoc]
        · rw [encode_cons, List.append_assoc]
      · rw [scanStringFrom_character _ _ hquote hbackslash] at h
        obtain ⟨⟨added, behind⟩, hscan, h⟩ := Option.bind_eq_some_iff.mp h
        have hbehind := scanCharacter_length hscan
        obtain ⟨body, characters, rfl, hbody, rfl⟩ := ih behind.length (by omega) h rfl
        obtain ⟨character, happend, hcontrol, rfl⟩ := scanCharacter_iff.mp hscan
        obtain ⟨lead, _, tail, hbytes, _⟩ := formed_encodeChar character
        have hlead := happend
        rw [hbytes, List.cons_append] at hlead
        obtain ⟨rfl, _⟩ := List.cons.inj hlead
        have hne {code : ℕ} (hcode : code < 0x80) (hcurrent : current ≠ UInt8.ofNat code) :
            character.toNat ≠ code := by
          rintro rfl
          rw [encodeChar_ascii hcode] at hbytes
          exact hcurrent (List.cons.inj hbytes).1.symm
        refine ⟨String.utf8EncodeChar character ++ body, character :: characters, ?_,
          .plain hcontrol (hne (by decide) hquote) (hne (by decide) hbackslash) hbody, ?_⟩
        · rw [happend, List.append_assoc]
        · rw [encode_cons, List.append_assoc]

/-- `scan_string` reads exactly the literals, each into the encoding of what it spells. -/
theorem scanString_iff {input value rest : Bytes} :
    scanString input = some (value, rest) ↔
      ∃ body characters, input = body ++ 34 :: rest ∧ Contents body characters ∧
        value = encode characters := by
  constructor
  · exact contents_of_scanStringFrom
  · rintro ⟨body, characters, rfl, hbody, rfl⟩
    exact scanStringFrom_contents hbody [] rest

end NetPixeld.Lexer
