import NetPixeld.Json.Numbers
import NetPixeld.Json.Strings

/-!
# Tokens

How each token is spelled, and that `scan` reads exactly these spellings behind any whitespace. A
numeral is a token only when no numeral goes on with the byte behind it.
-/

namespace NetPixeld.Grammar

open Lexer (Token NumberType numberToken isSpace isDigit)

/-- Insignificant whitespace. -/
def Space (bytes : Bytes) : Prop := ∀ byte ∈ bytes, isSpace byte = true

/-- The tokens with one spelling. -/
def fixedTokens : List (Token × Bytes) :=
  [(.beginArray, text "["), (.endArray, text "]"), (.beginObject, text "\x7b"),
    (.endObject, text "\x7d"), (.nameSeparator, text ":"), (.valueSeparator, text ","),
    (.literalTrue, text "true"), (.literalFalse, text "false"), (.literalNull, text "null")]

/-- The spellings of a token. -/
inductive Spells (strtod : Bytes → Double) : Token → Bytes → Prop where
  | fixed {token : Token} {body : Bytes} : (token, body) ∈ fixedTokens → Spells strtod token body
  | string {body : Bytes} {characters : List Char} : Contents body characters →
      Spells strtod (.valueString (Utf8.encode characters)) (34 :: (body ++ [34]))
  | number {type : NumberType} {body : Bytes} : Numeral type body →
      Spells strtod (numberToken strtod type body) body

/-- A byte that no numeral contains. -/
def Delimiter (byte : UInt8) : Prop :=
  isDigit byte = false ∧ byte ∉ ([43, 45, 46, 69, 101] : Bytes)

instance (byte : UInt8) : Decidable (Delimiter byte) :=
  inferInstanceAs (Decidable (isDigit byte = false ∧ byte ∉ ([43, 45, 46, 69, 101] : Bytes)))

theorem not_delimiter_digit {byte : UInt8} (h : isDigit byte = true) : ¬Delimiter byte := by
  rintro ⟨hdigit, _⟩
  rw [h] at hdigit
  cases hdigit

theorem not_delimiter_suffix {type final : NumberType} {suffix : Bytes}
    (h : Suffix type suffix final) : ∀ byte ∈ suffix, ¬Delimiter byte := by
  cases h with
  | none => simp
  | float hfraction hexponent _ =>
    intro byte hbyte
    rcases List.mem_append.mp hbyte with hbyte | hbyte
    · cases hfraction with
      | none => cases hbyte
      | digits hdigits =>
        rcases List.mem_cons.mp hbyte with rfl | hbyte
        · decide
        · exact not_delimiter_digit (hdigits.2 byte hbyte)
    · cases hexponent with
      | none => cases hbyte
      | digits hletter hsign hdigits =>
        rcases List.mem_cons.mp hbyte with rfl | hbyte
        · rcases hletter with rfl | rfl <;> decide
        rcases List.mem_append.mp hbyte with hbyte | hbyte
        · rcases hsign with rfl | rfl | rfl
          · cases hbyte
          · rw [List.mem_singleton.mp hbyte]
            decide
          · rw [List.mem_singleton.mp hbyte]
            decide
        · exact not_delimiter_digit (hdigits.2 byte hbyte)

theorem not_delimiter_whole {whole : Bytes} (h : Whole whole) :
    ∀ byte ∈ whole, ¬Delimiter byte := by
  cases h with
  | zero =>
    intro byte hbyte
    rw [List.mem_singleton.mp hbyte]
    decide
  | digits hfirst _ hrest =>
    intro byte hbyte
    rcases List.mem_cons.mp hbyte with rfl | hbyte
    · exact not_delimiter_digit hfirst
    · exact not_delimiter_digit (hrest byte hbyte)

theorem not_delimiter_numeral {type : NumberType} {body : Bytes} (h : Numeral type body) :
    ∀ byte ∈ body, ¬Delimiter byte := by
  cases h with
  | positive hwhole hsuffix =>
    intro byte hbyte
    rcases List.mem_append.mp hbyte with hbyte | hbyte
    · exact not_delimiter_whole hwhole byte hbyte
    · exact not_delimiter_suffix hsuffix byte hbyte
  | negative hwhole hsuffix =>
    intro byte hbyte
    rcases List.mem_cons.mp hbyte with rfl | hbyte
    · decide
    rcases List.mem_append.mp hbyte with hbyte | hbyte
    · exact not_delimiter_whole hwhole byte hbyte
    · exact not_delimiter_suffix hsuffix byte hbyte

/-- A numeral never goes on with a delimiter. -/
theorem ends_of_delimiter {body rest : Bytes} (h : ∀ byte ∈ rest.head?, Delimiter byte) :
    Ends body rest :=
  fun byte hbyte _ _ hnumeral ↦
    not_delimiter_numeral hnumeral byte (by simp) (h byte hbyte)

/-- A text with a delimiter in it is no numeral, whatever follows. -/
theorem ends_of_mem {body rest : Bytes} {byte : UInt8} (hbyte : byte ∈ body)
    (hdelimiter : Delimiter byte) : Ends body rest :=
  fun _ _ _ _ hnumeral ↦
    not_delimiter_numeral hnumeral byte (List.mem_append_left _ hbyte) hdelimiter

/-- Only a number can go on behind the spelling of a token. -/
theorem ends_fixed {token : Token} {body rest : Bytes} (h : (token, body) ∈ fixedTokens) :
    Ends body rest := by
  have hall : ∀ entry ∈ fixedTokens, ∃ byte ∈ entry.2, Delimiter byte := by decide
  obtain ⟨byte, hbyte, hdelimiter⟩ := hall _ h
  exact ends_of_mem hbyte hdelimiter

theorem ends_string {body rest : Bytes} : Ends (34 :: body) rest :=
  ends_of_mem (List.mem_cons_self ..) (by decide)

end NetPixeld.Grammar

namespace NetPixeld.Lexer

open Grammar

/-! ## Scanning a token -/

theorem scanLiteral_append (token : Token) (letters rest : Bytes) :
    scanLiteral token letters (letters ++ rest) = (token, rest) := by
  induction letters with
  | nil => rfl
  | cons letter letters ih => rw [List.cons_append, scanLiteral, if_pos rfl, ih]

theorem scanLiteral_ok {success token : Token} {letters input rest : Bytes}
    (h : scanLiteral success letters input = (token, rest)) (htoken : token.final = false) :
    token = success ∧ input = letters ++ rest := by
  induction letters generalizing input with
  | nil =>
    cases h
    exact ⟨rfl, rfl⟩
  | cons letter letters ih =>
    cases input with
    | nil =>
      cases h
      cases htoken
    | cons current input =>
      rw [scanLiteral] at h
      split at h
      · next hletter =>
        obtain ⟨htoken, hinput⟩ := ih h
        exact ⟨htoken, by rw [hletter, hinput]; rfl⟩
      · cases h
        cases htoken

theorem structural_mem {current : UInt8} {token : Token} (h : structural current = some token) :
    (token, [current]) ∈ fixedTokens := by
  unfold structural at h
  split_ifs at h
  all_goals
    cases h
    subst current
    decide

theorem literal_mem {current : UInt8} {token : Token} {letters : Bytes}
    (h : literal current = some (token, letters)) : (token, current :: letters) ∈ fixedTokens := by
  unfold literal at h
  split_ifs at h
  all_goals
    cases h
    subst current
    decide

/-- The dispatch of `scan` reads a spelling. -/
theorem spells_of_scanToken {strtod : Bytes → Double} {current : UInt8} {token : Token}
    {input rest : Bytes} (h : scanToken strtod current input = (token, rest))
    (htoken : token.final = false) :
    ∃ body, current :: input = body ++ rest ∧ Spells strtod token body ∧ Ends body rest := by
  have hparse : token ≠ .parseError := by
    rintro rfl
    cases htoken
  unfold scanToken at h
  split at h
  · next hstructural =>
    cases h
    have hfixed := structural_mem hstructural
    exact ⟨[current], rfl, .fixed hfixed, ends_fixed hfixed⟩
  split at h
  · next hliteral =>
    obtain ⟨rfl, rfl⟩ := scanLiteral_ok h htoken
    have hfixed := literal_mem hliteral
    exact ⟨_, rfl, .fixed hfixed, ends_fixed hfixed⟩
  split at h
  · next hquote =>
    unfold stringToken at h
    split at h
    · next value behind hstring =>
      obtain ⟨rfl, rfl⟩ := Prod.mk.inj h
      obtain ⟨body, characters, rfl, hbody, rfl⟩ := scanString_iff.mp hstring
      refine ⟨34 :: (body ++ [34]), ?_, .string hbody, ends_string⟩
      simp [hquote]
    · cases h
      cases htoken
  split at h
  · obtain ⟨type, tokenBuffer, happend, hnumeral, hends, rfl⟩ := (scanNumber_iff hparse).mp h
    exact ⟨tokenBuffer, happend, .number hnumeral, hends⟩
  split at h
  · cases h
    cases htoken
  · cases h
    cases htoken

/-- A fixed spelling starts with a structural character or with the letter of a literal. -/
theorem fixed_head {token : Token} {body : Bytes} (h : (token, body) ∈ fixedTokens) :
    ∃ current behind, body = current :: behind ∧ isSpace current = false ∧
      (structural current = some token ∧ behind = [] ∨
        structural current = none ∧ literal current = some (token, behind)) := by
  have hall : ∀ entry ∈ fixedTokens, entry.2 = entry.2.headI :: entry.2.tail ∧
      isSpace entry.2.headI = false ∧
      (structural entry.2.headI = some entry.1 ∧ entry.2.tail = [] ∨
        structural entry.2.headI = none ∧
          literal entry.2.headI = some (entry.1, entry.2.tail)) := by
    decide
  exact ⟨_, _, hall _ h⟩

/-- A numeral starts with a minus sign or a digit. -/
theorem numeral_head {type : NumberType} {body : Bytes} (h : Numeral type body) :
    ∃ current behind, body = current :: behind ∧ (current = 45 ∨ isDigit current = true) := by
  cases h with
  | positive hwhole _ =>
    obtain ⟨first, rest, rfl, hfirst⟩ := whole_head hwhole
    exact ⟨first, _, rfl, Or.inr hfirst⟩
  | negative _ _ => exact ⟨45, _, rfl, Or.inl rfl⟩

/-- The dispatch on the first byte of a spelling. -/
theorem scanToken_spells {strtod : Bytes → Double} {token : Token} {body rest : Bytes}
    (h : Spells strtod token body) (hends : Ends body rest) :
    ∃ current behind, body ++ rest = current :: behind ∧ isSpace current = false ∧
      scanToken strtod current behind = (token, rest) := by
  cases h with
  | fixed hfixed =>
    obtain ⟨current, behind, rfl, hspace, ⟨hstructural, rfl⟩ | ⟨hstructural, hliteral⟩⟩ :=
      fixed_head hfixed
    · exact ⟨current, rest, rfl, hspace, by rw [scanToken, hstructural]⟩
    · refine ⟨current, behind ++ rest, rfl, hspace, ?_⟩
      rw [scanToken, hstructural]
      simp only [hliteral, scanLiteral_append]
  | @string body characters hbody =>
    refine ⟨34, body ++ 34 :: rest, by simp, rfl, ?_⟩
    have hscan : scanString (body ++ 34 :: rest) = some (Utf8.encode characters, rest) :=
      scanString_iff.mpr ⟨body, characters, rfl, hbody, rfl⟩
    change stringToken _ = _
    rw [stringToken, hscan]
  | @number type body hnumeral =>
    obtain ⟨current, behind, rfl, hcurrent⟩ := numeral_head hnumeral
    have hne (code : UInt8) (hcode : ¬(code = 45 ∨ isDigit code = true)) : current ≠ code := by
      rintro rfl
      exact hcode hcurrent
    have hscan : scanNumber strtod (current :: (behind ++ rest)) =
        (numberToken strtod type (current :: behind), rest) := by
      refine (scanNumber_iff ?_).mpr ⟨type, current :: behind, rfl, hnumeral, hends, rfl⟩
      intro hparse
      have hfinal := numberToken_ne strtod type (current :: behind)
      rw [hparse] at hfinal
      cases hfinal
    refine ⟨current, behind ++ rest, rfl, ?_, ?_⟩
    · simp only [isSpace, hne 32 (by decide), hne 9 (by decide), hne 10 (by decide),
        hne 13 (by decide), decide_false, Bool.or_self]
    · simp only [scanToken, structural, literal, hne 91 (by decide), hne 93 (by decide),
        hne 123 (by decide), hne 125 (by decide), hne 58 (by decide), hne 44 (by decide),
        hne 116 (by decide), hne 102 (by decide), hne 110 (by decide), hne 34 (by decide),
        if_false, if_pos hcurrent]
      exact hscan

/-! ## Reading tokens one by one -/

theorem skipWhitespace_append {space : Bytes} (h : Space space) (input : Bytes) :
    skipWhitespace (space ++ input) = skipWhitespace input :=
  List.dropWhile_append_of_pos h

/-- Every input starts with its whitespace. -/
theorem exists_space (input : Bytes) :
    ∃ space, Space space ∧ input = space ++ skipWhitespace input :=
  ⟨input.takeWhile isSpace, List.all_eq_true.mp List.all_takeWhile,
    List.takeWhile_append_dropWhile.symm⟩

/-- A spelled token is read, and the lexer goes on behind it. -/
theorem tokens_spells {strtod : Bytes → Double} {token : Token} {space body rest : Bytes}
    (hspace : Space space) (h : Spells strtod token body) (hends : Ends body rest)
    (htoken : token.final = false) :
    tokens strtod (space ++ (body ++ rest)) = token :: tokens strtod rest := by
  obtain ⟨current, behind, happend, hcurrent, hscan⟩ := scanToken_spells h hends
  refine tokens_cons ?_ htoken
  rw [scan, skipWhitespace_append hspace, happend, skipWhitespace,
    List.dropWhile_cons_of_neg (by rw [hcurrent]; decide)]
  exact hscan

/-- The first token of an input, unless it is the last one, is spelled there. -/
theorem spells_of_tokens {strtod : Bytes → Double} {token : Token} {input : Bytes}
    {others : List Token} (h : tokens strtod input = token :: others)
    (htoken : token.final = false) :
    ∃ space body rest, input = space ++ (body ++ rest) ∧ Space space ∧
      Spells strtod token body ∧ Ends body rest ∧ others = tokens strtod rest := by
  cases hscan : scan strtod input with
  | mk first rest =>
    cases hfirst : first.final with
    | true =>
      rw [tokens_of_final hscan hfirst] at h
      cases h
      rw [hfirst] at htoken
      cases htoken
    | false =>
      rw [tokens_cons hscan hfirst] at h
      obtain ⟨rfl, rfl⟩ := List.cons.inj h
      obtain ⟨space, hspace, hinput⟩ := exists_space input
      unfold scan at hscan
      split at hscan
      · cases hscan
        cases htoken
      · next current behind hbehind =>
        obtain ⟨body, happend, hspells, hends⟩ := spells_of_scanToken hscan htoken
        rw [hbehind, happend] at hinput
        exact ⟨space, body, rest, hinput, hspace, hspells, hends, rfl⟩

theorem scanLiteral_ne (success : Token) (letters input : Bytes) {rest : Bytes}
    (hsuccess : success.final = false) :
    scanLiteral success letters input ≠ (.endOfInput, rest) := by
  induction letters generalizing input with
  | nil =>
    rintro ⟨⟩
    cases hsuccess
  | cons letter letters ih =>
    cases input with
    | nil => rintro ⟨⟩
    | cons current input =>
      rw [scanLiteral]
      split
      · exact ih input
      · rintro ⟨⟩

/-- Only a NUL byte is dispatched to the end of the input. -/
theorem zero_of_scanToken {strtod : Bytes → Double} {current : UInt8} {input rest : Bytes}
    (h : scanToken strtod current input = (.endOfInput, rest)) : current = 0 := by
  have hfixed : ∀ entry ∈ fixedTokens, entry.1.final = false := by decide
  unfold scanToken at h
  split at h
  · next hstructural =>
    cases h
    cases hfixed _ (structural_mem hstructural)
  split at h
  · next token letters hliteral =>
    exact absurd h (scanLiteral_ne token letters input (hfixed _ (literal_mem hliteral)))
  split at h
  · unfold stringToken at h
    split at h <;> cases h
  split at h
  · unfold scanNumber at h
    split at h
    next type tokenBuffer behind _ =>
    split at h
    · have hfinal := numberToken_ne strtod type tokenBuffer
      rw [(Prod.mk.inj h).1] at hfinal
      cases hfinal
    · cases h
  split at h
  · next hzero => exact hzero
  · cases h

/-- The input ends behind its whitespace, in fact or at a NUL byte. -/
theorem tokens_end {strtod : Bytes → Double} {space rest : Bytes} (hspace : Space space)
    (hrest : ∀ byte ∈ rest.head?, byte = 0) : tokens strtod (space ++ rest) = [.endOfInput] := by
  cases rest with
  | nil =>
    have hscan : scan strtod (space ++ []) = (.endOfInput, []) := by
      rw [scan, skipWhitespace_append hspace]
      rfl
    exact tokens_of_final hscan rfl
  | cons byte rest =>
    obtain rfl : byte = 0 := hrest byte rfl
    have hscan : scan strtod (space ++ 0 :: rest) = (.endOfInput, rest) := by
      rw [scan, skipWhitespace_append hspace]
      rfl
    exact tokens_of_final hscan rfl

theorem end_of_tokens {strtod : Bytes → Double} {input : Bytes} {others : List Token}
    (h : tokens strtod input = .endOfInput :: others) :
    ∃ space rest, input = space ++ rest ∧ Space space ∧ ∀ byte ∈ rest.head?, byte = 0 := by
  cases hscan : scan strtod input with
  | mk first rest =>
    have hfirst : first = .endOfInput := by
      rw [tokens] at h
      simp only [hscan] at h
      split at h <;> exact (List.cons.inj h).1
    subst hfirst
    obtain ⟨space, hspace, hinput⟩ := exists_space input
    refine ⟨space, skipWhitespace input, hinput, hspace, fun byte hbyte ↦ ?_⟩
    unfold scan at hscan
    split at hscan
    · next hempty =>
      rw [hempty] at hbyte
      cases hbyte
    · next current behind hbehind =>
      rw [hbehind] at hbyte
      cases hbyte
      exact zero_of_scanToken hscan

end NetPixeld.Lexer
