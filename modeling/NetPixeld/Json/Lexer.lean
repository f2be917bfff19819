import NetPixeld.Foundation.Munch
import NetPixeld.Json.Value

/-!
# The lexer of the JSON library

`scan` reads one token: it skips whitespace and dispatches on the next byte to `scan_literal`,
`scan_string` or `scan_number`. The lexer keeps nothing between two tokens but its place in the
input, so the tokens the parser asks for one at a time are read ahead here; they end with the first
`parse_error` or `end_of_input`. A NUL byte where a token starts counts as the end of the input.
The conversion of a numeral to a double, `std::strtod`, is a parameter.
-/

namespace NetPixeld.Lexer

/-! ## Bytes -/

/-- The bytes `skip_whitespace` skips. -/
def isSpace (byte : UInt8) : Bool := byte = 32 || byte = 9 || byte = 10 || byte = 13

def isDigit (byte : UInt8) : Bool := 48 ≤ byte && byte ≤ 57

/-- The number that decimal digits stand for. -/
def digitsValue (digits : Bytes) : ℕ :=
  digits.foldl (fun value digit ↦ value * 10 + (digit.toNat - 48)) 0

/-! ## Tokens -/

/-- `token_type`, with the values the getters of the lexer return. -/
inductive Token where
  | literalTrue
  | literalFalse
  | literalNull
  | valueString (value : Bytes)
  | valueUnsigned (value : ℕ)
  | valueInteger (value : ℤ)
  | valueFloat (value : Double)
  | beginArray
  | beginObject
  | endArray
  | endObject
  | nameSeparator
  | valueSeparator
  | parseError
  | endOfInput
deriving DecidableEq

/-! ## Strings -/

/-- The value of a hexadecimal digit of either case. -/
def hexDigitValue (current : UInt8) : Option ℕ :=
  if 48 ≤ current ∧ current ≤ 57 then some (current.toNat - 0x30)
  else if 65 ≤ current ∧ current ≤ 70 then some (current.toNat - 0x37)
  else if 97 ≤ current ∧ current ≤ 102 then some (current.toNat - 0x57)
  else none

/-- The loop of `get_codepoint`: one digit for each factor. -/
def getCodepointFrom (codepoint : ℕ) : List ℕ → Bytes → Option (ℕ × Bytes)
  | [], input => some (codepoint, input)
  | _ :: _, [] => none
  | factor :: factors, current :: rest =>
      match hexDigitValue current with
      | some digit => getCodepointFrom (codepoint + digit <<< factor) factors rest
      | none => none

/-- `get_codepoint`: the four digits after `\u`. -/
def getCodepoint (input : Bytes) : Option (ℕ × Bytes) := getCodepointFrom 0 [12, 8, 4, 0] input

/-- The bytes a code point is translated into. -/
def codepointBytes (codepoint : ℕ) : Bytes :=
  if codepoint < 0x80 then [UInt8.ofNat codepoint]
  else if codepoint ≤ 0x7FF then
    [UInt8.ofNat (0xC0 ||| codepoint >>> 6), UInt8.ofNat (0x80 ||| codepoint &&& 0x3F)]
  else if codepoint ≤ 0xFFFF then
    [UInt8.ofNat (0xE0 ||| codepoint >>> 12), UInt8.ofNat (0x80 ||| codepoint >>> 6 &&& 0x3F),
      UInt8.ofNat (0x80 ||| codepoint &&& 0x3F)]
  else
    [UInt8.ofNat (0xF0 ||| codepoint >>> 18), UInt8.ofNat (0x80 ||| codepoint >>> 12 &&& 0x3F),
      UInt8.ofNat (0x80 ||| codepoint >>> 6 &&& 0x3F), UInt8.ofNat (0x80 ||| codepoint &&& 0x3F)]

/-- A `\u` escape behind its letter, with the low surrogate a high one needs. -/
def scanUnicode (input : Bytes) : Option (Bytes × Bytes) :=
  match getCodepoint input with
  | none => none
  | some (codepoint1, rest) =>
      if 0xD800 ≤ codepoint1 ∧ codepoint1 ≤ 0xDBFF then
        match rest with
        | 92 :: 117 :: rest =>
            match getCodepoint rest with
            | none => none
            | some (codepoint2, rest) =>
                if 0xDC00 ≤ codepoint2 ∧ codepoint2 ≤ 0xDFFF then
                  some (codepointBytes (codepoint1 <<< 10 + codepoint2 - 0x35FDC00), rest)
                else none
        | _ => none
      else if 0xDC00 ≤ codepoint1 ∧ codepoint1 ≤ 0xDFFF then none
      else some (codepointBytes codepoint1, rest)

/-- The character a one-letter escape adds. -/
def simpleEscape (current : UInt8) : Option UInt8 :=
  if current = 34 then some 34
  else if current = 92 then some 92
  else if current = 47 then some 47
  else if current = 98 then some 8
  else if current = 102 then some 12
  else if current = 110 then some 10
  else if current = 114 then some 13
  else if current = 116 then some 9
  else none

/-- An escape behind its backslash: the bytes added and the rest. -/
def scanEscape : Bytes → Option (Bytes × Bytes)
  | [] => none
  | current :: rest =>
      match simpleEscape current with
      | some byte => some ([byte], rest)
      | none => if current = 117 then scanUnicode rest else none

/-- The ranges of the bytes after the first byte of a UTF-8 character. -/
def continuations (current : UInt8) : Option (List (UInt8 × UInt8)) :=
  if current ≤ 0x7F then some []
  else if 0xC2 ≤ current ∧ current ≤ 0xDF then some [(0x80, 0xBF)]
  else if current = 0xE0 then some [(0xA0, 0xBF), (0x80, 0xBF)]
  else if current = 0xED then some [(0x80, 0x9F), (0x80, 0xBF)]
  else if 0xE1 ≤ current ∧ current ≤ 0xEF then some [(0x80, 0xBF), (0x80, 0xBF)]
  else if current = 0xF0 then some [(0x90, 0xBF), (0x80, 0xBF), (0x80, 0xBF)]
  else if 0xF1 ≤ current ∧ current ≤ 0xF3 then some [(0x80, 0xBF), (0x80, 0xBF), (0x80, 0xBF)]
  else if current = 0xF4 then some [(0x80, 0x8F), (0x80, 0xBF), (0x80, 0xBF)]
  else none

/-- The loop of `next_byte_in_range`: one byte for each range. -/
def nextByteInRange : List (UInt8 × UInt8) → Bytes → Option (Bytes × Bytes)
  | [], input => some ([], input)
  | _ :: _, [] => none
  | (low, high) :: ranges, current :: rest =>
      if low ≤ current ∧ current ≤ high then
        (nextByteInRange ranges rest).map fun scanned ↦ (current :: scanned.1, scanned.2)
      else none

/-- One character of a string that is neither a quote nor an escape. -/
def scanCharacter (current : UInt8) (rest : Bytes) : Option (Bytes × Bytes) :=
  if current < 0x20 then none
  else
    match continuations current with
    | some ranges =>
        (nextByteInRange ranges rest).map fun scanned ↦ (current :: scanned.1, scanned.2)
    | none => none

theorem getCodepointFrom_length {factors : List ℕ} {codepoint result : ℕ} {input rest : Bytes}
    (h : getCodepointFrom codepoint factors input = some (result, rest)) :
    rest.length ≤ input.length := by
  induction factors generalizing codepoint input with
  | nil =>
    cases h
    exact le_rfl
  | cons factor factors ih =>
    cases input with
    | nil => cases h
    | cons current input =>
      rw [getCodepointFrom] at h
      split at h
      · exact (ih h).trans (Nat.le_succ _)
      · cases h

theorem scanUnicode_length {input added rest : Bytes} (h : scanUnicode input = some (added, rest)) :
    rest.length ≤ input.length := by
  unfold scanUnicode at h
  split at h
  · cases h
  next codepoint1 behind hfirst =>
  have hlength := getCodepointFrom_length hfirst
  split at h
  · split at h
    · split at h
      · cases h
      next codepoint2 last hsecond =>
      have hlast := getCodepointFrom_length hsecond
      split at h
      · obtain ⟨_, rfl⟩ := Prod.mk.inj (Option.some.inj h)
        simp only [List.length_cons] at hlength
        omega
      · cases h
    · cases h
  split at h
  · cases h
  · obtain ⟨_, rfl⟩ := Prod.mk.inj (Option.some.inj h)
    exact hlength

theorem scanEscape_length {input added rest : Bytes} (h : scanEscape input = some (added, rest)) :
    rest.length < input.length := by
  cases input with
  | nil => cases h
  | cons current input =>
    rw [scanEscape] at h
    split at h
    · cases h
      exact Nat.lt_succ_self _
    split at h
    · exact Nat.lt_succ_of_le (scanUnicode_length h)
    · cases h

theorem nextByteInRange_length {ranges : List (UInt8 × UInt8)} {input added rest : Bytes}
    (h : nextByteInRange ranges input = some (added, rest)) : rest.length ≤ input.length := by
  induction ranges generalizing input added with
  | nil =>
    cases h
    exact le_rfl
  | cons range ranges ih =>
    cases input with
    | nil => cases h
    | cons current input =>
      rw [nextByteInRange] at h
      split at h
      · obtain ⟨scanned, hscanned, heq⟩ := Option.map_eq_some_iff.mp h
        cases heq
        exact (ih hscanned).trans (Nat.le_succ _)
      · cases h

theorem scanCharacter_length {current : UInt8} {input added rest : Bytes}
    (h : scanCharacter current input = some (added, rest)) : rest.length ≤ input.length := by
  unfold scanCharacter at h
  split at h
  · cases h
  split at h
  · obtain ⟨scanned, hscanned, heq⟩ := Option.map_eq_some_iff.mp h
    cases heq
    exact nextByteInRange_length hscanned
  · cases h

/-- The loop of `scan_string`: the contents of the token buffer at the closing quote. -/
def scanStringFrom (tokenBuffer : Bytes) : Bytes → Option (Bytes × Bytes)
  | [] => none
  | current :: rest =>
      if current = 34 then some (tokenBuffer, rest)
      else if current = 92 then
        match _hescape : scanEscape rest with
        | some (added, behind) => scanStringFrom (tokenBuffer ++ added) behind
        | none => none
      else
        match _hcharacter : scanCharacter current rest with
        | some (added, behind) => scanStringFrom (tokenBuffer ++ added) behind
        | none => none
termination_by input => input.length
decreasing_by
  · exact (scanEscape_length _hescape).trans (Nat.lt_succ_self _)
  · exact Nat.lt_succ_of_le (scanCharacter_length _hcharacter)

/-- `scan_string`, behind the opening quote. -/
def scanString (input : Bytes) : Option (Bytes × Bytes) := scanStringFrom [] input

/-! ## Numbers -/

/-- The token type a numeral is on the way to. -/
inductive NumberType where
  | unsigned
  | integer
  | float
deriving DecidableEq

/-- The labels of `scan_number`. -/
inductive Label where
  | init
  | minus
  | zero
  | any1
  | decimal1
  | decimal2
  | exponent
  | sign
  | any2
deriving DecidableEq

/-- A byte's jump; a `default` branch has none. -/
def Label.next (label : Label) (current : UInt8) : Option Label :=
  match label with
  | .init =>
      if current = 45 then some .minus
      else if current = 48 then some .zero
      else if isDigit current then some .any1
      else none
  | .minus =>
      if current = 48 then some .zero else if isDigit current then some .any1 else none
  | .zero =>
      if current = 46 then some .decimal1
      else if current = 101 ∨ current = 69 then some .exponent
      else none
  | .any1 =>
      if isDigit current then some .any1
      else if current = 46 then some .decimal1
      else if current = 101 ∨ current = 69 then some .exponent
      else none
  | .decimal1 => if isDigit current then some .decimal2 else none
  | .decimal2 =>
      if isDigit current then some .decimal2
      else if current = 101 ∨ current = 69 then some .exponent
      else none
  | .exponent =>
      if current = 43 ∨ current = 45 then some .sign
      else if isDigit current then some .any2
      else none
  | .sign => if isDigit current then some .any2 else none
  | .any2 => if isDigit current then some .any2 else none

/-- The labels whose `default` branch is done; the others report an error. -/
def Label.done : Label → Bool
  | .zero | .any1 | .decimal2 | .any2 => true
  | .init | .minus | .decimal1 | .exponent | .sign => false

/-- What a label does to `number_type`. -/
def Label.numberType : Label → NumberType → NumberType
  | .minus, _ => .integer
  | .decimal1, _ | .exponent, _ => .float
  | _, type => type

/-- A jump together with its effect on `number_type`. -/
def numberNext (state : Label × NumberType) (current : UInt8) : Option (Label × NumberType) :=
  (state.1.next current).map fun label ↦ (label, label.numberType state.2)

/-- `std::strtoull` on digits. -/
def strtoull (tokenBuffer : Bytes) : ℕ := digitsValue tokenBuffer

/-- `std::strtoll` on digits behind an optional sign. -/
def strtoll : Bytes → ℤ
  | 45 :: digits => -digitsValue digits
  | digits => digitsValue digits

/-- The token of a numeral: an integer that does not fit falls back to a double. -/
def numberToken (strtod : Bytes → Double) (type : NumberType) (tokenBuffer : Bytes) : Token :=
  match type with
  | .unsigned =>
      if strtoull tokenBuffer < 2 ^ 64 then .valueUnsigned (strtoull tokenBuffer)
      else .valueFloat (strtod tokenBuffer)
  | .integer =>
      if -2 ^ 63 ≤ strtoll tokenBuffer ∧ strtoll tokenBuffer < 2 ^ 63 then
        .valueInteger (strtoll tokenBuffer)
      else .valueFloat (strtod tokenBuffer)
  | .float => .valueFloat (strtod tokenBuffer)

/-- `scan_number`: the byte behind the numeral is put back. -/
def scanNumber (strtod : Bytes → Double) (input : Bytes) : Token × Bytes :=
  match Munch.munch numberNext (.init, .unsigned) input with
  | ((label, type), tokenBuffer, rest) =>
      if label.done then (numberToken strtod type tokenBuffer, rest) else (.parseError, rest)

/-! ## Tokens -/

/-- `scan_literal`, behind the first letter. -/
def scanLiteral (token : Token) : Bytes → Bytes → Token × Bytes
  | [], input => (token, input)
  | _ :: _, [] => (.parseError, [])
  | letter :: literal, current :: rest =>
      if current = letter then scanLiteral token literal rest else (.parseError, rest)

/-- `skip_whitespace`. -/
def skipWhitespace (input : Bytes) : Bytes := input.dropWhile isSpace

/-- The structural characters. -/
def structural (current : UInt8) : Option Token :=
  if current = 91 then some .beginArray
  else if current = 93 then some .endArray
  else if current = 123 then some .beginObject
  else if current = 125 then some .endObject
  else if current = 58 then some .nameSeparator
  else if current = 44 then some .valueSeparator
  else none

/-- The literals: the token a first letter announces, and the letters behind it. -/
def literal (current : UInt8) : Option (Token × Bytes) :=
  if current = 116 then some (.literalTrue, text "rue")
  else if current = 102 then some (.literalFalse, text "alse")
  else if current = 110 then some (.literalNull, text "ull")
  else none

/-- The string behind its opening quote. -/
def stringToken (rest : Bytes) : Token × Bytes :=
  match scanString rest with
  | some (value, rest) => (.valueString value, rest)
  | none => (.parseError, [])

/-- The dispatch of `scan` on the byte behind the whitespace. -/
def scanToken (strtod : Bytes → Double) (current : UInt8) (rest : Bytes) : Token × Bytes :=
  match structural current with
  | some token => (token, rest)
  | none =>
      match literal current with
      | some (token, letters) => scanLiteral token letters rest
      | none =>
          if current = 34 then stringToken rest
          else if current = 45 ∨ isDigit current then scanNumber strtod (current :: rest)
          else if current = 0 then (.endOfInput, rest)
          else (.parseError, rest)

/-- `scan`, once the byte order mark is behind. -/
def scan (strtod : Bytes → Double) (input : Bytes) : Token × Bytes :=
  match skipWhitespace input with
  | [] => (.endOfInput, [])
  | current :: rest => scanToken strtod current rest

theorem scanStringFrom_quote (tokenBuffer rest : Bytes) :
    scanStringFrom tokenBuffer (34 :: rest) = some (tokenBuffer, rest) := by
  rw [scanStringFrom, if_pos rfl]

theorem scanStringFrom_escape (tokenBuffer rest : Bytes) :
    scanStringFrom tokenBuffer (92 :: rest) =
      (scanEscape rest).bind fun scanned ↦ scanStringFrom (tokenBuffer ++ scanned.1) scanned.2 := by
  rw [scanStringFrom, if_neg (by decide), if_pos rfl]
  split
  · next added behind hescape => rw [hescape, Option.bind_some]
  · next hescape => rw [hescape, Option.bind_none]

theorem scanStringFrom_character (tokenBuffer rest : Bytes) {current : UInt8}
    (hquote : current ≠ 34) (hbackslash : current ≠ 92) :
    scanStringFrom tokenBuffer (current :: rest) =
      (scanCharacter current rest).bind fun scanned ↦
        scanStringFrom (tokenBuffer ++ scanned.1) scanned.2 := by
  rw [scanStringFrom, if_neg hquote, if_neg hbackslash]
  split
  · next added behind hcharacter => rw [hcharacter, Option.bind_some]
  · next hcharacter => rw [hcharacter, Option.bind_none]

theorem scanStringFrom_length {tokenBuffer input value rest : Bytes}
    (h : scanStringFrom tokenBuffer input = some (value, rest)) : rest.length < input.length := by
  induction hlength : input.length using Nat.strong_induction_on generalizing tokenBuffer input with
  | _ length ih =>
    cases input with
    | nil =>
      rw [scanStringFrom] at h
      cases h
    | cons current input =>
      rw [List.length_cons] at hlength
      by_cases hquote : current = 34
      · subst hquote
        rw [scanStringFrom_quote] at h
        cases h
        omega
      by_cases hbackslash : current = 92
      · subst hbackslash
        rw [scanStringFrom_escape] at h
        obtain ⟨⟨added, behind⟩, hescape, h⟩ := Option.bind_eq_some_iff.mp h
        have hbehind := scanEscape_length hescape
        have hrest := ih behind.length (by omega) h rfl
        omega
      · rw [scanStringFrom_character _ _ hquote hbackslash] at h
        obtain ⟨⟨added, behind⟩, hcharacter, h⟩ := Option.bind_eq_some_iff.mp h
        have hbehind := scanCharacter_length hcharacter
        have hrest := ih behind.length (by omega) h rfl
        omega

theorem scanLiteral_length {success token : Token} {literal input rest : Bytes}
    (h : scanLiteral success literal input = (token, rest)) : rest.length ≤ input.length := by
  induction literal generalizing input with
  | nil =>
    cases h
    exact le_rfl
  | cons letter literal ih =>
    cases input with
    | nil =>
      cases h
      exact le_rfl
    | cons current input =>
      rw [scanLiteral] at h
      split at h
      · exact (ih h).trans (Nat.le_succ _)
      · cases h
        exact Nat.le_succ _

/-- A numeral has at least one byte. -/
theorem scanNumber_length {strtod : Bytes → Double} {token : Token} {input rest : Bytes}
    (h : scanNumber strtod input = (token, rest)) (htoken : token ≠ .parseError) :
    rest.length < input.length := by
  unfold scanNumber at h
  split at h
  next label type tokenBuffer behind hmunch =>
  obtain ⟨rfl, hrun, _⟩ := Munch.munch_eq_iff.mp hmunch
  split at h
  · next hdone =>
    obtain ⟨_, rfl⟩ := Prod.mk.inj h
    cases tokenBuffer with
    | nil =>
      cases hrun
      cases hdone
    | cons current tokenBuffer =>
      simp only [List.cons_append, List.length_cons, List.length_append]
      omega
  · exact absurd (Prod.mk.inj h).1.symm htoken

theorem scanToken_length {strtod : Bytes → Double} {token : Token} {current : UInt8}
    {input rest : Bytes} (h : scanToken strtod current input = (token, rest))
    (hparse : token ≠ .parseError) : rest.length ≤ input.length := by
  unfold scanToken at h
  split at h
  · cases h
    exact le_rfl
  split at h
  · exact scanLiteral_length h
  split at h
  · unfold stringToken at h
    split at h
    · next value behind hstring =>
      cases h
      exact (scanStringFrom_length hstring).le
    · exact absurd (Prod.mk.inj h).1.symm hparse
  split at h
  · exact Nat.le_of_lt_succ (scanNumber_length h hparse)
  split at h
  · cases h
    exact le_rfl
  · exact absurd (Prod.mk.inj h).1.symm hparse

theorem skipWhitespace_length (input : Bytes) :
    (skipWhitespace input).length ≤ input.length :=
  (List.dropWhile_sublist _).length_le

/-- The last tokens: the parser asks for none after them. -/
def Token.final : Token → Bool
  | .parseError | .endOfInput => true
  | _ => false

/-- A token that is not the last one is read from at least one byte. -/
theorem scan_length {strtod : Bytes → Double} {token : Token} {input rest : Bytes}
    (h : scan strtod input = (token, rest)) (htoken : token.final = false) :
    rest.length < input.length := by
  have hskip := skipWhitespace_length input
  unfold scan at h
  split at h
  · cases h
    cases htoken
  · next current behind hbehind =>
    have hparse : token ≠ .parseError := by
      rintro rfl
      cases htoken
    have hlength := scanToken_length h hparse
    rw [hbehind, List.length_cons] at hskip
    omega

/-- The tokens of an input, up to the last one. -/
def tokens (strtod : Bytes → Double) (input : Bytes) : List Token :=
  match _hscan : scan strtod input with
  | (token, rest) =>
      if _hfinal : token.final = true then [token] else token :: tokens strtod rest
termination_by input.length
decreasing_by exact scan_length _hscan (Bool.eq_false_of_not_eq_true _hfinal)

theorem tokens_of_final {strtod : Bytes → Double} {token : Token} {input rest : Bytes}
    (h : scan strtod input = (token, rest)) (htoken : token.final = true) :
    tokens strtod input = [token] := by
  rw [tokens]
  simp only [h, htoken, dite_true]

theorem tokens_cons {strtod : Bytes → Double} {token : Token} {input rest : Bytes}
    (h : scan strtod input = (token, rest)) (htoken : token.final = false) :
    tokens strtod input = token :: tokens strtod rest := by
  rw [tokens]
  simp only [h, htoken, Bool.false_eq_true, dite_false]

/-- `skip_bom`. -/
def skipBom : Bytes → Option Bytes
  | 0xEF :: 0xBB :: 0xBF :: input => some input
  | 0xEF :: _ => none
  | input => some input

/-- The tokens of a whole text, whose byte order mark `scan` skips first. -/
def lex (strtod : Bytes → Double) (raw : Bytes) : List Token :=
  match skipBom raw with
  | some input => tokens strtod input
  | none => [.parseError]

end NetPixeld.Lexer
