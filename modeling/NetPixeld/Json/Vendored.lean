import NetPixeld.Json.Completeness
import NetPixeld.Json.DumpText
import NetPixeld.Json.Floats

/-!
# The vendored library is lawful

`JsonLib.vendored` is the JSON library with its own parser. What it dumps is a text of the grammar,
in either layout, and the text denotes the document; so parsing undoes dumping, and what is parsed
is well formed. Only the two conversions between doubles and decimal numbers are assumed.
-/

namespace NetPixeld

/-- The library with its parser: `json::parse` is strict, `operator>>` is not. -/
def JsonLib.vendored (floats : Floats) : JsonLib where
  floatText := floats.toChars
  parse := Parser.parse floats.strtod true
  extract := Parser.parse floats.strtod false

namespace Grammar

open Lexer (Token NumberType numberToken strtoull strtoll)

variable {strtod : Bytes → Double}

/-! ## Documents read are well formed -/

theorem float_wellFormed {value : Double} {json : Json}
    (h : scalar (.valueFloat value) = some json) : json.WellFormed := by
  rw [scalar] at h
  split at h
  · next hfinite =>
    cases h
    exact hfinite
  · cases h

theorem scalar_wellFormed {token : Token} {body : Bytes} {json : Json}
    (hspells : Spells strtod token body) (hscalar : scalar token = some json) :
    json.WellFormed := by
  cases hspells with
  | fixed hfixed =>
    simp only [fixedTokens, List.mem_cons, Prod.mk.injEq, List.not_mem_nil, or_false] at hfixed
    rcases hfixed with ⟨rfl, _⟩ | ⟨rfl, _⟩ | ⟨rfl, _⟩ | ⟨rfl, _⟩ | ⟨rfl, _⟩ | ⟨rfl, _⟩ | ⟨rfl, _⟩ |
      ⟨rfl, _⟩ | ⟨rfl, _⟩
    all_goals
      cases hscalar
    all_goals trivial
  | string hcontents =>
    cases hscalar
    exact Utf8.valid_encode _
  | @number type body hnumeral =>
    unfold numberToken at hscalar
    cases type with
    | unsigned =>
      dsimp only at hscalar
      split at hscalar
      · next hlt =>
        cases hscalar
        exact Json.wellFormed_num_of_lt hlt
      · exact float_wellFormed hscalar
    | integer =>
      dsimp only at hscalar
      split at hscalar
      · next hrange =>
        cases hscalar
        exact ⟨hrange.1, by omega⟩
      · exact float_wellFormed hscalar
    | float => exact float_wellFormed hscalar

mutual

theorem value_wellFormed : ∀ {body : Bytes} {json : Json}, Value strtod body json → json.WellFormed
  | _, _, .scalar hspells hscalar => scalar_wellFormed hspells hscalar
  | _, _, .emptyArray _ => trivial
  | _, _, .array helements _ => elements_wellFormed helements
  | _, _, .emptyObject _ => ⟨List.Pairwise.nil, trivial⟩
  | _, _, .object hmembers _ => Json.wellFormed_obj_insertAll (members_wellFormed hmembers)
termination_by structural _ _ h => h

theorem elements_wellFormed : ∀ {body : Bytes} {elements : List Json},
    Elements strtod body elements → Json.WellFormedElements elements
  | _, _, .first _ hbody => ⟨value_wellFormed hbody, trivial⟩
  | _, _, .next hbefore _ _ hbody => by
    have hlist := Json.wellFormedElements_iff.mp (elements_wellFormed hbefore)
    have hlast := value_wellFormed hbody
    refine Json.wellFormedElements_iff.mpr fun element helement ↦ ?_
    rcases List.mem_append.mp helement with helement | helement
    · exact hlist element helement
    · rw [List.mem_singleton.mp helement]
      exact hlast
termination_by structural _ _ h => h

theorem member_wellFormed : ∀ {body : Bytes} {pair : Bytes × Json}, Member strtod body pair →
    Utf8.Valid pair.1 ∧ pair.2.WellFormed
  | _, _, .intro _ _ _ _ hbody => ⟨Utf8.valid_encode _, value_wellFormed hbody⟩
termination_by structural _ _ h => h

theorem members_wellFormed : ∀ {body : Bytes} {pairs : List (Bytes × Json)},
    Members strtod body pairs → Json.WellFormedMembers pairs
  | _, _, .first hbody => by
    have hmember := member_wellFormed hbody
    exact ⟨hmember.1, hmember.2, trivial⟩
  | _, _, .next hbefore _ hbody => by
    have hlist := Json.wellFormedMembers_iff.mp (members_wellFormed hbefore)
    have hlast := member_wellFormed hbody
    refine Json.wellFormedMembers_iff.mpr fun member hmember ↦ ?_
    rcases List.mem_append.mp hmember with hmember | hmember
    · exact hlist member hmember
    · rw [List.mem_singleton.mp hmember]
      exact hlast
termination_by structural _ _ h => h

end

/-! ## Scalars that are dumped -/

theorem whole_decimal (value : ℕ) : Whole (decimal value) := by
  by_cases hzero : value = 0
  · rw [hzero]
    exact .zero
  · have hne : Nat.digits 10 value ≠ [] := Nat.digits_ne_nil_iff_ne_zero.mpr hzero
    have hlast := Nat.getLast_digit_ne_zero 10 hzero
    have hdigits : ∀ digit ∈ decimal value, Lexer.isDigit digit = true :=
      fun _ hdigit ↦ Lexer.isDigit_decimal hdigit
    have hdecimal : decimal value = UInt8.ofNat (48 + (Nat.digits 10 value).getLast hne) ::
        ((Nat.digits 10 value).dropLast.reverse.map fun digit ↦ UInt8.ofNat (48 + digit)) := by
      rw [decimal, if_neg hzero, ← List.map_cons (f := fun digit ↦ UInt8.ofNat (48 + digit)),
        ← List.reverse_concat, List.dropLast_append_getLast]
    rw [hdecimal] at hdigits ⊢
    obtain ⟨hfirst, hrest⟩ := List.forall_mem_cons.mp hdigits
    refine .digits hfirst ?_ hrest
    have hlt : (Nat.digits 10 value).getLast hne < 10 :=
      Nat.digits_lt_base (by decide) (List.getLast_mem hne)
    have hall : ∀ digit < 10, digit ≠ 0 → UInt8.ofNat (48 + digit) ≠ 48 := by decide
    exact hall _ hlt hlast

/-- The digits of a number that is not zero. -/
theorem significant_decimal {value : ℕ} (h : value ≠ 0) : Floats.Significant (decimal value) := by
  have hvalue := Lexer.digitsValue_decimal value
  have hwhole := whole_decimal value
  generalize decimal value = digits at hvalue hwhole
  cases hwhole with
  | zero => exact absurd hvalue.symm h
  | digits hfirst hzero hrest => exact ⟨_, _, rfl, hfirst, hzero, hrest⟩

/-- An integer of 64 bits is read as it was written. -/
theorem value_integer {value : ℤ} (h : (Json.num value).WellFormed) :
    Value strtod (Json.dumpInteger value) (.num value) := by
  obtain ⟨hlow, hhigh⟩ := h
  have hdigits := Lexer.digitsValue_decimal value.natAbs
  have hwhole := whole_decimal value.natAbs
  unfold Json.dumpInteger
  split_ifs with hsign
  · have hnumeral : Numeral .integer (45 :: (decimal value.natAbs ++ [])) :=
      .negative hwhole .none
    rw [List.append_nil] at hnumeral
    have hvalue : strtoll (45 :: decimal value.natAbs) = value := by
      rw [strtoll, hdigits]
      omega
    refine .scalar (.number hnumeral) ?_
    rw [numberToken, hvalue, if_pos ⟨hlow, by omega⟩]
    rfl
  · have hnumeral : Numeral .unsigned (decimal value.natAbs ++ []) := .positive hwhole .none
    rw [List.append_nil] at hnumeral
    refine .scalar (.number hnumeral) ?_
    rw [numberToken, strtoull, hdigits, if_pos (by omega), scalar]
    congr 2
    omega

theorem contents_letter {code : UInt8} {character : Char} {body : Bytes}
    {characters : List Char} (hcode : (code, character.toNat) ∈ escapeLetters)
    (h : Contents body characters) :
    Contents ([92, code] ++ body) (character :: characters) :=
  .escape (.letter hcode) h

/-- A control character without a letter of its own. -/
theorem contents_control {character : Char} {body : Bytes} {characters : List Char}
    (hcontrol : character.toNat ≤ 0x1F) (h : Contents body characters) :
    Contents ([92, 117, 48, 48, hexDigit (character.toNat / 16), hexDigit (character.toNat % 16)] ++
      body) (character :: characters) := by
  have hall : ∀ digit < 16, Lexer.hexDigitValue (hexDigit digit) = some digit := by decide
  have hdigits : Hex4 [48, 48, hexDigit (character.toNat / 16), hexDigit (character.toNat % 16)]
      character.toNat :=
    ⟨_, _, _, _, 0, 0, _, _, rfl, rfl, rfl, hall _ (by omega), hall _ (by omega), by omega⟩
  exact .escape (.unicode hdigits) h

/-- The text of a character is one of its spellings. -/
theorem contents_character {character : Char} {body : Bytes} {characters : List Char}
    (h : Contents body characters) :
    Contents (Json.escapeCharacter character ++ body) (character :: characters) := by
  unfold Json.escapeCharacter
  split
  · next hascii =>
    unfold Json.escape
    split_ifs with h₁ h₂ h₃ h₄ h₅ h₆ h₇ h₈
    iterate 7
      · refine contents_letter ?_ h
        rw [‹character.toNat = _›]
        decide
    · exact contents_control h₈ h
    · rw [← Utf8.encodeChar_ascii hascii]
      exact .plain (by omega) h₆ h₇ h
  · exact .plain (by omega) (by omega) (by omega) h

theorem contents_escaped (characters : List Char) :
    Contents (characters.flatMap Json.escapeCharacter) characters := by
  induction characters with
  | nil => exact .nil
  | cons character characters ih => exact contents_character ih

/-- A string that is dumped is a literal for its characters. -/
theorem contents_dumpString {string dumped : Bytes} (h : Json.dumpString string = .ok dumped) :
    ∃ contents characters, dumped = 34 :: (contents ++ [34]) ∧ Contents contents characters ∧
      string = Utf8.encode characters := by
  obtain ⟨escaped, hescaped, rfl⟩ := map_eq_ok.mp h
  obtain ⟨characters, rfl⟩ := Utf8.encode_of_valid (Json.runFrom_of_dumpEscapedFrom hescaped)
  rw [Json.dumpEscaped_encode] at hescaped
  cases hescaped
  exact ⟨_, characters, rfl, contents_escaped characters, rfl⟩

/-- A finite double is read as it was written. -/
theorem value_float {floats : Floats} (hfloats : floats.Lawful) {value : Double}
    (hfinite : value.isFinite = true) :
    Value floats.strtod (floats.toChars value) (.float value) := by
  refine .scalar (.number (Floats.toChars_numeral hfloats hfinite)) ?_
  rw [numberToken, Floats.strtod_toChars hfloats hfinite]
  exact if_pos hfinite

/-! ## Documents that are dumped -/

theorem space_breakLine (pretty : Bool) (indent : ℕ) : Space (Json.breakLine pretty indent) := by
  unfold Json.breakLine
  split_ifs
  · refine List.forall_mem_cons.mpr ⟨rfl, fun byte hbyte ↦ ?_⟩
    rw [List.eq_of_mem_replicate hbyte]
    rfl
  · exact space_nil

theorem member_dump {pretty : Bool} {indent key name first : Bytes} {value : Json}
    (hindent : Space indent) (hname : Json.dumpString key = .ok name)
    (hfirst : Value strtod first value) :
    Member strtod (indent ++ (name ++ (Json.colon pretty ++ first))) (key, value) := by
  obtain ⟨contents, characters, rfl, hcontents, rfl⟩ := contents_dumpString hname
  have hright : Space (if pretty then [32] else []) := by
    cases pretty
    · exact space_nil
    · exact List.forall_mem_singleton.mpr rfl
  have h := Member.intro hindent hcontents space_nil hright hfirst
  cases pretty <;> simpa [Json.colon] using h

mutual

theorem value_dumpAt {floats : Floats} (hfloats : floats.Lawful) {pretty : Bool} {step : ℕ} :
    ∀ {json : Json} {current : ℕ} {dumped : Bytes}, json.WellFormed →
      json.dumpAt (.vendored floats) pretty step current = .ok dumped →
      Value floats.strtod dumped json
  | .null, _, _, _, h => by
    cases h
    exact .scalar (.fixed (by decide : (Token.literalNull, text "null") ∈ fixedTokens)) rfl
  | .bool true, _, _, _, h => by
    cases h
    exact .scalar (.fixed (by decide : (Token.literalTrue, text "true") ∈ fixedTokens)) rfl
  | .bool false, _, _, _, h => by
    cases h
    exact .scalar (.fixed (by decide : (Token.literalFalse, text "false") ∈ fixedTokens)) rfl
  | .num value, _, _, hjson, h => by
    cases h
    exact value_integer hjson
  | .float value, _, _, hjson, h => by
    cases h
    have hfinite : value.isFinite = true := hjson
    rw [Json.dumpFloat, if_pos hfinite]
    exact value_float hfloats hfinite
  | .str value, _, dumped, _, h => by
    obtain ⟨contents, characters, rfl, hcontents, rfl⟩ := contents_dumpString h
    exact .scalar (.string hcontents) rfl
  | .arr [], _, _, _, h => by
    cases h
    exact .emptyArray space_nil
  | .arr (element :: rest), current, dumped, hjson, h => by
    obtain ⟨first, hfirst, h⟩ := bind_eq_ok.mp h
    obtain ⟨others, hothers, h⟩ := bind_eq_ok.mp h
    cases h
    obtain ⟨helement, hrest⟩ := hjson
    have hvalue := value_dumpAt hfloats helement hfirst
    have hlist := elements_dump hfloats hrest hothers
      (.first (space_breakLine pretty (current + step)) hvalue)
    have harray := Value.array hlist (space_breakLine pretty current)
    simpa using harray
  | .obj [], _, _, _, h => by
    cases h
    exact .emptyObject space_nil
  | .obj ((key, value) :: rest), current, dumped, hjson, h => by
    obtain ⟨name, hname, h⟩ := bind_eq_ok.mp h
    obtain ⟨first, hfirst, h⟩ := bind_eq_ok.mp h
    obtain ⟨others, hothers, h⟩ := bind_eq_ok.mp h
    cases h
    obtain ⟨hsorted, _, hmember, hrest⟩ := hjson
    have hvalue := value_dumpAt hfloats hmember hfirst
    have hfirst := @member_dump _ pretty _ _ _ _ _ (space_breakLine pretty (current + step)) hname
      hvalue
    have hlist := members_dump hfloats hrest hothers (.first hfirst)
    have hobject := Value.object hlist (space_breakLine pretty current)
    rw [List.singleton_append, Items.insertAll_of_sorted hsorted] at hobject
    simpa using hobject
termination_by structural json => json

theorem elements_dump {floats : Floats} (hfloats : floats.Lawful) {pretty : Bool} {step : ℕ} :
    ∀ {elements : List Json} {current : ℕ} {dumped before : Bytes} {listed : List Json},
      Json.WellFormedElements elements →
      Json.dumpElements (.vendored floats) pretty step current elements = .ok dumped →
      Elements floats.strtod before listed →
      Elements floats.strtod (before ++ dumped) (listed ++ elements)
  | [], _, _, _, _, _, h, hbefore => by
    cases h
    simpa using hbefore
  | element :: elements, current, dumped, before, listed, hjson, h, hbefore => by
    obtain ⟨first, hfirst, h⟩ := bind_eq_ok.mp h
    obtain ⟨others, hothers, h⟩ := bind_eq_ok.mp h
    cases h
    obtain ⟨helement, helements⟩ := hjson
    have hnext := Elements.next hbefore space_nil (space_breakLine pretty current)
      (value_dumpAt hfloats helement hfirst)
    have hlist := elements_dump hfloats helements hothers hnext
    simpa using hlist
termination_by structural elements => elements

theorem members_dump {floats : Floats} (hfloats : floats.Lawful) {pretty : Bool} {step : ℕ} :
    ∀ {members : List (Bytes × Json)} {current : ℕ} {dumped before : Bytes}
      {listed : List (Bytes × Json)}, Json.WellFormedMembers members →
      Json.dumpMembers (.vendored floats) pretty step current members = .ok dumped →
      Members floats.strtod before listed →
      Members floats.strtod (before ++ dumped) (listed ++ members)
  | [], _, _, _, _, _, h, hbefore => by
    cases h
    simpa using hbefore
  | (key, value) :: members, current, dumped, before, listed, hjson, h, hbefore => by
    obtain ⟨name, hname, h⟩ := bind_eq_ok.mp h
    obtain ⟨first, hfirst, h⟩ := bind_eq_ok.mp h
    obtain ⟨others, hothers, h⟩ := bind_eq_ok.mp h
    cases h
    obtain ⟨_, hmember, hmembers⟩ := hjson
    have hfirst := @member_dump _ pretty _ _ _ _ _ (space_breakLine pretty current) hname
      (value_dumpAt hfloats hmember hfirst)
    have hnext := Members.next hbefore space_nil hfirst
    have hlist := members_dump hfloats hmembers hothers hnext
    simpa using hlist
termination_by structural members => members

end

end Grammar

namespace JsonLib

open Grammar NetPixeld.Parser

/-- The parser accepts the grammar, and reads what the grammar says. -/
theorem vendored_accepts (floats : Floats) (raw : Bytes) (json : Json) :
    ((vendored floats).parse raw = .ok json ↔
      ∃ rest, Front floats.strtod raw json rest ∧ Blank rest) ∧
    ((vendored floats).extract raw = .ok json ↔ ∃ rest, Front floats.strtod raw json rest) :=
  ⟨parse_strict_iff, parse_front_iff⟩

theorem lawful_of_floats {floats : Floats} (h : floats.Lawful) : (vendored floats).Lawful where
  floatText_printable {value} hfinite := by
    intro byte hbyte
    have hnumeral := not_delimiter_numeral (Floats.toChars_numeral h hfinite) byte hbyte
    by_contra hlow
    have hall : ∀ code : Fin 32, Delimiter (UInt8.ofNat code.val) := by decide
    have hcode : byte.toNat < 32 := UInt8.lt_iff_toNat_lt.mp (not_le.mp hlow)
    have hdelimiter := hall ⟨byte.toNat, hcode⟩
    rw [UInt8.ofNat_toNat] at hdelimiter
    exact hnumeral hdelimiter
  parse_dump {json dumped} hjson hdump := by
    refine parse_strict_iff.mpr ⟨[], ⟨[], [], dumped, by simp, Or.inl rfl, space_nil,
      value_dumpAt h hjson hdump, ?_⟩, [], [], rfl, space_nil, ?_⟩
    · rintro _ ⟨⟩
    · rintro _ ⟨⟩
  extract_dump {json dumped} hjson hdump := by
    refine parse_front_iff.mpr ⟨[newline], [], [], dumped, rfl, Or.inl rfl, space_nil,
      value_dumpAt h hjson hdump, ends_of_delimiter ?_⟩
    rintro _ ⟨⟩
    decide
  parse_wellFormed {raw json} hparse := by
    obtain ⟨_, ⟨_, _, _, _, _, _, hvalue, _⟩, _⟩ := parse_strict_iff.mp hparse
    exact value_wellFormed hvalue
  extract_wellFormed {raw json} hextract := by
    obtain ⟨_, _, _, _, _, _, _, hvalue, _⟩ := parse_front_iff.mp hextract
    exact value_wellFormed hvalue

theorem value_ne_nil {strtod : Bytes → Double} {body : Bytes} {json : Json}
    (h : Value strtod body json) : body ≠ [] := by
  cases h with
  | scalar hspells _ =>
    cases hspells with
    | fixed hfixed =>
      obtain ⟨_, _, rfl, _⟩ := Lexer.fixed_head hfixed
      exact List.cons_ne_nil _ _
    | string _ => exact List.cons_ne_nil _ _
    | number hnumeral =>
      obtain ⟨_, _, rfl, _⟩ := Lexer.numeral_head hnumeral
      exact List.cons_ne_nil _ _
  | emptyArray _ | array _ _ | emptyObject _ | object _ _ => exact List.cons_ne_nil _ _

/-- What was read behind an opening brace is read the same from a longer text. -/
theorem front_append {strtod : Bytes → Double} {text rest : Bytes} {json : Json}
    (h : Front strtod (123 :: text) json rest) (more : Bytes) :
    Front strtod (123 :: text ++ more) json (rest ++ more) := by
  obtain ⟨mark, space, body, htext, hmark, hspace, hvalue, _⟩ := h
  obtain rfl : mark = [] := by
    rcases hmark with rfl | rfl
    · rfl
    · cases htext
  obtain rfl : space = [] := by
    cases space with
    | nil => rfl
    | cons byte space =>
      cases htext
      exact absurd (hspace 123 (List.mem_cons_self ..)) (by decide)
  have hbrace : 123 ∈ body := by
    obtain ⟨first, tail, rfl⟩ := List.exists_cons_of_ne_nil (value_ne_nil hvalue)
    obtain ⟨rfl, _⟩ := List.cons.inj htext
    exact List.mem_cons_self ..
  refine ⟨[], [], body, by rw [htext]; simp, Or.inl rfl, space_nil, hvalue, ?_⟩
  exact ends_of_mem hbrace (by decide)

theorem dump_obj_cons {lib : JsonLib} {members : List (Bytes × Json)} {dumped : Bytes}
    (h : lib.dumpIndent 2 (.obj members) = .ok dumped) : ∃ tail, dumped = 123 :: tail := by
  cases members with
  | nil =>
    cases h
    exact ⟨[125], rfl⟩
  | cons member members =>
    obtain ⟨name, _, h⟩ := bind_eq_ok.mp h
    obtain ⟨first, _, h⟩ := bind_eq_ok.mp h
    obtain ⟨others, _, h⟩ := bind_eq_ok.mp h
    cases h
    exact ⟨_, rfl⟩

/-- A beginning of an object that is read at all is read like the whole object. -/
theorem whole_of_floats {floats : Floats} (h : floats.Lawful) : (vendored floats).Whole := by
  intro members dumped read length hwellFormed hdumped hread
  obtain ⟨rest, hfront⟩ := parse_front_iff.mp hread
  obtain ⟨tail, rfl⟩ := dump_obj_cons hdumped
  have hcomplete : (vendored floats).extract (123 :: tail ++ [newline]) = .ok read := by
    cases length with
    | zero =>
      obtain ⟨mark, space, body, htext, _, _, hvalue, _⟩ := hfront
      simp only [List.take_zero, List.nil_eq, List.append_eq_nil_iff] at htext
      exact absurd htext.2.2.1 (value_ne_nil hvalue)
    | succ length =>
      have hlonger : Front floats.strtod
          (123 :: ((tail ++ [newline]).take length ++ (tail ++ [newline]).drop length)) read _ :=
        front_append hfront _
      rw [List.take_append_drop] at hlonger
      exact parse_front_iff.mpr ⟨_, hlonger⟩
  rw [(lawful_of_floats h).extract_dump hwellFormed hdumped] at hcomplete
  exact (Except.ok.inj hcomplete).symm

/-- The laws of the library, for its own parser and serializer. -/
theorem vendored_lawful {floats : Floats} (h : floats.Lawful) :
    (vendored floats).Lawful ∧ (vendored floats).Whole :=
  ⟨lawful_of_floats h, whole_of_floats h⟩

end JsonLib

end NetPixeld
