import Mathlib.Data.Nat.Digits.Lemmas
import NetPixeld.Json.Lexer

/-!
# Number literals

A numeral is an optional minus sign and a whole number without leading zeros, and it may have a
fraction and an exponent. The automaton of `scan_number` reads such a numeral in full: it stops at
the first byte with which no numeral goes on. The token type it ends with tells the integers from
the numerals with a fraction or an exponent.
-/

namespace NetPixeld.Grammar

open Lexer (NumberType isDigit)

/-- At least one digit. -/
def Digits (digits : Bytes) : Prop := digits ≠ [] ∧ ∀ digit ∈ digits, isDigit digit = true

/-- A whole number without leading zeros. -/
inductive Whole : Bytes → Prop where
  | zero : Whole [48]
  | digits {first : UInt8} {rest : Bytes} : isDigit first = true → first ≠ 48 →
      (∀ digit ∈ rest, isDigit digit = true) → Whole (first :: rest)

/-- A decimal point and digits, or nothing. -/
inductive Fraction : Bytes → Prop where
  | none : Fraction []
  | digits {digits : Bytes} : Digits digits → Fraction (46 :: digits)

/-- The letter of an exponent, a sign or none, and digits; or nothing at all. -/
inductive Exponent : Bytes → Prop where
  | none : Exponent []
  | digits {letter : UInt8} {sign digits : Bytes} : letter = 101 ∨ letter = 69 →
      sign = [] ∨ sign = [43] ∨ sign = [45] → Digits digits → Exponent (letter :: (sign ++ digits))

/-- What may follow the whole number, and what it makes of the type of the numeral. -/
inductive Suffix : NumberType → Bytes → NumberType → Prop where
  | none {type : NumberType} : Suffix type [] type
  | float {type : NumberType} {fraction exponent : Bytes} : Fraction fraction → Exponent exponent →
      fraction ++ exponent ≠ [] → Suffix type (fraction ++ exponent) .float

/-- A numeral and its type. -/
inductive Numeral : NumberType → Bytes → Prop where
  | positive {whole suffix : Bytes} {type : NumberType} : Whole whole →
      Suffix .unsigned suffix type → Numeral type (whole ++ suffix)
  | negative {whole suffix : Bytes} {type : NumberType} : Whole whole →
      Suffix .integer suffix type → Numeral type (45 :: (whole ++ suffix))

/-- No numeral goes on from a text with the first byte of what follows. -/
def Ends (body rest : Bytes) : Prop :=
  ∀ byte ∈ rest.head?, ∀ type more, ¬Numeral type (body ++ byte :: more)

end NetPixeld.Grammar

namespace NetPixeld.Lexer

open Grammar Transition

/-! ## The language of each label -/

/-- A word that leads from a label to one that is done, with the types before and after it. -/
def Reads (label : Label) (type : NumberType) (word : Bytes) (final : NumberType) : Prop :=
  ∃ last : Label, run numberNext (label, type) word = some (last, final) ∧ last.done = true

theorem reads_nil {label : Label} {type final : NumberType} :
    Reads label type [] final ↔ label.done = true ∧ final = type := by
  constructor
  · rintro ⟨last, hrun, hdone⟩
    cases hrun
    exact ⟨hdone, rfl⟩
  · rintro ⟨hdone, rfl⟩
    exact ⟨label, rfl, hdone⟩

theorem reads_cons {label : Label} {type final : NumberType} {byte : UInt8} {word : Bytes} :
    Reads label type (byte :: word) final ↔
      ∃ following, label.next byte = some following ∧
        Reads following (following.numberType type) word final := by
  constructor
  · rintro ⟨last, hrun, hdone⟩
    obtain ⟨state, hnext, hrest⟩ := run_cons_eq_some.mp hrun
    obtain ⟨following, hfollowing, rfl⟩ := Option.map_eq_some_iff.mp hnext
    exact ⟨following, hfollowing, last, hrest, hdone⟩
  · rintro ⟨following, hfollowing, last, hrest, hdone⟩
    refine ⟨last, run_cons_eq_some.mpr ⟨(following, following.numberType type), ?_, hrest⟩, hdone⟩
    exact Option.map_eq_some_iff.mpr ⟨following, hfollowing, rfl⟩

theorem reads_any2 {type final : NumberType} {word : Bytes} :
    Reads .any2 type word final ↔ final = type ∧ ∀ digit ∈ word, isDigit digit = true := by
  induction word with
  | nil => simp [reads_nil, Label.done]
  | cons byte word ih =>
    rw [reads_cons]
    by_cases hdigit : isDigit byte = true
    · simp [Label.next, hdigit, Label.numberType, ih]
    · simp [Label.next, hdigit]

/-- A label that waits for one digit before it behaves like another. -/
theorem reads_digits {label other : Label} (hdone : label.done = false)
    (hnext : ∀ byte, label.next byte = if isDigit byte then some other else none)
    (htype : ∀ type, other.numberType type = type) {type final : NumberType} {word : Bytes} :
    Reads label type word final ↔
      ∃ digit rest, word = digit :: rest ∧ isDigit digit = true ∧ Reads other type rest final := by
  cases word with
  | nil => simp [reads_nil, hdone]
  | cons byte word =>
    rw [reads_cons, hnext]
    by_cases hdigit : isDigit byte = true
    · simp [hdigit, htype]
    · simp [hdigit]

theorem reads_sign {type final : NumberType} {word : Bytes} :
    Reads .sign type word final ↔ final = type ∧ Digits word := by
  rw [reads_digits rfl (fun _ ↦ rfl) fun _ ↦ rfl]
  simp only [reads_any2]
  constructor
  · rintro ⟨digit, rest, rfl, hdigit, hfinal, hrest⟩
    exact ⟨hfinal, List.cons_ne_nil _ _, List.forall_mem_cons.mpr ⟨hdigit, hrest⟩⟩
  · rintro ⟨hfinal, hne, hall⟩
    obtain ⟨digit, rest, rfl⟩ := List.exists_cons_of_ne_nil hne
    obtain ⟨hdigit, hrest⟩ := List.forall_mem_cons.mp hall
    exact ⟨digit, rest, rfl, hdigit, hfinal, hrest⟩

@[simp]
theorem digits_nil : ¬Digits [] := fun h ↦ h.1 rfl

theorem digits_cons {byte : UInt8} {word : Bytes} :
    Digits (byte :: word) ↔ isDigit byte = true ∧ ∀ digit ∈ word, isDigit digit = true := by
  simp [Digits]

theorem exponent_cons {byte : UInt8} {word : Bytes} :
    Exponent (byte :: word) ↔
      (byte = 101 ∨ byte = 69) ∧ ∃ sign digits, word = sign ++ digits ∧
        (sign = [] ∨ sign = [43] ∨ sign = [45]) ∧ Digits digits := by
  constructor
  · rintro ⟨⟩
    next sign digits hsign hdigits hletter => exact ⟨hletter, sign, digits, rfl, hsign, hdigits⟩
  · rintro ⟨hletter, sign, digits, rfl, hsign, hdigits⟩
    exact .digits hletter hsign hdigits

theorem reads_exponent {type final : NumberType} {word : Bytes} :
    Reads .exponent type word final ↔
      final = type ∧ ∃ sign digits, word = sign ++ digits ∧
        (sign = [] ∨ sign = [43] ∨ sign = [45]) ∧ Digits digits := by
  cases word with
  | nil =>
    rw [reads_nil]
    constructor
    · rintro ⟨⟨⟩, _⟩
    · rintro ⟨_, sign, digits, happend, _, hdigits⟩
      exact absurd (List.append_eq_nil_iff.mp happend.symm).2 hdigits.1
  | cons byte word =>
    rw [reads_cons]
    constructor
    · rintro ⟨following, hnext, hreads⟩
      simp only [Label.next] at hnext
      split_ifs at hnext with hsign hdigit
      · cases hnext
        obtain ⟨hfinal, hdigits⟩ := reads_sign.mp hreads
        exact ⟨hfinal, [byte], word, rfl, Or.inr (by simpa using hsign), hdigits⟩
      · cases hnext
        obtain ⟨hfinal, hdigits⟩ := reads_any2.mp hreads
        exact ⟨hfinal, [], byte :: word, rfl, Or.inl rfl, digits_cons.mpr ⟨hdigit, hdigits⟩⟩
    · rintro ⟨rfl, sign, digits, happend, rfl | rfl | rfl, hdigits⟩
      · cases happend
        obtain ⟨hdigit, hrest⟩ := digits_cons.mp hdigits
        refine ⟨.any2, ?_, reads_any2.mpr ⟨rfl, hrest⟩⟩
        have hsign : ¬(byte = 43 ∨ byte = 45) := by
          rintro (rfl | rfl) <;> exact absurd hdigit (by decide)
        rw [Label.next, if_neg hsign, if_pos hdigit]
      · cases happend
        exact ⟨.sign, rfl, reads_sign.mpr ⟨rfl, hdigits⟩⟩
      · cases happend
        exact ⟨.sign, rfl, reads_sign.mpr ⟨rfl, hdigits⟩⟩

theorem reads_decimal2 {final : NumberType} {word : Bytes} :
    Reads .decimal2 .float word final ↔
      final = .float ∧ ∃ digits exponent, word = digits ++ exponent ∧
        (∀ digit ∈ digits, isDigit digit = true) ∧ Exponent exponent := by
  induction word with
  | nil =>
    rw [reads_nil]
    constructor
    · rintro ⟨_, rfl⟩
      exact ⟨rfl, [], [], rfl, by simp, .none⟩
    · rintro ⟨rfl, _⟩
      exact ⟨rfl, rfl⟩
  | cons byte word ih =>
    rw [reads_cons]
    constructor
    · rintro ⟨following, hnext, hreads⟩
      simp only [Label.next] at hnext
      split_ifs at hnext with hdigit hletter
      · cases hnext
        obtain ⟨hfinal, digits, exponent, rfl, hdigits, hexponent⟩ := ih.mp hreads
        exact ⟨hfinal, byte :: digits, exponent, rfl, List.forall_mem_cons.mpr ⟨hdigit, hdigits⟩,
          hexponent⟩
      · cases hnext
        obtain ⟨hfinal, hexponent⟩ := reads_exponent.mp hreads
        exact ⟨hfinal, [], byte :: word, rfl, by simp, exponent_cons.mpr ⟨hletter, hexponent⟩⟩
    · rintro ⟨rfl, digits, exponent, happend, hdigits, hexponent⟩
      cases digits with
      | nil =>
        cases happend
        obtain ⟨hletter, hexponent⟩ := exponent_cons.mp hexponent
        refine ⟨.exponent, ?_, reads_exponent.mpr ⟨rfl, hexponent⟩⟩
        rcases hletter with rfl | rfl <;> rfl
      | cons digit digits =>
        cases happend
        obtain ⟨hdigit, hdigits⟩ := List.forall_mem_cons.mp hdigits
        refine ⟨.decimal2, ?_, ih.mpr ⟨rfl, digits, exponent, rfl, hdigits, hexponent⟩⟩
        rw [Label.next, if_pos hdigit]

theorem reads_decimal1 {final : NumberType} {word : Bytes} :
    Reads .decimal1 .float word final ↔
      final = .float ∧ ∃ digits exponent, word = digits ++ exponent ∧ Digits digits ∧
        Exponent exponent := by
  rw [reads_digits rfl (fun _ ↦ rfl) fun _ ↦ rfl]
  simp only [reads_decimal2]
  constructor
  · rintro ⟨digit, _, rfl, hdigit, hfinal, digits, exponent, rfl, hdigits, hexponent⟩
    exact ⟨hfinal, digit :: digits, exponent, rfl, digits_cons.mpr ⟨hdigit, hdigits⟩, hexponent⟩
  · rintro ⟨hfinal, digits, exponent, rfl, hdigits, hexponent⟩
    obtain ⟨digit, digits, rfl⟩ := List.exists_cons_of_ne_nil hdigits.1
    obtain ⟨hdigit, hdigits⟩ := digits_cons.mp hdigits
    exact ⟨digit, _, rfl, hdigit, hfinal, digits, exponent, rfl, hdigits, hexponent⟩

/-- The two suffixes that are not empty, by their first byte. -/
theorem suffix_cons {type final : NumberType} {byte : UInt8} {word : Bytes} :
    Suffix type (byte :: word) final ↔
      final = .float ∧ (Exponent (byte :: word) ∨
        byte = 46 ∧ ∃ digits exponent, word = digits ++ exponent ∧ Digits digits ∧
          Exponent exponent) := by
  constructor
  · intro h
    generalize hword : byte :: word = suffix at h
    cases h with
    | none => cases hword
    | @float fraction exponent hfraction hexponent _ =>
      refine ⟨rfl, ?_⟩
      cases hfraction with
      | none => exact Or.inl hexponent
      | @digits digits hdigits =>
        cases hword
        exact Or.inr ⟨rfl, digits, exponent, rfl, hdigits, hexponent⟩
  · rintro ⟨rfl, hexponent | ⟨rfl, digits, exponent, rfl, hdigits, hexponent⟩⟩
    · exact .float .none hexponent (List.cons_ne_nil _ _)
    · exact .float (.digits hdigits) hexponent (List.cons_ne_nil _ _)

theorem reads_zero {type final : NumberType} {word : Bytes} :
    Reads .zero type word final ↔ Suffix type word final := by
  cases word with
  | nil =>
    rw [reads_nil]
    constructor
    · rintro ⟨_, rfl⟩
      exact .none
    · intro h
      generalize hword : ([] : Bytes) = suffix at h
      cases h with
      | none => exact ⟨rfl, rfl⟩
      | float _ _ hne => exact absurd hword.symm hne
  | cons byte word =>
    rw [reads_cons, suffix_cons]
    constructor
    · rintro ⟨following, hnext, hreads⟩
      simp only [Label.next] at hnext
      split_ifs at hnext with hpoint hletter
      · cases hnext
        obtain ⟨hfinal, hdecimal⟩ := reads_decimal1.mp hreads
        exact ⟨hfinal, Or.inr ⟨hpoint, hdecimal⟩⟩
      · cases hnext
        obtain ⟨hfinal, hexponent⟩ := reads_exponent.mp hreads
        exact ⟨hfinal, Or.inl (exponent_cons.mpr ⟨hletter, hexponent⟩)⟩
    · rintro ⟨rfl, hexponent | ⟨rfl, hdecimal⟩⟩
      · obtain ⟨hletter, hexponent⟩ := exponent_cons.mp hexponent
        refine ⟨.exponent, ?_, reads_exponent.mpr ⟨rfl, hexponent⟩⟩
        rcases hletter with rfl | rfl <;> rfl
      · exact ⟨.decimal1, rfl, reads_decimal1.mpr ⟨rfl, hdecimal⟩⟩

theorem reads_any1 {type final : NumberType} {word : Bytes} :
    Reads .any1 type word final ↔
      ∃ digits suffix, word = digits ++ suffix ∧ (∀ digit ∈ digits, isDigit digit = true) ∧
        Suffix type suffix final := by
  simp only [← reads_zero]
  induction word with
  | nil =>
    constructor
    · intro h
      exact ⟨[], [], rfl, by simp, reads_nil.mpr ⟨rfl, (reads_nil.mp h).2⟩⟩
    · rintro ⟨digits, suffix, happend, _, h⟩
      rw [(List.append_eq_nil_iff.mp happend.symm).2] at h
      exact reads_nil.mpr ⟨rfl, (reads_nil.mp h).2⟩
  | cons byte word ih =>
    rw [reads_cons]
    constructor
    · rintro ⟨following, hnext, hreads⟩
      simp only [Label.next] at hnext
      split at hnext
      · next hdigit =>
        cases hnext
        obtain ⟨digits, suffix, rfl, hdigits, hsuffix⟩ := ih.mp hreads
        exact ⟨byte :: digits, suffix, rfl, List.forall_mem_cons.mpr ⟨hdigit, hdigits⟩, hsuffix⟩
      · exact ⟨[], byte :: word, rfl, by simp, reads_cons.mpr ⟨following, hnext, hreads⟩⟩
    · rintro ⟨digits, suffix, happend, hdigits, hsuffix⟩
      cases digits with
      | nil =>
        cases happend
        obtain ⟨following, hnext, hreads⟩ := reads_cons.mp hsuffix
        refine ⟨following, ?_, hreads⟩
        have hdigit : ¬isDigit byte = true := by
          intro hdigit
          simp only [Label.next] at hnext
          split_ifs at hnext with hpoint hletter
          · subst hpoint
            exact absurd hdigit (by decide)
          · rcases hletter with rfl | rfl <;> exact absurd hdigit (by decide)
        rw [Label.next, if_neg hdigit]
        exact hnext
      | cons digit digits =>
        cases happend
        obtain ⟨hdigit, hdigits⟩ := List.forall_mem_cons.mp hdigits
        refine ⟨.any1, ?_, ih.mpr ⟨digits, suffix, rfl, hdigits, hsuffix⟩⟩
        rw [Label.next, if_pos hdigit]

theorem whole_ne_nil {whole : Bytes} (h : Whole whole) : whole ≠ [] := by
  cases h <;> exact List.cons_ne_nil _ _

/-- A whole number starts with a digit. -/
theorem whole_head {whole : Bytes} (h : Whole whole) :
    ∃ first rest, whole = first :: rest ∧ isDigit first = true := by
  cases h with
  | zero => exact ⟨48, [], rfl, rfl⟩
  | digits hdigit _ _ => exact ⟨_, _, rfl, hdigit⟩

theorem reads_minus {type final : NumberType} {word : Bytes} :
    Reads .minus type word final ↔
      ∃ whole suffix, word = whole ++ suffix ∧ Whole whole ∧ Suffix type suffix final := by
  cases word with
  | nil =>
    rw [reads_nil]
    constructor
    · rintro ⟨⟨⟩, _⟩
    · rintro ⟨whole, suffix, happend, hwhole, _⟩
      exact absurd (List.append_eq_nil_iff.mp happend.symm).1 (whole_ne_nil hwhole)
  | cons byte word =>
    rw [reads_cons]
    constructor
    · rintro ⟨following, hfollowing, hreads⟩
      simp only [Label.next] at hfollowing
      split_ifs at hfollowing with hzero hdigit
      · cases hfollowing
        subst hzero
        exact ⟨[48], word, rfl, .zero, reads_zero.mp hreads⟩
      · cases hfollowing
        obtain ⟨digits, suffix, rfl, hdigits, hsuffix⟩ := reads_any1.mp hreads
        exact ⟨byte :: digits, suffix, rfl, .digits hdigit hzero hdigits, hsuffix⟩
    · rintro ⟨whole, suffix, happend, hwhole, hsuffix⟩
      cases hwhole with
      | zero =>
        cases happend
        exact ⟨.zero, rfl, reads_zero.mpr hsuffix⟩
      | digits hdigit hzero hdigits =>
        cases happend
        refine ⟨.any1, ?_, reads_any1.mpr ⟨_, suffix, rfl, hdigits, hsuffix⟩⟩
        rw [Label.next, if_neg hzero, if_pos hdigit]

/-- Without a sign, the first byte is treated as behind one. -/
theorem reads_init_of_ne {type final : NumberType} {byte : UInt8} (hbyte : byte ≠ 45)
    {word : Bytes} :
    Reads .init type (byte :: word) final ↔ Reads .minus type (byte :: word) final := by
  have hnext : Label.init.next byte = Label.minus.next byte := by
    rw [Label.next, if_neg hbyte]
    rfl
  rw [reads_cons, reads_cons, hnext]

/-- The automaton accepts exactly the numerals, each with its type. -/
theorem reads_init {final : NumberType} {word : Bytes} :
    Reads .init .unsigned word final ↔ Numeral final word := by
  constructor
  · intro h
    cases word with
    | nil => cases (reads_nil.mp h).1
    | cons byte word =>
      by_cases hbyte : byte = 45
      · subst hbyte
        obtain ⟨following, hfollowing, hreads⟩ := reads_cons.mp h
        cases hfollowing
        obtain ⟨whole, suffix, rfl, hwhole, hsuffix⟩ := reads_minus.mp hreads
        exact .negative hwhole hsuffix
      · obtain ⟨whole, suffix, happend, hwhole, hsuffix⟩ :=
          reads_minus.mp ((reads_init_of_ne hbyte).mp h)
        rw [happend]
        exact .positive hwhole hsuffix
  · intro h
    cases h with
    | @positive whole suffix _ hwhole hsuffix =>
      obtain ⟨first, rest, rfl, hfirst⟩ := whole_head hwhole
      have hbyte : first ≠ 45 := by
        rintro rfl
        exact absurd hfirst (by decide)
      exact (reads_init_of_ne hbyte).mpr (reads_minus.mpr ⟨_, suffix, rfl, hwhole, hsuffix⟩)
    | negative hwhole hsuffix =>
      exact reads_cons.mpr ⟨.minus, rfl, reads_minus.mpr ⟨_, _, rfl, hwhole, hsuffix⟩⟩

/-! ## Scanning a numeral -/

/-- A numeral can be completed from every label. -/
theorem live : Munch.Live numberNext fun state ↦ state.1.done = true := by
  rintro ⟨label, type⟩
  have hread : ∃ word, ∃ final, Reads label type word final := by
    cases label with
    | init => exact ⟨[48], type, reads_cons.mpr ⟨.zero, rfl, reads_nil.mpr ⟨rfl, rfl⟩⟩⟩
    | minus => exact ⟨[48], type, reads_cons.mpr ⟨.zero, rfl, reads_nil.mpr ⟨rfl, rfl⟩⟩⟩
    | decimal1 => exact ⟨[48], type, reads_cons.mpr ⟨.decimal2, rfl, reads_nil.mpr ⟨rfl, rfl⟩⟩⟩
    | exponent => exact ⟨[48], type, reads_cons.mpr ⟨.any2, rfl, reads_nil.mpr ⟨rfl, rfl⟩⟩⟩
    | sign => exact ⟨[48], type, reads_cons.mpr ⟨.any2, rfl, reads_nil.mpr ⟨rfl, rfl⟩⟩⟩
    | zero | any1 | decimal2 | any2 => exact ⟨[], type, reads_nil.mpr ⟨rfl, rfl⟩⟩
  obtain ⟨word, final, last, hrun, hdone⟩ := hread
  exact ⟨word, (last, final), hrun, hdone⟩

theorem accepts_iff {word : Bytes} :
    Munch.Accepts numberNext (fun state ↦ state.1.done = true) (.init, .unsigned) word ↔
      ∃ type, Numeral type word := by
  simp only [← reads_init]
  constructor
  · rintro ⟨⟨last, final⟩, hrun, hdone⟩
    exact ⟨final, last, hrun, hdone⟩
  · rintro ⟨final, last, hrun, hdone⟩
    exact ⟨(last, final), hrun, hdone⟩

theorem complete_iff {tokenBuffer rest : Bytes} :
    Munch.Complete numberNext (fun state ↦ state.1.done = true) (.init, .unsigned) tokenBuffer
      rest ↔ Ends tokenBuffer rest := by
  simp only [Munch.Complete, Ends, accepts_iff, not_exists]
  exact forall₂_congr fun _ _ ↦ forall_comm

theorem numberToken_ne (strtod : Bytes → Double) (type : NumberType) (tokenBuffer : Bytes) :
    (numberToken strtod type tokenBuffer).final = false := by
  unfold numberToken
  cases type with
  | unsigned | integer => split_ifs <;> rfl
  | float => rfl

/-- `scan_number` reads a numeral in full, or reports an error. -/
theorem scanNumber_iff {strtod : Bytes → Double} {input rest : Bytes} {token : Token}
    (htoken : token ≠ .parseError) :
    scanNumber strtod input = (token, rest) ↔
      ∃ type tokenBuffer, input = tokenBuffer ++ rest ∧ Numeral type tokenBuffer ∧
        Ends tokenBuffer rest ∧ token = numberToken strtod type tokenBuffer := by
  constructor
  · intro h
    unfold scanNumber at h
    split at h
    next label type tokenBuffer behind hmunch =>
    split at h
    · next hdone =>
      obtain ⟨rfl, rfl⟩ := Prod.mk.inj h
      obtain ⟨happend, hrun, _, hcomplete⟩ :=
        (Munch.munch_accepting_iff live).mp ⟨hmunch, hdone⟩
      exact ⟨type, tokenBuffer, happend, reads_init.mp ⟨label, hrun, hdone⟩,
        complete_iff.mp hcomplete, rfl⟩
    · exact absurd (Prod.mk.inj h).1.symm htoken
  · rintro ⟨type, tokenBuffer, happend, hnumeral, hends, rfl⟩
    obtain ⟨label, hrun, hdone⟩ := reads_init.mpr hnumeral
    obtain ⟨hmunch, _⟩ := (Munch.munch_accepting_iff live).mpr
      ⟨happend, hrun, hdone, complete_iff.mpr hends⟩
    rw [scanNumber, hmunch]
    exact if_pos hdone

/-! ## Decimal numerals -/

theorem isDigit_decimal {value : ℕ} {byte : UInt8} (h : byte ∈ decimal value) :
    isDigit byte = true := by
  obtain ⟨digit, hdigit, rfl⟩ := decimal_digit h
  have hall : ∀ digit < 10, isDigit (UInt8.ofNat (48 + digit)) = true := by decide
  exact hall digit hdigit

theorem digitsValue_append_singleton (digits : Bytes) (digit : UInt8) :
    digitsValue (digits ++ [digit]) = digitsValue digits * 10 + (digit.toNat - 48) := by
  simp [digitsValue]

theorem digitsValue_digits {digits : List ℕ} (h : ∀ digit ∈ digits, digit < 10) :
    digitsValue (digits.reverse.map fun digit ↦ UInt8.ofNat (48 + digit)) =
      Nat.ofDigits 10 digits := by
  induction digits with
  | nil => rfl
  | cons digit digits ih =>
    have hdigit : digit < 10 := h digit (List.mem_cons_self ..)
    have hvalue : (UInt8.ofNat (48 + digit)).toNat - 48 = digit := by
      have hall : ∀ digit < 10, (UInt8.ofNat (48 + digit)).toNat - 48 = digit := by decide
      exact hall digit hdigit
    rw [List.reverse_cons, List.map_append, List.map_singleton, digitsValue_append_singleton,
      ih fun other hother ↦ h other (List.mem_cons_of_mem _ hother), hvalue, Nat.ofDigits_cons]
    omega

/-- The value of a decimal numeral. -/
theorem digitsValue_decimal (value : ℕ) : digitsValue (decimal value) = value := by
  unfold decimal
  split
  · next hzero => rw [hzero]; rfl
  · rw [digitsValue_digits fun digit hdigit ↦ Nat.digits_lt_base (by decide) hdigit,
      Nat.ofDigits_digits]

end NetPixeld.Lexer
