import NetPixeld.Json.Dump

/-!
# The text a dump produces

Compact text contains no control character at all: the layout characters and numbers are printable
and strings are escaped. This is what makes a newline a safe message delimiter. A well-formed
document can always be dumped.
-/

namespace NetPixeld

/-- No control character occurs. -/
def Printable (bytes : Bytes) : Prop := ∀ byte ∈ bytes, 0x20 ≤ byte

namespace Printable

theorem nil : Printable [] := by
  intro byte hbyte
  cases hbyte

theorem cons {byte : UInt8} {rest : Bytes} (hbyte : 0x20 ≤ byte) (hrest : Printable rest) :
    Printable (byte :: rest) := by
  intro other hother
  rcases List.mem_cons.mp hother with rfl | hother
  · exact hbyte
  · exact hrest other hother

theorem append {left right : Bytes} (hleft : Printable left) (hright : Printable right) :
    Printable (left ++ right) := by
  intro byte hbyte
  rcases List.mem_append.mp hbyte with hbyte | hbyte
  · exact hleft byte hbyte
  · exact hright byte hbyte

theorem newline_notMem {bytes : Bytes} (h : Printable bytes) : newline ∉ bytes :=
  fun hmem ↦ absurd (h newline hmem) (by decide)

theorem carriageReturn_notMem {bytes : Bytes} (h : Printable bytes) : carriageReturn ∉ bytes :=
  fun hmem ↦ absurd (h carriageReturn hmem) (by decide)

end Printable

instance (bytes : Bytes) : Decidable (Printable bytes) :=
  List.decidableBAll (fun byte ↦ 0x20 ≤ byte) bytes

namespace Json

/-! ## Strings -/

theorem escape_printable {codepoint : ℕ} {byte : UInt8}
    (h : codepoint ≤ 0x1F ∨ 0x20 ≤ byte) : Printable (escape codepoint byte) := by
  unfold escape
  split_ifs with h₁ h₂ h₃ h₄ h₅ h₆ h₇ h₈
  iterate 7 decide
  · have hhigh : 0x20 ≤ hexDigit (codepoint / 16) := (hexDigit_ascii (by omega)).1
    have hlow : 0x20 ≤ hexDigit (codepoint % 16) := (hexDigit_ascii (by omega)).1
    have htail : Printable [hexDigit (codepoint / 16), hexDigit (codepoint % 16)] :=
      .cons hhigh (.cons hlow .nil)
    have hescape : Printable [92, 117, 48, 48] := by decide
    exact hescape.append htail
  · exact .cons (h.resolve_left h₈) .nil

/-- Reading a string through the automaton escapes every control character. -/
theorem dumpEscapedFrom_printable {string escaped : Bytes} {state codepoint : ℕ}
    (hstate : state < 9) (hbound : Utf8.CodepointBound state codepoint)
    (h : dumpEscapedFrom state codepoint string = .ok escaped) : Printable escaped := by
  induction string generalizing state codepoint escaped with
  | nil =>
    simp only [dumpEscapedFrom] at h
    split at h
    · cases h
      exact .nil
    · cases h
  | cons byte rest ih =>
    simp only [dumpEscapedFrom] at h
    split at h
    · cases h
    · next hreject =>
      obtain ⟨tail, htail, hcopy⟩ := bind_eq_ok.mp h
      cases hcopy
      refine .append ?_ (ih (Utf8.nextState_lt hstate byte)
        (Utf8.codepointBound_next hstate hbound byte) htail)
      split
      · next haccept =>
        apply escape_printable
        rcases Utf8.accepted_codepoint hstate hbound haccept with ⟨_, hsame⟩ | ⟨hhigh, _⟩
        · rcases lt_or_ge byte 0x20 with hlow | hlow
          · left
            rw [hsame]
            exact Nat.le_of_lt_succ hlow
          · exact Or.inr hlow
        · exact Or.inr (le_trans (by decide) hhigh)
      · next haccept =>
        have hhigh := Utf8.high_of_inside hstate hreject haccept
        exact .cons (le_trans (by decide) hhigh) .nil

theorem dumpString_printable {string dumped : Bytes} (h : dumpString string = .ok dumped) :
    Printable dumped := by
  obtain ⟨escaped, hescaped, rfl⟩ := map_eq_ok.mp h
  have hprintable := dumpEscapedFrom_printable (by decide) (Utf8.codepointBound_accept 0) hescaped
  exact .append (.cons (by decide) hprintable) (by decide)

/-- Escaping succeeds exactly when the automaton accepts. -/
theorem dumpEscapedFrom_ok {string : Bytes} {state : ℕ} (codepoint : ℕ)
    (h : Utf8.runFrom state string = Utf8.accept) :
    ∃ escaped, dumpEscapedFrom state codepoint string = .ok escaped := by
  induction string generalizing state codepoint with
  | nil => exact ⟨[], if_pos h⟩
  | cons byte rest ih =>
    simp only [Utf8.runFrom] at h
    split at h
    · exact absurd h (by decide)
    · next hreject =>
      obtain ⟨tail, htail⟩ := ih (Utf8.nextCodepoint state codepoint byte) h
      simp only [dumpEscapedFrom, if_neg hreject, htail]
      exact ⟨_, rfl⟩

theorem dumpString_ok {string : Bytes} (h : Utf8.Valid string) :
    ∃ dumped, dumpString string = .ok dumped := by
  obtain ⟨escaped, hescaped⟩ := dumpEscapedFrom_ok 0 h
  exact ⟨_, by rw [dumpString, dumpEscaped, hescaped]; rfl⟩

/-- Only a string the automaton accepts is escaped. -/
theorem runFrom_of_dumpEscapedFrom {string escaped : Bytes} {state codepoint : ℕ}
    (h : dumpEscapedFrom state codepoint string = .ok escaped) :
    Utf8.runFrom state string = Utf8.accept := by
  induction string generalizing state codepoint escaped with
  | nil =>
    simp only [dumpEscapedFrom] at h
    split at h
    · next hstate => exact hstate
    · cases h
  | cons byte rest ih =>
    simp only [dumpEscapedFrom] at h
    split at h
    · cases h
    · next hreject =>
      obtain ⟨tail, htail, _⟩ := bind_eq_ok.mp h
      rw [Utf8.runFrom, if_neg hreject]
      exact ih htail

theorem valid_of_dumpString {string dumped : Bytes} (h : dumpString string = .ok dumped) :
    Utf8.Valid string := by
  obtain ⟨escaped, hescaped, _⟩ := map_eq_ok.mp h
  exact runFrom_of_dumpEscapedFrom hescaped

/-! ## Numbers -/

theorem decimal_printable (value : ℕ) : Printable (decimal value) :=
  fun _ hbyte ↦ (decimal_ascii hbyte).1

theorem dumpInteger_printable (value : ℤ) : Printable (dumpInteger value) := by
  unfold dumpInteger
  split
  · exact .cons (by decide) (decimal_printable _)
  · exact decimal_printable _

theorem dumpFloat_printable {lib : JsonLib} (hlib : lib.Lawful) (value : Double) :
    Printable (dumpFloat lib value) := by
  unfold dumpFloat
  split
  · next hfinite => exact hlib.floatText_printable hfinite
  · decide

/-! ## Documents -/

theorem colon_printable (pretty : Bool) : Printable (colon pretty) := by
  cases pretty <;> decide

theorem breakLine_compact (indent : ℕ) : breakLine false indent = [] := rfl

mutual

/-- Compact text has no control characters. -/
theorem dumpAt_printable {lib : JsonLib} (hlib : lib.Lawful) {step current : ℕ} :
    ∀ {json : Json} {dumped : Bytes}, dumpAt lib false step current json = .ok dumped →
      Printable dumped
  | .null, _, h => by cases h; decide
  | .bool true, _, h => by cases h; decide
  | .bool false, _, h => by cases h; decide
  | .num value, _, h => by cases h; exact dumpInteger_printable value
  | .float value, _, h => by cases h; exact dumpFloat_printable hlib value
  | .str value, _, h => dumpString_printable h
  | .arr [], _, h => by cases h; decide
  | .arr (element :: rest), dumped, h => by
    obtain ⟨first, hfirst, h⟩ := bind_eq_ok.mp h
    obtain ⟨others, hothers, h⟩ := bind_eq_ok.mp h
    cases h
    have hbody : Printable (91 :: first ++ others) :=
      .append (.cons (by decide) (dumpAt_printable hlib hfirst))
        (dumpElements_printable hlib hothers)
    simpa only [breakLine_compact, List.append_nil] using .append hbody (by decide)
  | .obj [], _, h => by cases h; decide
  | .obj ((key, value) :: rest), dumped, h => by
    obtain ⟨name, hname, h⟩ := bind_eq_ok.mp h
    obtain ⟨first, hfirst, h⟩ := bind_eq_ok.mp h
    obtain ⟨others, hothers, h⟩ := bind_eq_ok.mp h
    cases h
    have hbody : Printable (123 :: name ++ colon false ++ first ++ others) :=
      .append (.append (.append (.cons (by decide) (dumpString_printable hname))
        (colon_printable false)) (dumpAt_printable hlib hfirst))
        (dumpMembers_printable hlib hothers)
    simpa only [breakLine_compact, List.append_nil] using .append hbody (by decide)
termination_by structural json => json

theorem dumpElements_printable {lib : JsonLib} (hlib : lib.Lawful) {step current : ℕ} :
    ∀ {elements : List Json} {dumped : Bytes},
      dumpElements lib false step current elements = .ok dumped → Printable dumped
  | [], _, h => by cases h; exact .nil
  | element :: rest, dumped, h => by
    obtain ⟨first, hfirst, h⟩ := bind_eq_ok.mp h
    obtain ⟨others, hothers, h⟩ := bind_eq_ok.mp h
    cases h
    exact .append (.cons (by decide) (dumpAt_printable hlib hfirst))
      (dumpElements_printable hlib hothers)
termination_by structural elements => elements

theorem dumpMembers_printable {lib : JsonLib} (hlib : lib.Lawful) {step current : ℕ} :
    ∀ {members : List (Bytes × Json)} {dumped : Bytes},
      dumpMembers lib false step current members = .ok dumped → Printable dumped
  | [], _, h => by cases h; exact .nil
  | (key, value) :: rest, dumped, h => by
    obtain ⟨name, hname, h⟩ := bind_eq_ok.mp h
    obtain ⟨first, hfirst, h⟩ := bind_eq_ok.mp h
    obtain ⟨others, hothers, h⟩ := bind_eq_ok.mp h
    cases h
    exact .append (.cons (by decide) (.append (.append (dumpString_printable hname)
      (colon_printable false)) (dumpAt_printable hlib hfirst)))
      (dumpMembers_printable hlib hothers)
termination_by structural members => members

end

mutual

/-- A well-formed document can be dumped in every layout. -/
theorem dumpAt_ok (lib : JsonLib) (pretty : Bool) (step current : ℕ) :
    ∀ {json : Json}, json.WellFormed → ∃ dumped, dumpAt lib pretty step current json = .ok dumped
  | .null, _ => ⟨_, rfl⟩
  | .bool true, _ => ⟨_, rfl⟩
  | .bool false, _ => ⟨_, rfl⟩
  | .num _, _ => ⟨_, rfl⟩
  | .float _, _ => ⟨_, rfl⟩
  | .str _, h => dumpString_ok h
  | .arr [], _ => ⟨_, rfl⟩
  | .arr (element :: rest), h => by
    obtain ⟨first, hfirst⟩ := dumpAt_ok lib pretty step (current + step) h.1
    obtain ⟨others, hothers⟩ := dumpElements_ok lib pretty step (current + step) h.2
    exact ⟨_, by rw [dumpAt, hfirst, hothers]; rfl⟩
  | .obj [], _ => ⟨_, rfl⟩
  | .obj ((key, value) :: rest), h => by
    obtain ⟨name, hname⟩ := dumpString_ok h.2.1
    obtain ⟨first, hfirst⟩ := dumpAt_ok lib pretty step (current + step) h.2.2.1
    obtain ⟨others, hothers⟩ := dumpMembers_ok lib pretty step (current + step) h.2.2.2
    exact ⟨_, by rw [dumpAt, hname, hfirst, hothers]; rfl⟩
termination_by structural json => json

theorem dumpElements_ok (lib : JsonLib) (pretty : Bool) (step current : ℕ) :
    ∀ {elements : List Json}, WellFormedElements elements →
      ∃ dumped, dumpElements lib pretty step current elements = .ok dumped
  | [], _ => ⟨_, rfl⟩
  | element :: rest, h => by
    obtain ⟨first, hfirst⟩ := dumpAt_ok lib pretty step current h.1
    obtain ⟨others, hothers⟩ := dumpElements_ok lib pretty step current h.2
    exact ⟨_, by rw [dumpElements, hfirst, hothers]; rfl⟩
termination_by structural elements => elements

theorem dumpMembers_ok (lib : JsonLib) (pretty : Bool) (step current : ℕ) :
    ∀ {members : List (Bytes × Json)}, WellFormedMembers members →
      ∃ dumped, dumpMembers lib pretty step current members = .ok dumped
  | [], _ => ⟨_, rfl⟩
  | (key, value) :: rest, h => by
    obtain ⟨name, hname⟩ := dumpString_ok h.1
    obtain ⟨first, hfirst⟩ := dumpAt_ok lib pretty step current h.2.1
    obtain ⟨others, hothers⟩ := dumpMembers_ok lib pretty step current h.2.2
    exact ⟨_, by rw [dumpMembers, hname, hfirst, hothers]; rfl⟩
termination_by structural members => members

end

/-- A value has a text at some indentation. -/
def Dumpable (lib : JsonLib) (pretty : Bool) (step : ℕ) (json : Json) : Prop :=
  ∃ current dumped, json.dumpAt lib pretty step current = .ok dumped

theorem dumpable_of_dumpMembers {lib : JsonLib} {pretty : Bool} {step current : ℕ}
    {members : List (Bytes × Json)} {dumped : Bytes}
    (h : dumpMembers lib pretty step current members = .ok dumped) :
    ∀ member ∈ members, Utf8.Valid member.1 ∧ member.2.Dumpable lib pretty step := by
  induction members generalizing dumped with
  | nil =>
    intro member hmember
    cases hmember
  | cons head rest ih =>
    obtain ⟨name, hname, h⟩ := bind_eq_ok.mp h
    obtain ⟨first, hfirst, h⟩ := bind_eq_ok.mp h
    obtain ⟨others, hothers, _⟩ := bind_eq_ok.mp h
    intro member hmember
    rcases List.mem_cons.mp hmember with rfl | hmember
    · exact ⟨valid_of_dumpString hname, _, _, hfirst⟩
    · exact ih hothers member hmember

/-- The keys of an object with a text are UTF-8, and its values have texts. -/
theorem dumpable_of_obj {lib : JsonLib} {pretty : Bool} {step : ℕ} {members : List (Bytes × Json)}
    (h : (Json.obj members).Dumpable lib pretty step) :
    ∀ member ∈ members, Utf8.Valid member.1 ∧ member.2.Dumpable lib pretty step := by
  obtain ⟨current, dumped, h⟩ := h
  cases members with
  | nil =>
    intro member hmember
    cases hmember
  | cons head rest =>
    obtain ⟨name, hname, h⟩ := bind_eq_ok.mp h
    obtain ⟨first, hfirst, h⟩ := bind_eq_ok.mp h
    obtain ⟨others, hothers, _⟩ := bind_eq_ok.mp h
    intro member hmember
    rcases List.mem_cons.mp hmember with rfl | hmember
    · exact ⟨valid_of_dumpString hname, _, _, hfirst⟩
    · exact dumpable_of_dumpMembers hothers member hmember

/-- The members an object was built from. -/
theorem dumpable_of_insertAll {lib : JsonLib} {pretty : Bool} {step : ℕ}
    (pairs : List (Bytes × Json)) (hnodup : (pairs.map Prod.fst).Nodup)
    (h : (Json.obj (Items.insertAll pairs)).Dumpable lib pretty step) :
    ∀ member ∈ pairs, Utf8.Valid member.1 ∧ member.2.Dumpable lib pretty step := by
  intro member hmember
  apply dumpable_of_obj h member
  apply Items.mem_of_find
  rw [Items.find_insertAll hnodup]
  exact Items.find_of_mem hnodup hmember

theorem valid_of_dumpable_str {lib : JsonLib} {pretty : Bool} {step : ℕ} {string : Bytes}
    (h : (Json.str string).Dumpable lib pretty step) : Utf8.Valid string := by
  obtain ⟨current, dumped, h⟩ := h
  exact valid_of_dumpString h

end Json

namespace JsonLib

theorem dump_printable {lib : JsonLib} (hlib : lib.Lawful) {json : Json} {dumped : Bytes}
    (h : lib.dump json = .ok dumped) : Printable dumped :=
  Json.dumpAt_printable hlib h

theorem dump_ok (lib : JsonLib) {json : Json} (h : json.WellFormed) :
    ∃ dumped, lib.dump json = .ok dumped :=
  Json.dumpAt_ok lib false 0 0 h

theorem dumpIndent_ok (lib : JsonLib) (indent : ℕ) {json : Json} (h : json.WellFormed) :
    ∃ dumped, lib.dumpIndent indent json = .ok dumped :=
  Json.dumpAt_ok lib true indent 0 h

end JsonLib

end NetPixeld
