import NetPixeld.Json.Soundness

/-!
# Every text of the grammar is parsed

The parser goes over the text of a value in any context: from the state before it to the state with
the value entered. The induction is on the derivation of the text.
-/

namespace NetPixeld.Parser

open Grammar Lexer

variable {strtod : Bytes → Double}

/-- A state in which a value may start under a stack. -/
def Expects (state : State) (stack : List Frame) : Prop :=
  (∀ value, state ≠ .done value) ∧
    ∀ token, token ≠ .endArray → step state token = startValue stack token

theorem expects_value (stack : List Frame) : Expects (.value stack) stack :=
  ⟨by rintro _ ⟨⟩, fun _ _ ↦ rfl⟩

theorem expects_arrayStart (stack : List Frame) :
    Expects (.arrayStart stack) (.array [] :: stack) :=
  ⟨by rintro _ ⟨⟩, fun _ htoken ↦ if_neg htoken⟩

/-- A state in which a member may start, behind the members before it. -/
def ExpectsKey (state : State) (members : List (Bytes × Json)) (stack : List Frame) : Prop :=
  (∀ value, state ≠ .done value) ∧
    ∀ key, step state (.valueString key) = .ok (.colon members key stack)

theorem expectsKey_objectStart (stack : List Frame) : ExpectsKey (.objectStart stack) [] stack :=
  ⟨by rintro _ ⟨⟩, fun _ ↦ rfl⟩

theorem expectsKey_key (members : List (Bytes × Json)) (stack : List Frame) :
    ExpectsKey (.key members stack) members stack :=
  ⟨by rintro _ ⟨⟩, fun _ ↦ rfl⟩

/-- Whitespace changes nothing. -/
theorem tokens_space {space : Bytes} (hspace : Space space) (input : Bytes) :
    tokens strtod (space ++ input) = tokens strtod input := by
  have hscan : scan strtod (space ++ input) = scan strtod input := by
    rw [scan, scan, skipWhitespace_append hspace]
  cases hfirst : scan strtod input with
  | mk token rest =>
    rw [hfirst] at hscan
    cases hfinal : token.final with
    | true => rw [tokens_of_final hscan hfinal, tokens_of_final hfirst hfinal]
    | false => rw [tokens_cons hscan hfinal, tokens_cons hfirst hfinal]

/-- A token with one spelling. -/
theorem tokens_fixed {token : Token} {byte : UInt8} (h : (token, [byte]) ∈ fixedTokens)
    (input : Bytes) : tokens strtod (byte :: input) = token :: tokens strtod input := by
  have hfinal : ∀ entry ∈ fixedTokens, entry.1.final = false := by decide
  exact tokens_spells space_nil (.fixed h) (ends_fixed h) (hfinal _ h)

/-- A key. -/
theorem tokens_string {body : Bytes} {characters : List Char} (h : Contents body characters)
    (rest : Bytes) :
    tokens strtod (34 :: (body ++ 34 :: rest)) =
      .valueString (Utf8.encode characters) :: tokens strtod rest := by
  have hends : Ends (34 :: (body ++ [34])) rest := ends_string
  have hspells : Spells strtod _ _ := .string h
  simpa using tokens_spells space_nil hspells hends rfl

theorem final_of_scalar {token : Token} {json : Json} (h : scalar token = some json) :
    token.final = false ∧ token ≠ .endArray ∧
      ∀ stack, startValue stack token = .ok (completed json stack) := by
  cases token with
  | valueFloat value =>
    rw [scalar] at h
    split at h
    · next hfinite =>
      cases h
      exact ⟨rfl, by rintro ⟨⟩, fun _ ↦ if_pos hfinite⟩
    · cases h
  | literalTrue | literalFalse | literalNull | valueString _ | valueUnsigned _ | valueInteger _ =>
    cases h
    exact ⟨rfl, by rintro ⟨⟩, fun _ ↦ rfl⟩
  | beginArray | beginObject | endArray | endObject | nameSeparator | valueSeparator | parseError
  | endOfInput => cases h

/-- A punctuation token behind whitespace. -/
theorem run_fixed {state next : State} {token : Token} {byte : UInt8} {space : Bytes}
    (hstate : ∀ value, state ≠ .done value) (hspace : Space space)
    (htoken : (token, [byte]) ∈ fixedTokens) (hstep : step state token = .ok next)
    (rest : Bytes) :
    run state (tokens strtod (space ++ byte :: rest)) = run next (tokens strtod rest) := by
  rw [tokens_space hspace, tokens_fixed htoken, run_cons hstate, hstep]
  rfl

/-- The opening token of a list. -/
theorem run_open {state next : State} {stack : List Frame} {token : Token} {byte : UInt8}
    (hstate : Expects state stack) (htoken : (token, [byte]) ∈ fixedTokens)
    (hne : token ≠ .endArray) (hstart : startValue stack token = .ok next) (rest : Bytes) :
    run state (tokens strtod (byte :: rest)) = run next (tokens strtod rest) :=
  run_fixed hstate.1 space_nil htoken ((hstate.2 token hne).trans hstart) rest

mutual

/-- The text of a value, behind which no numeral goes on. -/
theorem run_value : ∀ {body : Bytes} {json : Json}, Value strtod body json →
    ∀ {state : State} {stack : List Frame} {rest : Bytes}, Expects state stack → Ends body rest →
      run state (tokens strtod (body ++ rest)) =
        run (completed json stack) (tokens strtod rest)
  | _, _, .scalar hspells hscalar, state, stack, rest, hstate, hends => by
    obtain ⟨hfinal, htoken, hstart⟩ := final_of_scalar hscalar
    have htokens := tokens_spells space_nil hspells hends hfinal
    rw [List.nil_append] at htokens
    rw [htokens, run_cons hstate.1, hstate.2 _ htoken, hstart]
    rfl
  | _, _, @Value.emptyArray _ space hspace, state, stack, rest, hstate, _ => by
    calc
      _ = run state (tokens strtod (91 :: (space ++ 93 :: rest))) := by simp
      _ = run (.arrayStart stack) (tokens strtod (space ++ 93 :: rest)) :=
        run_open hstate (show (Token.beginArray, [91]) ∈ fixedTokens by decide) (by rintro ⟨⟩) rfl _
      _ = _ := run_fixed (by rintro _ ⟨⟩) hspace
        (show (Token.endArray, [93]) ∈ fixedTokens by decide) rfl rest
  | _, _, @Value.array _ body space elements helements hspace, state, stack, rest, hstate, _ => by
    calc
      _ = run state (tokens strtod (91 :: (body ++ (space ++ 93 :: rest)))) := by simp
      _ = run (.arrayStart stack) (tokens strtod (body ++ (space ++ 93 :: rest))) :=
        run_open hstate (show (Token.beginArray, [91]) ∈ fixedTokens by decide) (by rintro ⟨⟩) rfl _
      _ = run (.arrayNext elements stack) (tokens strtod (space ++ 93 :: rest)) :=
        run_elements helements (head_space hspace (by decide))
      _ = _ := run_fixed (by rintro _ ⟨⟩) hspace
        (show (Token.endArray, [93]) ∈ fixedTokens by decide) rfl rest
  | _, _, @Value.emptyObject _ space hspace, state, stack, rest, hstate, _ => by
    calc
      _ = run state (tokens strtod (123 :: (space ++ 125 :: rest))) := by simp
      _ = run (.objectStart stack) (tokens strtod (space ++ 125 :: rest)) :=
        run_open hstate
          (show (Token.beginObject, [123]) ∈ fixedTokens by decide) (by rintro ⟨⟩) rfl _
      _ = _ := run_fixed (by rintro _ ⟨⟩) hspace
        (show (Token.endObject, [125]) ∈ fixedTokens by decide) rfl rest
  | _, _, @Value.object _ body space pairs hmembers hspace, state, stack, rest, hstate, _ => by
    calc
      _ = run state (tokens strtod (123 :: (body ++ (space ++ 125 :: rest)))) := by simp
      _ = run (.objectStart stack) (tokens strtod (body ++ (space ++ 125 :: rest))) :=
        run_open hstate
          (show (Token.beginObject, [123]) ∈ fixedTokens by decide) (by rintro ⟨⟩) rfl _
      _ = run (.objectNext (Items.insertAll pairs) stack) (tokens strtod (space ++ 125 :: rest)) :=
        run_members hmembers (head_space hspace (by decide))
      _ = _ := run_fixed (by rintro _ ⟨⟩) hspace
        (show (Token.endObject, [125]) ∈ fixedTokens by decide) rfl rest
termination_by structural _ _ h => h

/-- The elements of an array. -/
theorem run_elements : ∀ {body : Bytes} {elements : List Json}, Elements strtod body elements →
    ∀ {stack : List Frame} {rest : Bytes}, (∀ byte ∈ rest.head?, Delimiter byte) →
      run (.arrayStart stack) (tokens strtod (body ++ rest)) =
        run (.arrayNext elements stack) (tokens strtod rest)
  | _, _, .first hspace hbody, stack, rest, hrest => by
    rw [List.append_assoc, tokens_space hspace]
    exact run_value hbody (expects_arrayStart stack) (ends_of_delimiter hrest)
  | _, _, @Elements.next _ before left right body elements element hbefore hleft hright hbody,
      stack, rest, hrest => by
    calc
      _ = run (.arrayStart stack)
          (tokens strtod (before ++ (left ++ 44 :: (right ++ (body ++ rest))))) := by simp
      _ = run (.arrayNext elements stack)
          (tokens strtod (left ++ 44 :: (right ++ (body ++ rest)))) :=
        run_elements hbefore (head_space hleft (by decide))
      _ = run (.value (.array elements :: stack)) (tokens strtod (right ++ (body ++ rest))) :=
        run_fixed (by rintro _ ⟨⟩) hleft
          (show (Token.valueSeparator, [44]) ∈ fixedTokens by decide) rfl _
      _ = run (.value (.array elements :: stack)) (tokens strtod (body ++ rest)) := by
        rw [tokens_space hright]
      _ = _ := run_value hbody (expects_value _) (ends_of_delimiter hrest)
termination_by structural _ _ h => h

/-- A member of an object. -/
theorem run_member : ∀ {body : Bytes} {pair : Bytes × Json}, Member strtod body pair →
    ∀ {state : State} {members : List (Bytes × Json)} {stack : List Frame} {rest : Bytes},
      ExpectsKey state members stack → (∀ byte ∈ rest.head?, Delimiter byte) →
      run state (tokens strtod (body ++ rest)) =
        run (.objectNext (Items.insert pair.1 pair.2 members) stack) (tokens strtod rest)
  | _, _, @Member.intro _ before key left right body characters value hbefore hkey hleft hright
      hbody, state, members, stack, rest, hstate, hrest => by
    calc
      _ = run state (tokens strtod
          (34 :: (key ++ 34 :: (left ++ 58 :: (right ++ (body ++ rest)))))) := by
        rw [List.append_assoc, tokens_space hbefore]
        simp
      _ = run (.colon members (Utf8.encode characters) stack)
          (tokens strtod (left ++ 58 :: (right ++ (body ++ rest)))) := by
        rw [tokens_string hkey, run_cons hstate.1, hstate.2]
        rfl
      _ = run (.value (.object members (Utf8.encode characters) :: stack))
          (tokens strtod (right ++ (body ++ rest))) :=
        run_fixed (by rintro _ ⟨⟩) hleft
          (show (Token.nameSeparator, [58]) ∈ fixedTokens by decide) rfl _
      _ = run (.value (.object members (Utf8.encode characters) :: stack))
          (tokens strtod (body ++ rest)) := by
        rw [tokens_space hright]
      _ = _ := run_value hbody (expects_value _) (ends_of_delimiter hrest)
termination_by structural _ _ h => h

/-- The members of an object. -/
theorem run_members : ∀ {body : Bytes} {pairs : List (Bytes × Json)}, Members strtod body pairs →
    ∀ {stack : List Frame} {rest : Bytes}, (∀ byte ∈ rest.head?, Delimiter byte) →
      run (.objectStart stack) (tokens strtod (body ++ rest)) =
        run (.objectNext (Items.insertAll pairs) stack) (tokens strtod rest)
  | _, _, .first hbody, stack, _, hrest => run_member hbody (expectsKey_objectStart stack) hrest
  | _, _, @Members.next _ before left body pairs pair hbefore hleft hbody, stack, rest, hrest => by
    calc
      _ = run (.objectStart stack)
          (tokens strtod (before ++ (left ++ 44 :: (body ++ rest)))) := by simp
      _ = run (.objectNext (Items.insertAll pairs) stack)
          (tokens strtod (left ++ 44 :: (body ++ rest))) :=
        run_members hbefore (head_space hleft (by decide))
      _ = run (.key (Items.insertAll pairs) stack) (tokens strtod (body ++ rest)) :=
        run_fixed (by rintro _ ⟨⟩) hleft
          (show (Token.valueSeparator, [44]) ∈ fixedTokens by decide) rfl _
      _ = run (.objectNext (Items.insert pair.1 pair.2 (Items.insertAll pairs)) stack)
          (tokens strtod rest) := run_member hbody (expectsKey_key _ stack) hrest
      _ = _ := by rw [← insertAll_append]
termination_by structural _ _ h => h

end

/-! ## Whole texts -/

/-- `skip_bom` skips a complete mark and refuses a part of one. -/
theorem skipBom_eq_some {raw input : Bytes} :
    skipBom raw = some input ↔
      (raw = input ∧ raw.head? ≠ some 0xEF) ∨ raw = 0xEF :: 0xBB :: 0xBF :: input := by
  unfold skipBom
  split
  · simp
  · next behind hne =>
    constructor
    · rintro ⟨⟩
    · rintro (⟨_, hhead⟩ | heq)
      · exact absurd rfl hhead
      · exact absurd (List.cons.inj heq).2 (hne input)
  · next hmark hpart =>
    constructor
    · rintro ⟨⟩
      refine Or.inl ⟨rfl, fun hhead ↦ ?_⟩
      obtain ⟨rest, rfl⟩ := List.head?_eq_some_iff.mp hhead
      exact hpart rest rfl
    · rintro (⟨rfl, _⟩ | rfl)
      · rfl
      · exact absurd rfl (hmark input)

/-- No value starts with the first byte of the mark. -/
theorem run_bom (input : Bytes) :
    run (.value []) (tokens strtod (0xEF :: input)) = .error .parseError := by
  have hscan : scan strtod (0xEF :: input) = (.parseError, input) := rfl
  rw [tokens_of_final hscan rfl]
  rfl

end NetPixeld.Parser

namespace NetPixeld.Grammar

/-- A byte order mark, or none. -/
def Mark (bytes : Bytes) : Prop := bytes = [] ∨ bytes = [0xEF, 0xBB, 0xBF]

/-- The front of an input is the text of a value, which does not go on in the rest. -/
def Front (strtod : Bytes → Double) (raw : Bytes) (json : Json) (rest : Bytes) : Prop :=
  ∃ mark space body, raw = mark ++ (space ++ (body ++ rest)) ∧ Mark mark ∧ Space space ∧
    Value strtod body json ∧ Ends body rest

/-- Nothing but whitespace, in fact or up to a NUL byte. -/
def Blank (rest : Bytes) : Prop :=
  ∃ space behind, rest = space ++ behind ∧ Space space ∧ ∀ byte ∈ behind.head?, byte = 0

end NetPixeld.Grammar

namespace NetPixeld.Parser

open Grammar Lexer

variable {strtod : Bytes → Double}

/-- The loop of the parser over a whole input. -/
theorem run_lex_iff {raw : Bytes} {json : Json} {others : List Token} :
    run (.value []) (lex strtod raw) = .ok (json, others) ↔
      ∃ rest, Front strtod raw json rest ∧ others = tokens strtod rest := by
  constructor
  · intro h
    unfold lex at h
    split at h
    · next input hbom =>
      obtain ⟨space, body, rest, rfl, hspace, hbody, hends, hothers⟩ := value_of_run h
      rcases skipBom_eq_some.mp hbom with ⟨rfl, _⟩ | rfl
      · exact ⟨rest, ⟨[], space, body, rfl, Or.inl rfl, hspace, hbody, hends⟩, hothers⟩
      · exact ⟨rest, ⟨[0xEF, 0xBB, 0xBF], space, body, rfl, Or.inr rfl, hspace, hbody, hends⟩,
          hothers⟩
    · cases h
  · rintro ⟨rest, ⟨mark, space, body, rfl, hmark, hspace, hbody, hends⟩, rfl⟩
    have hrun : run (.value []) (tokens strtod (space ++ (body ++ rest))) =
        .ok (json, tokens strtod rest) := by
      rw [tokens_space hspace, run_value hbody (expects_value []) hends, completed, run_done]
    have hbom : skipBom (mark ++ (space ++ (body ++ rest))) = some (space ++ (body ++ rest)) := by
      refine skipBom_eq_some.mpr ?_
      rcases hmark with rfl | rfl
      · refine Or.inl ⟨rfl, fun hhead ↦ ?_⟩
        obtain ⟨behind, heq⟩ := List.head?_eq_some_iff.mp hhead
        rw [List.nil_append] at heq
        rw [heq, run_bom] at hrun
        cases hrun
      · exact Or.inr rfl
    rw [lex, hbom]
    exact hrun

/-- `operator>>` reads a value from the front of its input, and nothing else. -/
theorem parse_front_iff {raw : Bytes} {json : Json} :
    parse strtod false raw = .ok json ↔ ∃ rest, Front strtod raw json rest := by
  constructor
  · intro h
    obtain ⟨⟨value, others⟩, hrun, h⟩ := bind_eq_ok.mp h
    cases h
    obtain ⟨rest, hfront, _⟩ := run_lex_iff.mp hrun
    exact ⟨rest, hfront⟩
  · rintro ⟨rest, hfront⟩
    exact bind_eq_ok.mpr ⟨(json, _), run_lex_iff.mpr ⟨rest, hfront, rfl⟩, rfl⟩

theorem blank_iff {rest : Bytes} :
    (tokens strtod rest).head? = some .endOfInput ↔ Blank rest := by
  constructor
  · intro h
    obtain ⟨others, hothers⟩ := List.head?_eq_some_iff.mp h
    exact end_of_tokens hothers
  · rintro ⟨space, behind, rfl, hspace, hbehind⟩
    rw [tokens_end hspace hbehind]
    rfl

/-- `json::parse` accepts exactly the values with nothing but whitespace around them. -/
theorem parse_strict_iff {raw : Bytes} {json : Json} :
    parse strtod true raw = .ok json ↔ ∃ rest, Front strtod raw json rest ∧ Blank rest := by
  constructor
  · intro h
    obtain ⟨⟨value, others⟩, hrun, h⟩ := bind_eq_ok.mp h
    obtain ⟨rest, hfront, rfl⟩ := run_lex_iff.mp hrun
    dsimp only at h
    split at h
    · cases h
    · next hend =>
      cases h
      refine ⟨rest, hfront, (@blank_iff strtod rest).mp ?_⟩
      by_contra hne
      exact hend ⟨rfl, hne⟩
  · rintro ⟨rest, hfront, hblank⟩
    refine bind_eq_ok.mpr ⟨(json, _), run_lex_iff.mpr ⟨rest, hfront, rfl⟩, ?_⟩
    exact if_neg fun hend ↦ hend.2 (blank_iff.mpr hblank)

end NetPixeld.Parser
