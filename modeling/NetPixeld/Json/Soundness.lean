import NetPixeld.Json.Parser

/-!
# What the parser accepts

Every state of the parser describes the text read so far: which lists are open, which items they
have and where the next item is to start. One token keeps the description true, so a document the
parser returns was read from the text of a value.
-/

namespace NetPixeld.Parser

open Grammar Lexer

variable {strtod : Bytes → Double}

/-- The text up to where a value under a stack is to start. -/
inductive Within (strtod : Bytes → Double) : List Frame → Bytes → Prop where
  | nil : Within strtod [] []
  | array {stack : List Frame} {before space opened : Bytes} {elements : List Json} :
      Within strtod stack before → Space space → Opened (Elements strtod) opened elements →
      Within strtod (.array elements :: stack) (before ++ (space ++ 91 :: opened))
  | object {stack : List Frame} {before space opened left key right : Bytes}
      {pairs : List (Bytes × Json)} {characters : List Char} :
      Within strtod stack before → Space space → Opened (Members strtod) opened pairs →
      Space left → Contents key characters → Space right →
      Within strtod (.object (Items.insertAll pairs) (Utf8.encode characters) :: stack)
        (before ++ (space ++ 123 :: (opened ++ (left ++ 34 :: (key ++ 34 :: (right ++ [58]))))))

/-- The text a state stands behind, with the rest of the input behind it. -/
inductive Behind (strtod : Bytes → Double) (rest : Bytes) : State → Bytes → Prop where
  | value {stack : List Frame} {before : Bytes} :
      Within strtod stack before → Behind strtod rest (.value stack) before
  | arrayStart {stack : List Frame} {before space : Bytes} :
      Within strtod stack before → Space space →
      Behind strtod rest (.arrayStart stack) (before ++ (space ++ [91]))
  | objectStart {stack : List Frame} {before space : Bytes} :
      Within strtod stack before → Space space →
      Behind strtod rest (.objectStart stack) (before ++ (space ++ [123]))
  | key {stack : List Frame} {before space body left : Bytes} {pairs : List (Bytes × Json)} :
      Within strtod stack before → Space space → Members strtod body pairs → Space left →
      Behind strtod rest (.key (Items.insertAll pairs) stack)
        (before ++ (space ++ 123 :: (body ++ (left ++ [44]))))
  | colon {stack : List Frame} {before space opened left key : Bytes}
      {pairs : List (Bytes × Json)} {characters : List Char} :
      Within strtod stack before → Space space → Opened (Members strtod) opened pairs →
      Space left → Contents key characters →
      Behind strtod rest (.colon (Items.insertAll pairs) (Utf8.encode characters) stack)
        (before ++ (space ++ 123 :: (opened ++ (left ++ 34 :: (key ++ [34])))))
  | arrayNext {stack : List Frame} {before space body : Bytes} {elements : List Json} :
      Within strtod stack before → Space space → Elements strtod body elements →
      Behind strtod rest (.arrayNext elements stack) (before ++ (space ++ 91 :: body))
  | objectNext {stack : List Frame} {before space body : Bytes} {pairs : List (Bytes × Json)} :
      Within strtod stack before → Space space → Members strtod body pairs →
      Behind strtod rest (.objectNext (Items.insertAll pairs) stack)
        (before ++ (space ++ 123 :: body))
  | done {space body : Bytes} {value : Json} : Space space → Value strtod body value →
      Ends body rest → Behind strtod rest (.done value) (space ++ body)

theorem insertAll_append (pairs : List (Bytes × Json)) (key : Bytes) (value : Json) :
    Items.insertAll (pairs ++ [(key, value)]) = Items.insert key value (Items.insertAll pairs) := by
  simp only [Items.insertAll, List.foldl_append, List.foldl_cons, List.foldl_nil]

/-- A complete value goes into the list around it. -/
theorem behind_completed {rest : Bytes} {stack : List Frame} {before space body : Bytes}
    {value : Json} (hwithin : Within strtod stack before) (hspace : Space space)
    (hbody : Value strtod body value) (hends : Ends body rest) :
    Behind strtod rest (completed value stack) (before ++ (space ++ body)) := by
  cases hwithin with
  | nil =>
    rw [List.nil_append]
    exact .done hspace hbody hends
  | array hwithin houter hopened =>
    have h : Behind strtod rest _ _ := .arrayNext hwithin houter (hopened.element hspace hbody)
    simpa only [completed, List.append_assoc, List.cons_append] using h
  | object hwithin houter hopened hleft hkey hright =>
    have hmember := Member.intro hleft hkey hright hspace hbody
    have h : Behind strtod rest _ _ := .objectNext hwithin houter (hopened.member hmember)
    rw [insertAll_append] at h
    simpa only [completed, List.append_assoc, List.cons_append, List.nil_append] using h

theorem numberToken_cases (type : NumberType) (tokenBuffer : Bytes) :
    (∃ value, numberToken strtod type tokenBuffer = .valueUnsigned value) ∨
      (∃ value, numberToken strtod type tokenBuffer = .valueInteger value) ∨
      ∃ value, numberToken strtod type tokenBuffer = .valueFloat value := by
  unfold numberToken
  cases type with
  | unsigned | integer => split_ifs <;> simp
  | float => simp

/-- The tokens with one spelling have no other. -/
theorem spells_unique {token : Token} {body spelling : Bytes} (h : Spells strtod token body)
    (hspelling : (token, spelling) ∈ fixedTokens) : body = spelling := by
  cases h with
  | fixed hfixed =>
    have hall : ∀ left ∈ fixedTokens, ∀ right ∈ fixedTokens, left.1 = right.1 →
        left.2 = right.2 := by
      decide
    exact hall _ hfixed _ hspelling rfl
  | string _ => simp [fixedTokens] at hspelling
  | @number type _ _ =>
    obtain ⟨value, hvalue⟩ | ⟨value, hvalue⟩ | ⟨value, hvalue⟩ := numberToken_cases type body
    all_goals
      rw [hvalue] at hspelling
      simp [fixedTokens] at hspelling

theorem spells_string {value body : Bytes} (h : Spells strtod (.valueString value) body) :
    ∃ contents characters, body = 34 :: (contents ++ [34]) ∧ Contents contents characters ∧
      value = Utf8.encode characters := by
  generalize htoken : Token.valueString value = token at h
  cases h with
  | fixed hfixed =>
    subst htoken
    simp [fixedTokens] at hfixed
  | @string contents characters hcontents =>
    cases htoken
    exact ⟨contents, characters, rfl, hcontents, rfl⟩
  | @number type _ _ =>
    obtain ⟨value, hvalue⟩ | ⟨value, hvalue⟩ | ⟨value, hvalue⟩ := numberToken_cases type body
    all_goals
      rw [hvalue] at htoken
      cases htoken

/-- A value starts with a bracket, a brace or a scalar. -/
theorem startValue_ok {stack : List Frame} {token : Token} {next : State}
    (h : startValue stack token = .ok next) :
    (token = .beginObject ∧ next = .objectStart stack) ∨
      (token = .beginArray ∧ next = .arrayStart stack) ∨
      ∃ value, scalar token = some value ∧ next = completed value stack := by
  cases token with
  | beginObject =>
    cases h
    exact Or.inl ⟨rfl, rfl⟩
  | beginArray =>
    cases h
    exact Or.inr (Or.inl ⟨rfl, rfl⟩)
  | valueFloat value =>
    rw [startValue] at h
    split at h
    · next hfinite =>
      cases h
      exact Or.inr (Or.inr ⟨.float value, if_pos hfinite, rfl⟩)
    · cases h
  | literalTrue | literalFalse | literalNull | valueString _ | valueUnsigned _ | valueInteger _ =>
    cases h
    exact Or.inr (Or.inr ⟨_, rfl, rfl⟩)
  | endArray | endObject | nameSeparator | valueSeparator | parseError | endOfInput => cases h

/-- The first token of a value. -/
theorem behind_startValue {rest : Bytes} {stack : List Frame} {before space body : Bytes}
    {token : Token} {next : State} (hwithin : Within strtod stack before) (hspace : Space space)
    (hspells : Spells strtod token body) (hends : Ends body rest)
    (h : startValue stack token = .ok next) :
    Behind strtod rest next (before ++ (space ++ body)) := by
  rcases startValue_ok h with ⟨rfl, rfl⟩ | ⟨rfl, rfl⟩ | ⟨value, hvalue, rfl⟩
  · obtain rfl := spells_unique hspells (by decide : (Token.beginObject, [123]) ∈ fixedTokens)
    exact .objectStart hwithin hspace
  · obtain rfl := spells_unique hspells (by decide : (Token.beginArray, [91]) ∈ fixedTokens)
    exact .arrayStart hwithin hspace
  · exact behind_completed hwithin hspace (.scalar hspells hvalue) hends

/-- A list whose closing token was read. -/
theorem behind_closed {rest : Bytes} {stack : List Frame} {before space opened inner : Bytes}
    {first last : UInt8} {value : Json} (hwithin : Within strtod stack before)
    (hspace : Space space) (hvalue : Value strtod (first :: (opened ++ (inner ++ [last]))) value)
    (hlast : Delimiter last) :
    Behind strtod rest (completed value stack)
      (before ++ (space ++ first :: opened) ++ (inner ++ [last])) := by
  have hmem : last ∈ first :: (opened ++ (inner ++ [last])) := by simp
  have hnext := behind_completed hwithin hspace hvalue (@ends_of_mem _ rest _ hmem hlast)
  simpa only [List.append_assoc, List.cons_append] using hnext

/-- One token keeps the description of the text read. -/
theorem behind_step {rest' rest : Bytes} {state next : State} {before space body : Bytes}
    {token : Token} (hbehind : Behind strtod rest' state before)
    (hstate : ∀ value, state ≠ .done value) (hspace : Space space)
    (hspells : Spells strtod token body) (hends : Ends body rest)
    (h : step state token = .ok next) : Behind strtod rest next (before ++ (space ++ body)) := by
  cases hbehind with
  | value hwithin => exact behind_startValue hwithin hspace hspells hends h
  | @arrayStart stack before outer hwithin houter =>
    dsimp only [step] at h
    split at h
    · next hclose =>
      cases h
      subst hclose
      obtain rfl := spells_unique hspells (by decide : (Token.endArray, [93]) ∈ fixedTokens)
      have hvalue : Value strtod (91 :: ([] ++ (space ++ [93]))) (.arr []) := .emptyArray hspace
      exact behind_closed hwithin houter hvalue (by decide)
    · have hopened : Within strtod (.array [] :: stack) (before ++ (outer ++ 91 :: [])) :=
        .array hwithin houter .nil
      exact behind_startValue hopened hspace hspells hends h
  | @objectStart stack before outer hwithin houter =>
    dsimp only [step] at h
    split at h
    · cases h
      obtain rfl := spells_unique hspells (by decide : (Token.endObject, [125]) ∈ fixedTokens)
      have hvalue : Value strtod (123 :: ([] ++ (space ++ [125]))) (.obj []) := .emptyObject hspace
      exact behind_closed hwithin houter hvalue (by decide)
    · cases h
      obtain ⟨contents, characters, rfl, hcontents, rfl⟩ := spells_string hspells
      have hnext : Behind strtod rest _ _ := .colon hwithin houter .nil hspace hcontents
      simp only [List.append_assoc, List.cons_append, List.nil_append] at hnext ⊢
      exact hnext
    · cases h
  | key hwithin houter hmembers hleft =>
    dsimp only [step] at h
    split at h
    · cases h
      obtain ⟨contents, characters, rfl, hcontents, rfl⟩ := spells_string hspells
      have hnext : Behind strtod rest _ _ :=
        .colon hwithin houter (.next hmembers hleft) hspace hcontents
      simpa using hnext
    · cases h
  | colon hwithin houter hopened hleft hkey =>
    dsimp only [step] at h
    split at h
    · cases h
      obtain rfl := spells_unique hspells (by decide : (Token.nameSeparator, [58]) ∈ fixedTokens)
      have hnext : Behind strtod rest _ _ :=
        .value (.object hwithin houter hopened hleft hkey hspace)
      simpa using hnext
    · cases h
  | arrayNext hwithin houter helements =>
    dsimp only [step] at h
    split at h
    · cases h
      obtain rfl := spells_unique hspells (by decide : (Token.valueSeparator, [44]) ∈ fixedTokens)
      have hnext : Behind strtod rest _ _ := .value (.array hwithin houter (.next helements hspace))
      simpa using hnext
    · cases h
      obtain rfl := spells_unique hspells (by decide : (Token.endArray, [93]) ∈ fixedTokens)
      exact behind_closed hwithin houter (.array helements hspace) (by decide)
    · cases h
  | objectNext hwithin houter hmembers =>
    dsimp only [step] at h
    split at h
    · cases h
      obtain rfl := spells_unique hspells (by decide : (Token.valueSeparator, [44]) ∈ fixedTokens)
      have hnext : Behind strtod rest _ _ := .key hwithin houter hmembers hspace
      simpa using hnext
    · cases h
      obtain rfl := spells_unique hspells (by decide : (Token.endObject, [125]) ∈ fixedTokens)
      exact behind_closed hwithin houter (.object hmembers hspace) (by decide)
    · cases h
  | done _ _ _ => exact absurd rfl (hstate _)

/-- A run that returns a document has read the text of a value. -/
theorem behind_run {tokens : List Token} {state : State} {before input : Bytes} {value : Json}
    {others : List Token} (hbehind : Behind strtod input state before)
    (htokens : tokens = Lexer.tokens strtod input) (h : run state tokens = .ok (value, others)) :
    ∃ body rest, input = body ++ rest ∧ Behind strtod rest (.done value) (before ++ body) ∧
      others = Lexer.tokens strtod rest := by
  induction tokens generalizing state before input with
  | nil =>
    by_cases hstate : ∀ value, state ≠ .done value
    · rw [run_nil hstate] at h
      cases h
    · push Not at hstate
      obtain ⟨_, rfl⟩ := hstate
      cases h
      exact ⟨[], input, rfl, by rwa [List.append_nil], htokens⟩
  | cons token tokens ih =>
    by_cases hstate : ∀ value, state ≠ .done value
    · rw [run_cons hstate] at h
      obtain ⟨next, hnext, hrun⟩ := bind_eq_ok.mp h
      have htoken : token.final = false := by
        by_contra hfinal
        rw [step_final hstate (Bool.eq_true_of_not_eq_false hfinal)] at hnext
        cases hnext
      obtain ⟨space, body, rest, rfl, hspace, hspells, hends, hothers⟩ :=
        spells_of_tokens htokens.symm htoken
      obtain ⟨more, rest, rfl, hdone, hlast⟩ :=
        ih (behind_step hbehind hstate hspace hspells hends hnext) hothers hrun
      refine ⟨space ++ (body ++ more), rest, ?_, ?_, hlast⟩
      · simp only [List.append_assoc]
      · simpa only [List.append_assoc] using hdone
    · push Not at hstate
      obtain ⟨_, rfl⟩ := hstate
      cases h
      exact ⟨[], input, rfl, by rwa [List.append_nil], htokens⟩

/-- What the parser returns was read from the text of a value. -/
theorem value_of_run {input : Bytes} {value : Json} {others : List Token}
    (h : run (.value []) (Lexer.tokens strtod input) = .ok (value, others)) :
    ∃ space body rest, input = space ++ (body ++ rest) ∧ Space space ∧
      Value strtod body value ∧ Ends body rest ∧ others = Lexer.tokens strtod rest := by
  obtain ⟨read, rest, rfl, hdone, hothers⟩ := behind_run (.value .nil) rfl h
  rw [List.nil_append] at hdone
  cases hdone with
  | @done space body _ hspace hbody hends =>
    exact ⟨space, body, rest, List.append_assoc _ _ _, hspace, hbody, hends, hothers⟩

end NetPixeld.Parser
