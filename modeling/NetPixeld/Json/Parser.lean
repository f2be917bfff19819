import NetPixeld.Foundation.Exception
import NetPixeld.Json.Grammar

/-!
# The parser of the JSON library

`sax_parse_internal` is a loop with an explicit stack of the arrays and objects it is inside of, and
`json_sax_dom_parser` builds the document as it goes. Every call of `get_token` is one state here,
with the list under construction in the state and those around it on the stack, so a state never
disagrees with its stack. A value that is complete is entered into the list around it.
-/

namespace NetPixeld.Parser

open Lexer (Token lex)

/-- A list under construction around the current value; a member's value is entered at its key. -/
inductive Frame where
  | array (elements : List Json)
  | object (members : List (Bytes × Json)) (key : Bytes)

/-- What the next token is read for. -/
inductive State where
  /-- A value. -/
  | value (stack : List Frame)
  /-- Behind an opening bracket: the closing one or the first element. -/
  | arrayStart (stack : List Frame)
  /-- Behind an opening brace: the closing one or the first key. -/
  | objectStart (stack : List Frame)
  /-- A key behind a comma. -/
  | key (members : List (Bytes × Json)) (stack : List Frame)
  /-- The colon behind a key. -/
  | colon (members : List (Bytes × Json)) (key : Bytes) (stack : List Frame)
  /-- Behind an element: a comma or the closing bracket. -/
  | arrayNext (elements : List Json) (stack : List Frame)
  /-- Behind a member: a comma or the closing brace. -/
  | objectNext (members : List (Bytes × Json)) (stack : List Frame)
  /-- The outermost value is complete. -/
  | done (value : Json)

/-- `handle_value` for a complete value, and the evaluation of the state behind it. -/
def completed (value : Json) : List Frame → State
  | [] => .done value
  | .array elements :: stack => .arrayNext (elements ++ [value]) stack
  | .object members key :: stack => .objectNext (Items.insert key value members) stack

/-- The `switch` on the token a value starts with. -/
def startValue (stack : List Frame) : Token → Except Exn State
  | .beginObject => .ok (.objectStart stack)
  | .beginArray => .ok (.arrayStart stack)
  | .valueFloat value =>
      if value.isFinite then .ok (completed (.float value) stack) else .error (.outOfRange 406)
  | .literalFalse => .ok (completed (.bool false) stack)
  | .literalNull => .ok (completed .null stack)
  | .literalTrue => .ok (completed (.bool true) stack)
  | .valueInteger value => .ok (completed (.num value) stack)
  | .valueString value => .ok (completed (.str value) stack)
  | .valueUnsigned value => .ok (completed (.num value) stack)
  | .parseError | .endOfInput | .endArray | .endObject | .nameSeparator | .valueSeparator =>
      .error .parseError

/-- One token. -/
def step (state : State) (token : Token) : Except Exn State :=
  match state with
  | .value stack => startValue stack token
  | .arrayStart stack =>
      if token = .endArray then .ok (completed (.arr []) stack)
      else startValue (.array [] :: stack) token
  | .objectStart stack =>
      match token with
      | .endObject => .ok (completed (.obj []) stack)
      | .valueString key => .ok (.colon [] key stack)
      | _ => .error .parseError
  | .key members stack =>
      match token with
      | .valueString key => .ok (.colon members key stack)
      | _ => .error .parseError
  | .colon members key stack =>
      match token with
      | .nameSeparator => .ok (.value (.object members key :: stack))
      | _ => .error .parseError
  | .arrayNext elements stack =>
      match token with
      | .valueSeparator => .ok (.value (.array elements :: stack))
      | .endArray => .ok (completed (.arr elements) stack)
      | _ => .error .parseError
  | .objectNext members stack =>
      match token with
      | .valueSeparator => .ok (.key members stack)
      | .endObject => .ok (completed (.obj members) stack)
      | _ => .error .parseError
  | .done value => .ok (.done value)

/-- `sax_parse_internal` from a state: the document and the tokens not asked for. -/
def run : State → List Token → Except Exn (Json × List Token)
  | .done value, tokens => .ok (value, tokens)
  | _, [] => .error .parseError
  | state, token :: tokens => do
      let next ← step state token
      run next tokens

/-- A state that is not done asks for a token. -/
theorem run_cons {state : State} (hstate : ∀ value, state ≠ .done value) (token : Token)
    (tokens : List Token) :
    run state (token :: tokens) = step state token >>= fun next ↦ run next tokens := by
  cases state with
  | done value => exact absurd rfl (hstate value)
  | value _ | arrayStart _ | objectStart _ | key _ _ | colon _ _ _ | arrayNext _ _
  | objectNext _ _ => rfl

@[simp]
theorem run_done (value : Json) (tokens : List Token) :
    run (.done value) tokens = .ok (value, tokens) := by
  cases tokens <;> rfl

theorem run_nil {state : State} (hstate : ∀ value, state ≠ .done value) :
    run state [] = .error .parseError := by
  cases state with
  | done value => exact absurd rfl (hstate value)
  | value _ | arrayStart _ | objectStart _ | key _ _ | colon _ _ _ | arrayNext _ _
  | objectNext _ _ => rfl

/-- The last tokens are expected nowhere. -/
theorem step_final {state : State} (hstate : ∀ value, state ≠ .done value) {token : Token}
    (htoken : token.final = true) : step state token = .error .parseError := by
  have htoken : token = .parseError ∨ token = .endOfInput := by
    cases token <;> simp_all [Token.final]
  cases state with
  | done value => exact absurd rfl (hstate value)
  | value _ | arrayStart _ | objectStart _ | key _ _ | colon _ _ _ | arrayNext _ _
  | objectNext _ _ => rcases htoken with rfl | rfl <;> rfl

/-- `parser::parse`: in strict mode, the input must be completely read. -/
def parse (strtod : Bytes → Double) (strict : Bool) (raw : Bytes) : Except Exn Json := do
  let (value, tokens) ← run (.value []) (lex strtod raw)
  if strict ∧ tokens.head? ≠ some .endOfInput then .error .parseError else .ok value

end NetPixeld.Parser
