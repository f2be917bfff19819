import NetPixeld.Json.Tokens

/-!
# The grammar of JSON texts

A value is a scalar token, or a bracketed list whose items are separated by commas. Whitespace may
stand between any two tokens. The members of an object are entered one after the other, so the last
one of a key counts.
-/

namespace NetPixeld.Grammar

open Lexer (Token)

/-- The value of a token that is a value of its own. -/
def scalar : Token → Option Json
  | .literalTrue => some (.bool true)
  | .literalFalse => some (.bool false)
  | .literalNull => some .null
  | .valueString value => some (.str value)
  | .valueUnsigned value => some (.num value)
  | .valueInteger value => some (.num value)
  | .valueFloat value => if value.isFinite then some (.float value) else none
  | _ => none

mutual

/-- The text of a value, without whitespace around it. -/
inductive Value (strtod : Bytes → Double) : Bytes → Json → Prop where
  | scalar {token : Token} {body : Bytes} {json : Json} : Spells strtod token body →
      scalar token = some json → Value strtod body json
  | emptyArray {space : Bytes} : Space space → Value strtod (91 :: (space ++ [93])) (.arr [])
  | array {body space : Bytes} {elements : List Json} : Elements strtod body elements →
      Space space → Value strtod (91 :: (body ++ (space ++ [93]))) (.arr elements)
  | emptyObject {space : Bytes} : Space space → Value strtod (123 :: (space ++ [125])) (.obj [])
  | object {body space : Bytes} {pairs : List (Bytes × Json)} : Members strtod body pairs →
      Space space →
      Value strtod (123 :: (body ++ (space ++ [125]))) (.obj (Items.insertAll pairs))

/-- The elements of an array with the commas between them. -/
inductive Elements (strtod : Bytes → Double) : Bytes → List Json → Prop where
  | first {space body : Bytes} {element : Json} : Space space → Value strtod body element →
      Elements strtod (space ++ body) [element]
  | next {before left right body : Bytes} {elements : List Json} {element : Json} :
      Elements strtod before elements → Space left → Space right → Value strtod body element →
      Elements strtod (before ++ (left ++ 44 :: (right ++ body))) (elements ++ [element])

/-- A key, a colon and a value. -/
inductive Member (strtod : Bytes → Double) : Bytes → Bytes × Json → Prop where
  | intro {before key left right body : Bytes} {characters : List Char} {value : Json} :
      Space before → Contents key characters → Space left → Space right →
      Value strtod body value →
      Member strtod (before ++ 34 :: (key ++ 34 :: (left ++ 58 :: (right ++ body))))
        (Utf8.encode characters, value)

/-- The members of an object with the commas between them. -/
inductive Members (strtod : Bytes → Double) : Bytes → List (Bytes × Json) → Prop where
  | first {body : Bytes} {pair : Bytes × Json} : Member strtod body pair →
      Members strtod body [pair]
  | next {before left body : Bytes} {pairs : List (Bytes × Json)} {pair : Bytes × Json} :
      Members strtod before pairs → Space left → Member strtod body pair →
      Members strtod (before ++ (left ++ 44 :: body)) (pairs ++ [pair])

end

theorem space_nil : Space [] := by
  rintro _ ⟨⟩

/-- Whitespace in front of a delimiter, or nothing but the delimiter. -/
theorem head_space {space rest : Bytes} {byte : UInt8} (hspace : Space space)
    (hbyte : Delimiter byte) : ∀ first ∈ (space ++ byte :: rest).head?, Delimiter first := by
  have hdelimiter : ∀ byte, Lexer.isSpace byte = true → Delimiter byte := by
    intro byte hbyte
    simp only [Lexer.isSpace, Bool.or_eq_true, decide_eq_true_eq] at hbyte
    rcases hbyte with ((rfl | rfl) | rfl) | rfl <;> decide
  cases space with
  | nil =>
    rintro _ ⟨⟩
    exact hbyte
  | cons first space =>
    rintro _ ⟨⟩
    exact hdelimiter first (hspace first (List.mem_cons_self ..))

/-- A list in brackets up to where its next item starts. -/
inductive Opened {α : Type} (listed : Bytes → List α → Prop) : Bytes → List α → Prop where
  | nil : Opened listed [] []
  | next {body left : Bytes} {items : List α} : listed body items → Space left →
      Opened listed (body ++ (left ++ [44])) items

/-- One more element. -/
theorem Opened.element {strtod : Bytes → Double} {opened space body : Bytes}
    {elements : List Json} {element : Json} (hopened : Opened (Elements strtod) opened elements)
    (hspace : Space space) (hbody : Value strtod body element) :
    Elements strtod (opened ++ (space ++ body)) (elements ++ [element]) := by
  cases hopened with
  | nil =>
    rw [List.nil_append, List.nil_append]
    exact .first hspace hbody
  | next helements hleft =>
    have h := Elements.next helements hleft hspace hbody
    simpa only [List.append_assoc, List.cons_append, List.nil_append] using h

/-- One more member. -/
theorem Opened.member {strtod : Bytes → Double} {opened body : Bytes}
    {pairs : List (Bytes × Json)} {pair : Bytes × Json}
    (hopened : Opened (Members strtod) opened pairs) (hbody : Member strtod body pair) :
    Members strtod (opened ++ body) (pairs ++ [pair]) := by
  cases hopened with
  | nil =>
    rw [List.nil_append, List.nil_append]
    exact .first hbody
  | next hmembers hleft =>
    have h := Members.next hmembers hleft hbody
    simpa only [List.append_assoc, List.cons_append, List.nil_append] using h

end NetPixeld.Grammar
