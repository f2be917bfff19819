import NetPixeld.Json.Value

/-!
# The JSON serializer

`dump` writes a value as text, compactly or indented. It is the vendored serializer with
`ensure_ascii` off and the strict error handler: a string that is not UTF-8 makes it throw
`type_error` 316. The text of a finite floating-point number is the only part left open; it and the
two parsers are the fields of `JsonLib`.
-/

namespace NetPixeld

/-- The parts of the JSON library that are used but not embedded. -/
structure JsonLib where
  /-- `to_chars`: the text of a finite double. -/
  floatText : Double → Bytes
  /-- `json::parse` of a complete text. -/
  parse : Bytes → Except Exn Json
  /-- `operator>>`: read one document from the front of a stream. -/
  extract : Bytes → Except Exn Json

namespace Json

/-! ## Strings -/

/-- What `dump_escaped` writes for an accepted code point whose last byte is `byte`. -/
def escape (codepoint : ℕ) (byte : UInt8) : Bytes :=
  if codepoint = 0x08 then [92, 98]
  else if codepoint = 0x09 then [92, 116]
  else if codepoint = 0x0A then [92, 110]
  else if codepoint = 0x0C then [92, 102]
  else if codepoint = 0x0D then [92, 114]
  else if codepoint = 0x22 then [92, 34]
  else if codepoint = 0x5C then [92, 92]
  else if codepoint ≤ 0x1F then
    [92, 117, 48, 48, hexDigit (codepoint / 16), hexDigit (codepoint % 16)]
  else [byte]

def dumpEscapedFrom (state codepoint : ℕ) : Bytes → Except Exn Bytes
  | [] => if state = Utf8.accept then .ok [] else .error (.typeError 316)
  | byte :: rest =>
      if Utf8.nextState state byte = Utf8.reject then .error (.typeError 316)
      else do
        let tail ← dumpEscapedFrom (Utf8.nextState state byte)
          (Utf8.nextCodepoint state codepoint byte) rest
        -- a byte inside a multi-byte code point is copied as it is
        .ok ((if Utf8.nextState state byte = Utf8.accept then
          escape (Utf8.nextCodepoint state codepoint byte) byte else [byte]) ++ tail)

/-- The escaped text of a string, without its quotes. -/
def dumpEscaped (string : Bytes) : Except Exn Bytes := dumpEscapedFrom Utf8.accept 0 string

/-- A quoted string. -/
def dumpString (string : Bytes) : Except Exn Bytes :=
  (dumpEscaped string).map fun escaped ↦ 34 :: escaped ++ [34]

/-! ## Numbers -/

/-- `dump_integer`. -/
def dumpInteger (value : ℤ) : Bytes :=
  if value < 0 then 45 :: decimal value.natAbs else decimal value.natAbs

/-- `dump_float`: a number that is not finite is written as `null`. -/
def dumpFloat (lib : JsonLib) (value : Double) : Bytes :=
  if value.isFinite then lib.floatText value else text "null"

/-! ## Layout -/

/-- The start of a new line at an indentation; nothing in compact text. -/
def breakLine (pretty : Bool) (indent : ℕ) : Bytes :=
  if pretty then newline :: List.replicate indent 32 else []

/-- The separator after a key. -/
def colon (pretty : Bool) : Bytes := if pretty then [58, 32] else [58]

mutual

/-- The private `dump` with its indentation step and current indentation. -/
def dumpAt (lib : JsonLib) (pretty : Bool) (step current : ℕ) : Json → Except Exn Bytes
  | .null => .ok (text "null")
  | .bool true => .ok (text "true")
  | .bool false => .ok (text "false")
  | .num value => .ok (dumpInteger value)
  | .float value => .ok (dumpFloat lib value)
  | .str value => dumpString value
  | .arr [] => .ok (text "[]")
  | .arr (element :: rest) => do
      let first ← dumpAt lib pretty step (current + step) element
      let others ← dumpElements lib pretty step (current + step) rest
      .ok (91 :: breakLine pretty (current + step) ++ first ++ others ++
        breakLine pretty current ++ [93])
  | .obj [] => .ok (text "{}")
  | .obj ((key, value) :: rest) => do
      let name ← dumpString key
      let first ← dumpAt lib pretty step (current + step) value
      let others ← dumpMembers lib pretty step (current + step) rest
      .ok (123 :: breakLine pretty (current + step) ++ name ++ colon pretty ++ first ++ others ++
        breakLine pretty current ++ [125])
termination_by structural json => json

/-- The elements after the first, each behind its comma. -/
def dumpElements (lib : JsonLib) (pretty : Bool) (step current : ℕ) :
    List Json → Except Exn Bytes
  | [] => .ok []
  | element :: rest => do
      let first ← dumpAt lib pretty step current element
      let others ← dumpElements lib pretty step current rest
      .ok (44 :: breakLine pretty current ++ first ++ others)
termination_by structural elements => elements

/-- The members after the first, each behind its comma. -/
def dumpMembers (lib : JsonLib) (pretty : Bool) (step current : ℕ) :
    List (Bytes × Json) → Except Exn Bytes
  | [] => .ok []
  | (key, value) :: rest => do
      let name ← dumpString key
      let first ← dumpAt lib pretty step current value
      let others ← dumpMembers lib pretty step current rest
      .ok (44 :: breakLine pretty current ++ name ++ colon pretty ++ first ++ others)
termination_by structural members => members

end

end Json

namespace JsonLib

/-- `dump()`. -/
def dump (lib : JsonLib) (json : Json) : Except Exn Bytes := json.dumpAt lib false 0 0

/-- `dump(indent)`. -/
def dumpIndent (lib : JsonLib) (indent : ℕ) (json : Json) : Except Exn Bytes :=
  json.dumpAt lib true indent 0

/-- What the repository relies on in the parts that are not embedded: the printer writes numbers
with printable characters, parsing undoes dumping, and a parsed document is well formed. -/
structure Lawful (lib : JsonLib) : Prop where
  floatText_printable {value : Double} : value.isFinite = true →
    ∀ byte ∈ lib.floatText value, 0x20 ≤ byte
  parse_dump {json : Json} {dumped : Bytes} : json.WellFormed → lib.dump json = .ok dumped →
    lib.parse dumped = .ok json
  extract_dump {json : Json} {dumped : Bytes} : json.WellFormed →
    lib.dumpIndent 2 json = .ok dumped → lib.extract (dumped ++ [newline]) = .ok json
  parse_wellFormed {raw : Bytes} {json : Json} : lib.parse raw = .ok json → json.WellFormed
  extract_wellFormed {raw : Bytes} {json : Json} : lib.extract raw = .ok json → json.WellFormed

/-- Extracting from any beginning of a pretty-printed object gives that object or nothing. -/
def Whole (lib : JsonLib) : Prop :=
  ∀ {members : List (Bytes × Json)} {dumped : Bytes} {read : Json} (length : ℕ),
    (Json.obj members).WellFormed → lib.dumpIndent 2 (.obj members) = .ok dumped →
    lib.extract ((dumped ++ [newline]).take length) = .ok read → read = .obj members

end JsonLib

end NetPixeld
