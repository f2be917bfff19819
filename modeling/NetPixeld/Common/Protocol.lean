import NetPixeld.Json.DumpText

/-!
# Protocol messages

A message is one line of JSON: an object with the members `type`, `sequence` and `payload`. Parsing
checks the shape member by member, in the order of the source.
-/

namespace NetPixeld.Protocol

def msgAssignClientId : Bytes := text "AssignClientId"

def msgResourceUpdate : Bytes := text "ResourceUpdate"

def msgLoginRequest : Bytes := text "LoginRequest"

def msgLoginResult : Bytes := text "LoginResult"

/-- Common wrapper for JSON messages. -/
structure Message where
  type : Bytes
  sequence : UInt32
  payload : Json

namespace Message

/-- The document `serialize` writes. -/
def toJson (message : Message) : Json :=
  .obj (Items.insertAll [
    (text "type", .str message.type),
    (text "sequence", .num message.sequence.toNat),
    (text "payload", message.payload)])

def serialize (lib : JsonLib) (message : Message) : Except Exn Bytes :=
  (lib.dump message.toJson).map fun dumped ↦ dumped ++ [newline]

/-- Read the three members of a document. -/
def ofJson (json : Json) : Except Exn Message := do
  let type ← (← json.atKey (text "type")).getString
  let sequence ← (← json.atKey (text "sequence")).getUInt32
  let payload ← json.atKey (text "payload")
  .ok ⟨type, sequence, payload⟩

def parse (lib : JsonLib) (raw : Bytes) : Except Exn Message := do
  let json ← lib.parse raw
  ofJson json

/-- A message whose strings are UTF-8 and whose numbers are in range. -/
def WellFormed (message : Message) : Prop :=
  Utf8.Valid message.type ∧ message.payload.WellFormed

/-- The three members are found again. -/
theorem ofJson_toJson (message : Message) : ofJson message.toJson = .ok message := by
  obtain ⟨type, sequence, payload⟩ := message
  have h₁ : text "payload" ≠ text "type" := by decide
  have h₂ : text "payload" ≠ text "sequence" := by decide
  have h₃ : text "sequence" ≠ text "type" := by decide
  simp only [ofJson, toJson, Json.atKey, Items.insertAll, List.foldl_cons, List.foldl_nil,
    Items.find_insert, if_neg h₁, if_neg h₂, if_neg h₃, if_pos]
  simp only [bind, Except.bind, Json.getString_str, Json.getUInt32_num]

/-- A parsed message is well formed. -/
theorem wellFormed_of_parse {lib : JsonLib} (hlib : lib.Lawful) {raw : Bytes} {message : Message}
    (h : parse lib raw = .ok message) : message.WellFormed := by
  obtain ⟨json, hjson, h⟩ := bind_eq_ok.mp h
  have hwellFormed := hlib.parse_wellFormed hjson
  obtain ⟨found, hfound, h⟩ := bind_eq_ok.mp h
  obtain ⟨type, htype, h⟩ := bind_eq_ok.mp h
  obtain ⟨number, _, h⟩ := bind_eq_ok.mp h
  obtain ⟨sequence, _, h⟩ := bind_eq_ok.mp h
  obtain ⟨payload, hpayload, h⟩ := bind_eq_ok.mp h
  cases h
  exact ⟨Json.getString_valid (Json.wellFormed_atKey hwellFormed hfound) htype,
    Json.wellFormed_atKey hwellFormed hpayload⟩

theorem wellFormed_toJson {message : Message} (h : message.WellFormed) :
    message.toJson.WellFormed := by
  have hsequence : message.sequence.toNat < 2 ^ 64 :=
    message.sequence.toNat_lt.trans (by decide)
  exact Json.wellFormed_obj_insertAll ⟨Utf8.valid_text (by decide), h.1,
    Utf8.valid_text (by decide), Json.wellFormed_num_of_lt hsequence,
    Utf8.valid_text (by decide), h.2, trivial⟩

theorem serialize_ok (lib : JsonLib) {message : Message} (h : message.WellFormed) :
    ∃ serialized, message.serialize lib = .ok serialized := by
  obtain ⟨dumped, hdumped⟩ := lib.dump_ok (wellFormed_toJson h)
  exact ⟨_, by rw [serialize, hdumped]; rfl⟩

/-- The wire text of a message is one line of printable bytes that parses to the message. -/
theorem serialize_line {lib : JsonLib} (hlib : lib.Lawful) {message : Message}
    (h : message.WellFormed) {serialized : Bytes}
    (hserialized : message.serialize lib = .ok serialized) :
    ∃ line, serialized = line ++ [newline] ∧ Printable line ∧ parse lib line = .ok message := by
  obtain ⟨line, hline, rfl⟩ := map_eq_ok.mp hserialized
  have hparse := hlib.parse_dump (wellFormed_toJson h) hline
  refine ⟨line, rfl, lib.dump_printable hlib hline, ?_⟩
  rw [parse, hparse]
  exact ofJson_toJson message

end Message

/-! ## The messages the two programs build -/

/-- The handshake. -/
def assignClientId (clientId : UInt8) : Message :=
  ⟨msgAssignClientId, 1, .obj (Items.insertAll [(text "clientId", .num clientId.toNat)])⟩

def loginRequest (id password : Bytes) : Message :=
  ⟨msgLoginRequest, 1,
    .obj (Items.insertAll [(text "id", .str id), (text "password", .str password)])⟩

def loginResult (uuid : Bytes) : Message :=
  ⟨msgLoginResult, 1, .obj (Items.insertAll [(text "uuid", .str uuid)])⟩

/-- An update with its number and the totals of an account. -/
def resourceUpdate (sequence : UInt32) (uuid : Bytes) (wood food iron : UInt64) : Message :=
  ⟨msgResourceUpdate, sequence, .obj (Items.insertAll [
    (text "uuid", .str uuid),
    (text "wood", .num wood.toNat),
    (text "food", .num food.toNat),
    (text "iron", .num iron.toNat)])⟩

theorem wellFormed_assignClientId (clientId : UInt8) : (assignClientId clientId).WellFormed := by
  have hlt : clientId.toNat < 2 ^ 64 := clientId.toNat_lt.trans (by decide)
  exact ⟨Utf8.valid_text (by decide), Json.wellFormed_obj_insertAll
    ⟨Utf8.valid_text (by decide), Json.wellFormed_num_of_lt hlt, trivial⟩⟩

theorem wellFormed_loginRequest {id password : Bytes} (hid : Utf8.Valid id)
    (hpassword : Utf8.Valid password) : (loginRequest id password).WellFormed :=
  ⟨Utf8.valid_text (by decide), Json.wellFormed_obj_insertAll
    ⟨Utf8.valid_text (by decide), hid, Utf8.valid_text (by decide), hpassword, trivial⟩⟩

/-- A request can be written only when both texts are UTF-8. -/
theorem valid_of_serialize_loginRequest {lib : JsonLib} {id password serialized : Bytes}
    (h : (loginRequest id password).serialize lib = .ok serialized) :
    Utf8.Valid id ∧ Utf8.Valid password := by
  obtain ⟨dumped, hdumped, _⟩ := map_eq_ok.mp h
  have htop := Json.dumpable_of_insertAll [(text "type", Json.str msgLoginRequest),
    (text "sequence", .num (1 : UInt32).toNat),
    (text "payload", (loginRequest id password).payload)]
    (show [text "type", text "sequence", text "payload"].Nodup by decide) ⟨0, dumped, hdumped⟩
  have hpayload := (htop (text "payload", (loginRequest id password).payload) (by simp)).2
  have hfields := Json.dumpable_of_insertAll
    [(text "id", .str id), (text "password", .str password)]
    (show [text "id", text "password"].Nodup by decide) hpayload
  exact ⟨Json.valid_of_dumpable_str (hfields (text "id", .str id) (by simp)).2,
    Json.valid_of_dumpable_str (hfields (text "password", .str password) (by simp)).2⟩

theorem wellFormed_loginResult {uuid : Bytes} (huuid : Utf8.Valid uuid) :
    (loginResult uuid).WellFormed :=
  ⟨Utf8.valid_text (by decide), Json.wellFormed_obj_insertAll
    ⟨Utf8.valid_text (by decide), huuid, trivial⟩⟩

theorem wellFormed_resourceUpdate (sequence : UInt32) {uuid : Bytes} (huuid : Utf8.Valid uuid)
    (wood food iron : UInt64) : (resourceUpdate sequence uuid wood food iron).WellFormed :=
  ⟨Utf8.valid_text (by decide), Json.wellFormed_obj_insertAll
    ⟨Utf8.valid_text (by decide), huuid,
      Utf8.valid_text (by decide), Json.wellFormed_num_of_lt wood.toNat_lt,
      Utf8.valid_text (by decide), Json.wellFormed_num_of_lt food.toNat_lt,
      Utf8.valid_text (by decide), Json.wellFormed_num_of_lt iron.toNat_lt, trivial⟩⟩

end NetPixeld.Protocol
