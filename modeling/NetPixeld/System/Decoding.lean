import NetPixeld.Client.Dispatch
import NetPixeld.Json.Conversion
import NetPixeld.Json.Reference
import NetPixeld.Server.FileFormat

/-!
# The numbers in messages and in the account file

Every numeric field of either program goes through a conversion of the JSON library, and none of
them is checked: what the code works with is the converted number.
-/

namespace NetPixeld

open Protocol (Message)

/-- A member of an object that is read as a number, with zero when it is missing. -/
def FieldConverts (target : IntegerType) (json : Json) (key : Bytes) (result : ℤ) : Prop :=
  ∃ members, json = .obj members ∧
    match Items.find key members with
    | some found => target.Converts found result
    | none => result = 0

/-- A member of a payload that is read as a number. -/
def PayloadConverts (target : IntegerType) (msg : Message) (key : Bytes) (result : ℤ) : Prop :=
  ∃ found, msg.payload.atKey key = .ok found ∧ target.Converts found result

/-! ## Messages -/

theorem Protocol.Message.parse_sequence {lib : JsonLib} {raw : Bytes} {msg : Message}
    (h : Message.parse lib raw = .ok msg) :
    ∃ json found, lib.parse raw = .ok json ∧ json.atKey (text "sequence") = .ok found ∧
      IntegerType.uint32.Converts found msg.sequence.toNat := by
  obtain ⟨json, hjson, h⟩ := bind_eq_ok.mp h
  obtain ⟨_, _, h⟩ := bind_eq_ok.mp h
  obtain ⟨_, _, h⟩ := bind_eq_ok.mp h
  obtain ⟨found, hfound, h⟩ := bind_eq_ok.mp h
  obtain ⟨sequence, hsequence, h⟩ := bind_eq_ok.mp h
  obtain ⟨payload, _, h⟩ := bind_eq_ok.mp h
  cases h
  refine ⟨json, found, hjson, hfound, IntegerType.converts_of_read ?_⟩
  rw [IntegerType.read, hsequence]
  rfl

theorem Application.dispatch_clientId {app next : Application} {msg : Message}
    (htype : msg.type = Protocol.msgAssignClientId) (h : app.dispatch msg = .ok next) :
    PayloadConverts .uint8 msg (text "clientId") next.ctx.clientId.toNat := by
  rw [dispatch, if_pos htype] at h
  obtain ⟨found, hfound, h⟩ := bind_eq_ok.mp h
  obtain ⟨clientId, hclientId, h⟩ := bind_eq_ok.mp h
  cases h
  refine ⟨found, hfound, IntegerType.converts_of_read ?_⟩
  rw [IntegerType.read, hclientId]
  rfl

theorem GameScene.handleMessage_totals {ctx next : GameContext} {msg : Message} {handled : Bool}
    (htype : msg.type = Protocol.msgResourceUpdate)
    (huuid : msg.field (text "uuid") Json.getString = .ok ctx.uuid)
    (h : GameScene.handleMessage ctx msg = .ok (next, handled)) :
    PayloadConverts .uint64 msg (text "wood") next.resources.wood.toNat ∧
      PayloadConverts .uint64 msg (text "food") next.resources.food.toNat ∧
      PayloadConverts .uint64 msg (text "iron") next.resources.iron.toNat := by
  have hread : ∀ {key : Bytes} {found : Json} {total : UInt64},
      msg.payload.atKey key = .ok found → found.getUInt64 = .ok total →
      PayloadConverts .uint64 msg key total.toNat := by
    intro key found total hfound htotal
    refine ⟨found, hfound, IntegerType.converts_of_read ?_⟩
    rw [IntegerType.read, htotal]
    rfl
  rw [handleMessage, if_pos htype, Protocol.Message.atKey_bind, huuid] at h
  obtain ⟨uuid, hsame, h⟩ := bind_eq_ok.mp h
  cases hsame
  rw [if_pos rfl] at h
  obtain ⟨jwood, hjwood, h⟩ := bind_eq_ok.mp h
  obtain ⟨wood, hwood, h⟩ := bind_eq_ok.mp h
  obtain ⟨jfood, hjfood, h⟩ := bind_eq_ok.mp h
  obtain ⟨food, hfood, h⟩ := bind_eq_ok.mp h
  obtain ⟨jiron, hjiron, h⟩ := bind_eq_ok.mp h
  obtain ⟨iron, hiron, h⟩ := bind_eq_ok.mp h
  cases h
  exact ⟨hread hjwood hwood, hread hjfood hfood, hread hjiron hiron⟩

/-! ## The account file -/

namespace JsonDB

/-- What `value(key, default)` gives is read from the member, or the default without one. -/
theorem value_eq_ok {α : Type} {json : Json} {key : Bytes} {get : Json → Except Exn α}
    {default result : α} (h : json.value key get default = .ok result) :
    ∃ members, json = .obj members ∧
      ((∃ found, Items.find key members = some found ∧ get found = .ok result) ∨
        Items.find key members = none ∧ result = default) := by
  cases json with
  | obj members =>
    rw [Json.value] at h
    refine ⟨members, rfl, ?_⟩
    split at h
    · next found hfound => exact Or.inl ⟨found, hfound, h⟩
    · next hmissing => exact Or.inr ⟨hmissing, (Except.ok.inj h).symm⟩
  | null | bool _ | num _ | float _ | str _ | arr _ => cases h

theorem fieldConverts_of_value {json : Json} {key : Bytes} {total : UInt64}
    (h : json.value key Json.getULL 0 = .ok total) :
    FieldConverts .ull json key total.toNat := by
  obtain ⟨members, rfl, ⟨found, hfound, hread⟩ | ⟨hmissing, rfl⟩⟩ := value_eq_ok h
  · refine ⟨members, rfl, ?_⟩
    rw [hfound]
    apply IntegerType.converts_of_read
    rw [IntegerType.read, hread]
    rfl
  · refine ⟨members, rfl, ?_⟩
    rw [hmissing]
    rfl

theorem loadResources_converts {jres : Json} {resources : Resources}
    (h : loadResources jres = .ok resources) :
    FieldConverts .ull jres (text "wood") resources.wood.toNat ∧
      FieldConverts .ull jres (text "food") resources.food.toNat ∧
      FieldConverts .ull jres (text "iron") resources.iron.toNat := by
  obtain ⟨wood, hwood, h⟩ := bind_eq_ok.mp h
  obtain ⟨food, hfood, h⟩ := bind_eq_ok.mp h
  obtain ⟨iron, hiron, h⟩ := bind_eq_ok.mp h
  cases h
  exact ⟨fieldConverts_of_value hwood, fieldConverts_of_value hfood, fieldConverts_of_value hiron⟩

theorem loadCampLevels_converts {json : Json} {levels : SortedMap Bytes Int32}
    (h : loadCampLevels json = .ok levels) {camp : Bytes} {level : Int32}
    (hfind : levels.find camp = some level) :
    ∃ found, (camp, found) ∈ json.items ∧ IntegerType.int.Converts found level.toInt := by
  obtain ⟨found, hentry, hread⟩ := foldlM_items_find h hfind
  refine ⟨found, hentry, IntegerType.converts_of_read ?_⟩
  rw [IntegerType.read, hread]
  rfl

/-- The numbers of an account are those of its entry in the file, converted. -/
structure AccountConverts (val : Json) (acc : Account) : Prop where
  resources : ∃ jres, val.value (text "resources") .ok (.obj []) = .ok jres ∧
    FieldConverts .ull jres (text "wood") acc.resources.wood.toNat ∧
    FieldConverts .ull jres (text "food") acc.resources.food.toNat ∧
    FieldConverts .ull jres (text "iron") acc.resources.iron.toNat
  campLevels : ∃ jcamps, val.value (text "campLevels") .ok (.obj []) = .ok jcamps ∧
    ∀ camp level, acc.campLevels.find camp = some level →
      ∃ found, (camp, found) ∈ jcamps.items ∧ IntegerType.int.Converts found level.toInt

theorem loadAccount_converts {val : Json} {acc : Account} (h : loadAccount val = .ok acc) :
    AccountConverts val acc := by
  obtain ⟨password, _, h⟩ := bind_eq_ok.mp h
  obtain ⟨uuid, _, h⟩ := bind_eq_ok.mp h
  obtain ⟨jres, hjres, h⟩ := bind_eq_ok.mp h
  obtain ⟨resources, hresources, h⟩ := bind_eq_ok.mp h
  obtain ⟨campLevels, hcamps, h⟩ := bind_eq_ok.mp h
  cases h
  refine ⟨⟨jres, hjres, loadResources_converts hresources⟩, ?_⟩
  obtain ⟨members, rfl, ⟨jcamps, hfound, hread⟩ | ⟨hmissing, hempty⟩⟩ := value_eq_ok hcamps
  · refine ⟨jcamps, ?_, fun camp level hfind ↦ loadCampLevels_converts hread hfind⟩
    simp only [Json.value, hfound]
  · refine ⟨.obj [], ?_, fun camp level hfind ↦ ?_⟩
    · simp only [Json.value, hmissing]
    · simp only [hempty] at hfind
      cases hfind

theorem load_converts {lib : JsonLib} {content : Bytes} {accounts : Accounts}
    (h : load lib (some content) = .ok accounts) {username : Bytes} {acc : Account}
    (hfind : accounts.find username = some acc) :
    ∃ top jacc val, lib.extract content = .ok top ∧
      top.value (text "accounts") .ok (.obj []) = .ok jacc ∧ (username, val) ∈ jacc.items ∧
      AccountConverts val acc := by
  obtain ⟨top, htop, h⟩ := bind_eq_ok.mp h
  obtain ⟨jacc, hjacc, h⟩ := bind_eq_ok.mp h
  obtain ⟨val, hentry, hacc⟩ := foldlM_items_find h hfind
  exact ⟨top, jacc, val, htop, hjacc, hentry, loadAccount_converts hacc⟩

end JsonDB

/-! ## All numeric fields -/

/-- Where numbers are read, and what becomes of them. -/
structure NumbersConverted (lib : JsonLib) : Prop where
  /-- An integer stays what it is exactly when it is in the range of the type. -/
  inRange : ∀ (target : IntegerType) value,
    target.read (.num value) = .ok value ↔ target.InRange value
  /-- Whatever is read is the converted value. -/
  converted : ∀ (target : IntegerType) json result, target.read json = .ok result →
    target.Converts json result
  /-- What has no conversion is rejected. -/
  rejected : ∀ (target : IntegerType) json, (∀ result, ¬target.Converts json result) →
    target.read json = .error (.typeError 302)
  sequence : ∀ raw msg, Message.parse lib raw = .ok msg →
    ∃ json found, lib.parse raw = .ok json ∧ json.atKey (text "sequence") = .ok found ∧
      IntegerType.uint32.Converts found msg.sequence.toNat
  clientId : ∀ (app next : Application) (msg : Message),
    msg.type = Protocol.msgAssignClientId → app.dispatch msg = .ok next →
    PayloadConverts .uint8 msg (text "clientId") next.ctx.clientId.toNat
  totals : ∀ (ctx next : GameContext) (msg : Message) handled,
    msg.type = Protocol.msgResourceUpdate →
    msg.field (text "uuid") Json.getString = .ok ctx.uuid →
    GameScene.handleMessage ctx msg = .ok (next, handled) →
    PayloadConverts .uint64 msg (text "wood") next.resources.wood.toNat ∧
      PayloadConverts .uint64 msg (text "food") next.resources.food.toNat ∧
      PayloadConverts .uint64 msg (text "iron") next.resources.iron.toNat
  stored : ∀ content accounts, JsonDB.load lib (some content) = .ok accounts →
    ∀ username acc, accounts.find username = some acc →
      ∃ top jacc val, lib.extract content = .ok top ∧
        top.value (text "accounts") .ok (.obj []) = .ok jacc ∧ (username, val) ∈ jacc.items ∧
        JsonDB.AccountConverts val acc

/-- Every numeric field is converted without a range check: an integer in range is kept, another one
is reduced modulo the width, a fraction is cut off, a boolean counts as a number except in an
update, and everything else is rejected. -/
theorem numbers_converted (lib : JsonLib) : NumbersConverted lib where
  inRange _ _ := IntegerType.read_num_iff
  converted _ _ _ := IntegerType.converts_of_read
  rejected _ _ := IntegerType.read_error
  sequence _ _ := Message.parse_sequence
  clientId _ _ _ := Application.dispatch_clientId
  totals _ _ _ _ := GameScene.handleMessage_totals
  stored _ _ h _ _ := JsonDB.load_converts h

/-- A document with a sequence far below zero. -/
def negativeSequence : Json :=
  .obj (Items.insertAll [
    (text "type", .str Protocol.msgLoginResult),
    (text "sequence", .num (-4294967295)),
    (text "payload", .obj [])])

/-- The text of a message with the sequence -4294967295 is parsed to a message with the sequence 1,
which a fresh filter lets through. -/
theorem negative_sequence_accepted :
    ∃ raw msg, JsonLib.reference.dump negativeSequence = .ok raw ∧
      JsonLib.reference.parse raw = .ok negativeSequence ∧
      negativeSequence.atKey (text "sequence") = .ok (.num (-4294967295)) ∧
      Message.parse JsonLib.reference raw = .ok msg ∧ msg.sequence = 1 ∧
      (Application.filterSequence ∅ msg).2 = true := by
  have hformed : negativeSequence.WellFormed :=
    Json.wellFormed_obj_insertAll ⟨Utf8.valid_text (by decide), Utf8.valid_text (by decide),
      Utf8.valid_text (by decide), ⟨by norm_num, by norm_num⟩,
      Utf8.valid_text (by decide), ⟨List.Pairwise.nil, trivial⟩, trivial⟩
  obtain ⟨raw, hraw⟩ := JsonLib.reference.dump_ok hformed
  have hparse := JsonLib.reference_lawful.parse_dump hformed hraw
  refine ⟨raw, ⟨Protocol.msgLoginResult, 1, .obj []⟩, hraw, hparse, rfl, ?_, rfl, by decide⟩
  rw [Message.parse, hparse]
  rfl

end NetPixeld
