import Mathlib.Data.List.Forall2
import NetPixeld.Client.Shown
import NetPixeld.Server.Registry

/-!
# What the server says on a connection

Everything queued on a session is a notice: the handshake, a login result with the number one, or an
update. The updates are among the totals that the ticks stored, in the order in which they were
stored. Along a step the notices of a session only grow at the end.
-/

namespace NetPixeld

/-- In related lists every item is related to one on the other side. -/
theorem exists_of_forall₂ {α β : Type} {relation : α → β → Prop} {left : List α} {right : List β}
    (h : List.Forall₂ relation left right) {item : α} (hitem : item ∈ left) :
    ∃ other ∈ right, relation item other := by
  induction h with
  | nil => cases hitem
  | cons hhead _ ih =>
    rcases List.mem_cons.mp hitem with rfl | hitem
    · exact ⟨_, List.mem_cons_self .., hhead⟩
    · obtain ⟨other, hother, hrelated⟩ := ih hitem
      exact ⟨other, List.mem_cons_of_mem _ hother, hrelated⟩

/-! ## Notices and their texts -/

namespace Notice

/-- The wire text. -/
def text (lib : JsonLib) (notice : Notice) : Bytes :=
  (notice.message.serialize lib).toOption.getD []

/-- A notice that can be written has UTF-8 strings and numbers in range. -/
theorem wellFormed_of_serialize {lib : JsonLib} {notice : Notice} {serialized : Bytes}
    (h : notice.message.serialize lib = .ok serialized) : notice.message.WellFormed := by
  obtain ⟨dumped, hdumped, _⟩ := map_eq_ok.mp h
  have htop := Json.dumpable_of_insertAll [(NetPixeld.text "type", Json.str notice.message.type),
    (NetPixeld.text "sequence", .num notice.message.sequence.toNat),
    (NetPixeld.text "payload", notice.message.payload)]
    (show [NetPixeld.text "type", NetPixeld.text "sequence", NetPixeld.text "payload"].Nodup by
      decide) ⟨0, dumped, hdumped⟩
  have hpayload := (htop (NetPixeld.text "payload", notice.message.payload) (by simp)).2
  cases notice with
  | assign sequence clientId => exact Protocol.wellFormed_assignClientId clientId
  | result sequence uuid =>
    have hfields := Json.dumpable_of_insertAll [(NetPixeld.text "uuid", .str uuid)]
      (show [NetPixeld.text "uuid"].Nodup by decide) hpayload
    exact Protocol.wellFormed_loginResult
      (Json.valid_of_dumpable_str (hfields (NetPixeld.text "uuid", .str uuid) (by simp)).2)
  | update sequence uuid pool =>
    have hfields := Json.dumpable_of_insertAll [(NetPixeld.text "uuid", .str uuid),
      (NetPixeld.text "wood", .num pool.wood.toNat), (NetPixeld.text "food", .num pool.food.toNat),
      (NetPixeld.text "iron", .num pool.iron.toNat)]
      (show [NetPixeld.text "uuid", NetPixeld.text "wood", NetPixeld.text "food",
        NetPixeld.text "iron"].Nodup by decide) hpayload
    exact Protocol.wellFormed_resourceUpdate sequence
      (Json.valid_of_dumpable_str (hfields (NetPixeld.text "uuid", .str uuid) (by simp)).2) _ _ _

/-- A notice on the wire is a line that is read back as its message. -/
theorem line {lib : JsonLib} (hlib : lib.Lawful) {notice : Notice} {serialized : Bytes}
    (h : notice.message.serialize lib = .ok serialized) :
    ∃ line, notice.text lib = line ++ [newline] ∧ newline ∉ line ∧
      Protocol.readLine lib line = .ok notice.message := by
  obtain ⟨line, rfl, hprintable, hparse⟩ :=
    Protocol.Message.serialize_line hlib (wellFormed_of_serialize h) h
  refine ⟨line, ?_, hprintable.newline_notMem, ?_⟩
  · rw [text, h]
    rfl
  · rw [Protocol.readLine, Protocol.stripReturn_of_printable hprintable, hparse]

end Notice

/-- A packet is the serialization of a notice. -/
structure Packet.Carries (lib : JsonLib) (packet : Packet) (notice : Notice) : Prop where
  message : packet.message = notice.message
  text : notice.message.serialize lib = .ok packet.text

theorem Packet.Carries.text_eq {lib : JsonLib} {packet : Packet} {notice : Notice}
    (h : packet.Carries lib notice) : packet.text = notice.text lib := by
  rw [Notice.text, h.text]
  rfl

/-- The texts that were sent are those of the notices. -/
theorem Packet.texts_of_carries {lib : JsonLib} {sent : List Packet} {notices : List Notice}
    (h : List.Forall₂ (Packet.Carries lib) sent notices) :
    sent.flatMap Packet.text = notices.flatMap (Notice.text lib) := by
  induction h with
  | nil => rfl
  | cons hpacket _ ih => rw [List.flatMap_cons, List.flatMap_cons, hpacket.text_eq, ih]

theorem Packet.exists_packet {lib : JsonLib} {sent : List Packet} {notices : List Notice}
    (h : List.Forall₂ (Packet.Carries lib) sent notices) {notice : Notice}
    (hnotice : notice ∈ notices) : ∃ packet ∈ sent, packet.Carries lib notice :=
  exists_of_forall₂ h.flip hnotice

theorem Packet.exists_notice {lib : JsonLib} {sent : List Packet} {notices : List Notice}
    (h : List.Forall₂ (Packet.Carries lib) sent notices) {packet : Packet}
    (hpacket : packet ∈ sent) : ∃ notice ∈ notices, packet.Carries lib notice :=
  exists_of_forall₂ h hpacket

/-! ## What was stored -/

/-- The uuid and the totals that a tick stored. -/
def Action.totals : Action → Option (Bytes × Resources)
  | .stored uuid resources => some (uuid, resources)
  | .accepted _ _ | .received _ _ | .disconnected _ _ => none

/-- The totals stored so far, in that order. -/
def Server.stores (server : Server) : List (Bytes × Resources) :=
  server.log.filterMap Action.totals

/-! ## Announcements -/

/-- The notices queued on a session. -/
structure Session.Announces (lib : JsonLib) (stores : List (Bytes × Resources))
    (session : Session) (notices : List Notice) : Prop where
  packets : List.Forall₂ (Packet.Carries lib) session.sent notices
  single : ∀ notice ∈ notices, notice.Single
  stored : (notices.filterMap Notice.totals).Sublist stores

namespace Session

variable {lib : JsonLib} {stores : List (Bytes × Resources)} {session : Session}
  {notices : List Notice}

/-- Only what was sent matters, and more can have been stored. -/
theorem Announces.of_sent (h : session.Announces lib stores notices) {next : Session}
    (hsent : next.sent = session.sent) {stores' : List (Bytes × Resources)}
    (hstores : stores.Sublist stores') : next.Announces lib stores' notices :=
  ⟨by rw [hsent]; exact h.packets, h.single, h.stored.trans hstores⟩

/-- One more notice. -/
theorem Announces.post (h : session.Announces lib stores notices) {packet : Packet}
    {notice : Notice} (hpacket : packet.Carries lib notice) (hsingle : notice.Single) :
    (session.post packet).Announces lib (stores ++ notice.totals.toList) (notices ++ [notice]) := by
  constructor
  · rw [sent_post]
    exact List.rel_append h.packets (.cons hpacket .nil)
  · intro other hother
    rcases List.mem_append.mp hother with hother | hother
    · exact h.single other hother
    · rw [List.mem_singleton.mp hother]
      exact hsingle
  · rw [List.filterMap_append]
    refine h.stored.append ?_
    cases notice <;> exact .refl _

end Session

namespace Server

/-- Every session is still there and has said what it said before, and perhaps more. -/
def Extends (lib : JsonLib) (before after : Server) : Prop :=
  ∀ index session notices, before.object index = some session →
    session.Announces lib before.stores notices →
    ∃ session' more, after.object index = some session' ∧
      session'.Announces lib after.stores (notices ++ more)

section Extends

variable {lib : JsonLib}

theorem Extends.trans {first second third : Server} (h : Extends lib first second)
    (h' : Extends lib second third) : Extends lib first third := by
  intro index session notices hobject hannounces
  obtain ⟨session', more, hobject', hannounces'⟩ := h index session notices hobject hannounces
  obtain ⟨session'', more', hobject'', hannounces''⟩ := h' index session' _ hobject' hannounces'
  exact ⟨session'', more ++ more', hobject'', by rwa [← List.append_assoc]⟩

/-- Nothing is sent. -/
theorem extends_of_sent {before after : Server}
    (hobjects : ∀ index session, before.object index = some session →
      ∃ session', after.object index = some session' ∧ session'.sent = session.sent)
    (hstores : before.stores.Sublist after.stores) : Extends lib before after := by
  intro index session notices hobject hannounces
  obtain ⟨session', hobject', hsent⟩ := hobjects index session hobject
  refine ⟨session', [], hobject', ?_⟩
  rw [List.append_nil]
  exact hannounces.of_sent hsent hstores

/-- Neither the sessions nor what was stored changes. -/
theorem extends_of_eq {before after : Server} (hobjects : after.objects = before.objects)
    (hlog : after.log = before.log) : Extends lib before after := by
  refine extends_of_sent (fun index session hobject ↦ ⟨session, ?_, rfl⟩) ?_
  · rw [object, hobjects]
    exact hobject
  · rw [stores, stores, hlog]

theorem Extends.refl (server : Server) : Extends lib server server := extends_of_eq rfl rfl

theorem extends_record (server : Server) (action : Action) :
    Extends lib server (server.record action) := by
  refine extends_of_sent (fun index session hobject ↦ ⟨session, hobject, rfl⟩) ?_
  rw [stores, stores, record_log, List.filterMap_append]
  exact List.sublist_append_left _ _

/-- A session object changes without sending anything. -/
theorem extends_update {server : Server} {index : ℕ} {change : Session → Session}
    (h : ∀ session, server.object index = some session → (change session).sent = session.sent) :
    Extends lib server (server.update index change) := by
  refine extends_of_sent (fun other session hobject ↦ ?_) (.refl _)
  rw [object_update]
  split
  · next heq =>
    subst heq
    exact ⟨change session, by rw [hobject]; rfl, h session hobject⟩
  · exact ⟨session, hobject, rfl⟩

/-- A notice that is about no totals is queued. -/
theorem extends_post (server : Server) (index : ℕ) {packet : Packet} {notice : Notice}
    (hpacket : packet.Carries lib notice) (hsingle : notice.Single)
    (htotals : notice.totals = none) :
    Extends lib server (server.update index (·.post packet)) := by
  intro other session notices hobject hannounces
  rw [object_update]
  split
  · next heq =>
    subst heq
    have hpost := hannounces.post hpacket hsingle
    rw [htotals, Option.toList_none, List.append_nil] at hpost
    exact ⟨session.post packet, [notice], by rw [hobject]; rfl, hpost⟩
  · exact ⟨session, [], hobject, by rwa [List.append_nil]⟩

/-- Totals are stored and the update about them is queued. -/
theorem extends_record_post (server : Server) (index : ℕ) {packet : Packet} {sequence : UInt32}
    {uuid : Bytes} {pool : Resources} (hpacket : packet.Carries lib (.update sequence uuid pool)) :
    Extends lib server
      ((server.record (.stored uuid pool)).update index (·.post packet)) := by
  intro other session notices hobject hannounces
  have hstores : ((server.record (.stored uuid pool)).update index (·.post packet)).stores =
      server.stores ++ (Notice.update sequence uuid pool).totals.toList := by
    rw [stores, update_log, record_log, List.filterMap_append]
    rfl
  rw [object_update, record_object, hstores]
  split
  · next heq =>
    subst heq
    exact ⟨session.post packet, _, by rw [hobject]; rfl,
      hannounces.post hpacket fun _ _ hresult ↦ (by cases hresult)⟩
  · refine ⟨session, [], hobject, ?_⟩
    rw [List.append_nil]
    exact hannounces.of_sent rfl (List.sublist_append_left _ _)

end Extends

/-! ## Steps -/

section Steps

variable {lib : JsonLib}

theorem Handled.extends {server : Server} {clientId : UInt8} {line : Bytes}
    {draw : UInt64 × UInt64} {io : SaveIO} {result : Server × Outcome Unit}
    (h : Handled lib server clientId line draw io result) : Extends lib server result.1 := by
  have hlogged : ∀ (db : JsonDB) index uuid, Extends lib server
      (({ server with db := db } : Server).update index (Session.setUUID uuid)) := by
    intro db index uuid
    have hdatabase : Extends lib server { server with db := db } := extends_of_eq rfl rfl
    exact hdatabase.trans (extends_update fun _ _ ↦ rfl)
  cases h with
  | ignored => exact .refl server
  | refused => exact extends_of_eq rfl rfl
  | unregistered => exact extends_of_eq rfl rfl
  | null => exact extends_of_eq rfl rfl
  | unsent => exact hlogged _ _ _
  | @answered _ _ uuid _ _ _ _ _ hserialize =>
    have hsingle : (Notice.result 1 uuid).Single := by
      rintro _ _ ⟨⟩
      rfl
    have hpacket : Packet.Carries lib ⟨Protocol.loginResult uuid, _⟩ (.result 1 uuid) :=
      ⟨rfl, hserialize⟩
    exact (hlogged _ _ uuid).trans (extends_post _ _ hpacket hsingle rfl)

theorem Served.extends {server : Server} {walk : List Bytes} {io : SaveIO} {clientId : UInt8}
    {result : Server × Outcome Unit} (h : Served lib server walk io clientId result) :
    Extends lib server result.1 := by
  have hcollected : ∀ uuid pool,
      Extends lib server (server.collected lib walk io clientId uuid pool) :=
    fun _ _ ↦ extends_of_eq rfl rfl
  cases h with
  | idle | broken | unknown => exact .refl server
  | unsaved => exact hcollected _ _
  | unsent => exact (hcollected _ _).trans (extends_record _ _)
  | @updated _ _ _ _ _ hserialize =>
    exact (hcollected _ _).trans (extends_record_post _ _ ⟨rfl, hserialize⟩)

theorem serveAll_extends (walk : List Bytes) (io : UInt8 → SaveIO) (order : List UInt8)
    (server : Server) : Extends lib server (serveAll lib walk io order server).1 := by
  refine serveAll_rule (fun _ next ↦ Extends lib server next)
    (fun result ↦ Extends lib server result.1) (fun _ h ↦ h) ?_ (.refl server)
  intro clientId rest next result h hserved
  have hresult := h.trans hserved.extends
  split
  · exact hresult
  · exact hresult

theorem step_extends {server next : Server} {event : Event}
    (h : server.step lib event = some next) : Extends lib server next := by
  have hquiet : ∀ {index before after}, server.object index = some before →
      Session.Same before after → Extends lib server (server.update index fun _ ↦ after) := by
    intro index before after hobject hsame
    refine extends_update fun session hsession ↦ ?_
    cases hobject.symm.trans hsession
    exact hsame.sent
  have hended : ∀ {index before after}, server.object index = some before →
      Session.Same before after → Extends lib server
        ((server.update index fun _ ↦ after).onClientDisconnect index before.clientId) := by
    intro index before after hobject hsame
    refine (hquiet hobject hsame).trans (.trans (extends_record _ _) (extends_of_eq rfl rfl))
  cases (step_stepped h).2 with
  | accept =>
    refine extends_of_sent (fun index session hobject ↦ ⟨session, ?_, rfl⟩) ?_
    · rw [object_register, if_neg (Nat.ne_of_lt (lt_of_isSome (by rw [hobject]; rfl)))]
      exact hobject
    · rw [stores, stores, register, List.filterMap_append]
      exact List.sublist_append_left _ _
  | acceptFailed => exact .refl server
  | receive hobject hnext => exact hquiet hobject (Session.receive_same hnext)
  | strand hobject hnext => exact hquiet hobject (Session.runPosted_same hnext)
  | writeDone hobject hnext => exact hquiet hobject (Session.finishWrite_same hnext)
  | readFailed hobject hnext => exact hended hobject (Session.failRead_same hnext)
  | writeFailed hobject hnext => exact hended hobject (Session.failWrite_same hnext)
  | @readDone index _ _ _ after line _ _ hobject hline hhandled =>
    have hread := (hquiet hobject (Session.takeLine_same hline)).trans
      (extends_record _ (.received index line))
    exact (hread.trans hhandled.extends).trans (extends_of_eq rfl rfl)
  | tick _ hresult =>
    subst hresult
    exact Extends.trans (serveAll_extends _ _ _ server) (extends_of_eq rfl rfl)
  | timerCanceled => exact extends_of_eq rfl rfl

/-- A new connection has been told its id. -/
theorem register_announces (server : Server) {serialized : Bytes}
    (hserialized : (Protocol.assignClientId server.nextClientId).serialize lib = .ok serialized) :
    ∃ session, (server.register serialized).object server.objects.length = some session ∧
      session.Announces lib (server.register serialized).stores
        [.assign 1 server.nextClientId] := by
  have hpackets : List.Forall₂ (Packet.Carries lib)
      [⟨Protocol.assignClientId server.nextClientId, serialized⟩]
      [Notice.assign 1 server.nextClientId] := .cons ⟨rfl, hserialized⟩ .nil
  refine ⟨_, (object_register ..).trans (if_pos rfl), hpackets, ?_, ?_⟩
  · intro notice hnotice
    rw [List.mem_singleton.mp hnotice]
    rintro _ _ ⟨⟩
  · exact List.nil_sublist _

end Steps

end Server

end NetPixeld
