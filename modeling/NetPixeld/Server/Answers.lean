import NetPixeld.Server.Handling
import NetPixeld.Server.Mutators

/-!
# The login results of a session

Every successful login sets the uuid of a session and queues a login result with it. As long as no
login result follows another one for a different uuid, all login results that were queued on a
session carry the uuid it has.
-/

namespace NetPixeld

/-- A login result was queued. -/
def Session.Answered (session : Session) : Prop :=
  ∃ packet ∈ session.sent, packet.message.type = Protocol.msgLoginResult

/-- Every login result carries the uuid of the session, which is empty before the first one. -/
structure Session.Steady (session : Session) : Prop where
  answers : ∀ packet ∈ session.sent, packet.message.type = Protocol.msgLoginResult →
    packet.message = Protocol.loginResult session.uuid
  unanswered : ¬session.Answered → session.uuid = []

/-- The file operations let a save return. -/
def SaveIO.Completes (io : SaveIO) (files : Files) : Prop :=
  io.stop = none ∧ io.renames = true ∧ (io.opens = true ∨ files.tmp ≠ none)

/-- A rename that returns was not stopped. -/
theorem JsonDB.stop_of_rename {io : SaveIO} {files : Files}
    (h : (rename io files).2 = .returned ()) : io.stop ≠ some .renamed := by
  unfold rename at h
  split at h
  · cases h
  · split at h
    · simpa using h
    · cases h

/-- A save that returns was not stopped. -/
theorem JsonDB.stop_of_save {lib : JsonLib} {accounts : Accounts} {io : SaveIO} {files : Files}
    (h : (save lib accounts io files).2 = .returned ()) : io.stop = none := by
  cases hstop : io.stop with
  | none => rfl
  | some stage =>
    cases hserialization : serialization lib accounts with
    | error exception => cases stage <;> simp [save, hstop, hserialization] at h
    | ok content =>
      cases stage with
      | start | opened | written => simp [save, hstop, hserialization] at h
      | renamed =>
        have hrename : (rename io (writeTmp io content (openTmp io files))).2 = .returned () := by
          simpa [save, hstop, hserialization] using h
        exact absurd hstop (stop_of_rename hrename)

theorem JsonDB.completes_of_save {lib : JsonLib} {accounts : Accounts} {io : SaveIO}
    {files : Files} (h : (save lib accounts io files).2 = .returned ()) : io.Completes files := by
  have hstop := stop_of_save h
  have hreturned : ¬∃ exception, (save lib accounts io files).2 = .threw exception := by
    rintro ⟨exception, hthrew⟩
    cases h.symm.trans hthrew
  rw [save_threw_iff, not_not, hstop] at hreturned
  obtain hstart | hopened | ⟨_, hwritten | hready⟩ := hreturned
  · cases hstart
  · cases hopened
  · cases hwritten
  · exact ⟨hstop, hready⟩

namespace Server

/-- A login request that is read for a session with a login result is refused, or asks for the uuid
that the session has, or the save of its new account fails. -/
def SameLogin (lib : JsonLib) (server : Server) : Event → Prop
  | .readDone index draw io => ∀ session line rest user pass target answered,
      server.object index = some session →
      Lines.cut newline session.incoming = some (line, rest) → Asks lib line user pass →
      server.sessions.find session.clientId = some (some target) →
      server.object target = some answered → answered.Answered →
      (∀ acc, server.db.accounts.find user = some acc → acc.password = pass →
        acc.uuid = answered.uuid) ∧
      (server.db.accounts.find user = none → io.Completes server.db.files →
        JsonDB.generateUuid draw = answered.uuid)
  | _ => True

def Steady (server : Server) : Prop :=
  ∀ index session, server.object index = some session → session.Steady

/-- The uuid of a login is that of the account with the name and the password, or was drawn for a
new account that was saved. -/
theorem login_uuid {lib : JsonLib} {db : JsonDB} {user pass uuid : Bytes} {draw : UInt64 × UInt64}
    {io : SaveIO} (h : (login lib db user pass draw io).2 = .returned (some uuid)) :
    (∃ acc, db.accounts.find user = some acc ∧ acc.password = pass ∧ acc.uuid = uuid) ∨
      (db.accounts.find user = none ∧ io.Completes db.files ∧ JsonDB.generateUuid draw = uuid) := by
  unfold login JsonDB.userExists at h
  cases hfind : db.accounts.find user with
  | some acc =>
    simp only [hfind, Option.isSome_some, if_true] at h
    split at h
    · next hverify =>
      have hpassword : acc.password = pass := by simpa [JsonDB.verifyUser, hfind] using hverify
      refine Or.inl ⟨acc, rfl, hpassword, ?_⟩
      simpa [JsonDB.getUser, hfind, hpassword, Outcome.ofExcept, Outcome.map] using h
    · cases h
  | none =>
    simp only [hfind, Option.isSome_none, Bool.false_eq_true, if_false] at h
    obtain ⟨added, hadded, huuid⟩ := Outcome.map_eq_returned.mp h
    simp only [JsonDB.addUser, hfind, Option.isSome_none, Bool.false_eq_true, if_false] at hadded
    obtain ⟨_, hsaved, hgenerated⟩ := Outcome.map_eq_returned.mp hadded
    exact Or.inr ⟨rfl, JsonDB.completes_of_save hsaved,
      hgenerated.trans (Option.some.inj huuid)⟩

end Server

/-! ## One session -/

namespace Session

variable {session : Session}

theorem Steady.same (h : session.Steady) {next : Session} (huuid : next.uuid = session.uuid)
    (hsent : next.sent = session.sent) : next.Steady := by
  constructor
  · rw [hsent, huuid]
    exact h.answers
  · rw [Answered, hsent, huuid]
    exact h.unanswered

/-- Another message than a login result is queued. -/
theorem Steady.post (h : session.Steady) {packet : Packet}
    (hpacket : packet.message.type ≠ Protocol.msgLoginResult) : (session.post packet).Steady := by
  constructor
  · intro other hother htype
    rw [sent_post] at hother
    rcases List.mem_append.mp hother with hother | hother
    · exact h.answers other hother htype
    · rw [List.mem_singleton.mp hother] at htype
      exact absurd htype hpacket
  · intro hunanswered
    refine h.unanswered fun ⟨other, hother, htype⟩ ↦ hunanswered ⟨other, ?_, htype⟩
    rw [sent_post]
    exact List.mem_append_left _ hother

/-- A login result is queued; a session that had one before keeps its uuid. -/
theorem Steady.answer (h : session.Steady) {uuid serialized : Bytes}
    (hsame : session.Answered → uuid = session.uuid) :
    ((session.setUUID uuid).post ⟨Protocol.loginResult uuid, serialized⟩).Steady := by
  constructor
  · intro other hother htype
    rw [sent_post] at hother
    rcases List.mem_append.mp hother with hother | hother
    · have huuid := hsame ⟨other, hother, htype⟩
      subst huuid
      exact h.answers other hother htype
    · rw [List.mem_singleton.mp hother]
      rfl
  · intro hunanswered
    refine absurd ⟨⟨Protocol.loginResult uuid, serialized⟩, ?_, rfl⟩ hunanswered
    rw [sent_post]
    exact List.mem_append_right _ (List.mem_singleton_self _)

end Session

/-! ## Steps -/

namespace Server

variable {lib : JsonLib}

/-- Every object is steady again, for example because it is the one from before. -/
theorem Steady.update {server : Server} (h : server.Steady) {index : ℕ}
    {change : Session → Session}
    (hchange : ∀ session, server.object index = some session → session.Steady →
      (change session).Steady) : (server.update index change).Steady := by
  intro other session hobject
  rw [object_update] at hobject
  split at hobject
  · next heq =>
    subst heq
    obtain ⟨before, hbefore, rfl⟩ := Option.map_eq_some_iff.mp hobject
    exact hchange before hbefore (h index before hbefore)
  · exact h other session hobject

theorem Steady.quiet {server : Server} (h : server.Steady) {index : ℕ} {before after : Session}
    (hobject : server.object index = some before) (hsame : Session.Same before after) :
    (server.update index fun _ ↦ after).Steady := by
  refine h.update fun session hsession hsteady ↦ ?_
  cases hobject.symm.trans hsession
  exact hsteady.same hsame.uuid hsame.sent

/-- A line is handled whose login, if there is one, fits the session it is answered on. -/
theorem Steady.handled (hlib : lib.Lawful) {server : Server} (h : server.Steady)
    (henrolled : server.Enrolled) {clientId : UInt8} {line : Bytes} {draw : UInt64 × UInt64}
    {io : SaveIO} {result : Server × Outcome Unit}
    (hlogin : ∀ user pass uuid target session, Requests lib line user pass →
      (login lib server.db user pass draw io).2 = .returned (some uuid) →
      server.sessions.find clientId = some (some target) →
      server.object target = some session → session.Answered → uuid = session.uuid)
    (hhandled : Handled lib server clientId line draw io result) : result.1.Steady := by
  cases hhandled with
  | ignored => exact h
  | refused => exact h
  | unregistered => exact h
  | null => exact h
  | unsent hrequest hlogged _ hserialize =>
    obtain ⟨huser, hpass⟩ := hrequest.valid hlib
    obtain ⟨acc, hfind, _, rfl⟩ := login_account hlogged
    have hvalid := (login_valid henrolled.valid huser hpass draw io _ acc hfind).uuid
    obtain ⟨serialized, hserialized⟩ :=
      Protocol.Message.serialize_ok lib (Protocol.wellFormed_loginResult hvalid)
    rw [hserialized] at hserialize
    cases hserialize
  | answered hrequest hlogged hfind =>
    rw [update_update]
    have hdatabase : ∀ db, ({ server with db := db } : Server).Steady := fun _ ↦ h
    refine (hdatabase _).update fun session hsession hsteady ↦ ?_
    exact hsteady.answer (hlogin _ _ _ _ session hrequest hlogged hfind hsession)

theorem Steady.served {server : Server} (h : server.Steady) {walk : List Bytes} {io : SaveIO}
    {clientId : UInt8} {result : Server × Outcome Unit}
    (hserved : Served lib server walk io clientId result) : result.1.Steady := by
  cases hserved with
  | idle | broken | unknown => exact h
  | unsaved => exact h
  | unsent => exact h
  | updated =>
    refine Steady.update h fun _ _ hsteady ↦ hsteady.post ?_
    exact (by decide : Protocol.msgResourceUpdate ≠ Protocol.msgLoginResult)

theorem Steady.register {server : Server} (h : server.Steady) (serialized : Bytes) :
    (server.register serialized).Steady := by
  intro index session hobject
  rw [object_register] at hobject
  split at hobject
  · cases hobject
    have hother : Protocol.msgAssignClientId ≠ Protocol.msgLoginResult := by decide
    refine ⟨fun packet hpacket htype ↦ ?_, fun _ ↦ rfl⟩
    rw [List.mem_singleton.mp hpacket] at htype
    exact absurd htype hother
  · exact h index session hobject

theorem step_steady (hlib : lib.Lawful) {server next : Server} {event : Event}
    (h : server.Steady) (henrolled : server.Enrolled) (hsame : server.SameLogin lib event)
    (hstep : server.step lib event = some next) : next.Steady := by
  refine step_invariant (fun server event ↦ server.Enrolled ∧ server.SameLogin lib event)
    ?_ ?_ ?_ ?_ ?_ ?_ h ⟨henrolled, hsame⟩ hstep
  · exact fun _ _ _ h ↦ h
  · exact fun h _ ↦ h.register _
  · exact fun h hobject hsame ↦ h.quiet hobject hsame
  · exact fun h _ ↦ h
  · intro server index draw io before after line result h hcondition hobject hline hhandled
    obtain ⟨henrolled, hsame⟩ := hcondition
    have htaken := Session.takeLine_same hline
    obtain ⟨_, rest, hcut, _⟩ := Session.takeLine_eq_some hline
    have hread : (server.update index fun _ ↦ after).Enrolled := by
      refine henrolled.update fun session hsession ↦ ?_
      cases hobject.symm.trans hsession
      exact htaken.uuid
    have hrecorded : ((server.update index fun _ ↦ after).record (.received index line)).Steady :=
      h.quiet hobject htaken
    refine hrecorded.handled hlib (hread.same rfl rfl) ?_ hhandled
    intro user pass uuid target session hrequest hlogged hfind htarget hanswered
    obtain ⟨answered, hobject', huuid, hsent⟩ : ∃ answered, server.object target = some answered ∧
        session.uuid = answered.uuid ∧ session.sent = answered.sent := by
      rw [record_object, object_update] at htarget
      split at htarget
      · next heq =>
        subst heq
        rw [hobject] at htarget
        cases htarget
        exact ⟨before, hobject, htaken.uuid, htaken.sent⟩
      · exact ⟨session, htarget, rfl, rfl⟩
    rw [Session.Answered, hsent] at hanswered
    obtain ⟨hknown, hadded⟩ := hsame before line rest user pass target answered hobject hcut
      (requests_iff_asks.mp hrequest) hfind hobject' hanswered
    rw [huuid]
    rcases login_uuid hlogged with ⟨acc, hacc, hpassword, rfl⟩ | ⟨hnone, hsaves, rfl⟩
    · exact hknown acc hacc hpassword
    · exact hadded hnone hsaves
  · intro server order walk io h _ _ status _
    refine serveAll_rule (fun _ next ↦ next.Steady)
      (fun result ↦ ({ result.1 with status := status } : Server).Steady) (fun _ h ↦ h) ?_ h
    intro clientId rest next result h hserved
    have hserved := h.served hserved
    split
    · exact hserved
    · exact hserved

end Server

end NetPixeld
