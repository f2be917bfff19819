import NetPixeld.Server.Enrolled
import NetPixeld.Server.Persistence

/-!
# Handling one line

A line that asks for a login the store accepts logs its session in, queues the reply on it and, for
a new user, adds one account. Every other line only leaves the buffer of its session. In both cases
the handler ends without an exception and the read is armed again. The file operations of the saves
succeed here.
-/

namespace NetPixeld

/-- The read goes on behind a line. -/
def Session.rearm (session : Session) (rest : Bytes) : Session :=
  { session with incoming := rest, reading := true }

namespace Server

/-! ## Lines -/

/-- A line is a login request with the string fields `id` and `password`. -/
def Asks (lib : JsonLib) (line user pass : Bytes) : Prop :=
  ∃ msg members, Protocol.readLine lib line = .ok msg ∧ msg.type = Protocol.msgLoginRequest ∧
    msg.payload = .obj members ∧ Items.find (text "id") members = some (.str user) ∧
    Items.find (text "password") members = some (.str pass)

/-- The user does not exist, or the password is the stored one. -/
def Accepts (accounts : Accounts) (user pass : Bytes) : Prop :=
  ∀ acc, accounts.find user = some acc → acc.password = pass

/-- The uuid a login gives, and the store after it. -/
inductive Admitted (lib : JsonLib) (db : JsonDB) (user pass : Bytes) (draw : UInt64 × UInt64) :
    Bytes → JsonDB → Prop
  | known {acc : Account} (hfind : db.accounts.find user = some acc)
      (hpassword : acc.password = pass) : Admitted lib db user pass draw acc.uuid db
  /-- One account more, in memory and in the file. -/
  | added {files : Files} (hfind : db.accounts.find user = none)
      (hloaded : JsonDB.load lib files.target = .ok (db.accounts.insert user
        { password := pass, uuid := JsonDB.generateUuid draw })) :
      Admitted lib db user pass draw (JsonDB.generateUuid draw)
        ⟨db.accounts.insert user { password := pass, uuid := JsonDB.generateUuid draw }, files⟩

/-- The server after a line was taken out of a buffer and did nothing. -/
def skipped (server : Server) (index : ℕ) (session : Session) (line rest : Bytes) : Server :=
  (server.update index fun _ ↦ session.rearm rest).record (.received index line)

/-- The server after a line logged a session in. -/
def admitted (server : Server) (index : ℕ) (answered : Session) (line : Bytes) (db : JsonDB) :
    Server :=
  { (server.update index fun _ ↦ answered).record (.received index line) with db := db }

/-- A session that took a line, got the uuid and queued the answer; nothing else changed. -/
structure Answered (lib : JsonLib) (session answered : Session) (rest uuid : Bytes) : Prop where
  loggedIn : answered.uuid = uuid
  replied : ∃ reply, (Protocol.loginResult uuid).serialize lib = .ok reply ∧
    answered.sent = session.sent ++ [⟨Protocol.loginResult uuid, reply⟩]
  others : answered = { session with
    reading := true
    incoming := rest
    uuid := answered.uuid
    posted := answered.posted }

/-- What handling a line does. -/
structure LineHandled (lib : JsonLib) (server : Server) (index : ℕ) (session : Session)
    (line rest : Bytes) (draw : UInt64 × UInt64) (next : Server) : Prop where
  running : next.status = .running
  rearmed : (next.object index).map Session.reading = some true
  accepted : ∀ user pass, Asks lib line user pass → Accepts server.db.accounts user pass →
    ∃ uuid db answered, Admitted lib server.db user pass draw uuid db ∧
      Answered lib session answered rest uuid ∧ next = server.admitted index answered line db
  rejected : (∀ user pass, Asks lib line user pass → ¬Accepts server.db.accounts user pass) →
    next = server.skipped index session line rest

/-- The file operations of the saves of an event succeed. -/
def Event.Saves : Event → Prop
  | .readDone _ _ io => io = {}
  | .tick _ _ io => ∀ clientId, io clientId = {}
  | _ => True

theorem requests_iff_asks {lib : JsonLib} {line user pass : Bytes} :
    Requests lib line user pass ↔ Asks lib line user pass := by
  constructor
  · rintro ⟨msg, hread, htype, hcredentials⟩
    obtain ⟨members, hmembers, hid, hpassword⟩ := credentials_eq_ok_iff.mp hcredentials
    exact ⟨msg, members, hread, htype, hmembers, hid, hpassword⟩
  · rintro ⟨msg, members, hread, htype, hmembers, hid, hpassword⟩
    exact ⟨msg, hread, htype, credentials_eq_ok_iff.mpr ⟨members, hmembers, hid, hpassword⟩⟩

/-! ## The store -/

section Login

variable {lib : JsonLib} {db : JsonDB} {user pass : Bytes} (draw : UInt64 × UInt64)

theorem login_accepted (hlib : lib.Lawful) (hvalid : JsonDB.Valid db.accounts)
    (huser : Utf8.Valid user) (hpass : Utf8.Valid pass) (h : Accepts db.accounts user pass) :
    ∃ uuid next, login lib db user pass draw {} = (next, .returned (some uuid)) ∧
      Utf8.Valid uuid ∧ Admitted lib db user pass draw uuid next := by
  unfold login JsonDB.userExists
  cases hfind : db.accounts.find user with
  | some acc =>
    have hpassword := h acc hfind
    refine ⟨acc.uuid, db, ?_, (hvalid user acc hfind).uuid, .known hfind hpassword⟩
    simp [JsonDB.verifyUser, JsonDB.getUser, hfind, hpassword, Outcome.ofExcept, Outcome.map]
  | none =>
    have hacc : JsonDB.AccountValid user
        { password := pass, uuid := JsonDB.generateUuid draw } := by
      refine ⟨huser, hpass, JsonDB.generateUuid_valid draw, fun camp level hlevel ↦ ?_⟩
      cases hlevel
    obtain ⟨files, hcommit, hsaved⟩ :=
      JsonDB.commit_ok hlib db (JsonDB.valid_insert hvalid hacc)
    refine ⟨_, _, ?_, JsonDB.generateUuid_valid draw, .added hfind hsaved.loaded⟩
    simp [JsonDB.addUser, hfind, hcommit, Outcome.map]

theorem login_rejected (h : ¬Accepts db.accounts user pass) (io : SaveIO) :
    login lib db user pass draw io = (db, .returned none) := by
  simp only [Accepts, not_forall] at h
  obtain ⟨acc, hfind, hpassword⟩ := h
  simp [login, JsonDB.userExists, JsonDB.verifyUser, hfind, hpassword]

end Login

/-! ## The handler -/

section OnLine

variable {lib : JsonLib} {server : Server} {clientId : UInt8} {line : Bytes}
  (draw : UInt64 × UInt64)

/-- A line that asks for nothing, or for what the store refuses, changes nothing. -/
theorem onLine_rejected (io : SaveIO)
    (h : ∀ user pass, Asks lib line user pass → ¬Accepts server.db.accounts user pass) :
    guarded (server.onLine lib clientId line draw io) = server := by
  unfold onLine
  split
  · rfl
  next msg hread =>
  unfold onClientMessage
  split
  swap
  · rfl
  next htype =>
  unfold onLoginRequest
  split
  · rfl
  next user pass hcredentials =>
  have hasks : Asks lib line user pass := requests_iff_asks.mp ⟨msg, hread, htype, hcredentials⟩
  rw [login_rejected draw (h user pass hasks) io]
  rfl

/-- A line that asks for a login of the session registered under the id. -/
theorem onLine_accepted {user pass uuid answer : Bytes} {index : ℕ} {db : JsonDB} {io : SaveIO}
    (hasks : Asks lib line user pass)
    (hlogin : login lib server.db user pass draw io = (db, .returned (some uuid)))
    (hentry : server.sessions.find clientId = some (some index))
    (hanswer : (Protocol.loginResult uuid).serialize lib = .ok answer) :
    server.onLine lib clientId line draw io =
      (({ server with db := db } : Server).update index fun session ↦
        (session.setUUID uuid).post ⟨Protocol.loginResult uuid, answer⟩, .returned ()) := by
  obtain ⟨msg, hread, htype, hcredentials⟩ := requests_iff_asks.mpr hasks
  simp only [onLine, hread, onClientMessage, htype, if_true, onLoginRequest, hcredentials, hlogin,
    reply, getSession, hentry, sendToClient, update_sessions, send, hanswer, update_update]

end OnLine

/-- One line read from a session registered under its id, with a successful save. -/
theorem readDone_handled {lib : JsonLib} (hlib : lib.Lawful) {server next : Server}
    (henrolled : server.Enrolled) {index : ℕ} {session : Session} {draw : UInt64 × UInt64}
    (hobject : server.object index = some session)
    (hentry : server.sessions.find session.clientId = some (some index))
    (hstep : server.step lib (.readDone index draw {}) = some next) :
    ∃ line rest, Lines.cut newline session.incoming = some (line, rest) ∧
      LineHandled lib server index session line rest draw next := by
  obtain ⟨hrunning, _⟩ := step_stepped hstep
  simp only [step, hrunning, if_true, readDone] at hstep
  obtain ⟨session', hobject', hstep⟩ := Option.bind_eq_some_iff.mp hstep
  cases hobject.symm.trans hobject'
  obtain ⟨⟨line, after⟩, hline, hstep⟩ := Option.bind_eq_some_iff.mp hstep
  obtain ⟨rest, hcut, rfl⟩ : ∃ rest, Lines.cut newline session.incoming = some (line, rest) ∧
      after = session.rearm rest := by
    obtain ⟨hreading, rest, hcut, rfl⟩ := Session.takeLine_eq_some hline
    exact ⟨rest, hcut, by rw [Session.rearm, ← hreading]⟩
  have hnext : guarded ((server.skipped index session line rest).onLine lib session.clientId line
      draw {}) = next := Option.some.inj hstep
  have haccepted : ∀ user pass, Asks lib line user pass → Accepts server.db.accounts user pass →
      ∃ uuid db answered, Admitted lib server.db user pass draw uuid db ∧
        Answered lib session answered rest uuid ∧
        next = server.admitted index answered line db := by
    intro user pass hasks haccepts
    obtain ⟨huser, hpass⟩ := (requests_iff_asks.mpr hasks).valid hlib
    obtain ⟨uuid, db, hlogin, huuid, hadmitted⟩ :=
      login_accepted draw hlib henrolled.valid huser hpass haccepts
    obtain ⟨answer, hanswer⟩ :=
      Protocol.Message.serialize_ok lib (Protocol.wellFormed_loginResult huuid)
    have hline : (server.skipped index session line rest).onLine lib session.clientId line draw {} =
      _ := onLine_accepted draw hasks hlogin hentry hanswer
    refine ⟨uuid, db, ((session.rearm rest).setUUID uuid).post ⟨Protocol.loginResult uuid, answer⟩,
      hadmitted, ⟨rfl, ⟨answer, hanswer, Session.sent_post ..⟩, rfl⟩, ?_⟩
    rw [← hnext, hline]
    simp only [guarded, conclude, skipped, admitted, record, update, List.modify_modify_eq]
    rfl
  have hrejected : (∀ user pass, Asks lib line user pass →
      ¬Accepts server.db.accounts user pass) → next = server.skipped index session line rest := by
    intro h
    have hline : guarded ((server.skipped index session line rest).onLine lib session.clientId line
      draw {}) = _ := onLine_rejected draw {} h
    exact hnext.symm.trans hline
  have hends : next.status = .running ∧ (next.object index).map Session.reading = some true := by
    by_cases h : ∀ user pass, Asks lib line user pass → ¬Accepts server.db.accounts user pass
    · rw [hrejected h]
      exact ⟨hrunning, by simp [skipped, hobject, Session.rearm]⟩
    · simp only [not_forall, not_not] at h
      obtain ⟨user, pass, hasks, haccepts⟩ := h
      obtain ⟨uuid, db, answered, _, hanswered, hnext⟩ := haccepted user pass hasks haccepts
      rw [hnext]
      refine ⟨hrunning, ?_⟩
      change ((server.update index _).object index).map Session.reading = some true
      rw [hanswered.others]
      simp [hobject]
  exact ⟨line, rest, hcut, hends.1, hends.2, haccepted, hrejected⟩

/-! ## Runs whose saves succeed -/

theorem login_saved {lib : JsonLib} (hlib : lib.Lawful) {db : JsonDB} (hsaved : db.Saved lib)
    {user pass : Bytes} (huser : Utf8.Valid user) (hpass : Utf8.Valid pass)
    (draw : UInt64 × UInt64) : (login lib db user pass draw {}).1.Saved lib := by
  by_cases h : Accepts db.accounts user pass
  · obtain ⟨uuid, next, hlogin, _, hadmitted⟩ :=
      login_accepted draw hlib hsaved.valid huser hpass h
    have hvalid : JsonDB.Valid (login lib db user pass draw {}).1.accounts :=
      login_valid hsaved.valid huser hpass draw {}
    rw [hlogin] at hvalid ⊢
    cases hadmitted with
    | known => exact hsaved
    | added hfind hloaded => exact ⟨hvalid, hloaded⟩
  · rw [login_rejected draw h]
    exact hsaved

theorem Handled.saved {lib : JsonLib} (hlib : lib.Lawful) {server : Server}
    (hsaved : server.db.Saved lib) {clientId : UInt8} {line : Bytes} {draw : UInt64 × UInt64}
    {result : Server × Outcome Unit} (h : Handled lib server clientId line draw {} result) :
    result.1.db.Saved lib := by
  have hlogin : ∀ {user pass}, Requests lib line user pass →
      (login lib server.db user pass draw {}).1.Saved lib := by
    intro user pass hrequest
    obtain ⟨huser, hpass⟩ := hrequest.valid hlib
    exact login_saved hlib hsaved huser hpass draw
  cases h with
  | ignored => exact hsaved
  | refused hrequest | unregistered hrequest | null hrequest | unsent hrequest
  | answered hrequest => exact hlogin hrequest

theorem Served.saved {lib : JsonLib} (hlib : lib.Lawful) {server : Server}
    (hsaved : server.db.Saved lib) {walk : List Bytes} {clientId : UInt8}
    {result : Server × Outcome Unit} (h : Served lib server walk {} clientId result) :
    result.1.db.Saved lib := by
  have hcollected : ∀ uuid pool, (server.collected lib walk {} clientId uuid pool).db.Saved lib :=
    fun uuid pool ↦ (JsonDB.modifyAccount_refines hlib hsaved walk uuid
      (fun acc ↦ { acc with resources := pool })
      fun hacc ↦ ⟨hacc.username, hacc.password, hacc.uuid, hacc.camps⟩).1
  cases h with
  | idle | broken | unknown => exact hsaved
  | unsaved | unsent | updated => exact hcollected _ _

/-- As long as the saves succeed, the file is the store. -/
theorem step_saved {lib : JsonLib} (hlib : lib.Lawful) {server next : Server} {event : Event}
    (hsaved : server.db.Saved lib) (hevent : event.Saves)
    (hstep : server.step lib event = some next) : next.db.Saved lib := by
  refine @step_invariant lib (fun server ↦ server.db.Saved lib) (fun _ event ↦ event.Saves)
    ?_ ?_ ?_ ?_ ?_ ?_ server next event hsaved hevent hstep
  · exact fun _ _ _ h ↦ h
  · exact fun h _ ↦ h
  · exact fun h _ _ ↦ h
  · exact fun h _ ↦ h
  · intro server index draw io before after line result h hio _ _ hhandled
    have hdefault : io = {} := hio
    subst hdefault
    have hread : ((server.update index fun _ ↦ after).record (.received index line)).db.Saved lib :=
      h
    exact hhandled.saved hlib hread
  · intro server order walk io h hio _ status _
    refine serveAll_rule (fun _ next ↦ next.db.Saved lib) (fun result ↦ result.1.db.Saved lib)
      (fun _ h ↦ h) ?_ h
    intro clientId rest next result h hserved
    have hdefault : io clientId = {} := hio clientId
    rw [hdefault] at hserved
    have hnext := hserved.saved hlib h
    split
    · exact hnext
    · exact hnext

theorem saved_run {lib : JsonLib} (hlib : lib.Lawful) {files : Files} {server final : Server}
    (hstart : start lib files = .ok server) {events : List Event}
    (hevents : ∀ event ∈ events, event.Saves)
    (hrun : Transition.run (step lib) server events = some final) : final.db.Saved lib := by
  refine Transition.invariant_run_of_always (step_saved hlib) ?_
    (Transition.always_of_forall (fun event hevent _ ↦ hevents event hevent) server) hrun
  obtain ⟨db, hdb, rfl⟩ := map_eq_ok.mp hstart
  obtain ⟨accounts, hload, rfl⟩ := map_eq_ok.mp hdb
  exact ⟨JsonDB.load_valid hlib hload, hload⟩

/-! ## Every line -/

/-- Whatever line is read from a session registered under its id: a login that the store accepts
logs that session in, everything else only empties its buffer, and the file stays the store as long
as the saves succeed. -/
theorem line_handled {lib : JsonLib} (hlib : lib.Lawful) {files : Files}
    {first server next : Server} (hstart : start lib files = .ok first) {events : List Event}
    (hrun : Transition.run (step lib) first events = some server) {index : ℕ} {session : Session}
    (hobject : server.object index = some session)
    (hentry : server.sessions.find session.clientId = some (some index))
    {draw : UInt64 × UInt64} (hstep : server.step lib (.readDone index draw {}) = some next) :
    (∃ line rest, Lines.cut newline session.incoming = some (line, rest) ∧
      LineHandled lib server index session line rest draw next) ∧
    ((∀ event ∈ events, event.Saves) →
      JsonDB.load lib server.db.files.target = .ok server.db.accounts ∧
      JsonDB.load lib next.db.files.target = .ok next.db.accounts) := by
  refine ⟨readDone_handled hlib (enrolled_run hlib hstart hrun) hobject hentry hstep,
    fun hevents ↦ ?_⟩
  have hsaved := saved_run hlib hstart hevents hrun
  exact ⟨hsaved.loaded, (step_saved hlib hsaved (by rfl) hstep).loaded⟩

/-- The first login of a new user on a new connection. -/
theorem line_handled_login :
    ∃ server session next, Transition.run (step JsonLib.reference) {}
        [.accept, .receive 0 (((Protocol.loginRequest (text "ana") (text "pass")).serialize
          JsonLib.reference).toOption.getD [])] = some server ∧
      server.object 0 = some session ∧
      server.step JsonLib.reference (.readDone 0 (1, 2) {}) = some next ∧
      (∃ line rest, Lines.cut newline session.incoming = some (line, rest) ∧
        LineHandled JsonLib.reference server 0 session line rest (1, 2) next) ∧
      JsonDB.load JsonLib.reference next.db.files.target = .ok next.db.accounts := by
  let login : Bytes := ((Protocol.loginRequest (text "ana") (text "pass")).serialize
    JsonLib.reference).toOption.getD []
  have hbefore : (Transition.run (step JsonLib.reference) {} [.accept, .receive 0 login]).map
      (fun server ↦ ((server.object 0).map Session.clientId, server.sessions.find 1,
        (server.step JsonLib.reference (.readDone 0 (1, 2) {})).isSome)) =
      some (some 1, some (some 0), true) := by decide +kernel
  obtain ⟨server, hrun, hserver⟩ := Option.map_eq_some_iff.mp hbefore
  simp only [Prod.mk.injEq, Option.map_eq_some_iff] at hserver
  obtain ⟨⟨session, hobject, hclientId⟩, hentry, hsome⟩ := hserver
  obtain ⟨next, hstep⟩ := Option.isSome_iff_exists.mp hsome
  have hstart : start JsonLib.reference {} = .ok {} := rfl
  obtain ⟨hline, hsaved⟩ := line_handled JsonLib.reference_lawful hstart hrun hobject
    (hclientId ▸ hentry) hstep
  refine ⟨server, session, next, hrun, hobject, hstep, hline, (hsaved ?_).2⟩
  intro event hevent
  rcases List.mem_cons.mp hevent with rfl | hevent
  · trivial
  · cases List.mem_singleton.mp hevent
    trivial

end Server

end NetPixeld
