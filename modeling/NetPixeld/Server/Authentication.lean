import NetPixeld.Server.Registry

/-!
# Authentication

The handler of a login reaches its session only through the client id. As long as the id of the
connection that asks is not registered for another session, a session is logged in, and is told a
uuid, only after its own connection named that account and its password.
-/

namespace NetPixeld.Server

/-- A line read from the connection of a session named the account of a uuid and its password. -/
def Grants (lib : JsonLib) (server : Server) (index : ℕ) (uuid : Bytes) : Prop :=
  ∃ line user acc, Action.received index line ∈ server.log ∧ Requests lib line user acc.password ∧
    server.db.accounts.find user = some acc ∧ acc.uuid = uuid

/-- A message is a login result with a uuid. -/
def Carries (message : Protocol.Message) (uuid : Bytes) : Prop :=
  message.type = Protocol.msgLoginResult ∧
    ∃ found, message.payload.atKey (text "uuid") = .ok found ∧ found.getString = .ok uuid

/-- A session is logged in, and told a uuid, only by its own connection. -/
def Authenticated (lib : JsonLib) (server : Server) : Prop :=
  ∀ index session, server.object index = some session →
    (session.uuid ≠ [] → server.Grants lib index session.uuid) ∧
      ∀ packet ∈ session.sent, ∀ uuid, Carries packet.message uuid → server.Grants lib index uuid

/-- A login is read from a connection whose id is not registered for another session. -/
def LoginOwn (lib : JsonLib) (server : Server) (event : Event) : Prop :=
  ∀ index draw io session line next user pass uuid other, event = .readDone index draw io →
    server.object index = some session → session.takeLine = some (line, next) →
    Requests lib line user pass →
    (login lib server.db user pass draw io).2 = .returned (some uuid) →
    server.sessions.find session.clientId = some (some other) → other = index

/-! ## The store during a login -/

/-- The uuid a login gives is that of the account with the given name and password. -/
theorem login_account {lib : JsonLib} {db : JsonDB} {user pass uuid : Bytes}
    {draw : UInt64 × UInt64} {io : SaveIO}
    (h : (login lib db user pass draw io).2 = .returned (some uuid)) :
    ∃ acc, (login lib db user pass draw io).1.accounts.find user = some acc ∧
      acc.password = pass ∧ acc.uuid = uuid := by
  unfold login at h ⊢
  unfold JsonDB.userExists at h ⊢
  cases hfind : db.accounts.find user with
  | some acc =>
    simp only [hfind, Option.isSome_some, if_true] at h ⊢
    split at h
    · next hverify =>
      have hpassword : acc.password = pass := by simpa [JsonDB.verifyUser, hfind] using hverify
      refine ⟨acc, by rw [if_pos hverify, hfind], hpassword, ?_⟩
      simpa [JsonDB.getUser, hfind, hpassword, Outcome.ofExcept, Outcome.map] using h
    · cases h
  | none =>
    simp only [hfind, Option.isSome_none, Bool.false_eq_true, if_false] at h ⊢
    obtain ⟨added, hadded, huuid⟩ := Outcome.map_eq_returned.mp h
    refine ⟨_, by rw [db.addUser_accounts lib pass draw io hfind, SortedMap.find_insert_self],
      rfl, ?_⟩
    simp only [JsonDB.addUser, hfind, Option.isSome_none, Bool.false_eq_true, if_false] at hadded
    obtain ⟨_, _, hgenerated⟩ := Outcome.map_eq_returned.mp hadded
    exact hgenerated.trans (Option.some.inj huuid)

theorem login_kept (lib : JsonLib) (db : JsonDB) (user pass : Bytes) (draw : UInt64 × UInt64)
    (io : SaveIO) :
    JsonDB.Kept db.accounts.find (login lib db user pass draw io).1.accounts.find := by
  unfold login JsonDB.userExists
  cases hfind : db.accounts.find user with
  | some acc =>
    simp only [Option.isSome_some, if_true]
    split
    · exact .refl _
    · exact .refl _
  | none =>
    simp only [Option.isSome_none, Bool.false_eq_true, if_false]
    rw [db.addUser_accounts lib pass draw io hfind]
    refine JsonDB.kept_insert fun acc hacc ↦ ?_
    cases hfind.symm.trans hacc

/-! ## Authentication is kept -/

variable {lib : JsonLib}

theorem Grants.mono {server next : Server} {index : ℕ} {uuid : Bytes}
    (h : server.Grants lib index uuid) (hlog : ∀ action ∈ server.log, action ∈ next.log)
    (hkept : JsonDB.Kept server.db.accounts.find next.db.accounts.find) :
    next.Grants lib index uuid := by
  obtain ⟨line, user, acc, hline, hrequest, hfind, huuid⟩ := h
  obtain ⟨acc', hfind', huuid', hpassword⟩ := hkept user acc hfind
  exact ⟨line, user, acc', hlog _ hline, hpassword ▸ hrequest, hfind', huuid'.trans huuid⟩

/-- Authentication is kept when every session keeps its uuid and gets no login result. -/
theorem Authenticated.of_objects {server next : Server} (h : Authenticated lib server)
    (hlog : ∀ action ∈ server.log, action ∈ next.log)
    (hkept : JsonDB.Kept server.db.accounts.find next.db.accounts.find)
    (hobjects : ∀ index session', next.object index = some session' →
      ∃ session, server.object index = some session ∧ session'.uuid = session.uuid ∧
        ∀ packet ∈ session'.sent, packet ∈ session.sent ∨
          packet.message.type ≠ Protocol.msgLoginResult) :
    Authenticated lib next := by
  intro index session' hobject'
  obtain ⟨session, hobject, huuid, hsent⟩ := hobjects index session' hobject'
  obtain ⟨hlogged, htold⟩ := h index session hobject
  refine ⟨fun hne ↦ ?_, fun packet hpacket uuid hcarries ↦ ?_⟩
  · rw [huuid] at hne ⊢
    exact (hlogged hne).mono hlog hkept
  · rcases hsent packet hpacket with hold | hother
    · exact (htold packet hold uuid hcarries).mono hlog hkept
    · exact absurd hcarries.1 hother

/-- Changing one session needs a look at that session only. -/
theorem Authenticated.update {server : Server} (h : Authenticated lib server) {index : ℕ}
    {change : Session → Session}
    (hchange : ∀ session, server.object index = some session →
      ((change session).uuid ≠ [] → server.Grants lib index (change session).uuid) ∧
        ∀ packet ∈ (change session).sent, ∀ uuid, Carries packet.message uuid →
          server.Grants lib index uuid) :
    Authenticated lib (server.update index change) := by
  intro other session hobject
  rw [object_update] at hobject
  split at hobject
  · next heq =>
    subst heq
    obtain ⟨before, hbefore, rfl⟩ := Option.map_eq_some_iff.mp hobject
    exact hchange before hbefore
  · exact h other session hobject

theorem Authenticated.quiet {server : Server} (h : Authenticated lib server) {index : ℕ}
    {before after : Session} (hobject : server.object index = some before)
    (hsame : Session.Same before after) :
    Authenticated lib (server.update index fun _ ↦ after) := by
  refine h.update fun session _ ↦ ?_
  rw [hsame.uuid, hsame.sent]
  exact h index before hobject

theorem Authenticated.record {server : Server} (h : Authenticated lib server) (action : Action) :
    Authenticated lib (server.record action) :=
  h.of_objects (fun _ haction ↦ List.mem_append_left _ haction) (.refl _)
    fun _ session hobject ↦ ⟨session, hobject, rfl, fun _ hpacket ↦ Or.inl hpacket⟩

theorem Authenticated.database {server : Server} (h : Authenticated lib server) {db : JsonDB}
    (hkept : JsonDB.Kept server.db.accounts.find db.accounts.find) :
    Authenticated lib { server with db := db } :=
  h.of_objects (fun _ haction ↦ haction) hkept
    fun _ session hobject ↦ ⟨session, hobject, rfl, fun _ hpacket ↦ Or.inl hpacket⟩

/-- Logging a session in. -/
theorem Authenticated.setUUID {server : Server} (h : Authenticated lib server) {index : ℕ}
    {uuid : Bytes} (hgrants : server.Grants lib index uuid) :
    Authenticated lib (server.update index (Session.setUUID uuid)) :=
  h.update fun session hobject ↦ ⟨fun _ ↦ hgrants, (h index session hobject).2⟩

theorem carries_loginResult {uuid other : Bytes} (h : Carries (Protocol.loginResult uuid) other) :
    other = uuid := by
  obtain ⟨_, found, hfound, hstring⟩ := h
  cases hfound
  cases hstring
  rfl

/-- Queueing a login result for an account the session may know. -/
theorem Authenticated.tell {server : Server} (h : Authenticated lib server) {index : ℕ}
    {uuid serialized : Bytes} (hgrants : server.Grants lib index uuid) :
    Authenticated lib
      (server.update index (·.post ⟨Protocol.loginResult uuid, serialized⟩)) := by
  refine h.update fun session hobject ↦ ⟨(h index session hobject).1, fun packet hpacket ↦ ?_⟩
  rw [Session.sent_post] at hpacket
  rcases List.mem_append.mp hpacket with hold | hnew
  · exact (h index session hobject).2 packet hold
  · cases List.mem_singleton.mp hnew
    intro other hcarries
    rw [carries_loginResult hcarries]
    exact hgrants

/-- Queueing a message that is no login result. -/
theorem Authenticated.post {server : Server} (h : Authenticated lib server) {index : ℕ}
    {packet : Packet} (htype : packet.message.type ≠ Protocol.msgLoginResult) :
    Authenticated lib (server.update index (·.post packet)) := by
  refine h.update fun session hobject ↦ ⟨(h index session hobject).1, fun other hother ↦ ?_⟩
  rw [Session.sent_post] at hother
  rcases List.mem_append.mp hother with hold | hnew
  · exact (h index session hobject).2 other hold
  · cases List.mem_singleton.mp hnew
    intro uuid hcarries
    exact absurd hcarries.1 htype

/-! ## Steps -/

/-- A line keeps authentication when the id it is handled for belongs to its own connection. -/
theorem Authenticated.handled {server : Server} (h : Authenticated lib server) {index : ℕ}
    {clientId : UInt8} {line : Bytes} {draw : UInt64 × UInt64} {io : SaveIO}
    {result : Server × Outcome Unit} (hline : Action.received index line ∈ server.log)
    (hown : ∀ user pass uuid other, Requests lib line user pass →
      (login lib server.db user pass draw io).2 = .returned (some uuid) →
      server.sessions.find clientId = some (some other) → other = index)
    (hhandled : Handled lib server clientId line draw io result) :
    Authenticated lib result.1 := by
  have hdatabase := fun user pass ↦ h.database (login_kept lib server.db user pass draw io)
  have hgrants : ∀ {user pass uuid}, Requests lib line user pass →
      (login lib server.db user pass draw io).2 = .returned (some uuid) →
      Grants lib { server with db := (login lib server.db user pass draw io).1 } index uuid := by
    intro user pass uuid hrequest hlogin
    obtain ⟨acc, hfind, rfl, huuid⟩ := login_account hlogin
    exact ⟨line, user, acc, hline, hrequest, hfind, huuid⟩
  cases hhandled with
  | ignored => exact h
  | refused => exact hdatabase _ _
  | unregistered => exact hdatabase _ _
  | null => exact hdatabase _ _
  | unsent hrequest hlogin hfind =>
    cases hown _ _ _ _ hrequest hlogin hfind
    exact (hdatabase _ _).setUUID (hgrants hrequest hlogin)
  | answered hrequest hlogin hfind =>
    cases hown _ _ _ _ hrequest hlogin hfind
    exact ((hdatabase _ _).setUUID (hgrants hrequest hlogin)).tell (hgrants hrequest hlogin)

theorem Authenticated.served {server : Server} (h : Authenticated lib server) {walk : List Bytes}
    {io : SaveIO} {clientId : UInt8} {result : Server × Outcome Unit}
    (hserved : Served lib server walk io clientId result) : Authenticated lib result.1 := by
  have hcollected : ∀ uuid pool,
      Authenticated lib (server.collected lib walk io clientId uuid pool) := fun uuid pool ↦
    h.database (JsonDB.modifyAccount_kept lib server.db walk uuid
      (fun acc ↦ { acc with resources := pool }) (fun _ ↦ ⟨rfl, rfl⟩) io)
  have htype : Protocol.msgResourceUpdate ≠ Protocol.msgLoginResult := by decide
  cases hserved with
  | idle | broken | unknown => exact h
  | unsaved => exact hcollected _ _
  | unsent => exact (hcollected _ _).record _
  | updated => exact ((hcollected _ _).record _).post htype

theorem Authenticated.register {server : Server} (h : Authenticated lib server)
    (serialized : Bytes) : Authenticated lib (server.register serialized) := by
  intro index session hobject
  have hlog : ∀ action ∈ server.log, action ∈ (server.register serialized).log :=
    fun action haction ↦ List.mem_append_left _ haction
  rw [object_register] at hobject
  split at hobject
  · cases hobject
    have htype : Protocol.msgAssignClientId ≠ Protocol.msgLoginResult := by decide
    refine ⟨fun hne ↦ absurd rfl hne, fun packet hpacket uuid hcarries ↦ ?_⟩
    cases List.mem_singleton.mp hpacket
    exact absurd hcarries.1 htype
  · obtain ⟨hlogged, htold⟩ := h index session hobject
    exact ⟨fun hne ↦ (hlogged hne).mono hlog (.refl _), fun packet hpacket uuid hcarries ↦
      (htold packet hpacket uuid hcarries).mono hlog (.refl _)⟩

theorem step_authenticated {server next : Server} {event : Event}
    (h : Authenticated lib server) (hown : LoginOwn lib server event)
    (hstep : server.step lib event = some next) : Authenticated lib next := by
  refine step_invariant (LoginOwn lib) ?_ ?_ ?_ ?_ ?_ ?_ h hown hstep
  · exact fun _ _ _ h ↦ h
  · exact fun h _ ↦ h.register _
  · exact fun h hobject hsame ↦ h.quiet hobject hsame
  · intro server index session h _
    exact h.of_objects (fun _ haction ↦ List.mem_append_left _ haction) (.refl _)
      fun _ session hobject ↦ ⟨session, hobject, rfl, fun _ hpacket ↦ Or.inl hpacket⟩
  · intro server index draw io before after line result h hown hobject hline hhandled
    refine ((h.quiet hobject (Session.takeLine_same hline)).record (.received index line)).handled
      (List.mem_append_right _ (List.mem_singleton_self _)) ?_ hhandled
    exact fun user pass uuid other hrequest hlogin hfind ↦
      hown index draw io before line after user pass uuid other rfl hobject hline hrequest hlogin
        hfind
  · intro server order walk io h _ _ status _
    refine serveAll_rule (fun _ next ↦ Authenticated lib next)
      (fun result ↦ Authenticated lib { result.1 with status := status }) (fun _ h ↦ h) ?_ h
    intro clientId rest next result h hserved
    split
    · exact h.served hserved
    · exact h.served hserved

/-! ## Runs -/

theorem Fresh.authenticated {server : Server} (h : server.Fresh) : Authenticated lib server := by
  obtain ⟨db, rfl⟩ := h
  intro index session hobject
  cases hobject

/-- As long as logins are read from connections whose id is their own, every session is logged in,
and told a uuid, only by its own connection. -/
theorem authenticated_of_loginOwn {files : Files} {server : Server}
    (hstart : start lib files = .ok server) {events : List Event}
    (hown : Transition.Always (step lib) (LoginOwn lib) server events) {visited : Server}
    (hvisited : Transition.Visited (step lib) server events visited) :
    Authenticated lib visited := by
  obtain ⟨before, after, rfl, hrun⟩ := hvisited
  exact Transition.invariant_run_of_always step_authenticated (fresh_of_start hstart).authenticated
    (Transition.always_of_append hown) hrun

/-- A login on the only connection. -/
theorem authenticated_of_loginOwn_single :
    ∃ server visited, start JsonLib.reference {} = .ok server ∧
      Transition.Visited (step JsonLib.reference) server
        [.accept, .receive 0 (((Protocol.loginRequest (text "ana") (text "pass")).serialize
          JsonLib.reference).toOption.getD []), .readDone 0 (1, 2) {}] visited ∧
      ((visited.object 0).map fun session ↦ session.uuid.isEmpty) = some false ∧
      Authenticated JsonLib.reference visited := by
  let login : Bytes := ((Protocol.loginRequest (text "ana") (text "pass")).serialize
    JsonLib.reference).toOption.getD []
  have hrun : (Transition.run (step JsonLib.reference) { db := {} }
      [.accept, .receive 0 login, .readDone 0 (1, 2) {}]).map
      (fun final ↦ (final.object 0).map fun session ↦ session.uuid.isEmpty) =
      some (some false) := by
    decide +kernel
  have hbefore : (Transition.run (step JsonLib.reference) { db := {} }
      [.accept, .receive 0 login]).map
      (fun middle ↦ ((middle.object 0).map Session.clientId, middle.sessions.find 1)) =
      some (some 1, some (some 0)) := by
    decide +kernel
  obtain ⟨final, hfinal, hlogged⟩ := Option.map_eq_some_iff.mp hrun
  have hvisited := Transition.visited_final hfinal
  have hown : Transition.Always (step JsonLib.reference) (LoginOwn JsonLib.reference) { db := {} }
      [.accept, .receive 0 login, .readDone 0 (1, 2) {}] := by
    refine ⟨fun index draw io session line next user pass uuid other hevent ↦ (by cases hevent),
      fun first hfirst ↦
        ⟨fun index draw io session line next user pass uuid other hevent ↦ (by cases hevent),
      fun second hsecond ↦ ⟨?_, fun _ _ ↦ trivial⟩⟩⟩
    rw [Transition.run_cons_eq_some.mpr
      ⟨first, hfirst, Transition.run_cons_eq_some.mpr ⟨second, hsecond, rfl⟩⟩] at hbefore
    obtain ⟨hclientId, hentry⟩ := Prod.mk.inj (Option.some.inj hbefore)
    intro index draw io session line next user pass uuid other hevent hobject _ _ _ hfind
    cases hevent
    rw [hobject] at hclientId
    rw [Option.some.inj hclientId, hentry] at hfind
    exact (Option.some.inj (Option.some.inj hfind)).symm
  have hstart : start JsonLib.reference {} = .ok { db := {} } := rfl
  exact ⟨{ db := {} }, final, hstart, hvisited, hlogged,
    authenticated_of_loginOwn hstart hown hvisited⟩

/-- With 257 open connections the login made on the first one logs the last one in and sends the
uuid there. -/
theorem not_authenticated_after_wrap :
    ∃ server final, start JsonLib.reference {} = .ok server ∧
      Transition.run (step JsonLib.reference) server
        (List.replicate 257 .accept ++
          [.receive 0 (((Protocol.loginRequest (text "ana") (text "pass")).serialize
            JsonLib.reference).toOption.getD []), .readDone 0 (1, 2) {}]) = some final ∧
      ¬Authenticated JsonLib.reference final := by
  have hrun : (Transition.run (step JsonLib.reference) { db := {} }
      (List.replicate 257 .accept ++
        [.receive 0 (((Protocol.loginRequest (text "ana") (text "pass")).serialize
          JsonLib.reference).toOption.getD []), .readDone 0 (1, 2) {}])).map
      (fun final ↦ ((final.object 256).map fun session ↦ session.uuid.isEmpty,
        final.log.all fun action ↦ action matches .accepted _ _ | .received 0 _)) =
      some (some false, true) := by
    decide +kernel
  obtain ⟨final, hfinal, hresult⟩ := Option.map_eq_some_iff.mp hrun
  obtain ⟨hobject, hlog⟩ := Prod.mk.inj hresult
  obtain ⟨session, hsession, huuid⟩ := Option.map_eq_some_iff.mp hobject
  refine ⟨{ db := {} }, final, rfl, hfinal, fun hauthenticated ↦ ?_⟩
  have hne : session.uuid ≠ [] := fun hempty ↦ by simp [hempty] at huuid
  obtain ⟨line, user, acc, hline, _⟩ := (hauthenticated 256 session hsession).1 hne
  have hreceived := List.all_eq_true.mp hlog _ hline
  cases hreceived

end NetPixeld.Server
