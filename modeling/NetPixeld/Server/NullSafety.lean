import NetPixeld.Server.Registry

/-!
# Null sessions

`getSession` looks an id up with `operator[]`, which inserts a null pointer under an unknown id,
while `sendToClient` uses `find`. The handler of a login meets a null session exactly when the line
comes from a connection whose id was erased by a disconnect callback: the write side of a session
can fail while its read side still delivers lines.
-/

namespace NetPixeld.Server

/-- The id was handed out, and no session with it has reported its end since. -/
def Registered (log : List Action) (clientId : UInt8) : Prop :=
  ∃ before index after, log = before ++ .accepted index clientId :: after ∧
    ∀ other, Action.disconnected other clientId ∉ after

/-- The event makes the handler of `LoginRequest` run for a client id. -/
def HandlesLogin (lib : JsonLib) (server : Server) (event : Event) (clientId : UInt8) : Prop :=
  ∃ index draw io session line next message, event = .readDone index draw io ∧
    server.object index = some session ∧ session.clientId = clientId ∧
    session.takeLine = some (line, next) ∧ Protocol.readLine lib line = .ok message ∧
    message.type = Protocol.msgLoginRequest

/-- A login is read only from a connection whose id is registered. -/
def LoginRegistered (lib : JsonLib) (server : Server) (event : Event) : Prop :=
  ∀ clientId, HandlesLogin lib server event clientId → Registered server.log clientId

/-- The handler of a login finds a session. -/
def HandlerSafe (lib : JsonLib) (server : Server) (event : Event) : Prop :=
  ∀ clientId, HandlesLogin lib server event clientId →
    ∃ index, server.sessions.find clientId = some (some index)

/-- No entry is null, and no null pointer was dereferenced. -/
structure NoNull (server : Server) : Prop where
  entries : ∀ clientId, server.sessions.find clientId ≠ some none
  status : server.status ≠ .crashed

/-! ## The log of accepts and disconnects -/

/-- An id is registered by the end of a log, or before it and not disconnected in it. -/
theorem registered_append {log extra : List Action} {clientId : UInt8} :
    Registered (log ++ extra) clientId ↔
      Registered extra clientId ∨
        Registered log clientId ∧ ∀ other, Action.disconnected other clientId ∉ extra := by
  constructor
  · rintro ⟨before, index, after, hlog, hafter⟩
    rcases List.append_eq_append_iff.mp hlog with ⟨middle, _, hextra⟩ | ⟨middle, hbefore, hmiddle⟩
    · exact Or.inl ⟨middle, index, after, hextra, hafter⟩
    · cases middle with
      | nil => exact Or.inl ⟨[], index, after, hmiddle.symm, hafter⟩
      | cons action middle =>
        obtain ⟨rfl, rfl⟩ := List.cons.inj hmiddle
        exact Or.inr ⟨⟨before, index, middle, hbefore,
          fun other hmem ↦ hafter other (List.mem_append_left _ hmem)⟩,
          fun other hmem ↦ hafter other (List.mem_append_right _ hmem)⟩
  · rintro (⟨before, index, after, rfl, hafter⟩ | ⟨⟨before, index, after, rfl, hafter⟩, hextra⟩)
    · exact ⟨log ++ before, index, after, (List.append_assoc ..).symm, hafter⟩
    · refine ⟨before, index, after ++ extra, by simp, fun other hmem ↦ ?_⟩
      rcases List.mem_append.mp hmem with hmem | hmem
      · exact hafter other hmem
      · exact hextra other hmem

theorem not_registered_of_not_registers {log : List Action} {clientId : UInt8}
    (h : ∀ action ∈ log, action.registers = false) : ¬Registered log clientId := by
  rintro ⟨before, index, after, rfl, _⟩
  have hregisters := h (.accepted index clientId) (by simp)
  cases hregisters

theorem registered_append_accepted {log : List Action} {index : ℕ} {clientId other : UInt8} :
    Registered (log ++ [.accepted index clientId]) other ↔
      clientId = other ∨ Registered log other := by
  rw [registered_append]
  constructor
  · rintro (⟨before, index', after, hlog, _⟩ | ⟨h, _⟩)
    · have hmem : Action.accepted index' other ∈ [Action.accepted index clientId] := by simp [hlog]
      cases List.mem_singleton.mp hmem
      exact Or.inl rfl
    · exact Or.inr h
  · rintro (rfl | h)
    · exact Or.inl ⟨[], index, [], rfl, by simp⟩
    · exact Or.inr ⟨h, by simp⟩

theorem registered_append_disconnected {log : List Action} {index : ℕ} {clientId other : UInt8} :
    Registered (log ++ [.disconnected index clientId]) other ↔
      clientId ≠ other ∧ Registered log other := by
  have hnone : ¬Registered [.disconnected index clientId] other := by
    rintro ⟨before, index', after, hlog, _⟩
    have hmem : Action.accepted index' other ∈ [Action.disconnected index clientId] := by
      simp [hlog]
    cases List.mem_singleton.mp hmem
  rw [registered_append, or_iff_right hnone, and_comm]
  refine and_congr_left fun _ ↦ ?_
  simp [eq_comm]

theorem registered_append_of_not_registers {log extra : List Action} {clientId : UInt8}
    (h : ∀ action ∈ extra, action.registers = false) :
    Registered (log ++ extra) clientId ↔ Registered log clientId := by
  rw [registered_append, or_iff_right (not_registered_of_not_registers h)]
  refine and_iff_left fun other hmem ↦ ?_
  exact absurd (h _ hmem) (by simp [Action.registers])

/-! ## The entries follow the log -/

/-- What holds as long as logins are read from registered connections only. -/
structure Tracked (server : Server) : Prop where
  indexed : server.Indexed
  noNull : server.NoNull
  registered : ∀ clientId, (∃ index, server.sessions.find clientId = some (some index)) ↔
    Registered server.log clientId

/-- A line handled for an id with a session leaves the entries alone. -/
theorem Handled.sessions {lib : JsonLib} {server : Server} {clientId : UInt8} {line : Bytes}
    {draw : UInt64 × UInt64} {io : SaveIO} {result : Server × Outcome Unit}
    (h : Handled lib server clientId line draw io result)
    (hentry : (∃ user pass, Requests lib line user pass) →
      ∃ index, server.sessions.find clientId = some (some index)) :
    result.1.sessions = server.sessions ∧ result.2 ≠ .crashed := by
  cases h with
  | ignored houtcome => exact ⟨rfl, houtcome⟩
  | refused _ houtcome => exact ⟨rfl, houtcome⟩
  | unregistered hrequest _ hfind =>
    obtain ⟨index, hindex⟩ := hentry ⟨_, _, hrequest⟩
    cases hfind.symm.trans hindex
  | null hrequest _ hfind =>
    obtain ⟨index, hindex⟩ := hentry ⟨_, _, hrequest⟩
    cases hfind.symm.trans hindex
  | unsent => exact ⟨rfl, by simp⟩
  | answered => exact ⟨rfl, by simp⟩

theorem Served.sessions {lib : JsonLib} {server : Server} {walk : List Bytes} {io : SaveIO}
    {clientId : UInt8} {result : Server × Outcome Unit}
    (h : Served lib server walk io clientId result) : result.1.sessions = server.sessions := by
  cases h <;> rfl

/-- A tick over entries that are neither null nor dangling ends without a crash. -/
theorem serveAll_ne_crashed {lib : JsonLib} {walk : List Bytes} {io : UInt8 → SaveIO}
    {order : List UInt8} {server : Server} (hindexed : server.Indexed) (hnull : server.NoNull) :
    (serveAll lib walk io order server).1.sessions = server.sessions ∧
      (serveAll lib walk io order server).2 ≠ .crashed := by
  refine serveAll_rule (fun _ next ↦ SameRegistry server next ∧ next.sessions = server.sessions)
    (fun result ↦ result.1.sessions = server.sessions ∧ result.2 ≠ .crashed)
    (fun next h ↦ ⟨h.2, by simp⟩) ?_ ⟨.refl server, rfl⟩
  rintro clientId rest next result ⟨hsame, hsessions⟩ hserved
  have hnext : result.1.sessions = server.sessions := hserved.sessions.trans hsessions
  split
  · exact ⟨hsame.trans hserved.sameRegistry, hnext⟩
  · refine ⟨hnext, ?_⟩
    cases hserved with
    | broken hfind =>
      rcases hfind with hfind | ⟨index, hfind, hobject⟩
      · rw [hsessions] at hfind
        exact absurd hfind (hnull.entries clientId)
      · rw [hsessions] at hfind
        have hid := (hindexed.latest clientId index hfind).1
        rw [← hsame.ids, idOf, hobject] at hid
        cases hid
    | idle | unknown | unsent | updated => simp
    | unsaved _ houtcome => exact houtcome.2

/-- Apart from accepts and disconnects, the entries stay and nothing crashes. -/
theorem Stepped.sessions {lib : JsonLib} {server next : Server} {event : Event}
    (h : Stepped lib server event next) (hrunning : server.status = .running)
    (htracked : server.Tracked) (hlogin : LoginRegistered lib server event)
    (haccept : event ≠ .accept) (hdisconnect : ∀ index, ¬Disconnects event index) :
    next.sessions = server.sessions ∧ next.status ≠ .crashed := by
  have hstatus : server.status ≠ .crashed := by simp [hrunning]
  cases h with
  | accept => exact absurd rfl haccept
  | readFailed => exact absurd (Or.inl rfl) (hdisconnect _)
  | writeFailed => exact absurd (Or.inr rfl) (hdisconnect _)
  | acceptFailed | receive | strand | writeDone | timerCanceled => exact ⟨rfl, hstatus⟩
  | readDone hobject hline hhandled hcrashed =>
    obtain ⟨hsessions, houtcome⟩ := hhandled.sessions fun ⟨user, pass, message, hread, htype, _⟩ ↦
      (htracked.registered _).mpr (hlogin _
        ⟨_, _, _, _, _, _, message, rfl, hobject, rfl, hline, hread, htype⟩)
    exact ⟨hsessions, fun h ↦ houtcome (hcrashed.mp h)⟩
  | tick horder hresult hcrashed _ =>
    obtain ⟨hsessions, houtcome⟩ := serveAll_ne_crashed htracked.indexed htracked.noNull
    subst hresult
    exact ⟨hsessions, fun h ↦ houtcome (hcrashed.mp h)⟩

theorem step_tracked {lib : JsonLib} {server next : Server} {event : Event}
    (htracked : server.Tracked) (hlogin : LoginRegistered lib server event)
    (h : server.step lib event = some next) : next.Tracked := by
  obtain ⟨hrunning, hstepped⟩ := step_stepped h
  have hstatus : server.status ≠ .crashed := htracked.noNull.status
  have hindexed := step_indexed htracked.indexed h
  rcases hstepped.registry with ⟨serialized, _, rfl⟩ |
    ⟨index, before, after, _, hobject, hsame, rfl⟩ | ⟨haccept, hdisconnect, hsame⟩
  · refine ⟨hindexed, ⟨fun clientId ↦ ?_, hstatus⟩, fun clientId ↦ ?_⟩
    · rw [find_register]
      split
      · simp
      · exact htracked.noNull.entries clientId
    · rw [find_register]
      refine Iff.trans ?_ registered_append_accepted.symm
      split
      · next heq => simp [heq]
      · next hne =>
        rw [or_iff_right hne]
        exact htracked.registered clientId
  · refine ⟨hindexed, ⟨fun clientId ↦ ?_, hstatus⟩, fun clientId ↦ ?_⟩
    · rw [find_disconnect]
      split
      · simp
      · exact htracked.noNull.entries clientId
    · rw [find_disconnect]
      refine Iff.trans ?_ registered_append_disconnected.symm
      split
      · next heq => simp [heq]
      · next hne =>
        rw [and_iff_right hne]
        exact htracked.registered clientId
  · obtain ⟨hsessions, hstatus'⟩ :=
      hstepped.sessions hrunning htracked hlogin haccept hdisconnect
    obtain ⟨extra, hlog, hextra⟩ := hsame.log
    refine ⟨hindexed, ⟨fun clientId ↦ ?_, hstatus'⟩, fun clientId ↦ ?_⟩
    · rw [hsessions]
      exact htracked.noNull.entries clientId
    · rw [hsessions, hlog, registered_append_of_not_registers hextra]
      exact htracked.registered clientId

theorem Fresh.tracked {server : Server} (h : server.Fresh) : server.Tracked := by
  refine ⟨h.indexed, ⟨fun clientId ↦ ?_, ?_⟩, fun clientId ↦ ?_⟩
  · obtain ⟨db, rfl⟩ := h
    simp
  · obtain ⟨db, rfl⟩ := h
    simp
  · obtain ⟨db, rfl⟩ := h
    constructor
    · rintro ⟨index, hfind⟩
      cases hfind
    · rintro ⟨before, index, after, hlog, _⟩
      cases before <;> cases hlog

/-- Among runs, those in which every login is read from a registered connection are those in which
every login handler finds its session; in them no null pointer is stored or dereferenced. -/
theorem noNull_iff_loginRegistered {lib : JsonLib} {files : Files} {server : Server}
    (hstart : start lib files = .ok server) (events : List Event) :
    Transition.Always (step lib) (LoginRegistered lib) server events ↔
      Transition.Always (step lib) (HandlerSafe lib) server events ∧
        ∀ visited, Transition.Visited (step lib) server events visited → visited.NoNull := by
  have htracked := (fresh_of_start hstart).tracked
  have hiff : ∀ {state : Server} {event : Event}, state.Tracked →
      (LoginRegistered lib state event ↔ HandlerSafe lib state event) :=
    fun h ↦ forall₂_congr fun clientId _ ↦ (h.registered clientId).symm
  constructor
  · intro halways
    refine ⟨Transition.always_mono (fun h ↦ (hiff h).mp) step_tracked htracked halways, ?_⟩
    rintro visited ⟨before, after, rfl, hvisited⟩
    exact (Transition.invariant_run_of_always step_tracked htracked
      (Transition.always_of_append halways) hvisited).noNull
  · rintro ⟨halways, _⟩
    exact Transition.always_mono (fun h ↦ (hiff h).mpr)
      (fun h hcondition ↦ step_tracked h ((hiff h).mpr hcondition)) htracked halways

theorem loginRegistered_of_ne {lib : JsonLib} {event : Event}
    (h : ∀ index draw io, event ≠ .readDone index draw io) (server : Server) :
    LoginRegistered lib server event := by
  rintro clientId ⟨index, draw, io, _, _, _, _, hevent, _⟩
  exact absurd hevent (h index draw io)

/-- One connection ends, and the other one logs in before a tick. -/
theorem noNull_iff_loginRegistered_tick :
    let login : Bytes := ((Protocol.loginRequest (text "ana") (text "pass")).serialize
      JsonLib.reference).toOption.getD []
    let events : List Event := [.accept, .accept, .readFailed 1, .receive 0 login,
      .readDone 0 (1, 2) {}, .tick [1] [text "ana"] fun _ ↦ {}]
    ∃ server final, start JsonLib.reference {} = .ok server ∧
      Transition.run (step JsonLib.reference) server events = some final ∧
      final.log = [.accepted 0 1, .accepted 1 2, .disconnected 1 2, .received 0 login.dropLast,
        .stored (JsonDB.generateUuid (1, 2)) ⟨10, 10, 10⟩] ∧
      Transition.Always (step JsonLib.reference) (HandlerSafe JsonLib.reference) server events ∧
      ∀ visited, Transition.Visited (step JsonLib.reference) server events visited →
        visited.NoNull := by
  intro login events
  have hstart : start JsonLib.reference {} = .ok { db := {} } := rfl
  have hend : (Transition.run (step JsonLib.reference) { db := {} } events).map Server.log =
      some [.accepted 0 1, .accepted 1 2, .disconnected 1 2, .received 0 login.dropLast,
        .stored (JsonDB.generateUuid (1, 2)) ⟨10, 10, 10⟩] := by decide +kernel
  obtain ⟨final, hrun, hlog⟩ := Option.map_eq_some_iff.mp hend
  have hbefore : (Transition.run (step JsonLib.reference) { db := {} }
      [.accept, .accept, .readFailed 1, .receive 0 login]).map
      (fun server ↦ ((server.object 0).map Session.clientId, server.log)) =
      some (some 1, [.accepted 0 1, .accepted 1 2, .disconnected 1 2]) := by decide +kernel
  have hregistered : Transition.Always (step JsonLib.reference)
      (LoginRegistered JsonLib.reference) { db := {} }
      ([.accept, .accept, .readFailed 1, .receive 0 login] ++
        [.readDone 0 (1, 2) {}, .tick [1] [text "ana"] fun _ ↦ {}]) := by
    refine Transition.always_append
      (Transition.always_of_forall (fun event hevent ↦ loginRegistered_of_ne ?_) _) ?_
    · rintro index draw io rfl
      simp at hevent
    intro middle hmiddle
    rw [hmiddle] at hbefore
    obtain ⟨hobject, hlogged⟩ := Prod.mk.inj (Option.some.inj hbefore)
    refine ⟨?_, fun next _ ↦ ⟨loginRegistered_of_ne (by simp) next, fun _ _ ↦ trivial⟩⟩
    rintro clientId ⟨index, draw, io, session, _, _, _, ⟨⟩, hsession, rfl, _⟩
    rw [hsession] at hobject
    rw [Option.some.inj hobject, hlogged]
    exact ⟨[], 0, [.accepted 1 2, .disconnected 1 2], rfl, by simp⟩
  exact ⟨{ db := {} }, final, hstart, hrun, hlog,
    (noNull_iff_loginRegistered hstart events).mp hregistered⟩

/-- The write of the handshake fails while a login line is already buffered: the callback erases
the entry, and the handler of the login dereferences the null pointer that `operator[]` inserts. -/
theorem null_session_after_write_failure :
    ∃ server final, start JsonLib.reference {} = .ok server ∧
      Transition.run (step JsonLib.reference) server
        [.accept, .strand 0,
          .receive 0 (((Protocol.loginRequest (text "ana") (text "pass")).serialize
            JsonLib.reference).toOption.getD []),
          .writeFailed 0, .readDone 0 (1, 2) {}] = some final ∧
      final.sessions.find 1 = some none ∧ final.status = .crashed := by
  have hrun : (Transition.run (step JsonLib.reference) { db := {} }
      [.accept, .strand 0,
        .receive 0 (((Protocol.loginRequest (text "ana") (text "pass")).serialize
          JsonLib.reference).toOption.getD []),
        .writeFailed 0, .readDone 0 (1, 2) {}]).map
      (fun final ↦ (final.sessions.find 1, final.status)) = some (some none, .crashed) := by
    decide +kernel
  obtain ⟨final, hfinal, hresult⟩ := Option.map_eq_some_iff.mp hrun
  obtain ⟨hfind, hstatus⟩ := Prod.mk.inj hresult
  exact ⟨{ db := {} }, final, rfl, hfinal, hfind, hstatus⟩

end NetPixeld.Server
