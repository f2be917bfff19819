import NetPixeld.Server.Server

/-!
# What a step of the server can do

One inversion lemma for each handler. `Handled` lists the ways in which a line can be handled,
`Served` the ways in which a tick can treat a client id, and `Stepped` the steps of the event loop.
Invariants of the server are proved by cases on them, without unfolding a handler.
-/

namespace NetPixeld.Server

/-! ## The fields of an updated server -/

section Fields

variable (server : Server) (index : ℕ) (change : Session → Session) (action : Action)

@[simp]
theorem object_update (other : ℕ) :
    (server.update index change).object other =
      if index = other then (server.object other).map change else server.object other := by
  simp only [object, update, List.getElem?_modify]
  split
  · rfl
  · exact congrFun Option.map_id _

theorem update_update (second : Session → Session) :
    (server.update index change).update index second =
      server.update index fun session ↦ second (change session) := by
  simp only [update, List.modify_modify_eq]
  rfl

@[simp]
theorem update_sessions : (server.update index change).sessions = server.sessions := rfl

@[simp]
theorem update_nextClientId : (server.update index change).nextClientId = server.nextClientId := rfl

@[simp]
theorem update_db : (server.update index change).db = server.db := rfl

@[simp]
theorem update_status : (server.update index change).status = server.status := rfl

@[simp]
theorem update_log : (server.update index change).log = server.log := rfl

@[simp]
theorem update_counter (clientId : UInt8) :
    (server.update index change).counter clientId = server.counter clientId := rfl

@[simp]
theorem record_object (other : ℕ) : (server.record action).object other = server.object other := rfl

@[simp]
theorem record_sessions : (server.record action).sessions = server.sessions := rfl

@[simp]
theorem record_nextClientId : (server.record action).nextClientId = server.nextClientId := rfl

@[simp]
theorem record_db : (server.record action).db = server.db := rfl

@[simp]
theorem record_status : (server.record action).status = server.status := rfl

@[simp]
theorem record_log : (server.record action).log = server.log ++ [action] := rfl

@[simp]
theorem record_counter (clientId : UInt8) :
    (server.record action).counter clientId = server.counter clientId := rfl

@[simp]
theorem advanceCounter_object (clientId : UInt8) (other : ℕ) :
    (server.advanceCounter clientId).object other = server.object other := rfl

@[simp]
theorem advanceCounter_sessions (clientId : UInt8) :
    (server.advanceCounter clientId).sessions = server.sessions := rfl

@[simp]
theorem advanceCounter_db (clientId : UInt8) :
    (server.advanceCounter clientId).db = server.db := rfl

@[simp]
theorem advanceCounter_log (clientId : UInt8) :
    (server.advanceCounter clientId).log = server.log := rfl

/-- The counter of one id advances, the others stay. -/
theorem counter_advanceCounter (clientId other : UInt8) :
    (server.advanceCounter clientId).counter other =
      if clientId = other then server.counter other + 1 else server.counter other := by
  by_cases h : clientId = other
  · subst h
    simp [counter, counters, advanceCounter]
  · simp [counter, counters, advanceCounter, h, SortedMap.find_insert_of_ne]

end Fields

/-! ## Handling a line -/

/-- A line asks for a login with these credentials. -/
def Requests (lib : JsonLib) (line user pass : Bytes) : Prop :=
  ∃ msg, Protocol.readLine lib line = .ok msg ∧ msg.type = Protocol.msgLoginRequest ∧
    credentials msg = .ok (user, pass)

/-- The results of handling a line read from a session with a client id. -/
inductive Handled (lib : JsonLib) (server : Server) (clientId : UInt8) (line : Bytes)
    (draw : UInt64 × UInt64) (io : SaveIO) : Server × Outcome Unit → Prop
  /-- Not a login request with credentials. -/
  | ignored {outcome : Outcome Unit} (houtcome : outcome ≠ .crashed) :
      Handled lib server clientId line draw io (server, outcome)
  /-- The store gives no uuid: a wrong password or a failed save. -/
  | refused {user pass : Bytes} {outcome : Outcome Unit} (hrequest : Requests lib line user pass)
      (houtcome : outcome ≠ .crashed) :
      Handled lib server clientId line draw io
        ({ server with db := (login lib server.db user pass draw io).1 }, outcome)
  /-- `operator[]` inserts a null pointer, which is dereferenced. -/
  | unregistered {user pass uuid : Bytes} (hrequest : Requests lib line user pass)
      (hlogin : (login lib server.db user pass draw io).2 = .returned (some uuid))
      (hfind : server.sessions.find clientId = none) :
      Handled lib server clientId line draw io
        ({ server with
            db := (login lib server.db user pass draw io).1
            sessions := server.sessions.insert clientId none }, .crashed)
  /-- A null pointer from before is dereferenced. -/
  | null {user pass uuid : Bytes} (hrequest : Requests lib line user pass)
      (hlogin : (login lib server.db user pass draw io).2 = .returned (some uuid))
      (hfind : server.sessions.find clientId = some none) :
      Handled lib server clientId line draw io
        ({ server with db := (login lib server.db user pass draw io).1 }, .crashed)
  /-- The uuid is set, but the reply has no serialization. -/
  | unsent {user pass uuid : Bytes} {index : ℕ} {exception : Exn}
      (hrequest : Requests lib line user pass)
      (hlogin : (login lib server.db user pass draw io).2 = .returned (some uuid))
      (hfind : server.sessions.find clientId = some (some index))
      (hserialize : (Protocol.loginResult uuid).serialize lib = .error exception) :
      Handled lib server clientId line draw io
        (({ server with db := (login lib server.db user pass draw io).1 } : Server).update index
          (Session.setUUID uuid), .threw exception)
  /-- The uuid is set and the reply queued on the session registered under the client id. -/
  | answered {user pass uuid serialized : Bytes} {index : ℕ}
      (hrequest : Requests lib line user pass)
      (hlogin : (login lib server.db user pass draw io).2 = .returned (some uuid))
      (hfind : server.sessions.find clientId = some (some index))
      (hserialize : (Protocol.loginResult uuid).serialize lib = .ok serialized) :
      Handled lib server clientId line draw io
        ((({ server with db := (login lib server.db user pass draw io).1 } : Server).update index
          (Session.setUUID uuid)).update index
            (·.post ⟨Protocol.loginResult uuid, serialized⟩), .returned ())

theorem login_ne_crashed (lib : JsonLib) (db : JsonDB) (user pass : Bytes)
    (draw : UInt64 × UInt64) (io : SaveIO) : (login lib db user pass draw io).2 ≠ .crashed := by
  unfold login
  split
  · split
    · apply Outcome.map_ne_crashed
      cases db.getUser user pass <;> simp [Outcome.ofExcept]
    · simp
  · exact Outcome.map_ne_crashed _ (db.addUser_ne_crashed lib user pass draw io)

theorem onLine_handled (lib : JsonLib) (server : Server) (clientId : UInt8) (line : Bytes)
    (draw : UInt64 × UInt64) (io : SaveIO) :
    Handled lib server clientId line draw io (server.onLine lib clientId line draw io) := by
  unfold onLine
  split
  · exact .ignored (by simp)
  next msg hread =>
  unfold onClientMessage
  split
  swap
  · exact .ignored (by simp)
  next htype =>
  unfold onLoginRequest
  split
  · exact .ignored (by simp)
  next user pass hcredentials =>
  have hrequest : Requests lib line user pass := ⟨msg, hread, htype, hcredentials⟩
  dsimp only
  split
  · next uuid hlogin =>
    unfold reply getSession
    dsimp only
    cases hfind : server.sessions.find clientId with
    | none => exact .unregistered hrequest hlogin hfind
    | some pointer =>
      cases pointer with
      | none => exact .null hrequest hlogin hfind
      | some index =>
        simp only [sendToClient, update_sessions, hfind, send]
        split
        · next serialized hserialize => exact .answered hrequest hlogin hfind hserialize
        · next exception hserialize => exact .unsent hrequest hlogin hfind hserialize
  · exact .refused hrequest (by simp)
  · exact .refused hrequest (by simp)
  · exact .refused hrequest (by simp)
  · next hcrashed => exact absurd hcrashed (login_ne_crashed lib server.db user pass draw io)

/-! ## Serving a client id -/

/-- The update queued for an account whose new totals are `pool`. -/
def nextUpdate (server : Server) (clientId : UInt8) (uuid : Bytes) (pool : Resources) :
    Protocol.Message :=
  Protocol.resourceUpdate (server.counter clientId + 1) uuid pool.wood pool.food pool.iron

/-- A session with a uuid is registered under a client id. -/
structure Subscribed (server : Server) (clientId : UInt8) (index : ℕ) (session : Session) :
    Prop where
  entry : server.sessions.find clientId = some (some index)
  object : server.object index = some session
  uuid : session.uuid ≠ []

/-- The server after the counter of an id advanced and the new totals were given to the store. -/
def collected (lib : JsonLib) (server : Server) (walk : List Bytes) (io : SaveIO)
    (clientId : UInt8) (uuid : Bytes) (pool : Resources) : Server :=
  { server.advanceCounter clientId with
    db := (server.db.updateResources lib walk uuid pool io).1 }

/-- The results of serving a client id in a tick. -/
inductive Served (lib : JsonLib) (server : Server) (walk : List Bytes) (io : SaveIO)
    (clientId : UInt8) : Server × Outcome Unit → Prop
  /-- The id is not registered, or its session is not logged in. -/
  | idle : Served lib server walk io clientId (server, .returned ())
  /-- A null or dangling pointer is dereferenced. -/
  | broken (hfind : server.sessions.find clientId = some none ∨
        ∃ index, server.sessions.find clientId = some (some index) ∧
          server.object index = none) :
      Served lib server walk io clientId (server, .crashed)
  /-- The store does not know the uuid. -/
  | unknown {index : ℕ} {session : Session} {exception : Exn}
      (hsession : Subscribed server clientId index session) :
      Served lib server walk io clientId (server, .threw exception)
  /-- The new totals could not be saved. -/
  | unsaved {index : ℕ} {session : Session} {pool : Resources} {outcome : Outcome Unit}
      (hsession : Subscribed server clientId index session)
      (houtcome : outcome ≠ .returned () ∧ outcome ≠ .crashed) :
      Served lib server walk io clientId
        (server.collected lib walk io clientId session.uuid pool, outcome)
  /-- The update has no serialization. -/
  | unsent {index : ℕ} {session : Session} {pool : Resources} {exception : Exn}
      (hsession : Subscribed server clientId index session)
      (hserialize : (server.nextUpdate clientId session.uuid pool).serialize lib =
        .error exception) :
      Served lib server walk io clientId
        ((server.collected lib walk io clientId session.uuid pool).record
          (.stored session.uuid pool), .threw exception)
  /-- The new totals are stored and the update is queued. -/
  | updated {index : ℕ} {session : Session} {pool : Resources} {serialized : Bytes}
      (hsession : Subscribed server clientId index session)
      (hserialize : (server.nextUpdate clientId session.uuid pool).serialize lib =
        .ok serialized) :
      Served lib server walk io clientId
        (((server.collected lib walk io clientId session.uuid pool).record
          (.stored session.uuid pool)).update index
            (·.post ⟨server.nextUpdate clientId session.uuid pool, serialized⟩), .returned ())

theorem serve_served (lib : JsonLib) (server : Server) (walk : List Bytes) (io : SaveIO)
    (clientId : UInt8) :
    Served lib server walk io clientId (server.serve lib walk io clientId) := by
  unfold serve
  split
  · exact .idle
  · next hfind => exact .broken (Or.inl hfind)
  next index hfind =>
  split
  · next hobject => exact .broken (Or.inr ⟨index, hfind, hobject⟩)
  next session hobject =>
  split
  · exact .idle
  next huuid =>
  have hsession : Subscribed server clientId index session := ⟨hfind, hobject, huuid⟩
  split
  · exact .unknown hsession
  next pool _ =>
  have hmessage : Protocol.resourceUpdate ((server.advanceCounter clientId).counter clientId)
      session.uuid (harvest pool).wood (harvest pool).food (harvest pool).iron =
      server.nextUpdate clientId session.uuid (harvest pool) := by
    rw [counter_advanceCounter, if_pos rfl]
    rfl
  unfold serveAccount
  simp only [hmessage]
  split
  · unfold send
    split
    · next serialized hserialize => exact .updated hsession hserialize
    · next exception hserialize => exact .unsent hsession hserialize
  · next hfailed =>
    exact .unsaved hsession
      ⟨hfailed, JsonDB.modifyAccount_ne_crashed lib server.db walk session.uuid _ io⟩

/-- A property of the ids still to serve and the server, kept by serving an id, leads to a property
of the result of the loop. -/
theorem serveAll_rule {lib : JsonLib} {walk : List Bytes} {io : UInt8 → SaveIO}
    (invariant : List UInt8 → Server → Prop) (goal : Server × Outcome Unit → Prop)
    (hdone : ∀ server, invariant [] server → goal (server, .returned ()))
    (hserve : ∀ clientId rest server result, invariant (clientId :: rest) server →
      Served lib server walk (io clientId) clientId result →
      if result.2 = .returned () then invariant rest result.1 else goal result)
    {order : List UInt8} {server : Server} (h : invariant order server) :
    goal (serveAll lib walk io order server) := by
  induction order generalizing server with
  | nil => exact hdone server h
  | cons clientId rest ih =>
    have hserved := serve_served lib server walk (io clientId) clientId
    have hnext := hserve clientId rest server _ h hserved
    rw [serveAll]
    split
    · next next hreturned =>
      rw [hreturned, if_pos rfl] at hnext
      exact ih hnext
    · next failed hfailed =>
      rw [if_neg] at hnext
      · exact hnext
      · intro hreturned
        exact hfailed _ (Prod.ext rfl hreturned)

/-! ## The end of a handler -/

/-- Ending a handler changes nothing but the status. -/
theorem conclude_eq {result : Server × Outcome Unit} (h : result.1.status = .running) :
    ∃ status, conclude result = { result.1 with status := status } ∧
      (status = .crashed ↔ result.2 = .crashed) ∧
      (status = .running ↔ result.2 = .returned ()) := by
  obtain ⟨server, outcome⟩ := result
  cases outcome with
  | returned _ => exact ⟨server.status, rfl, by simp [show server.status = .running from h]⟩
  | threw _ | died | crashed => exact ⟨_, rfl, by simp⟩

theorem guarded_eq {result : Server × Outcome Unit} (h : result.1.status = .running) :
    ∃ status, guarded result = { result.1 with status := status } ∧
      (status = .crashed ↔ result.2 = .crashed) := by
  obtain ⟨server, outcome⟩ := result
  cases outcome with
  | threw _ => exact ⟨server.status, rfl, by simp [show server.status = .running from h]⟩
  | returned _ | died | crashed =>
    obtain ⟨status, hconclude, hcrashed, _⟩ := conclude_eq h
    exact ⟨status, hconclude, hcrashed⟩

theorem Handled.status {lib : JsonLib} {server : Server} {clientId : UInt8} {line : Bytes}
    {draw : UInt64 × UInt64} {io : SaveIO} {result : Server × Outcome Unit}
    (h : Handled lib server clientId line draw io result) : result.1.status = server.status := by
  cases h <;> rfl

theorem Served.status {lib : JsonLib} {server : Server} {walk : List Bytes} {io : SaveIO}
    {clientId : UInt8} {result : Server × Outcome Unit}
    (h : Served lib server walk io clientId result) : result.1.status = server.status := by
  cases h <;> rfl

theorem serveAll_status (lib : JsonLib) (walk : List Bytes) (io : UInt8 → SaveIO)
    (order : List UInt8) (server : Server) :
    (serveAll lib walk io order server).1.status = server.status := by
  refine serveAll_rule (fun _ next ↦ next.status = server.status)
    (fun result ↦ result.1.status = server.status) (fun _ h ↦ h) ?_ rfl
  intro clientId rest next result h hserved
  have hstatus := hserved.status.trans h
  split
  · exact hstatus
  · exact hstatus

/-! ## One step -/

/-- A new connection: its session object with the queued handshake, registered under the next id. -/
def register (server : Server) (serialized : Bytes) : Server :=
  { server with
    nextClientId := server.nextClientId + 1
    objects := server.objects ++ [
      { clientId := server.nextClientId
        reading := true
        posted := [⟨Protocol.assignClientId server.nextClientId, serialized⟩] }]
    sessions := server.sessions.insert server.nextClientId (some server.objects.length)
    log := server.log ++ [.accepted server.objects.length server.nextClientId] }

/-- The handshake always has a serialization. -/
theorem onAccept_eq (lib : JsonLib) (server : Server) :
    ∃ serialized, (Protocol.assignClientId server.nextClientId).serialize lib = .ok serialized ∧
      server.onAccept lib = (server.register serialized, .returned ()) := by
  obtain ⟨serialized, hserialized⟩ :=
    Protocol.Message.serialize_ok lib (Protocol.wellFormed_assignClientId server.nextClientId)
  refine ⟨serialized, hserialized, ?_⟩
  have hlast : ∀ (objects : List Session) (session : Session) (change : Session → Session),
      (objects ++ [session]).modify objects.length change = objects ++ [change session] := by
    intro objects session change
    induction objects with
    | nil => rfl
    | cons head objects ih => exact congrArg (head :: ·) ih
  simp only [onAccept, send, hserialized, update, register, hlast]
  rfl

/-- The steps of the event loop. -/
inductive Stepped (lib : JsonLib) (server : Server) : Event → Server → Prop
  | accept {serialized : Bytes}
      (hserialized :
        (Protocol.assignClientId server.nextClientId).serialize lib = .ok serialized) :
      Stepped lib server .accept (server.register serialized)
  | acceptFailed : Stepped lib server .acceptFailed server
  | receive {index : ℕ} {bytes : Bytes} {before after : Session}
      (hobject : server.object index = some before) (hnext : before.receive bytes = some after) :
      Stepped lib server (.receive index bytes) (server.update index fun _ ↦ after)
  | strand {index : ℕ} {before after : Session} (hobject : server.object index = some before)
      (hnext : before.runPosted = some after) :
      Stepped lib server (.strand index) (server.update index fun _ ↦ after)
  | writeDone {index : ℕ} {before after : Session} (hobject : server.object index = some before)
      (hnext : before.finishWrite = some after) :
      Stepped lib server (.writeDone index) (server.update index fun _ ↦ after)
  | readFailed {index : ℕ} {before after : Session} (hobject : server.object index = some before)
      (hnext : before.failRead = some after) :
      Stepped lib server (.readFailed index)
        ((server.update index fun _ ↦ after).onClientDisconnect index before.clientId)
  | writeFailed {index : ℕ} {before after : Session} (hobject : server.object index = some before)
      (hnext : before.failWrite = some after) :
      Stepped lib server (.writeFailed index)
        ((server.update index fun _ ↦ after).onClientDisconnect index before.clientId)
  | readDone {index : ℕ} {draw : UInt64 × UInt64} {io : SaveIO} {before after : Session}
      {line : Bytes} {result : Server × Outcome Unit} {status : Status}
      (hobject : server.object index = some before)
      (hline : before.takeLine = some (line, after))
      (hhandled : Handled lib ((server.update index fun _ ↦ after).record (.received index line))
        before.clientId line draw io result)
      (hstatus : status = .crashed ↔ result.2 = .crashed) :
      Stepped lib server (.readDone index draw io) { result.1 with status := status }
  | tick {order : List UInt8} {walk : List Bytes} {io : UInt8 → SaveIO}
      {result : Server × Outcome Unit} {status : Status}
      (horder : order.Perm server.sessions.keys)
      (hresult : result = serveAll lib walk io order server)
      (hstatus : status = .crashed ↔ result.2 = .crashed)
      (hrunning : status = .running ↔ result.2 = .returned ()) :
      Stepped lib server (.tick order walk io) { result.1 with status := status }
  | timerCanceled : Stepped lib server .timerCanceled { server with armed := false }

theorem advance_eq_some {server next : Server} {index : ℕ}
    {completion : Session → Option Session} (h : server.advance index completion = some next) :
    ∃ before after, server.object index = some before ∧ completion before = some after ∧
      next = server.update index fun _ ↦ after := by
  obtain ⟨before, hobject, h⟩ := Option.bind_eq_some_iff.mp h
  obtain ⟨after, hafter, h⟩ := Option.bind_eq_some_iff.mp h
  exact ⟨before, after, hobject, hafter, (Option.some.inj h).symm⟩

theorem disconnect_eq_some {server next : Server} {index : ℕ}
    {completion : Session → Option Session} (h : server.disconnect index completion = some next) :
    ∃ before after, server.object index = some before ∧ completion before = some after ∧
      next = (server.update index fun _ ↦ after).onClientDisconnect index before.clientId := by
  obtain ⟨before, hobject, h⟩ := Option.bind_eq_some_iff.mp h
  obtain ⟨after, hafter, h⟩ := Option.bind_eq_some_iff.mp h
  exact ⟨before, after, hobject, hafter, (Option.some.inj h).symm⟩

/-- Every step is one of these, and is made by a running server. -/
theorem step_stepped {lib : JsonLib} {server next : Server} {event : Event}
    (h : server.step lib event = some next) :
    server.status = .running ∧ Stepped lib server event next := by
  unfold step at h
  split at h
  swap
  · cases h
  next hrunning =>
  refine ⟨hrunning, ?_⟩
  cases event with
  | accept =>
    obtain ⟨serialized, hserialized, haccept⟩ := server.onAccept_eq lib
    simp only [haccept, conclude] at h
    cases h
    exact .accept hserialized
  | acceptFailed =>
    cases h
    exact .acceptFailed
  | receive index bytes =>
    obtain ⟨before, after, hobject, hnext, rfl⟩ := advance_eq_some h
    exact .receive hobject hnext
  | strand index =>
    obtain ⟨before, after, hobject, hnext, rfl⟩ := advance_eq_some h
    exact .strand hobject hnext
  | writeDone index =>
    obtain ⟨before, after, hobject, hnext, rfl⟩ := advance_eq_some h
    exact .writeDone hobject hnext
  | readFailed index =>
    obtain ⟨before, after, hobject, hnext, rfl⟩ := disconnect_eq_some h
    exact .readFailed hobject hnext
  | writeFailed index =>
    obtain ⟨before, after, hobject, hnext, rfl⟩ := disconnect_eq_some h
    exact .writeFailed hobject hnext
  | readDone index draw io =>
    obtain ⟨before, hobject, h⟩ := Option.bind_eq_some_iff.mp h
    obtain ⟨⟨line, after⟩, hline, h⟩ := Option.bind_eq_some_iff.mp h
    have hhandled := onLine_handled lib
      ((server.update index fun _ ↦ after).record (.received index line)) before.clientId line
      draw io
    obtain ⟨status, hguarded, hstatus⟩ := guarded_eq (hhandled.status.trans hrunning)
    have hnext := (Option.some.inj h).symm.trans hguarded
    rw [hnext]
    exact .readDone hobject hline hhandled hstatus
  | tick order walk io =>
    simp only [tick] at h
    split at h
    · next horder =>
      have hrunning' := (serveAll_status lib walk io order server).trans hrunning
      obtain ⟨status, hconclude, hstatus, hreturned⟩ := conclude_eq hrunning'
      have hnext := (Option.some.inj h).symm.trans hconclude
      rw [hnext]
      exact .tick horder.2.1 rfl hstatus hreturned
    · cases h
  | timerCanceled =>
    simp only at h
    split at h
    · cases h
      exact .timerCanceled
    · cases h

/-- Only a running server takes steps. -/
theorem running_of_run {lib : JsonLib} {server final : Server} {events : List Event}
    (hrun : Transition.run (step lib) server events = some final)
    (hrunning : final.status = .running) : server.status = .running := by
  cases events with
  | nil =>
    cases hrun
    exact hrunning
  | cons event rest =>
    obtain ⟨next, hnext, _⟩ := Transition.run_cons_eq_some.mp hrun
    exact (step_stepped hnext).1

/-- The invariant rule: what accepts, completions, disconnect callbacks, lines and ticks keep, every
step keeps. -/
theorem step_invariant {lib : JsonLib} {invariant : Server → Prop}
    (condition : Server → Event → Prop)
    (hended : ∀ {server : Server} (status : Status) (armed : Bool), server.status = .running →
      invariant server → invariant { server with status := status, armed := armed })
    (haccept : ∀ {server : Server} {serialized : Bytes}, invariant server →
      (Protocol.assignClientId server.nextClientId).serialize lib = .ok serialized →
      invariant (server.register serialized))
    (hquiet : ∀ {server : Server} {index : ℕ} {before after : Session}, invariant server →
      server.object index = some before → Session.Same before after →
      invariant (server.update index fun _ ↦ after))
    (hdisconnect : ∀ {server : Server} {index : ℕ} {session : Session}, invariant server →
      server.object index = some session →
      invariant (server.onClientDisconnect index session.clientId))
    (hread : ∀ {server : Server} {index : ℕ} {draw : UInt64 × UInt64} {io : SaveIO}
      {before after : Session} {line : Bytes} {result : Server × Outcome Unit},
      invariant server → condition server (.readDone index draw io) →
      server.object index = some before → before.takeLine = some (line, after) →
      Handled lib ((server.update index fun _ ↦ after).record (.received index line))
        before.clientId line draw io result → invariant result.1)
    (htick : ∀ {server : Server} {order : List UInt8} {walk : List Bytes} {io : UInt8 → SaveIO},
      invariant server → condition server (.tick order walk io) →
      order.Perm server.sessions.keys → ∀ status,
      (status = .running → (serveAll lib walk io order server).2 = .returned ()) →
      invariant { (serveAll lib walk io order server).1 with status := status })
    {server next : Server} {event : Event} (hinvariant : invariant server)
    (hcondition : condition server event) (h : server.step lib event = some next) :
    invariant next := by
  have hdisconnected : ∀ {index before after}, server.object index = some before →
      Session.Same before after →
      invariant ((server.update index fun _ ↦ after).onClientDisconnect index before.clientId) := by
    intro index before after hobject hsame
    rw [← hsame.clientId]
    refine hdisconnect (hquiet hinvariant hobject hsame) ?_
    simp [hobject]
  obtain ⟨hrunning, hstepped⟩ := step_stepped h
  cases hstepped with
  | accept hserialized => exact haccept hinvariant hserialized
  | acceptFailed => exact hinvariant
  | receive hobject hnext => exact hquiet hinvariant hobject (Session.receive_same hnext)
  | strand hobject hnext => exact hquiet hinvariant hobject (Session.runPosted_same hnext)
  | writeDone hobject hnext => exact hquiet hinvariant hobject (Session.finishWrite_same hnext)
  | readFailed hobject hnext => exact hdisconnected hobject (Session.failRead_same hnext)
  | writeFailed hobject hnext => exact hdisconnected hobject (Session.failWrite_same hnext)
  | readDone hobject hline hhandled _ =>
    exact hended _ _ (hhandled.status.trans hrunning)
      (hread hinvariant hcondition hobject hline hhandled)
  | tick horder hresult _ hreturned =>
    subst hresult
    exact htick hinvariant hcondition horder _ hreturned.mp
  | timerCanceled => exact hended _ _ hrunning hinvariant

end NetPixeld.Server
