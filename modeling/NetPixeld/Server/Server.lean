import NetPixeld.Foundation.Transition
import NetPixeld.Server.JsonDB
import NetPixeld.Server.Session

/-!
# The server

The state of the server and one step of its single event loop. A `std::shared_ptr<Session>` is the
position of the object in the order of the accepts, or null. The outcomes of input and output, the
arrival of bytes, the order in which an unordered map is walked and the random draws are in the
events. The handler of `LoginRequest` is the one registered in `main`.
-/

namespace NetPixeld

/-- How the process stands. -/
inductive Status where
  | running
  /-- An exception left the event loop and `main`. -/
  | terminated
  /-- The process was killed. -/
  | killed
  /-- A null pointer was dereferenced. -/
  | crashed
deriving DecidableEq

/-- What happened, for the statements; no code reads it. -/
inductive Action where
  | accepted (index : ℕ) (clientId : UInt8)
  /-- A line was read from the connection of a session. -/
  | received (index : ℕ) (line : Bytes)
  /-- A session called `m_onDisconnect`. -/
  | disconnected (index : ℕ) (clientId : UInt8)
  /-- A tick stored the resources of an account. -/
  | stored (uuid : Bytes) (resources : Resources)
deriving DecidableEq

/-- An accept or a disconnect callback. -/
def Action.registers : Action → Bool
  | .accepted _ _ | .disconnected _ _ => true
  | .received _ _ | .stored _ _ => false

structure Server where
  /-- Every session object created, in order. -/
  objects : List Session := []
  /-- `m_sessions`. -/
  sessions : SortedMap UInt8 (Option ℕ) := ∅
  nextClientId : UInt8 := 1
  lastSeqByType : SortedMap UInt8 (SortedMap Bytes UInt32) := ∅
  db : JsonDB := {}
  /-- The resource timer is armed. -/
  armed : Bool := true
  status : Status := .running
  log : List Action := []

namespace Server

def object (server : Server) (index : ℕ) : Option Session := server.objects[index]?

/-- Change one session object. -/
def update (server : Server) (index : ℕ) (change : Session → Session) : Server :=
  { server with objects := server.objects.modify index change }

def record (server : Server) (action : Action) : Server :=
  { server with log := server.log ++ [action] }

/-- `Session::send`. -/
def send (lib : JsonLib) (server : Server) (index : ℕ) (msg : Protocol.Message) :
    Server × Outcome Unit :=
  match msg.serialize lib with
  | .ok text => (server.update index (·.post ⟨msg, text⟩), .returned ())
  | .error exception => (server, .threw exception)

/-- A handler called from the event loop: nothing catches its exceptions. -/
def conclude (result : Server × Outcome Unit) : Server :=
  match result.2 with
  | .returned () => result.1
  | .threw _ => { result.1 with status := .terminated }
  | .died => { result.1 with status := .killed }
  | .crashed => { result.1 with status := .crashed }

/-- A handler called inside the `try` of `doRead`. -/
def guarded (result : Server × Outcome Unit) : Server :=
  match result.2 with
  | .threw _ => result.1
  | _ => conclude result

/-! ## Connections -/

/-- `onAccept` without an error. -/
def onAccept (lib : JsonLib) (server : Server) : Server × Outcome Unit :=
  let id := server.nextClientId
  let index := server.objects.length
  let session : Session := { clientId := id }
  let server : Server := { server with
    nextClientId := id + 1
    objects := server.objects ++ [session]
    sessions := server.sessions.insert id (some index)
    log := server.log ++ [.accepted index id] }
  match server.send lib index (Protocol.assignClientId id) with
  | (server, .returned ()) => (server.update index Session.start, .returned ())
  | failed => failed

/-- `m_onDisconnect(m_clientId)` called by a session. -/
def onClientDisconnect (server : Server) (index : ℕ) (clientId : UInt8) : Server :=
  { server with
    sessions := server.sessions.erase clientId
    log := server.log ++ [.disconnected index clientId] }

/-- `getSession`: `operator[]` inserts a null pointer under an unknown id. -/
def getSession (server : Server) (clientId : UInt8) : Server × Option ℕ :=
  match server.sessions.find clientId with
  | some pointer => (server, pointer)
  | none => ({ server with sessions := server.sessions.insert clientId none }, none)

def sendToClient (lib : JsonLib) (server : Server) (clientId : UInt8) (msg : Protocol.Message) :
    Server × Outcome Unit :=
  match server.sessions.find clientId with
  | none => (server, .returned ())
  | some none => (server, .crashed)
  | some (some index) => server.send lib index msg

/-! ## Messages -/

/-- The fields `id` and `password` of a request. -/
def credentials (msg : Protocol.Message) : Except Exn (Bytes × Bytes) := do
  let user ← (← msg.payload.atKey (text "id")).getString
  let pass ← (← msg.payload.atKey (text "password")).getString
  .ok (user, pass)

/-- The branches over the store: the uuid of the account, or nothing when the password is wrong. -/
def login (lib : JsonLib) (db : JsonDB) (user pass : Bytes) (draw : UInt64 × UInt64)
    (io : SaveIO) : JsonDB × Outcome (Option Bytes) :=
  if db.userExists user then
    if db.verifyUser user pass then (db, (Outcome.ofExcept (db.getUser user pass)).map some)
    else (db, .returned none)
  else
    let added := db.addUser lib user pass draw io
    (added.1, added.2.map some)

/-- `server.getSession(clientId)->setUUID(uuid)` and the reply. -/
def reply (lib : JsonLib) (server : Server) (clientId : UInt8) (uuid : Bytes) :
    Server × Outcome Unit :=
  match server.getSession clientId with
  | (server, none) => (server, .crashed)
  | (server, some index) =>
      (server.update index (Session.setUUID uuid)).sendToClient lib clientId
        (Protocol.loginResult uuid)

/-- The handler registered for `LoginRequest`. -/
def onLoginRequest (lib : JsonLib) (server : Server) (clientId : UInt8) (msg : Protocol.Message)
    (draw : UInt64 × UInt64) (io : SaveIO) : Server × Outcome Unit :=
  match credentials msg with
  | .error exception => (server, .threw exception)
  | .ok (user, pass) =>
      let found := login lib server.db user pass draw io
      let server := { server with db := found.1 }
      match found.2 with
      | .returned (some uuid) => server.reply lib clientId uuid
      | .returned none => (server, .returned ())
      | .threw exception => (server, .threw exception)
      | .died => (server, .died)
      | .crashed => (server, .crashed)

/-- `onClientMessage`: a message without a handler is only logged. -/
def onClientMessage (lib : JsonLib) (server : Server) (clientId : UInt8) (msg : Protocol.Message)
    (draw : UInt64 × UInt64) (io : SaveIO) : Server × Outcome Unit :=
  if msg.type = Protocol.msgLoginRequest then server.onLoginRequest lib clientId msg draw io
  else (server, .returned ())

/-- The body of the read handler for one line. -/
def onLine (lib : JsonLib) (server : Server) (clientId : UInt8) (line : Bytes)
    (draw : UInt64 × UInt64) (io : SaveIO) : Server × Outcome Unit :=
  match Protocol.readLine lib line with
  | .error exception => (server, .threw exception)
  | .ok message => server.onClientMessage lib clientId message draw io

/-! ## Resource ticks -/

/-- `m_lastSeqByType[clientId]`. -/
def counters (server : Server) (clientId : UInt8) : SortedMap Bytes UInt32 :=
  (server.lastSeqByType.find clientId).getD ∅

/-- The counter of an id for updates; `operator[]` starts it at zero. -/
def counter (server : Server) (clientId : UInt8) : UInt32 :=
  ((server.counters clientId).find (text "ResourceUpdate")).getD 0

/-- `++m_lastSeqByType[clientId]["ResourceUpdate"]`. -/
def advanceCounter (server : Server) (clientId : UInt8) : Server :=
  let counters := server.counters clientId
  let advanced := counters.insert (text "ResourceUpdate") (server.counter clientId + 1)
  { server with lastSeqByType := server.lastSeqByType.insert clientId advanced }

/-- `pool.wood += 10; pool.food += 10; pool.iron += 10;` -/
def harvest (pool : Resources) : Resources := ⟨pool.wood + 10, pool.food + 10, pool.iron + 10⟩

/-- The part of the loop body behind `getResources`. -/
def serveAccount (lib : JsonLib) (server : Server) (walk : List Bytes) (io : SaveIO)
    (clientId : UInt8) (index : ℕ) (uuid : Bytes) (pool : Resources) : Server × Outcome Unit :=
  let server := server.advanceCounter clientId
  let msg := Protocol.resourceUpdate (server.counter clientId) uuid pool.wood pool.food pool.iron
  let saved := server.db.updateResources lib walk uuid pool io
  let server := { server with db := saved.1 }
  match saved.2 with
  | .returned () => (server.record (.stored uuid pool)).send lib index msg
  | failed => (server, failed)

/-- The body of the loop over `m_sessions`. The walk is the iteration order of the accounts. -/
def serve (lib : JsonLib) (server : Server) (walk : List Bytes) (io : SaveIO) (clientId : UInt8) :
    Server × Outcome Unit :=
  match server.sessions.find clientId with
  | none => (server, .returned ())
  | some none => (server, .crashed)
  | some (some index) =>
      match server.object index with
      | none => (server, .crashed)
      | some session =>
          if session.uuid = [] then (server, .returned ())
          else
            match server.db.getResources walk session.uuid with
            | .error exception => (server, .threw exception)
            | .ok pool =>
                server.serveAccount lib walk io clientId index session.uuid (harvest pool)

/-- The loop over `m_sessions`, in an iteration order. -/
def serveAll (lib : JsonLib) (walk : List Bytes) (io : UInt8 → SaveIO) :
    List UInt8 → Server → Server × Outcome Unit
  | [], server => (server, .returned ())
  | clientId :: rest, server =>
      match server.serve lib walk (io clientId) clientId with
      | (server, .returned ()) => serveAll lib walk io rest server
      | failed => failed

/-! ## The event loop -/

inductive Event where
  | accept
  | acceptFailed
  | receive (index : ℕ) (bytes : Bytes)
  /-- A read completes with a line. -/
  | readDone (index : ℕ) (draw : UInt64 × UInt64) (io : SaveIO)
  | readFailed (index : ℕ)
  /-- The strand of a session runs a posted closure. -/
  | strand (index : ℕ)
  | writeDone (index : ℕ)
  | writeFailed (index : ℕ)
  /-- The timer fires: the iteration orders of `m_sessions` and `m_accounts`, and the saves. -/
  | tick (order : List UInt8) (walk : List Bytes) (io : UInt8 → SaveIO)
  /-- The timer is cancelled. -/
  | timerCanceled

/-- A completion of one session, where it can happen. -/
def advance (server : Server) (index : ℕ) (completion : Session → Option Session) :
    Option Server := do
  let session ← server.object index
  let next ← completion session
  some (server.update index fun _ ↦ next)

/-- A completion that ends in `m_onDisconnect(m_clientId)`. -/
def disconnect (server : Server) (index : ℕ) (completion : Session → Option Session) :
    Option Server := do
  let session ← server.object index
  let next ← completion session
  some ((server.update index fun _ ↦ next).onClientDisconnect index session.clientId)

/-- A read handler that got a line. -/
def readDone (lib : JsonLib) (server : Server) (index : ℕ) (draw : UInt64 × UInt64) (io : SaveIO) :
    Option Server := do
  let session ← server.object index
  let (line, next) ← session.takeLine
  let server := (server.update index fun _ ↦ next).record (.received index line)
  some (guarded (server.onLine lib session.clientId line draw io))

/-- The resource tick, where the orders are iteration orders of the two maps. -/
def tick (lib : JsonLib) (server : Server) (order : List UInt8) (walk : List Bytes)
    (io : UInt8 → SaveIO) : Option Server :=
  if server.armed = true ∧ order.Perm server.sessions.keys ∧ walk.Perm server.db.accounts.keys then
    some (conclude (serveAll lib walk io order server))
  else none

/-- One step of the event loop; nothing happens once the process is gone. -/
def step (lib : JsonLib) (server : Server) (event : Event) : Option Server :=
  if server.status = .running then
    match event with
    | .accept => some (conclude (server.onAccept lib))
    | .acceptFailed => some server
    | .receive index bytes => server.advance index (Session.receive bytes)
    | .readDone index draw io => server.readDone lib index draw io
    | .readFailed index => server.disconnect index Session.failRead
    | .strand index => server.advance index Session.runPosted
    | .writeDone index => server.advance index Session.finishWrite
    | .writeFailed index => server.disconnect index Session.failWrite
    | .tick order walk io => server.tick lib order walk io
    | .timerCanceled => if server.armed = true then some { server with armed := false } else none
  else none

/-- The server built on a store loaded from its file. -/
def start (lib : JsonLib) (files : Files) : Except Exn Server :=
  (JsonDB.new lib files).map fun db ↦ { db := db }

end Server

end NetPixeld
