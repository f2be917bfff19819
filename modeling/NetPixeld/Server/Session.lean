import NetPixeld.Common.Framing

/-!
# Sessions

One connection on the side of the server. The read chain takes lines out of `m_incoming`, the write
chain writes the front of `m_outgoing`, and texts handed to `send` wait in closures posted to the
strand. The two chains fail independently. A text is kept together with the message it was made
from, and texts that left the queue are kept in `written`; no code reads either.
-/

namespace NetPixeld

/-- A serialized message. -/
structure Packet where
  message : Protocol.Message
  text : Bytes

structure Session where
  clientId : UInt8
  uuid : Bytes := []
  /-- `m_incoming`. -/
  incoming : Bytes := []
  /-- An `async_read_until` is pending. -/
  reading : Bool := false
  /-- The closures posted by `send` that have not run. -/
  posted : List Packet := []
  /-- `m_outgoing`. -/
  outgoing : List Packet := []
  /-- An `async_write` of the front of `m_outgoing` is in flight. -/
  writing : Bool := false
  written : List Packet := []

namespace Session

/-- Everything queued on a session by `send`, in that order. -/
def sent (session : Session) : List Packet := session.written ++ session.outgoing ++ session.posted

def setUUID (uuid : Bytes) (session : Session) : Session := { session with uuid := uuid }

/-- `start`. -/
def start (session : Session) : Session := { session with reading := true }

/-- The second half of `send`: post the closure that queues the text. -/
def post (session : Session) (packet : Packet) : Session :=
  { session with posted := session.posted ++ [packet] }

/-! ## Completions

Each gives nothing where it cannot happen. -/

/-- Bytes arrive for a pending read, which goes on as long as it has not seen a newline. -/
def receive (bytes : Bytes) (session : Session) : Option Session :=
  if session.reading = true ∧ newline ∉ session.incoming then
    some { session with incoming := session.incoming ++ bytes }
  else none

/-- The read completes: `getline` takes a line out of the buffer. -/
def takeLine (session : Session) : Option (Bytes × Session) :=
  if session.reading = true then
    (Lines.cut newline session.incoming).map fun parts ↦
      (parts.1, { session with incoming := parts.2 })
  else none

/-- The read fails. A line that is already buffered is delivered first. -/
def failRead (session : Session) : Option Session :=
  if session.reading = true ∧ newline ∉ session.incoming then
    some { session with reading := false }
  else none

/-- The strand runs the oldest posted closure, which starts a write when none is queued. -/
def runPosted (session : Session) : Option Session :=
  match session.posted with
  | [] => none
  | packet :: posted =>
      some { session with
        posted := posted
        outgoing := session.outgoing ++ [packet]
        writing := session.writing || session.outgoing.isEmpty }

/-- The write completes and the next one starts. -/
def finishWrite (session : Session) : Option Session :=
  match session.writing, session.outgoing with
  | true, packet :: outgoing =>
      some { session with
        outgoing := outgoing
        written := session.written ++ [packet]
        writing := !outgoing.isEmpty }
  | _, _ => none

/-- The write fails: the text stays at the front of the queue and nothing is written any more. -/
def failWrite (session : Session) : Option Session :=
  if session.writing = true then some { session with writing := false } else none

/-! ## What the completions leave alone -/

/-- The identity of a session and what was queued on it are the same. -/
structure Same (before after : Session) : Prop where
  clientId : after.clientId = before.clientId
  uuid : after.uuid = before.uuid
  sent : after.sent = before.sent

theorem receive_same {session next : Session} {bytes : Bytes}
    (h : session.receive bytes = some next) : Same session next := by
  unfold receive at h
  split at h
  · cases h
    exact ⟨rfl, rfl, rfl⟩
  · cases h

/-- A completed read takes the first line out of the buffer. -/
theorem takeLine_eq_some {session next : Session} {line : Bytes}
    (h : session.takeLine = some (line, next)) :
    session.reading = true ∧ ∃ rest, Lines.cut newline session.incoming = some (line, rest) ∧
      next = { session with incoming := rest } := by
  unfold takeLine at h
  split at h
  · next hreading =>
    obtain ⟨⟨cutLine, rest⟩, hcut, hparts⟩ := Option.map_eq_some_iff.mp h
    cases hparts
    exact ⟨hreading, rest, hcut, rfl⟩
  · cases h

theorem takeLine_same {session next : Session} {line : Bytes}
    (h : session.takeLine = some (line, next)) : Same session next := by
  obtain ⟨_, rest, _, rfl⟩ := takeLine_eq_some h
  exact ⟨rfl, rfl, rfl⟩

theorem failRead_same {session next : Session} (h : session.failRead = some next) :
    Same session next := by
  unfold failRead at h
  split at h
  · cases h
    exact ⟨rfl, rfl, rfl⟩
  · cases h

theorem runPosted_same {session next : Session} (h : session.runPosted = some next) :
    Same session next := by
  unfold runPosted at h
  split at h
  · cases h
  · next packet posted hposted =>
    cases h
    exact ⟨rfl, rfl, by simp [sent, hposted]⟩

theorem finishWrite_same {session next : Session} (h : session.finishWrite = some next) :
    Same session next := by
  unfold finishWrite at h
  split at h
  · next packet outgoing _ houtgoing =>
    cases h
    exact ⟨rfl, rfl, by simp [sent, houtgoing]⟩
  · cases h

theorem failWrite_same {session next : Session} (h : session.failWrite = some next) :
    Same session next := by
  unfold failWrite at h
  split at h
  · cases h
    exact ⟨rfl, rfl, rfl⟩
  · cases h

@[simp]
theorem sent_post (session : Session) (packet : Packet) :
    (session.post packet).sent = session.sent ++ [packet] := by
  simp [sent, post]

end Session

end NetPixeld
