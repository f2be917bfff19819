import NetPixeld.Common.Framing

/-!
# The connection of the client

The receiving thread takes lines out of `m_incoming` and pushes the messages that parse to the
queue, from which the frames poll. What was written to the socket is kept for the other side.
-/

namespace NetPixeld

structure NetworkClient where
  /-- The socket was connected. -/
  connected : Bool
  /-- `m_running`. -/
  running : Bool
  /-- `m_incoming`. -/
  incoming : Bytes := []
  recvQueue : List Protocol.Message := []
  written : Bytes := []

namespace NetworkClient

/-- `connect`, with its outcome. -/
def connect (success : Bool) : NetworkClient := { connected := success, running := success }

/-! ## The body of `recvLoop`

Each part gives nothing where it cannot happen. -/

/-- Bytes arrive for `read_until`, which goes on as long as it has not seen a newline. -/
def receive (bytes : Bytes) (net : NetworkClient) : Option NetworkClient :=
  if net.running = true ∧ newline ∉ net.incoming then
    some { net with incoming := net.incoming ++ bytes }
  else none

/-- `read_until` returns and `getline` takes a line out of the buffer. -/
def takeLine (lib : JsonLib) (net : NetworkClient) : Option NetworkClient :=
  if net.running = true then
    (Lines.cut newline net.incoming).map fun parts ↦
      { net with
        incoming := parts.2
        recvQueue := Protocol.deliver lib net.recvQueue parts.1 }
  else none

/-- `read_until` fails and the thread ends. -/
def failRead (net : NetworkClient) : Option NetworkClient :=
  if net.running = true ∧ newline ∉ net.incoming then some { net with running := false } else none

/-! ## Sending and polling -/

/-- `sendMessage`; a failed write leaves a part of the text on the wire and throws. -/
def sendMessage (lib : JsonLib) (net : NetworkClient) (msg : Protocol.Message)
    (failure : Option ℕ) : NetworkClient × Outcome Unit :=
  match msg.serialize lib with
  | .error exception => (net, .threw exception)
  | .ok out =>
      if net.connected = true then
        match failure with
        | none => ({ net with written := net.written ++ out }, .returned ())
        | some count => ({ net with written := net.written ++ out.take count }, .threw .systemError)
      else (net, .threw .systemError)

def pollMessage (net : NetworkClient) : Option (Protocol.Message × NetworkClient) :=
  match net.recvQueue with
  | [] => none
  | msg :: queue => some (msg, { net with recvQueue := queue })

end NetworkClient

end NetPixeld
