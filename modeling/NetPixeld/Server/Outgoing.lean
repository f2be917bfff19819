import NetPixeld.Foundation.Transition
import NetPixeld.Json.Reference
import NetPixeld.Server.Session

/-!
# The outgoing queue

`send` posts a closure, the closure queues the text, and the write chain takes the texts from the
front of the queue. Here the writes in flight are a list and the bytes go out one portion at a time,
so that a second write, a lost wake-up or a text popped too early would show. None happens: the
queue is idle, busy with its front, or broken by a failed write. `Session` is a view of this
machine.
-/

namespace NetPixeld

/-- An `async_write` in flight: its buffer and the number of bytes already written. -/
structure Write where
  buffer : Bytes
  sent : ℕ

/-- The sending side of a session and its connection. -/
structure Outgoing where
  /-- The closures posted to the strand that have not run. -/
  posted : List Packet := []
  /-- `m_outgoing`. -/
  outgoing : List Packet := []
  writes : List Write := []
  /-- The texts taken out of `m_outgoing`. -/
  written : List Packet := []
  /-- The bytes put on the connection. -/
  wire : Bytes := []
  /-- A write has reported an error. -/
  failed : Bool := false

namespace Outgoing

/-- `doWrite`, which is called only when the queue has a front. -/
def doWrite (state : Outgoing) : Outgoing :=
  match state.outgoing with
  | [] => state
  | packet :: _ => { state with writes := state.writes ++ [⟨packet.text, 0⟩] }

/-- `send`: a message without a serialization throws before anything is posted. -/
def send (lib : JsonLib) (state : Outgoing) (msg : Protocol.Message) : Outgoing :=
  match msg.serialize lib with
  | .ok text => { state with posted := state.posted ++ [⟨msg, text⟩] }
  | .error _ => state

/-- The oldest posted closure. -/
def runPosted (state : Outgoing) : Option Outgoing :=
  match state.posted with
  | [] => none
  | packet :: posted =>
      let busy := !state.outgoing.isEmpty
      let pushed := { state with posted := posted, outgoing := state.outgoing ++ [packet] }
      some (if busy then pushed else pushed.doWrite)

/-- Some more bytes of a write go out. -/
def transfer (state : Outgoing) (place count : ℕ) : Option Outgoing :=
  match state.writes[place]? with
  | none => none
  | some write =>
      if write.sent + count ≤ write.buffer.length then
        some { state with
          writes := state.writes.set place ⟨write.buffer, write.sent + count⟩
          wire := state.wire ++ (write.buffer.drop write.sent).take count }
      else none

/-- The completion handler without an error: `pop_front`, and the next write if there is more. -/
def popFront (state : Outgoing) : Outgoing :=
  match state.outgoing with
  | [] => state
  | packet :: outgoing =>
      let popped := { state with outgoing := outgoing, written := state.written ++ [packet] }
      if outgoing.isEmpty then popped else popped.doWrite

/-- A write of its whole buffer completes. -/
def writeDone (state : Outgoing) (place : ℕ) : Option Outgoing :=
  match state.writes[place]? with
  | none => none
  | some write =>
      if write.sent = write.buffer.length then
        some { state with writes := state.writes.eraseIdx place }.popFront
      else none

/-- A write reports an error. -/
def writeFailed (state : Outgoing) (place : ℕ) : Option Outgoing :=
  match state.writes[place]? with
  | none => none
  | some _ => some { state with writes := state.writes.eraseIdx place, failed := true }

inductive Event where
  | send (msg : Protocol.Message)
  | strand
  | transfer (place count : ℕ)
  | writeDone (place : ℕ)
  | writeFailed (place : ℕ)

def step (lib : JsonLib) (state : Outgoing) : Event → Option Outgoing
  | .send msg => some (state.send lib msg)
  | .strand => state.runPosted
  | .transfer place count => state.transfer place count
  | .writeDone place => state.writeDone place
  | .writeFailed place => state.writeFailed place

/-- The text a `send` posts. -/
def Event.packet (lib : JsonLib) : Event → Option Packet
  | .send msg => (msg.serialize lib).toOption.map fun text ↦ ⟨msg, text⟩
  | _ => none

/-- The texts of the calls of `send`, in their order. -/
def sends (lib : JsonLib) (events : List Event) : List Packet := events.filterMap (Event.packet lib)

/-- The bytes of some texts, one after the other. -/
def bytes (packets : List Packet) : Bytes := (packets.map Packet.text).flatten

/-! ## What the callbacks do -/

theorem runPosted_eq_some {state next : Outgoing} (h : state.runPosted = some next) :
    ∃ packet posted, state.posted = packet :: posted ∧
      next = if !state.outgoing.isEmpty then
          { state with posted := posted, outgoing := state.outgoing ++ [packet] }
        else ({ state with
          posted := posted, outgoing := state.outgoing ++ [packet] } : Outgoing).doWrite := by
  unfold runPosted at h
  split at h
  · cases h
  · next packet posted hposted => exact ⟨packet, posted, hposted, (Option.some.inj h).symm⟩

theorem transfer_eq_some {state next : Outgoing} {place count : ℕ}
    (h : state.transfer place count = some next) :
    ∃ write, state.writes[place]? = some write ∧ write.sent + count ≤ write.buffer.length ∧
      next = { state with
        writes := state.writes.set place ⟨write.buffer, write.sent + count⟩
        wire := state.wire ++ (write.buffer.drop write.sent).take count } := by
  unfold transfer at h
  split at h
  · cases h
  next write hwrite =>
  split at h
  · next hcount => exact ⟨write, hwrite, hcount, (Option.some.inj h).symm⟩
  · cases h

theorem writeDone_eq_some {state next : Outgoing} {place : ℕ}
    (h : state.writeDone place = some next) :
    ∃ write, state.writes[place]? = some write ∧ write.sent = write.buffer.length ∧
      next = ({ state with writes := state.writes.eraseIdx place } : Outgoing).popFront := by
  unfold writeDone at h
  split at h
  · cases h
  next write hwrite =>
  split at h
  · next hcomplete => exact ⟨write, hwrite, hcomplete, (Option.some.inj h).symm⟩
  · cases h

theorem writeFailed_eq_some {state next : Outgoing} {place : ℕ}
    (h : state.writeFailed place = some next) :
    ∃ write, state.writes[place]? = some write ∧
      next = { state with writes := state.writes.eraseIdx place, failed := true } := by
  unfold writeFailed at h
  split at h
  · cases h
  · next write hwrite => exact ⟨write, hwrite, (Option.some.inj h).symm⟩

/-! ## The three conditions of the queue -/

/-- The queue is empty, or its front is being written, or a write of its front has failed. -/
inductive Consistent : Outgoing → Prop
  | idle {posted written : List Packet} :
      Consistent ⟨posted, [], [], written, bytes written, false⟩
  | busy {posted outgoing written : List Packet} {packet : Packet} {sent : ℕ}
      (hsent : sent ≤ packet.text.length) :
      Consistent ⟨posted, packet :: outgoing, [⟨packet.text, sent⟩], written,
        bytes written ++ packet.text.take sent, false⟩
  | broken {posted outgoing written : List Packet} {packet : Packet} {sent : ℕ} :
      Consistent ⟨posted, packet :: outgoing, [], written,
        bytes written ++ packet.text.take sent, true⟩

@[simp]
theorem bytes_nil : bytes [] = [] := rfl

@[simp]
theorem bytes_append (first second : List Packet) :
    bytes (first ++ second) = bytes first ++ bytes second := by
  simp [bytes]

@[simp]
theorem bytes_cons (packet : Packet) (rest : List Packet) :
    bytes (packet :: rest) = packet.text ++ bytes rest := rfl

theorem consistent_send (lib : JsonLib) (msg : Protocol.Message) {state : Outgoing}
    (h : Consistent state) : Consistent (state.send lib msg) := by
  unfold send
  split
  · cases h with
    | idle => exact .idle
    | busy hsent => exact .busy hsent
    | broken => exact .broken
  · exact h

/-- A write that has just started. -/
theorem consistent_started (posted outgoing written : List Packet) (packet : Packet) :
    Consistent ⟨posted, packet :: outgoing, [⟨packet.text, 0⟩], written, bytes written, false⟩ := by
  have h := @Consistent.busy posted outgoing written packet 0 (Nat.zero_le _)
  rwa [List.take_zero, List.append_nil] at h

theorem consistent_runPosted {state next : Outgoing} (h : Consistent state)
    (hstep : state.runPosted = some next) : Consistent next := by
  obtain ⟨packet, posted, _, rfl⟩ := runPosted_eq_some hstep
  cases h with
  | idle => exact consistent_started ..
  | busy hsent => exact .busy hsent
  | broken => exact .broken

/-- The only write is that of the front of the queue. -/
theorem Consistent.front {state : Outgoing} (h : Consistent state) {place : ℕ} {write : Write}
    (hwrite : state.writes[place]? = some write) :
    place = 0 ∧ ∃ posted packet outgoing written, write.sent ≤ packet.text.length ∧
      write.buffer = packet.text ∧
      state = ⟨posted, packet :: outgoing, [⟨packet.text, write.sent⟩], written,
        bytes written ++ packet.text.take write.sent, false⟩ := by
  cases h with
  | idle | broken => cases hwrite
  | busy hsent =>
    cases place with
    | succ place => cases hwrite
    | zero =>
      cases hwrite
      exact ⟨rfl, _, _, _, _, hsent, rfl, rfl⟩

/-- Only the front of the queue is written, from where the write has got to. -/
theorem consistent_transfer {state next : Outgoing} {place count : ℕ} (h : Consistent state)
    (hstep : state.transfer place count = some next) : Consistent next := by
  obtain ⟨write, hwrite, hcount, rfl⟩ := transfer_eq_some hstep
  obtain ⟨rfl, posted, packet, outgoing, written, _, hbuffer, hstate⟩ := h.front hwrite
  rw [hbuffer] at hcount ⊢
  subst hstate
  rw [List.append_assoc, ← List.take_add]
  exact .busy hcount

/-- The text of a completed write leaves the queue, and the next one is started. -/
theorem consistent_writeDone {state next : Outgoing} {place : ℕ} (h : Consistent state)
    (hstep : state.writeDone place = some next) : Consistent next := by
  obtain ⟨write, hwrite, hcomplete, rfl⟩ := writeDone_eq_some hstep
  obtain ⟨rfl, posted, packet, outgoing, written, _, hbuffer, hstate⟩ := h.front hwrite
  have hbytes : bytes written ++ packet.text.take write.sent = bytes (written ++ [packet]) := by
    rw [hcomplete, hbuffer, List.take_length, bytes_append, bytes_cons, bytes_nil,
      List.append_nil]
  rw [hbytes] at hstate
  subst hstate
  cases outgoing with
  | nil => exact .idle
  | cons following outgoing => exact consistent_started ..

theorem consistent_writeFailed {state next : Outgoing} {place : ℕ} (h : Consistent state)
    (hstep : state.writeFailed place = some next) : Consistent next := by
  obtain ⟨write, hwrite, rfl⟩ := writeFailed_eq_some hstep
  obtain ⟨rfl, posted, packet, outgoing, written, _, _, hstate⟩ := h.front hwrite
  subst hstate
  exact .broken

theorem step_consistent {lib : JsonLib} {state next : Outgoing} {event : Event}
    (h : Consistent state) (hstep : state.step lib event = some next) : Consistent next := by
  cases event with
  | send msg =>
    cases hstep
    exact consistent_send lib msg h
  | strand => exact consistent_runPosted h hstep
  | transfer place count => exact consistent_transfer h hstep
  | writeDone place => exact consistent_writeDone h hstep
  | writeFailed place => exact consistent_writeFailed h hstep

/-! ## Nothing is lost, and nothing follows a failure -/

/-- The texts of all calls of `send` so far. -/
def sent (state : Outgoing) : List Packet := state.written ++ state.outgoing ++ state.posted

theorem sent_doWrite (state : Outgoing) : state.doWrite.sent = state.sent := by
  unfold doWrite
  split <;> rfl

theorem sent_popFront (state : Outgoing) : state.popFront.sent = state.sent := by
  unfold popFront
  split
  · rfl
  next packet outgoing houtgoing =>
  have hpopped : ({ state with
      outgoing := outgoing, written := state.written ++ [packet] } : Outgoing).sent =
      state.sent := by
    simp [sent, houtgoing]
  dsimp only
  split
  · exact hpopped
  · rw [sent_doWrite]
    exact hpopped

/-- A step keeps the order of the texts and adds what it sends. -/
theorem step_sent {lib : JsonLib} {state next : Outgoing} {event : Event}
    (hstep : state.step lib event = some next) :
    next.sent = state.sent ++ sends lib [event] := by
  cases event with
  | send msg =>
    cases hstep
    simp only [send, sends, Event.packet, List.filterMap_cons, List.filterMap_nil]
    cases msg.serialize lib with
    | ok text => simp [sent, Except.toOption]
    | error exception => simp [Except.toOption]
  | strand =>
    obtain ⟨packet, posted, hposted, rfl⟩ := runPosted_eq_some hstep
    have hpushed : ({ state with
        posted := posted, outgoing := state.outgoing ++ [packet] } : Outgoing).sent =
        state.sent := by
      simp [sent, hposted]
    change _ = state.sent ++ []
    rw [List.append_nil]
    split
    · exact hpushed
    · rw [sent_doWrite]
      exact hpushed
  | transfer place count =>
    obtain ⟨write, _, _, rfl⟩ := transfer_eq_some hstep
    exact (List.append_nil _).symm
  | writeDone place =>
    obtain ⟨write, _, _, rfl⟩ := writeDone_eq_some hstep
    rw [sent_popFront]
    exact (List.append_nil _).symm
  | writeFailed place =>
    obtain ⟨write, _, rfl⟩ := writeFailed_eq_some hstep
    exact (List.append_nil _).symm

theorem run_sent {lib : JsonLib} {state final : Outgoing} {events : List Event}
    (hrun : Transition.run (step lib) state events = some final) :
    final.sent = state.sent ++ sends lib events := by
  induction events generalizing state with
  | nil =>
    cases hrun
    exact (List.append_nil _).symm
  | cons event rest ih =>
    obtain ⟨next, hnext, hrest⟩ := Transition.run_cons_eq_some.mp hrun
    rw [ih hrest, step_sent hnext, List.append_assoc]
    exact congrArg (state.sent ++ ·) List.filterMap_append.symm

/-- After a failure no write is started and no byte goes out. -/
theorem step_failed {lib : JsonLib} {state next : Outgoing} {event : Event}
    (h : Consistent state) (hstep : state.step lib event = some next)
    (hfailed : state.failed = true) : next.failed = true ∧ next.wire = state.wire := by
  cases h with
  | idle | busy => cases hfailed
  | broken =>
    cases event with
    | send msg =>
      cases hstep
      unfold send
      split <;> exact ⟨rfl, rfl⟩
    | strand =>
      obtain ⟨packet, posted, _, rfl⟩ := runPosted_eq_some hstep
      exact ⟨rfl, rfl⟩
    | transfer place count | writeDone place | writeFailed place => cases hstep

theorem run_failed {lib : JsonLib} {state final : Outgoing} {events : List Event}
    (h : Consistent state) (hrun : Transition.run (step lib) state events = some final)
    (hfailed : state.failed = true) : final.wire = state.wire := by
  have hstep : ∀ {before : Outgoing} {event : Event} {after : Outgoing},
      Consistent before ∧ before.failed = true ∧ before.wire = state.wire →
      before.step lib event = some after →
      Consistent after ∧ after.failed = true ∧ after.wire = state.wire := by
    rintro before event after ⟨hconsistent, hbroken, hwire⟩ hstep
    obtain ⟨hbroken', hwire'⟩ := step_failed hconsistent hstep hbroken
    exact ⟨step_consistent hconsistent hstep, hbroken', hwire'.trans hwire⟩
  exact (Transition.invariant_run hstep ⟨h, hfailed, rfl⟩ hrun).2.2

/-! ## The queue of a session -/

/-- The queue of a session after the handshake and any calls, closures and completions. -/
structure Ordered (lib : JsonLib) (events : List Event) (state : Outgoing) : Prop where
  single : state.writes.length ≤ 1
  front : ∀ write ∈ state.writes, ∃ packet rest,
    state.outgoing = packet :: rest ∧ write.buffer = packet.text
  awake : state.failed = false → (state.writes ≠ [] ↔ state.outgoing ≠ [])
  wire : state.wire <+: bytes (sends lib events)
  complete : state.failed = false → state.posted = [] → state.outgoing = [] →
    state.wire = bytes (sends lib events)

theorem partial_prefix (written rest : List Packet) (packet : Packet) (sent : ℕ) :
    bytes written ++ packet.text.take sent <+: bytes (written ++ packet :: rest) := by
  rw [bytes_append, bytes_cons, List.prefix_append_right_inj]
  exact (List.take_prefix sent packet.text).trans (List.prefix_append ..)

theorem ordered_of_consistent {lib : JsonLib} {events : List Event} {state : Outgoing}
    (h : Consistent state) (hsent : state.sent = sends lib events) : Ordered lib events state := by
  cases h with
  | @idle posted written =>
    refine ⟨Nat.zero_le _, nofun, fun _ ↦ by simp, ?_, ?_⟩
    · rw [← hsent, sent, List.append_nil, bytes_append]
      exact List.prefix_append ..
    · rintro _ rfl _
      rw [← hsent, sent, List.append_nil, List.append_nil]
  | @busy posted outgoing written packet sent hsent' =>
    refine ⟨le_refl 1, ?_, fun _ ↦ by simp, ?_, nofun⟩
    · intro write hwrite
      cases List.mem_singleton.mp hwrite
      exact ⟨packet, outgoing, rfl, rfl⟩
    · rw [← hsent, Outgoing.sent, List.append_assoc]
      exact partial_prefix ..
  | @broken posted outgoing written packet sent =>
    refine ⟨Nat.zero_le _, nofun, nofun, ?_, nofun⟩
    rw [← hsent, Outgoing.sent, List.append_assoc]
    exact partial_prefix ..

/-- At most one write is in flight, it writes the front of the queue, none is forgotten, and the
bytes on the connection are a beginning of the texts in the order of the calls, the handshake first.
A failed write is the last one. -/
theorem outgoing_ordered (lib : JsonLib) (clientId : UInt8) {events : List Event}
    {state : Outgoing}
    (hrun : Transition.run (step lib) {} (.send (Protocol.assignClientId clientId) :: events) =
      some state) :
    Ordered lib (.send (Protocol.assignClientId clientId) :: events) state ∧
      (∃ handshake, (Protocol.assignClientId clientId).serialize lib = .ok handshake ∧
        sends lib (.send (Protocol.assignClientId clientId) :: events) =
          ⟨Protocol.assignClientId clientId, handshake⟩ :: sends lib events) ∧
      ∀ before after middle,
        .send (Protocol.assignClientId clientId) :: events = before ++ after →
        Transition.run (step lib) {} before = some middle → middle.failed = true →
        state.wire = middle.wire := by
  have hinit : Consistent {} := .idle
  have hconsistent : Consistent state := Transition.invariant_run step_consistent hinit hrun
  refine ⟨ordered_of_consistent hconsistent (run_sent hrun), ?_, ?_⟩
  · obtain ⟨handshake, hhandshake⟩ :=
      Protocol.Message.serialize_ok lib (Protocol.wellFormed_assignClientId clientId)
    refine ⟨handshake, hhandshake, ?_⟩
    simp [sends, Event.packet, hhandshake, Except.toOption]
  · intro before after middle hevents hbefore hfailed
    rw [hevents] at hrun
    obtain ⟨middle', hmiddle, hafter⟩ := Transition.run_append_eq_some.mp hrun
    cases hbefore.symm.trans hmiddle
    exact run_failed (Transition.invariant_run step_consistent hinit hbefore) hafter hfailed

/-- A second message waits for the first, whose write fails halfway. -/
theorem outgoing_ordered_failure :
    ∃ state, Transition.run (step JsonLib.reference) {}
        (.send (Protocol.assignClientId 1) :: [.strand, .transfer 0 5,
          .send (Protocol.loginResult (text "u")), .strand, .writeFailed 0]) = some state ∧
      Ordered JsonLib.reference (.send (Protocol.assignClientId 1) :: [.strand, .transfer 0 5,
        .send (Protocol.loginResult (text "u")), .strand, .writeFailed 0]) state ∧
      state.wire.length = 5 := by
  have hlength : (Transition.run (step JsonLib.reference) {}
      (.send (Protocol.assignClientId 1) :: [.strand, .transfer 0 5,
        .send (Protocol.loginResult (text "u")), .strand, .writeFailed 0])).map
      (fun state ↦ state.wire.length) = some 5 := by decide +kernel
  obtain ⟨state, hrun, hwire⟩ := Option.map_eq_some_iff.mp hlength
  exact ⟨state, hrun, (outgoing_ordered JsonLib.reference 1 hrun).1, hwire⟩

/-! ## The view of a session -/

/-- The sending side of a session, without the progress of its write. -/
def view (base : Session) (state : Outgoing) : Session :=
  { base with
    posted := state.posted
    outgoing := state.outgoing
    writing := !state.writes.isEmpty
    written := state.written }

/-- Every step is a step of the session, or invisible to it. -/
theorem step_view {lib : JsonLib} (base : Session) {state next : Outgoing} {event : Event}
    (h : Consistent state) (hstep : state.step lib event = some next) :
    match event with
    | .send msg => next.view base = match msg.serialize lib with
        | .ok text => (state.view base).post ⟨msg, text⟩
        | .error _ => state.view base
    | .strand => (state.view base).runPosted = some (next.view base)
    | .transfer _ _ => next.view base = state.view base
    | .writeDone _ => (state.view base).finishWrite = some (next.view base)
    | .writeFailed _ => (state.view base).failWrite = some (next.view base) := by
  cases event with
  | send msg =>
    cases hstep
    dsimp only [send]
    split <;> rfl
  | strand =>
    obtain ⟨packet, posted, hposted, rfl⟩ := runPosted_eq_some hstep
    cases h <;> cases hposted <;> rfl
  | transfer place count =>
    obtain ⟨write, hwrite, _, rfl⟩ := transfer_eq_some hstep
    obtain ⟨rfl, posted, packet, outgoing, written, _, _, hstate⟩ := h.front hwrite
    subst hstate
    rfl
  | writeDone place =>
    obtain ⟨write, hwrite, _, rfl⟩ := writeDone_eq_some hstep
    obtain ⟨rfl, posted, packet, outgoing, written, _, _, hstate⟩ := h.front hwrite
    subst hstate
    cases outgoing <;> rfl
  | writeFailed place =>
    obtain ⟨write, hwrite, rfl⟩ := writeFailed_eq_some hstep
    obtain ⟨rfl, posted, packet, outgoing, written, _, _, hstate⟩ := h.front hwrite
    subst hstate
    rfl

end Outgoing

end NetPixeld
