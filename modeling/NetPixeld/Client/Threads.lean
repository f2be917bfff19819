import NetPixeld.Client.Lifetimes

/-!
# The two threads of the client

The main thread and the receiving thread, interleaved wherever they share `m_running`, the queue or
the socket. The receiving thread tests `m_running`, reads, takes a line, and parses and pushes it.
The main thread polls the queue message by message; behind the loop in `Run` it calls `shutdown`,
and the destructor of the connection calls `shutdown` again and joins the receiving thread.
-/

namespace NetPixeld

namespace Application

def withNet (app : Application) (net : NetworkClient) : Application :=
  { app with ctx.net := net }

/-- The outcome of `connect`. -/
inductive Connection where
  | refused
  /-- The socket is connected, and the constructor of the thread throws. -/
  | unattended
  | attended
deriving DecidableEq

/-- What the receiving thread does next. -/
inductive Receiver where
  | absent
  /-- Test `m_running`. -/
  | checking
  /-- Go on with `read_until`. -/
  | reading
  /-- Parse the line that `getline` took, and push the message. -/
  | handling (line : Bytes)
  /-- Behind the loop, clear `m_running`. -/
  | leaving
  | ended
deriving DecidableEq

/-- Who called `shutdown`. -/
inductive Caller where
  | run
  | destructor
deriving DecidableEq

/-- What the main thread does next. -/
inductive MainThread where
  /-- The loop of `Run`. -/
  | looping
  /-- The poll loop of `Update`. -/
  | polling (input : FrameInput)
  /-- What follows the poll loop. -/
  | updating (input : FrameInput)
  /-- Test `m_running` in `shutdown`. -/
  | testing (caller : Caller)
  /-- Clear `m_running` in `shutdown`. -/
  | stopping (caller : Caller)
  /-- Shut down and close the socket. -/
  | closing (caller : Caller)
  /-- Join the receiving thread if there is one. -/
  | joining
  | gone

/-- The thread has nothing left to do. -/
def Receiver.Finished (receiver : Receiver) : Prop := receiver = .absent ∨ receiver = .ended

instance (receiver : Receiver) : Decidable receiver.Finished :=
  inferInstanceAs (Decidable (_ ∨ _))

/-- How many steps the thread has before it at most, when it finds `m_running` cleared and nothing
comes from the socket any more. -/
def Receiver.rank : Receiver → ℕ
  | .reading => 4
  | .handling _ => 3
  | .checking => 2
  | .leaving => 1
  | .absent | .ended => 0

/-- What follows a call of `shutdown`. -/
def Caller.returned : Caller → MainThread
  | .run => .testing .destructor
  | .destructor => .joining

/-- The loop of `Run` goes on. -/
def MainThread.InLoop : MainThread → Prop
  | .looping | .polling _ | .updating _ => True
  | _ => False

/-- `m_running` was cleared for `Run`. -/
def MainThread.Stopped : MainThread → Prop
  | .closing _ | .testing .destructor | .joining | .gone => True
  | _ => False

theorem MainThread.InLoop.not_stopped {main : MainThread} (h : main.InLoop) : ¬main.Stopped := by
  cases main with
  | looping | polling | updating => exact id
  | testing | stopping | closing | joining | gone => exact h.elim

structure Threads where
  app : Application
  receiver : Receiver
  main : MainThread := .looping
  /-- The socket was closed. -/
  closed : Bool := false

namespace Threads

inductive ReceiverEvent where
  | check
  | receive (bytes : Bytes)
  | take
  | push
  /-- `read_until` fails. -/
  | fail
  | leave

inductive MainEvent where
  /-- The window stays open for a frame. -/
  | frame (input : FrameInput)
  /-- A round of the poll loop. -/
  | poll
  | finish
  /-- The window should close. -/
  | close
  | test
  | stop
  | shut
  | join

inductive Event where
  | receiver (event : ReceiverEvent)
  | main (event : MainEvent)

/-- The constructor of the application, with the outcome of `connect`. -/
def start (connection : Connection) : Threads :=
  { app := Application.start (connection ≠ .refused)
    receiver := if connection = .attended then .checking else .absent }

def withNet (t : Threads) (net : NetworkClient) : Threads := { t with app := t.app.withNet net }

/-- `recvLoop`. Bytes that the buffer lacks a newline for are read from the socket. -/
def stepReceiver (lib : JsonLib) (t : Threads) (event : ReceiverEvent) : Option Threads :=
  let net := t.app.ctx.net
  match event, t.receiver with
  | .check, .checking =>
      some { t with receiver := if net.running = true then .reading else .leaving }
  | .receive bytes, .reading =>
      if newline ∉ net.incoming ∧ t.closed = false then
        some (t.withNet { net with incoming := net.incoming ++ bytes })
      else none
  | .take, .reading => (Lines.cut newline net.incoming).map fun parts ↦
      { t.withNet { net with incoming := parts.2 } with receiver := .handling parts.1 }
  | .push, .handling line =>
      some { t.withNet { net with recvQueue := Protocol.deliver lib net.recvQueue line } with
        receiver := .checking }
  | .fail, .reading =>
      if newline ∉ net.incoming then some { t with receiver := .leaving } else none
  | .leave, .leaving =>
      some { t.withNet { net with running := false } with receiver := .ended }
  | _, _ => none

/-- `Run`, and the destructor of the connection behind it. -/
def stepMain (lib : JsonLib) (t : Threads) (event : MainEvent) : Option Threads :=
  let net := t.app.ctx.net
  match event, t.main with
  | .frame input, .looping =>
      if input.Typed then some { t with main := .polling input } else none
  | .poll, .polling input =>
      match net.pollMessage with
      | none => some { t with main := .updating input }
      | some (msg, net) => some { t with app := conclude ((t.withNet net).app.onMessage msg) }
  | .finish, .updating input =>
      some { t with app := conclude (t.app.enterGame.updateScenes lib input), main := .looping }
  | .close, .looping => some { t with main := .testing .run }
  | .test, .testing caller =>
      some { t with main := if net.running = true then .stopping caller else caller.returned }
  | .stop, .stopping caller =>
      some { t.withNet { net with running := false } with main := .closing caller }
  | .shut, .closing caller => some { t with closed := true, main := caller.returned }
  | .join, .joining =>
      if t.receiver.Finished then some { t with main := .gone } else none
  | _, _ => none

/-- One step of the process. -/
def step (lib : JsonLib) (t : Threads) (event : Event) : Option Threads :=
  if t.app.alive = true then
    match event with
    | .receiver event => t.stepReceiver lib event
    | .main event => t.stepMain lib event
  else none

/-! ## What a step does -/

inductive ReceiverMove (lib : JsonLib) (t : Threads) : Threads → Prop where
  | check (hreceiver : t.receiver = .checking) : ReceiverMove lib t
      { t with receiver := if t.app.ctx.net.running = true then .reading else .leaving }
  | receive (bytes : Bytes) (hreceiver : t.receiver = .reading)
      (hincoming : newline ∉ t.app.ctx.net.incoming) (hclosed : t.closed = false) :
      ReceiverMove lib t
        (t.withNet { t.app.ctx.net with incoming := t.app.ctx.net.incoming ++ bytes })
  | take (line rest : Bytes) (hreceiver : t.receiver = .reading)
      (hcut : Lines.cut newline t.app.ctx.net.incoming = some (line, rest)) :
      ReceiverMove lib t
        { t.withNet { t.app.ctx.net with incoming := rest } with receiver := .handling line }
  | push (line : Bytes) (hreceiver : t.receiver = .handling line) : ReceiverMove lib t
      { t.withNet { t.app.ctx.net with
          recvQueue := Protocol.deliver lib t.app.ctx.net.recvQueue line } with
        receiver := .checking }
  | fail (hreceiver : t.receiver = .reading) (hincoming : newline ∉ t.app.ctx.net.incoming) :
      ReceiverMove lib t { t with receiver := .leaving }
  | leave (hreceiver : t.receiver = .leaving) : ReceiverMove lib t
      { t.withNet { t.app.ctx.net with running := false } with receiver := .ended }

theorem stepReceiver_move {lib : JsonLib} {t next : Threads} {event : ReceiverEvent}
    (h : t.stepReceiver lib event = some next) : ReceiverMove lib t next := by
  unfold stepReceiver at h
  dsimp only at h
  split at h
  · next hreceiver =>
    cases h
    exact .check hreceiver
  · next bytes hreceiver =>
    split at h
    · next hreads =>
      cases h
      exact .receive bytes hreceiver hreads.1 hreads.2
    · cases h
  · next hreceiver =>
    obtain ⟨⟨line, rest⟩, hcut, rfl⟩ := Option.map_eq_some_iff.mp h
    exact .take line rest hreceiver hcut
  · next line hreceiver =>
    cases h
    exact .push line hreceiver
  · next hreceiver =>
    split at h
    · next hincoming =>
      cases h
      exact .fail hreceiver hincoming
    · cases h
  · next hreceiver =>
    cases h
    exact .leave hreceiver
  · cases h

inductive MainMove (lib : JsonLib) (t : Threads) : Threads → Prop where
  | frame (input : FrameInput) (hmain : t.main = .looping) (htyped : input.Typed) :
      MainMove lib t { t with main := .polling input }
  | polled (input : FrameInput) (hmain : t.main = .polling input)
      (hqueue : t.app.ctx.net.recvQueue = []) : MainMove lib t { t with main := .updating input }
  | poll (input : FrameInput) (msg : Protocol.Message) (queue : List Protocol.Message)
      (hmain : t.main = .polling input) (hqueue : t.app.ctx.net.recvQueue = msg :: queue) :
      MainMove lib t { t with
        app := conclude (Application.onMessage { t.app with ctx.net.recvQueue := queue } msg) }
  | finish (input : FrameInput) (hmain : t.main = .updating input) : MainMove lib t
      { t with app := conclude (t.app.enterGame.updateScenes lib input), main := .looping }
  | close (hmain : t.main = .looping) : MainMove lib t { t with main := .testing .run }
  | test (caller : Caller) (hmain : t.main = .testing caller) : MainMove lib t
      { t with main :=
          if t.app.ctx.net.running = true then .stopping caller else caller.returned }
  | stop (caller : Caller) (hmain : t.main = .stopping caller) : MainMove lib t
      { t.withNet { t.app.ctx.net with running := false } with main := .closing caller }
  | shut (caller : Caller) (hmain : t.main = .closing caller) :
      MainMove lib t { t with closed := true, main := caller.returned }
  | join (hmain : t.main = .joining) (hfinished : t.receiver.Finished) :
      MainMove lib t { t with main := .gone }

theorem stepMain_move {lib : JsonLib} {t next : Threads} {event : MainEvent}
    (h : t.stepMain lib event = some next) : MainMove lib t next := by
  unfold stepMain at h
  dsimp only at h
  split at h
  · next input hmain =>
    split at h
    · next htyped =>
      cases h
      exact .frame input hmain htyped
    · cases h
  · next input hmain =>
    unfold NetworkClient.pollMessage at h
    cases hqueue : t.app.ctx.net.recvQueue with
    | nil =>
      rw [hqueue] at h
      cases h
      exact .polled input hmain hqueue
    | cons msg queue =>
      rw [hqueue] at h
      cases h
      exact .poll input msg queue hmain hqueue
  · next input hmain =>
    cases h
    exact .finish input hmain
  · next hmain =>
    cases h
    exact .close hmain
  · next caller hmain =>
    cases h
    exact .test caller hmain
  · next caller hmain =>
    cases h
    exact .stop caller hmain
  · next caller hmain =>
    cases h
    exact .shut caller hmain
  · next hmain =>
    split at h
    · next hfinished =>
      cases h
      exact .join hmain hfinished
    · cases h
  · cases h

/-- A step moves one of the threads of a living process. -/
theorem step_move {lib : JsonLib} {t next : Threads} {event : Event}
    (h : t.step lib event = some next) :
    t.app.alive = true ∧ (ReceiverMove lib t next ∨ MainMove lib t next) := by
  unfold step at h
  split at h
  · next halive =>
    refine ⟨halive, ?_⟩
    cases event with
    | receiver event => exact Or.inl (stepReceiver_move h)
    | main event => exact Or.inr (stepMain_move h)
  · cases h

/-! ## The end of the threads -/

/-- What holds between the two threads and `m_running`. -/
structure Orderly (t : Threads) : Prop where
  stopped : t.main.Stopped → t.app.ctx.net.running = false
  ends : t.app.ctx.net.running = false →
    t.receiver.Finished ∨ t.main = .closing .run ∨ t.closed = true
  /-- The destructor finds `m_running` cleared. -/
  once : t.main ≠ .stopping .destructor ∧ t.main ≠ .closing .destructor
  joined : t.main = .gone → t.receiver.Finished
  /-- The socket is open while the loop goes on. -/
  opened : t.main.InLoop → t.closed = false
  /-- An exception ends the process out of the loop. -/
  living : t.main.InLoop ∨ t.app.alive = true

theorem orderly_start (connection : Connection) : (start connection).Orderly := by
  refine ⟨nofun, fun hrunning ↦ ?_, ⟨nofun, nofun⟩, nofun, fun _ ↦ rfl, Or.inl trivial⟩
  cases connection with
  | refused => exact Or.inl (Or.inl rfl)
  | unattended => cases hrunning
  | attended => cases hrunning

/-- A move of a thread that is not finished yet. -/
theorem Orderly.receiver_unfinished {t next : Threads} (h : t.Orderly)
    (hreceiver : ¬t.receiver.Finished) (hmain : next.main = t.main)
    (hclosed : next.closed = t.closed) (halive : next.app.alive = t.app.alive)
    (hrunning : next.app.ctx.net.running = t.app.ctx.net.running) : next.Orderly := by
  refine ⟨?_, fun hstopped ↦ ?_, ?_, fun hgone ↦ ?_, ?_, ?_⟩
  · rw [hmain, hrunning]
    exact h.stopped
  · rw [hmain, hclosed]
    rw [hrunning] at hstopped
    exact Or.inr ((h.ends hstopped).resolve_left hreceiver)
  · rw [hmain]
    exact h.once
  · rw [hmain] at hgone
    exact absurd (h.joined hgone) hreceiver
  · rw [hmain, hclosed]
    exact h.opened
  · rw [hmain, halive]
    exact h.living

theorem Orderly.receiver_move {lib : JsonLib} {t next : Threads} (h : t.Orderly)
    (hmove : ReceiverMove lib t next) : next.Orderly := by
  have hunfinished : ∀ {receiver : Receiver}, t.receiver = receiver → receiver ≠ .absent →
      receiver ≠ .ended → ¬t.receiver.Finished := by
    rintro receiver rfl habsent hended
    exact not_or.mpr ⟨habsent, hended⟩
  cases hmove with
  | check hreceiver =>
    exact h.receiver_unfinished (hunfinished hreceiver nofun nofun) rfl rfl rfl rfl
  | receive bytes hreceiver =>
    exact h.receiver_unfinished (hunfinished hreceiver nofun nofun) rfl rfl rfl rfl
  | take line rest hreceiver =>
    exact h.receiver_unfinished (hunfinished hreceiver nofun nofun) rfl rfl rfl rfl
  | push line hreceiver =>
    exact h.receiver_unfinished (hunfinished hreceiver nofun nofun) rfl rfl rfl rfl
  | fail hreceiver =>
    exact h.receiver_unfinished (hunfinished hreceiver nofun nofun) rfl rfl rfl rfl
  | leave hreceiver =>
    exact ⟨fun _ ↦ rfl, fun _ ↦ Or.inl (Or.inr rfl), h.once, fun _ ↦ Or.inr rfl, h.opened,
      h.living⟩

/-- A move of the main thread inside the loop of `Run`. -/
theorem Orderly.main_inLoop {t next : Threads} (h : t.Orderly) (hloop : t.main.InLoop)
    (hnext : next.main.InLoop) (hreceiver : next.receiver = t.receiver)
    (hclosed : next.closed = t.closed)
    (hrunning : next.app.ctx.net.running = t.app.ctx.net.running) : next.Orderly := by
  have hclosing : t.main ≠ .closing .run := by
    intro hclosing
    rw [hclosing] at hloop
    exact hloop
  have hopened : next.closed = false := hclosed.trans (h.opened hloop)
  refine ⟨fun hstopped ↦ ?_, fun hstopped ↦ ?_, ⟨?_, ?_⟩, fun hgone ↦ ?_, fun _ ↦ hopened,
    Or.inl hnext⟩
  · exact absurd hstopped hnext.not_stopped
  · rw [hrunning] at hstopped
    rw [hreceiver]
    rcases h.ends hstopped with hfinished | hmain | hclosed'
    · exact Or.inl hfinished
    · exact absurd hmain hclosing
    · cases hclosed'.symm.trans (h.opened hloop)
  · intro hmain
    rw [hmain] at hnext
    exact hnext
  · intro hmain
    rw [hmain] at hnext
    exact hnext
  · rw [hgone] at hnext
    exact hnext.elim

theorem Orderly.main_move {lib : JsonLib} {t next : Threads} (h : t.Orderly)
    (halive : t.app.alive = true) (hmove : MainMove lib t next) : next.Orderly := by
  cases hmove with
  | frame input hmain =>
    exact h.main_inLoop (hmain ▸ trivial) trivial rfl rfl rfl
  | polled input hmain =>
    exact h.main_inLoop (hmain ▸ trivial) trivial rfl rfl rfl
  | poll input msg queue hmain =>
    refine h.main_inLoop (hmain ▸ trivial) (show t.main.InLoop from hmain ▸ trivial) rfl rfl ?_
    rw [conclude_ctx, onMessage_net]
  | finish input hmain =>
    refine h.main_inLoop (hmain ▸ trivial) trivial rfl rfl ?_
    obtain ⟨_, _, hsent⟩ := t.app.enterGame.updateScenes_spec lib input
    rw [conclude_ctx, hsent.same, enterGame_ctx]
  | close hmain =>
    refine ⟨nofun, fun hstopped ↦ ?_, ⟨nofun, nofun⟩, nofun, nofun, Or.inr halive⟩
    rcases h.ends hstopped with hfinished | hclosing | hclosed
    · exact Or.inl hfinished
    · cases hmain.symm.trans hclosing
    · exact Or.inr (Or.inr hclosed)
  | test caller hmain =>
    have hends : t.app.ctx.net.running = false → t.receiver.Finished ∨ t.closed = true := by
      intro hstopped
      rcases h.ends hstopped with hfinished | hclosing | hclosed
      · exact Or.inl hfinished
      · cases hmain.symm.trans hclosing
      · exact Or.inr hclosed
    by_cases hrunning : t.app.ctx.net.running = true
    · cases caller with
      | run =>
        simp only [if_pos hrunning]
        exact ⟨nofun, fun hstopped ↦ (hends hstopped).imp_right Or.inr, ⟨nofun, nofun⟩, nofun,
          nofun, Or.inr halive⟩
      | destructor =>
        have hstopped := h.stopped (hmain ▸ trivial)
        cases hrunning.symm.trans hstopped
    · have hstopped := Bool.eq_false_iff.mpr hrunning
      simp only [if_neg hrunning]
      cases caller with
      | run =>
        exact ⟨fun _ ↦ hstopped, fun _ ↦ (hends hstopped).imp_right Or.inr, ⟨nofun, nofun⟩, nofun,
          nofun, Or.inr halive⟩
      | destructor =>
        exact ⟨fun _ ↦ hstopped, fun _ ↦ (hends hstopped).imp_right Or.inr, ⟨nofun, nofun⟩, nofun,
          nofun, Or.inr halive⟩
  | stop caller hmain =>
    cases caller with
    | run =>
      exact ⟨fun _ ↦ rfl, fun _ ↦ Or.inr (Or.inl rfl), ⟨nofun, nofun⟩, nofun, nofun,
        Or.inr halive⟩
    | destructor => exact absurd hmain h.once.1
  | shut caller hmain =>
    have hstopped := h.stopped (hmain ▸ trivial)
    cases caller with
    | run =>
      exact ⟨fun _ ↦ hstopped, fun _ ↦ Or.inr (Or.inr rfl), ⟨nofun, nofun⟩, nofun, nofun,
        Or.inr halive⟩
    | destructor => exact absurd hmain h.once.2
  | join hmain hfinished =>
    exact ⟨fun _ ↦ h.stopped (hmain ▸ trivial), fun _ ↦ Or.inl hfinished, ⟨nofun, nofun⟩,
      fun _ ↦ hfinished, nofun, Or.inr halive⟩

theorem Orderly.step {lib : JsonLib} {t next : Threads} {event : Event} (h : t.Orderly)
    (hstep : t.step lib event = some next) : next.Orderly :=
  have hmove := step_move hstep
  hmove.2.elim h.receiver_move (h.main_move hmove.1)

/-! ## Joining -/

def weight (t : Threads) : ℕ :=
  match t.main with
  | .gone => t.receiver.rank
  | _ => t.receiver.rank + 1

/-- The main thread waits for the receiving thread, or has done so. -/
structure Joining (t : Threads) : Prop where
  orderly : t.Orderly
  main : t.main = .joining ∨ t.main = .gone

theorem Joining.stopped {t : Threads} (h : t.Joining) : t.app.ctx.net.running = false := by
  apply h.orderly.stopped
  rcases h.main with hmain | hmain
  · rw [hmain]
    trivial
  · rw [hmain]
    trivial

/-- Nothing is read from the socket any more, and every other step of the receiving thread brings it
nearer to its end. -/
theorem Joining.receiver_move {lib : JsonLib} {t next : Threads} (h : t.Joining)
    (hmove : ReceiverMove lib t next) :
    next.main = t.main ∧ next.receiver.rank < t.receiver.rank := by
  cases hmove with
  | check hreceiver =>
    refine ⟨rfl, ?_⟩
    rw [hreceiver, h.stopped]
    exact Nat.lt_succ_self 1
  | receive bytes hreceiver hincoming hclosed =>
    rcases h.orderly.ends h.stopped with hfinished | hclosing | hclosed'
    · rcases hfinished with habsent | hended
      · cases hreceiver.symm.trans habsent
      · cases hreceiver.symm.trans hended
    · rcases h.main with hmain | hmain
      · cases hmain.symm.trans hclosing
      · cases hmain.symm.trans hclosing
    · cases hclosed.symm.trans hclosed'
  | take line rest hreceiver =>
    refine ⟨rfl, ?_⟩
    rw [hreceiver]
    exact Nat.lt_succ_self 3
  | push line hreceiver =>
    refine ⟨rfl, ?_⟩
    rw [hreceiver]
    exact Nat.lt_succ_self 2
  | fail hreceiver =>
    refine ⟨rfl, ?_⟩
    rw [hreceiver]
    show 1 < 4
    decide
  | leave hreceiver =>
    refine ⟨rfl, ?_⟩
    rw [hreceiver]
    exact Nat.zero_lt_one

theorem Joining.step {lib : JsonLib} {t next : Threads} {event : Event} (h : t.Joining)
    (hstep : t.step lib event = some next) : next.Joining ∧ next.weight < t.weight := by
  have horderly := h.orderly.step hstep
  obtain ⟨_, hreceiver | hmain⟩ := step_move hstep
  · obtain ⟨hsame, hrank⟩ := h.receiver_move hreceiver
    refine ⟨⟨horderly, hsame ▸ h.main⟩, ?_⟩
    unfold weight
    rw [hsame]
    rcases h.main with hmain | hmain
    · rw [hmain]
      exact Nat.succ_lt_succ hrank
    · rw [hmain]
      exact hrank
  · have hjoining : ∀ {main : MainThread}, t.main = main → main ≠ .joining → main ≠ .gone →
        next.Joining ∧ next.weight < t.weight := by
      rintro main rfl hjoining hgone
      exact absurd h.main (not_or.mpr ⟨hjoining, hgone⟩)
    cases hmain with
    | frame input hmain => exact hjoining hmain nofun nofun
    | polled input hmain => exact hjoining hmain nofun nofun
    | poll input msg queue hmain => exact hjoining hmain nofun nofun
    | finish input hmain => exact hjoining hmain nofun nofun
    | close hmain => exact hjoining hmain nofun nofun
    | test caller hmain => exact hjoining hmain nofun nofun
    | stop caller hmain => exact hjoining hmain nofun nofun
    | shut caller hmain => exact hjoining hmain nofun nofun
    | join hmain =>
      refine ⟨⟨horderly, Or.inr rfl⟩, ?_⟩
      unfold weight
      rw [hmain]
      exact Nat.lt_succ_self _

theorem weight_le (t : Threads) : t.weight ≤ 5 := by
  have hrank : t.receiver.rank ≤ 4 := by
    cases t.receiver <;> simp [Receiver.rank]
  unfold weight
  split
  · omega
  · omega

/-- A thread that is not finished can go on, at least by failing to read. -/
theorem exists_stepReceiver (lib : JsonLib) {t : Threads} (h : ¬t.receiver.Finished) :
    ∃ event next, t.stepReceiver lib event = some next := by
  unfold stepReceiver
  cases hreceiver : t.receiver with
  | absent => exact absurd (Or.inl hreceiver) h
  | ended => exact absurd (Or.inr hreceiver) h
  | checking => exact ⟨.check, _, rfl⟩
  | handling line => exact ⟨.push, _, rfl⟩
  | leaving => exact ⟨.leave, _, rfl⟩
  | reading =>
    cases hcut : Lines.cut newline t.app.ctx.net.incoming with
    | some parts => exact ⟨.take, _, congrArg (Option.map _) hcut⟩
    | none => exact ⟨.fail, _, if_pos (Lines.cut_eq_none.mp hcut)⟩

/-- Only for the receiving thread the main thread waits. -/
theorem exists_stepMain (lib : JsonLib) {t : Threads} (hgone : t.main ≠ .gone)
    (hjoining : t.main = .joining → t.receiver.Finished) :
    ∃ event next, t.stepMain lib event = some next := by
  unfold stepMain
  cases hmain : t.main with
  | looping => exact ⟨.close, _, rfl⟩
  | polling input =>
    cases hqueue : t.app.ctx.net.pollMessage with
    | none => exact ⟨.poll, { t with main := .updating input }, by simp only [hqueue]⟩
    | some polled =>
      exact ⟨.poll, { t with app := conclude ((t.withNet polled.2).app.onMessage polled.1) },
        by simp only [hqueue, hmain]⟩
  | updating input => exact ⟨.finish, _, rfl⟩
  | testing caller => exact ⟨.test, _, rfl⟩
  | stopping caller => exact ⟨.stop, _, rfl⟩
  | closing caller => exact ⟨.shut, _, rfl⟩
  | joining => exact ⟨.join, _, if_pos (hjoining hmain)⟩
  | gone => exact absurd hmain hgone

/-- A living process can go on until its main thread is gone. -/
theorem exists_step (lib : JsonLib) {t : Threads} (halive : t.app.alive = true)
    (hgone : t.main ≠ .gone) : ∃ event next, t.step lib event = some next := by
  by_cases hfinished : t.receiver.Finished
  · obtain ⟨event, next, hnext⟩ := exists_stepMain lib hgone fun _ ↦ hfinished
    exact ⟨.main event, next, by rw [step, if_pos halive, hnext]⟩
  · obtain ⟨event, next, hnext⟩ := exists_stepReceiver lib hfinished
    exact ⟨.receiver event, next, by rw [step, if_pos halive, hnext]⟩

/-- When the main thread is gone, the process has ended. -/
theorem Joining.step_gone {lib : JsonLib} {t : Threads} (h : t.Joining) (hgone : t.main = .gone)
    (event : Event) : t.step lib event = none := by
  cases hstep : t.step lib event with
  | none => rfl
  | some next =>
    have hlower := (h.step hstep).2
    have hweight : t.weight = 0 := by
      unfold weight
      rw [hgone]
      rcases h.orderly.joined hgone with habsent | hended
      · rw [habsent]
        rfl
      · rw [hended]
        rfl
    rw [hweight] at hlower
    exact absurd hlower (Nat.not_lt_zero _)

/-- Whatever the outcome of `connect` and however the threads are interleaved: the receiving thread
has finished when the connection is gone; the destructor finds `m_running` cleared; no state is a
deadlock; and once the main thread waits in `join`, at most five steps are left, and they end where
it is gone. -/
theorem shutdown_joins (lib : JsonLib) (connection : Connection) {t : Threads}
    {events : List Event}
    (hrun : Transition.run (step lib) (start connection) events = some t) :
    (t.main = .gone → t.receiver.Finished ∧ ∀ event, t.step lib event = none) ∧
      (t.main ≠ .stopping .destructor ∧ t.main ≠ .closing .destructor) ∧
      (t.app.alive = true → t.main ≠ .gone → ∃ event next, t.step lib event = some next) ∧
      (t.main = .joining → ∀ later final, Transition.run (step lib) t later = some final →
        later.length ≤ 5 ∧
          (final.main = .gone ∨ ∃ event next, final.step lib event = some next)) := by
  have horderly := Transition.invariant_run Orderly.step (orderly_start connection) hrun
  refine ⟨fun hgone ↦ ⟨horderly.joined hgone, Joining.step_gone ⟨horderly, Or.inr hgone⟩ hgone⟩,
    horderly.once, exists_step lib, fun hjoining later final hlater ↦ ?_⟩
  have hwaits : t.Joining := ⟨horderly, Or.inl hjoining⟩
  have hfinal := Transition.invariant_run (fun h hstep ↦ (h.step hstep).1) hwaits hlater
  have hlength := Transition.length_run_le Joining.step hwaits hlater
  refine ⟨(Nat.le_of_add_right_le hlength).trans t.weight_le, hfinal.main.symm.imp_right ?_⟩
  intro hmain
  refine exists_step lib (hfinal.orderly.living.resolve_left ?_) ?_
  · rw [hmain]
    exact id
  · rw [hmain]
    nofun

/-- The window closes while the receiving thread reads. -/
theorem shutdown_joins_reading :
    ∃ t, Transition.run (step JsonLib.reference) (start .attended)
        [.receiver .check, .main .close, .main .test, .main .stop, .main .shut, .main .test] =
          some t ∧
      t.main = .joining ∧
      ∀ later final, Transition.run (step JsonLib.reference) t later = some final →
        later.length ≤ 5 ∧
          (final.main = .gone ∨ ∃ event next, final.step JsonLib.reference event = some next) := by
  have hsome : ∃ t, Transition.run (step JsonLib.reference) (start .attended)
      [.receiver .check, .main .close, .main .test, .main .stop, .main .shut, .main .test] =
        some t ∧ t.main = .joining := ⟨_, rfl, rfl⟩
  obtain ⟨t, hrun, hjoining⟩ := hsome
  exact ⟨t, hrun, hjoining, (shutdown_joins JsonLib.reference .attended hrun).2.2.2 hjoining⟩

end Threads

end Application

end NetPixeld
