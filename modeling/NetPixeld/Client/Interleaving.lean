import NetPixeld.Client.Threads

/-!
# Frames as single steps

The process with one step for a frame against the two interleaved threads. A frame takes effect in
the round of its poll loop that finds the queue empty, or in the one that throws: what the receiving
thread does before it can be done before the frame, and what it does behind it commutes with the
update of the scene. A line counts as unread until its message is pushed.
-/

namespace NetPixeld

theorem Protocol.deliver_append (lib : JsonLib) (earlier delivered : List Message) (line : Bytes) :
    deliver lib (earlier ++ delivered) line = earlier ++ deliver lib delivered line := by
  unfold deliver
  split
  · rw [List.append_assoc]
  · rfl

namespace Application

/-! ## What arrives commutes with the frames -/

/-- What the receiving thread did to the connection. -/
structure Arrival where
  running : Bool
  incoming : Bytes
  pushed : List Protocol.Message := []

def arrive (app : Application) (arrival : Arrival) : Application :=
  app.withNet { app.ctx.net with
    running := arrival.running
    incoming := arrival.incoming
    recvQueue := app.ctx.net.recvQueue ++ arrival.pushed }

def Arrival.followedBy (earlier later : Arrival) : Arrival :=
  { later with pushed := earlier.pushed ++ later.pushed }

@[simp]
theorem arrive_arrive (app : Application) (earlier later : Arrival) :
    (app.arrive earlier).arrive later = app.arrive (earlier.followedBy later) := by
  simp [arrive, withNet, Arrival.followedBy]

theorem arrive_self (app : Application) :
    app.arrive { running := app.ctx.net.running, incoming := app.ctx.net.incoming } = app := by
  simp [arrive, withNet]

theorem conclude_arrive (result : Application × Outcome Unit) (arrival : Arrival) :
    conclude (result.1.arrive arrival, result.2) = (conclude result).arrive arrival := by
  obtain ⟨app, outcome⟩ := result
  cases outcome with
  | returned | threw | died | crashed => rfl

/-! ## The handlers leave the connection alone -/

theorem LoginScene.handleMessage_withNet (ctx : GameContext) (net : NetworkClient)
    (msg : Protocol.Message) :
    LoginScene.handleMessage { ctx with net := net } msg =
      (LoginScene.handleMessage ctx msg).map fun handled ↦
        ({ handled.1 with net := net }, handled.2) := by
  unfold LoginScene.handleMessage
  split
  · rw [Protocol.Message.atKey_bind, Protocol.Message.atKey_bind]
    cases msg.field (text "uuid") Json.getString with
    | error => rfl
    | ok => rfl
  · rfl

theorem GameScene.handleMessage_withNet (ctx : GameContext) (net : NetworkClient)
    (msg : Protocol.Message) :
    GameScene.handleMessage { ctx with net := net } msg =
      (GameScene.handleMessage ctx msg).map fun handled ↦
        ({ handled.1 with net := net }, handled.2) := by
  unfold GameScene.handleMessage
  split
  · simp only [Protocol.Message.atKey_bind]
    cases msg.field (text "uuid") Json.getString with
    | error => rfl
    | ok uuid =>
      dsimp only [bind, Except.bind]
      split
      · cases msg.field (text "wood") Json.getUInt64 with
        | error => rfl
        | ok wood =>
          cases msg.field (text "food") Json.getUInt64 with
          | error => rfl
          | ok food =>
            cases msg.field (text "iron") Json.getUInt64 with
            | error => rfl
            | ok iron => rfl
      · rfl
  · rfl

theorem dispatch_withNet (app : Application) (net : NetworkClient) (msg : Protocol.Message) :
    (app.withNet net).dispatch msg = (app.dispatch msg).map fun next ↦ next.withNet net := by
  unfold dispatch
  split
  · rw [Protocol.Message.atKey_bind, Protocol.Message.atKey_bind]
    cases msg.field (text "clientId") Json.getUInt8 with
    | error => rfl
    | ok => rfl
  · dsimp only [withNet]
    cases app.scenes.scene with
    | none => rfl
    | some scene =>
      cases scene with
      | login username pass =>
        simp only [Scene.handleMessage, LoginScene.handleMessage_withNet]
        cases LoginScene.handleMessage app.ctx msg with
        | error => rfl
        | ok => rfl
      | game =>
        simp only [Scene.handleMessage, GameScene.handleMessage_withNet]
        cases GameScene.handleMessage app.ctx msg with
        | error => rfl
        | ok => rfl

theorem onMessage_withNet (app : Application) (net : NetworkClient) (msg : Protocol.Message) :
    (app.withNet net).onMessage msg =
      ((app.onMessage msg).1.withNet net, (app.onMessage msg).2) := by
  let judged : Application := { app with
    ctx.lastSeqByType := (filterSequence app.ctx.lastSeqByType msg).1 }
  have hdispatch := judged.dispatch_withNet net msg
  unfold onMessage
  dsimp only [withNet]
  split
  · rw [show (({ judged with ctx.net := net } : Application).dispatch msg) = _ from hdispatch]
    cases judged.dispatch msg with
    | error => rfl
    | ok => rfl
  · rfl

/-- The messages of a poll loop, without the queue. -/
def handleAll (app : Application) : List Protocol.Message → Application × Outcome Unit
  | [] => (app, .returned ())
  | msg :: queue =>
      match app.onMessage msg with
      | (app, .returned ()) => handleAll app queue
      | failed => failed

theorem handleAll_withNet (app : Application) (net : NetworkClient)
    (queue : List Protocol.Message) :
    (app.withNet net).handleAll queue =
      ((app.handleAll queue).1.withNet net, (app.handleAll queue).2) := by
  induction queue generalizing app with
  | nil => rfl
  | cons msg queue ih =>
    unfold handleAll
    rw [onMessage_withNet]
    obtain ⟨next, outcome⟩ := app.onMessage msg
    cases outcome with
    | returned => exact ih next
    | threw | died | crashed => rfl

/-- Messages are all handled when each of them is. -/
theorem handleAll_cons {app polled : Application} {msg : Protocol.Message}
    {queue : List Protocol.Message} (h : app.handleAll (msg :: queue) = (polled, .returned ())) :
    ∃ next, app.onMessage msg = (next, .returned ()) ∧
      next.handleAll queue = (polled, .returned ()) := by
  unfold handleAll at h
  cases hmessage : app.onMessage msg with
  | mk next outcome =>
    rw [hmessage] at h
    cases outcome with
    | returned => exact ⟨next, rfl, h⟩
    | threw | died | crashed => cases h

theorem handleAll_append (app : Application) {polled : Application}
    {handled : List Protocol.Message} (h : app.handleAll handled = (polled, .returned ()))
    (queue : List Protocol.Message) :
    app.handleAll (handled ++ queue) = polled.handleAll queue := by
  induction handled generalizing app with
  | nil =>
    cases h
    rfl
  | cons msg handled ih =>
    obtain ⟨next, hmessage, hnext⟩ := handleAll_cons h
    rw [List.cons_append, handleAll, hmessage]
    exact ih next hnext

/-- A poll loop that has handled some messages goes on with the others. -/
theorem pollLoop_append {app polled : Application} {handled queue : List Protocol.Message}
    (hqueue : app.ctx.net.recvQueue = handled ++ queue)
    (h : app.handleAll handled = (polled, .returned ())) :
    app.pollLoop (handled ++ queue) =
      (polled.withNet { app.ctx.net with recvQueue := queue }).pollLoop queue := by
  induction handled generalizing app polled with
  | nil =>
    cases h
    rw [List.nil_append] at hqueue
    rw [← hqueue]
    rfl
  | cons msg handled ih =>
    obtain ⟨next, hmessage, hnext⟩ := handleAll_cons h
    let waiting : NetworkClient := { app.ctx.net with recvQueue := handled ++ queue }
    have hwaiting : (app.withNet waiting).onMessage msg = (next.withNet waiting, .returned ()) := by
      rw [onMessage_withNet, hmessage]
    have hhandled : (next.withNet waiting).handleAll handled =
        (polled.withNet waiting, .returned ()) := by
      rw [handleAll_withNet, hnext]
    calc
      app.pollLoop (msg :: handled ++ queue) =
          (next.withNet waiting).pollLoop (handled ++ queue) := by
        rw [List.cons_append, pollLoop]
        dsimp only
        have hfirst : ({ app with ctx.net.recvQueue := handled ++ queue } : Application).onMessage
            msg = _ := hwaiting
        rw [hfirst]
      _ = _ := ih rfl hhandled

/-! ## What arrives leaves the scenes alone -/

theorem NetworkClient.sendMessage_arrived (lib : JsonLib) (net : NetworkClient)
    (msg : Protocol.Message) (failure : Option ℕ) (running : Bool) (incoming : Bytes)
    (queue : List Protocol.Message) :
    ({ net with running := running, incoming := incoming, recvQueue := queue } :
      NetworkClient).sendMessage lib msg failure =
      ({ (net.sendMessage lib msg failure).1 with
        running := running, incoming := incoming, recvQueue := queue },
        (net.sendMessage lib msg failure).2) := by
  unfold NetworkClient.sendMessage
  cases msg.serialize lib with
  | error => rfl
  | ok out =>
    by_cases hconnected : net.connected = true
    · simp only [hconnected, if_true]
      cases failure with
      | none => rfl
      | some count => rfl
    · simp [hconnected]

theorem enterGame_arrive (app : Application) (arrival : Arrival) :
    (app.arrive arrival).enterGame = app.enterGame.arrive arrival := by
  by_cases huuid : app.ctx.uuid ≠ []
  · have harrived : (app.arrive arrival).ctx.uuid ≠ [] := huuid
    rw [enterGame, enterGame, if_pos huuid, if_pos harrived]
    rfl
  · have harrived : ¬(app.arrive arrival).ctx.uuid ≠ [] := huuid
    rw [enterGame, enterGame, if_neg huuid, if_neg harrived]

theorem updateScenes_arrive (lib : JsonLib) (app : Application) (input : FrameInput)
    (arrival : Arrival) :
    (app.arrive arrival).updateScenes lib input =
      ((app.updateScenes lib input).1.arrive arrival, (app.updateScenes lib input).2) := by
  unfold updateScenes
  rw [show (app.arrive arrival).scenes.scene = app.scenes.scene from rfl]
  cases app.scenes.scene with
  | none => rfl
  | some scene =>
    cases scene with
    | game => rfl
    | login username pass =>
      dsimp only [Scene.update]
      by_cases hclicked : input.clicked = true
      · rw [if_pos hclicked, if_pos hclicked]
        unfold LoginScene.onClick
        by_cases htexts : input.username ≠ [] ∧ input.pass ≠ []
        · rw [if_pos htexts, if_pos htexts]
          have hqueue := congrArg NetworkClient.recvQueue (app.ctx.net.sendMessage_sent lib
            (Protocol.loginRequest input.username input.pass) input.failure).same
          dsimp only [arrive, withNet]
          rw [NetworkClient.sendMessage_arrived, hqueue]
        · rw [if_neg htexts, if_neg htexts]
          rfl
      · rw [if_neg hclicked, if_neg hclicked]
        rfl

/-- A frame in its poll loop, which has handled some messages, against the state before it. -/
structure MidPoll (before now polled : Application) (handled : List Protocol.Message) : Prop where
  returned : before.handleAll handled = (polled, .returned ())
  net : before.ctx.net = { now.ctx.net with recvQueue := handled ++ now.ctx.net.recvQueue }
  now : now = polled.withNet now.ctx.net

theorem MidPoll.arrive {before now polled : Application} {handled : List Protocol.Message}
    (h : MidPoll before now polled handled) (arrival : Arrival) :
    MidPoll (before.arrive arrival) (now.arrive arrival)
      (polled.withNet (before.arrive arrival).ctx.net) handled := by
  refine ⟨?_, ?_, ?_⟩
  · rw [show before.arrive arrival = before.withNet (before.arrive arrival).ctx.net from rfl,
      handleAll_withNet, h.returned]
    rfl
  · show ({ before.ctx.net with
      running := arrival.running
      incoming := arrival.incoming
      recvQueue := before.ctx.net.recvQueue ++ arrival.pushed } : NetworkClient) = _
    rw [h.net, List.append_assoc]
    rfl
  · rw [h.now]
    rfl

/-- A round of the poll loop that handles a message. -/
theorem MidPoll.message {before now polled next : Application}
    {handled queue : List Protocol.Message} {msg : Protocol.Message}
    (h : MidPoll before now polled handled) (hqueue : now.ctx.net.recvQueue = msg :: queue)
    (hmessage : polled.onMessage msg = (next, .returned ())) :
    MidPoll before (next.withNet { now.ctx.net with recvQueue := queue }) next
      (handled ++ [msg]) := by
  refine ⟨?_, ?_, rfl⟩
  · rw [handleAll_append before h.returned, handleAll, hmessage]
    rfl
  · rw [h.net, hqueue, List.append_assoc]
    rfl

/-- The round of the poll loop that finds no message ends it. -/
theorem MidPoll.update {before now polled : Application} {handled : List Protocol.Message}
    (h : MidPoll before now polled handled) (hqueue : now.ctx.net.recvQueue = [])
    (lib : JsonLib) (input : FrameInput) :
    before.update lib input = now.enterGame.updateScenes lib input := by
  have hbefore : before.ctx.net.recvQueue = handled ++ [] := by rw [h.net, hqueue]
  have hnet : ({ before.ctx.net with recvQueue := [] } : NetworkClient) = now.ctx.net := by
    rw [h.net, ← hqueue]
  rw [Application.update, hbefore, pollLoop_append hbefore h.returned, hnet, ← h.now]
  rfl

/-- The round of the poll loop that throws ends the frame. -/
theorem MidPoll.update_failed {before now polled : Application}
    {handled queue : List Protocol.Message} {msg : Protocol.Message}
    (h : MidPoll before now polled handled) (hqueue : now.ctx.net.recvQueue = msg :: queue)
    (hmessage : (polled.onMessage msg).2 ≠ .returned ()) (lib : JsonLib) (input : FrameInput) :
    before.update lib input =
      ((polled.onMessage msg).1.withNet { before.ctx.net with recvQueue := queue },
        (polled.onMessage msg).2) := by
  have hbefore : before.ctx.net.recvQueue = handled ++ msg :: queue := by rw [h.net, hqueue]
  have hpoll := polled.onMessage_withNet { before.ctx.net with recvQueue := queue } msg
  rw [Application.update, hbefore, pollLoop_append hbefore h.returned, pollLoop]
  dsimp only
  rw [show ({ polled.withNet { before.ctx.net with recvQueue := msg :: queue } with
    ctx.net.recvQueue := queue } : Application).onMessage msg = _ from hpoll]
  cases houtcome : (polled.onMessage msg).2 with
  | returned => exact absurd houtcome hmessage
  | threw | died | crashed => rfl

namespace Threads

/-- The bytes of which no message has been pushed yet. -/
def unread (incoming : Bytes) : Receiver → Bytes
  | .handling line => line ++ newline :: incoming
  | _ => incoming

/-- The process as if the line in hand were still in the buffer. -/
def view (t : Threads) : Application :=
  t.app.arrive {
    running := t.app.ctx.net.running
    incoming := unread t.app.ctx.net.incoming t.receiver }

theorem view_of_handling {t : Threads} {line : Bytes} (h : t.receiver = .handling line) :
    t.view = t.app.arrive {
      running := t.app.ctx.net.running
      incoming := line ++ newline :: t.app.ctx.net.incoming } := by
  unfold view
  rw [h]
  rfl

theorem view_of_ne_handling {t : Threads} (h : ∀ line, t.receiver ≠ .handling line) :
    t.view = t.app := by
  unfold view unread
  split
  · next line hreceiver => exact absurd hreceiver (h line)
  · exact t.app.arrive_self

/-- As long as the loop of `Run` and the receiving thread go on, `m_running` is set. -/
theorem Orderly.running {t : Threads} (h : t.Orderly) (hloop : t.main.InLoop)
    (hreceiver : ¬t.receiver.Finished) : t.app.ctx.net.running = true := by
  by_contra hstopped
  rcases h.ends (Bool.eq_false_iff.mpr hstopped) with hfinished | hclosing | hclosed
  · exact hreceiver hfinished
  · rw [hclosing] at hloop
    exact hloop
  · cases hclosed.symm.trans (h.opened hloop)

/-- What the receiving thread has in hand was cut off the buffer before a newline. -/
structure Cut (t : Threads) : Prop where
  line : ∀ line, t.receiver = .handling line → newline ∉ line
  leaving : t.main.InLoop → t.receiver = .leaving → newline ∉ t.app.ctx.net.incoming

/-- A step of the receive loop, with what it did as an arrival. -/
theorem run_advance {lib : JsonLib} {app : Application} {event : Application.Event}
    {part : NetworkClient → Option NetworkClient} {arrival : Arrival}
    (hevent : app.step lib event = app.advance part)
    (hpart : part app.ctx.net = some (app.arrive arrival).ctx.net) :
    Transition.run (Application.step lib) app [event] = some (app.arrive arrival) := by
  rw [Transition.run_cons, hevent, advance, hpart]
  rfl

/-- Each move of the receiving thread is answered by at most one step of the process, on every
process with the same connection up to the queue. -/
theorem receiver_answer {lib : JsonLib} {t next : Threads} (horderly : t.Orderly) (hcut : t.Cut)
    (hloop : t.main.InLoop) (hmove : ReceiverMove lib t next) :
    ∃ answer arrival, next.view = t.view.arrive arrival ∧
      ∀ app : Application, app.alive = true →
        app.ctx.net.running = t.view.ctx.net.running →
        app.ctx.net.incoming = t.view.ctx.net.incoming →
        Transition.run (Application.step lib) app answer = some (app.arrive arrival) := by
  have hrunning : ∀ {receiver : Receiver}, t.receiver = receiver → receiver ≠ .absent →
      receiver ≠ .ended → t.app.ctx.net.running = true := by
    rintro receiver rfl habsent hended
    exact horderly.running hloop (not_or.mpr ⟨habsent, hended⟩)
  have hsame : ∀ {view : Application}, view = t.view →
      ∃ answer arrival, view = t.view.arrive arrival ∧
        ∀ app : Application, app.alive = true →
          app.ctx.net.running = t.view.ctx.net.running →
          app.ctx.net.incoming = t.view.ctx.net.incoming →
          Transition.run (Application.step lib) app answer = some (app.arrive arrival) := by
    rintro view rfl
    refine ⟨[], ⟨t.view.ctx.net.running, t.view.ctx.net.incoming, []⟩, t.view.arrive_self.symm,
      fun app _ hrunning hincoming ↦ ?_⟩
    rw [← hrunning, ← hincoming, arrive_self]
    rfl
  have hidle : ∀ {receiver : Receiver}, t.receiver = receiver →
      (∀ line, receiver ≠ .handling line) → t.view = t.app := by
    rintro receiver rfl hreceiver
    exact view_of_ne_handling hreceiver
  cases hmove with
  | check hreceiver =>
    apply hsame
    rw [hidle hreceiver nofun, if_pos (hrunning hreceiver nofun nofun)]
    exact view_of_ne_handling nofun
  | receive bytes hreceiver hincoming =>
    rw [hidle hreceiver nofun]
    refine ⟨[.receive bytes],
      ⟨t.app.ctx.net.running, t.app.ctx.net.incoming ++ bytes, []⟩, ?_,
      fun app halive hsame hincoming' ↦ ?_⟩
    · refine (view_of_ne_handling fun line hline ↦ ?_).trans ?_
      · cases hreceiver.symm.trans hline
      · simp [arrive, Threads.withNet, Application.withNet]
    · refine run_advance (if_pos halive) ?_
      have hreads : app.ctx.net.running = true ∧ newline ∉ app.ctx.net.incoming :=
        ⟨hsame.trans (hrunning hreceiver nofun nofun), hincoming'.symm ▸ hincoming⟩
      rw [NetworkClient.receive, if_pos hreads, hincoming', ← hsame]
      simp [arrive, Application.withNet]
  | take line rest hreceiver hline =>
    apply hsame
    obtain ⟨hincoming, _⟩ := Lines.cut_eq_some hline
    rw [hidle hreceiver nofun]
    refine (view_of_handling rfl).trans ?_
    simp [arrive, Threads.withNet, Application.withNet, ← hincoming]
  | push line hreceiver =>
    have hline := hcut.line line hreceiver
    rw [view_of_handling hreceiver]
    refine ⟨[.takeLine], ⟨t.app.ctx.net.running, t.app.ctx.net.incoming,
      Protocol.deliver lib [] line⟩, ?_, fun app halive hsame hincoming ↦ ?_⟩
    · refine (view_of_ne_handling fun line hline ↦ ?_).trans ?_
      · cases hline
      simp [arrive, Threads.withNet, Application.withNet, ← Protocol.deliver_append]
    · refine run_advance (if_pos halive) ?_
      have hreads : app.ctx.net.running = true :=
        hsame.trans (hrunning hreceiver nofun nofun)
      have hbuffer : Lines.cut newline app.ctx.net.incoming =
          some (line, t.app.ctx.net.incoming) := by
        rw [hincoming]
        exact Lines.cut_append hline _
      rw [NetworkClient.takeLine, if_pos hreads, hbuffer]
      simp [arrive, Application.withNet, ← Protocol.deliver_append, hsame]
  | fail hreceiver =>
    apply hsame
    rw [hidle hreceiver nofun]
    exact view_of_ne_handling nofun
  | leave hreceiver =>
    rw [hidle hreceiver nofun]
    refine ⟨[.failRead], ⟨false, t.app.ctx.net.incoming, []⟩, ?_,
      fun app halive hsame hincoming ↦ ?_⟩
    · refine (view_of_ne_handling fun line hline ↦ ?_).trans ?_
      · cases hline
      simp [arrive, Threads.withNet, Application.withNet]
    · refine run_advance (if_pos halive) ?_
      have hfails : app.ctx.net.running = true ∧ newline ∉ app.ctx.net.incoming :=
        ⟨hsame.trans (hrunning hreceiver nofun nofun),
          hincoming.symm ▸ hcut.leaving hloop hreceiver⟩
      rw [NetworkClient.failRead, if_pos hfails]
      simp [arrive, Application.withNet, hincoming]

/-! ## The relation -/

/-- The two threads against the process: between frames the process is in the state viewed, in the
poll loop of a frame it is before the frame, and behind the poll loop it is past the frame. When the
frame is the last, the process lacks what the receiving thread did behind it. -/
inductive Follows (lib : JsonLib) (t : Threads) (app : Application) : Prop where
  | looping (halive : t.app.alive = true) (hmain : t.main = .looping) (happ : app = t.view)
  | polling (halive : t.app.alive = true) (input : FrameInput) (hmain : t.main = .polling input)
      (htyped : input.Typed) (happ : app.alive = true) (polled : Application)
      (handled : List Protocol.Message) (hpoll : MidPoll app t.view polled handled)
  | updating (halive : t.app.alive = true) (input : FrameInput) (hmain : t.main = .updating input)
      (happ : app = conclude (t.view.enterGame.updateScenes lib input) ∨
        app.alive = false ∧ ∃ arrival,
          conclude (t.view.enterGame.updateScenes lib input) = app.arrive arrival)
  | left (halive : t.app.alive = true) (hloop : ¬t.main.InLoop)
  | died (hdead : t.app.alive = false) (arrival : Arrival) (happ : t.app = app.arrive arrival)

/-- The update of a scene keeps what the receiving thread changes. -/
theorem conclude_updateScenes_net (lib : JsonLib) (app : Application) (input : FrameInput) :
    (conclude (app.enterGame.updateScenes lib input)).ctx.net.running = app.ctx.net.running ∧
      (conclude (app.enterGame.updateScenes lib input)).ctx.net.incoming =
        app.ctx.net.incoming := by
  obtain ⟨_, _, hsent⟩ := app.enterGame.updateScenes_spec lib input
  rw [conclude_ctx, hsent.same, enterGame_ctx]
  exact ⟨rfl, rfl⟩

theorem conclude_updateScenes_arrive (lib : JsonLib) (app : Application) (input : FrameInput)
    (arrival : Arrival) :
    conclude ((app.arrive arrival).enterGame.updateScenes lib input) =
      (conclude (app.enterGame.updateScenes lib input)).arrive arrival := by
  rw [enterGame_arrive, updateScenes_arrive, conclude_arrive]

/-- A move of the receiving thread. -/
theorem Follows.receiver_move {lib : JsonLib} {t next : Threads} {app : Application}
    (h : t.Follows lib app) (horderly : t.Orderly) (hcut : t.Cut) (halive : t.app.alive = true)
    (hmove : ReceiverMove lib t next) :
    ∃ answer reached, Transition.run (Application.step lib) app answer = some reached ∧
      next.Follows lib reached := by
  have hmain' : next.main = t.main := by cases hmove <;> rfl
  have halive' : next.app.alive = true := by cases hmove <;> exact halive
  have hanswered : t.main.InLoop → _ := fun hloop ↦ receiver_answer horderly hcut hloop hmove
  cases h with
  | looping _ hmain happ =>
    obtain ⟨answer, arrival, hview, hanswer⟩ := hanswered (hmain ▸ trivial)
    refine ⟨answer, t.view.arrive arrival, ?_, .looping halive' (hmain'.trans hmain) hview.symm⟩
    rw [happ]
    exact hanswer t.view halive rfl rfl
  | polling _ input hmain htyped happ polled handled hpoll =>
    obtain ⟨answer, arrival, hview, hanswer⟩ := hanswered (hmain ▸ trivial)
    refine ⟨answer, app.arrive arrival, hanswer app happ ?_ ?_,
      .polling halive' input (hmain'.trans hmain) htyped happ _ handled
        (hview ▸ hpoll.arrive arrival)⟩
    · rw [hpoll.net]
    · rw [hpoll.net]
  | updating _ input hmain happ =>
    obtain ⟨answer, arrival, hview, hanswer⟩ := hanswered (hmain ▸ trivial)
    have hnext : conclude (next.view.enterGame.updateScenes lib input) =
        (conclude (t.view.enterGame.updateScenes lib input)).arrive arrival := by
      rw [hview, conclude_updateScenes_arrive]
    obtain ⟨hrunning, hincoming⟩ := conclude_updateScenes_net lib t.view input
    rcases happ with happ | ⟨hdead, earlier, happ⟩
    · cases hliving : app.alive with
      | true =>
        refine ⟨answer, app.arrive arrival, hanswer app hliving ?_ ?_,
          .updating halive' input (hmain'.trans hmain) (Or.inl ?_)⟩
        · rw [happ, hrunning]
        · rw [happ, hincoming]
        · rw [hnext, happ]
      | false =>
        refine ⟨[], app, rfl,
          .updating halive' input (hmain'.trans hmain) (Or.inr ⟨hliving, arrival, ?_⟩)⟩
        rw [hnext, happ]
    · refine ⟨[], app, rfl, .updating halive' input (hmain'.trans hmain)
        (Or.inr ⟨hdead, earlier.followedBy arrival, ?_⟩)⟩
      rw [hnext, happ, arrive_arrive]
  | left _ hloop => exact ⟨[], app, rfl, .left halive' (hmain' ▸ hloop)⟩
  | died hdead => cases halive.symm.trans hdead

/-- An update of the scene that ends the process where the view of it does. -/
theorem view_finish (lib : JsonLib) (t : Threads) (input : FrameInput) :
    conclude (t.view.enterGame.updateScenes lib input) =
      ({ t with app := conclude (t.app.enterGame.updateScenes lib input) } : Threads).view := by
  obtain ⟨hrunning, hincoming⟩ := conclude_updateScenes_net lib t.app input
  unfold view
  rw [conclude_updateScenes_arrive, hrunning, hincoming]

theorem app_eq_arrive_view (t : Threads) :
    t.app = t.view.arrive {
      running := t.app.ctx.net.running, incoming := t.app.ctx.net.incoming } := by
  unfold view
  rw [arrive_arrive]
  exact t.app.arrive_self.symm

theorem conclude_failed (app : Application) {outcome : Outcome Unit}
    (h : outcome ≠ .returned ()) : conclude (app, outcome) = { app with alive := false } := by
  cases outcome with
  | returned => exact absurd rfl h
  | threw | died | crashed => rfl

/-- A move of the main thread. -/
theorem Follows.main_move {lib : JsonLib} {t next : Threads} {app : Application}
    (h : t.Follows lib app) (halive : t.app.alive = true) (hmove : MainMove lib t next) :
    ∃ answer reached, Transition.run (Application.step lib) app answer = some reached ∧
      next.Follows lib reached := by
  cases hmove with
  | frame input hmain htyped =>
    cases h with
    | looping _ _ happ =>
      refine ⟨[], app, rfl, .polling halive input rfl htyped (happ ▸ halive) app [] ⟨rfl, ?_, ?_⟩⟩
      · rw [happ]
        rfl
      · rw [happ]
        rfl
    | polling _ _ hmain' => cases hmain.symm.trans hmain'
    | updating _ _ hmain' => cases hmain.symm.trans hmain'
    | left _ hloop => exact absurd (hmain ▸ trivial) hloop
    | died hdead => cases halive.symm.trans hdead
  | polled input hmain hqueue =>
    cases h with
    | looping _ hmain' => cases hmain.symm.trans hmain'
    | polling _ input' hmain' htyped happ polled handled hpoll =>
      cases hmain.symm.trans hmain'
      have hempty : t.view.ctx.net.recvQueue = [] := by
        rw [show t.view.ctx.net.recvQueue = t.app.ctx.net.recvQueue ++ [] from rfl, hqueue]
        rfl
      refine ⟨[.frame input], conclude (app.update lib input), ?_,
        .updating halive input rfl (Or.inl ?_)⟩
      · rw [Transition.run_cons, Application.step, if_pos happ]
        simp only [if_pos htyped]
        rfl
      · rw [hpoll.update hempty lib input]
        rfl
    | updating _ _ hmain' => cases hmain.symm.trans hmain'
    | left _ hloop => exact absurd (hmain ▸ trivial) hloop
    | died hdead => cases halive.symm.trans hdead
  | poll input msg queue hmain hqueue =>
    cases h with
    | looping _ hmain' => cases hmain.symm.trans hmain'
    | polling _ input' hmain' htyped happ polled handled hpoll =>
      cases hmain.symm.trans hmain'
      have hview : t.view.ctx.net.recvQueue = msg :: queue := by
        rw [show t.view.ctx.net.recvQueue = t.app.ctx.net.recvQueue ++ [] from rfl, hqueue,
          List.append_nil]
      have happ' : t.app = polled.withNet t.app.ctx.net := by
        have hnow : t.app = t.view.withNet t.app.ctx.net := rfl
        rw [hpoll.now] at hnow
        exact hnow
      have hmessage : Application.onMessage { t.app with ctx.net.recvQueue := queue } msg =
          ((polled.onMessage msg).1.withNet { t.app.ctx.net with recvQueue := queue },
            (polled.onMessage msg).2) := by
        rw [← onMessage_withNet, happ']
        rfl
      rw [hmessage]
      cases hpolled : polled.onMessage msg with
      | mk later outcome =>
        by_cases hreturned : outcome = .returned ()
        · cases hreturned
          have hnow := hpoll.message hview hpolled
          have hlater : later.alive = true := by
            rw [← congrArg (fun result ↦ result.1.alive) hpolled, onMessage_alive]
            exact (congrArg Application.alive hpoll.now).symm.trans halive
          refine ⟨[], app, rfl, .polling hlater input hmain htyped happ later (handled ++ [msg]) ?_⟩
          convert hnow using 1
          simp [view, arrive, Application.withNet, conclude]
        · have hupdate := hpoll.update_failed hview (by rw [hpolled]; exact hreturned) lib input
          refine ⟨[.frame input], conclude (app.update lib input), ?_,
            .died ?_ ⟨t.app.ctx.net.running, t.app.ctx.net.incoming, []⟩ ?_⟩
          · rw [Transition.run_cons, Application.step, if_pos happ]
            simp only [if_pos htyped]
            rfl
          · rw [conclude_failed _ hreturned]
          · rw [hupdate, hpolled, conclude_failed _ hreturned, conclude_failed _ hreturned,
              hpoll.net]
            simp [arrive, view, Application.withNet]
    | updating _ _ hmain' => cases hmain.symm.trans hmain'
    | left _ hloop => exact absurd (hmain ▸ trivial) hloop
    | died hdead => cases halive.symm.trans hdead
  | finish input hmain =>
    cases h with
    | looping _ hmain' => cases hmain.symm.trans hmain'
    | polling _ _ hmain' => cases hmain.symm.trans hmain'
    | updating _ input' hmain' happ =>
      cases hmain.symm.trans hmain'
      refine ⟨[], app, rfl, ?_⟩
      rw [view_finish] at happ
      have happ' := ({ t with
        app := conclude (t.app.enterGame.updateScenes lib input) } : Threads).app_eq_arrive_view
      cases hliving : (conclude (t.app.enterGame.updateScenes lib input)).alive with
      | true =>
        refine .looping hliving rfl (happ.resolve_right ?_)
        rintro ⟨hdead, arrival, hview⟩
        have hdead' := congrArg Application.alive hview
        cases (hliving.symm.trans hdead').trans hdead
      | false =>
        rcases happ with happ | ⟨_, arrival, hview⟩
        · rw [← happ] at happ'
          exact .died hliving _ happ'
        · rw [hview, arrive_arrive] at happ'
          exact .died hliving _ happ'
    | left _ hloop => exact absurd (hmain ▸ trivial) hloop
    | died hdead => cases halive.symm.trans hdead
  | close hmain => exact ⟨[], app, rfl, .left halive id⟩
  | test caller hmain =>
    refine ⟨[], app, rfl, .left halive ?_⟩
    dsimp only
    split
    · exact id
    · cases caller <;> exact id
  | stop caller hmain => exact ⟨[], app, rfl, .left halive id⟩
  | shut caller hmain =>
    refine ⟨[], app, rfl, .left halive ?_⟩
    cases caller <;> exact id
  | join hmain => exact ⟨[], app, rfl, .left halive id⟩

/-! ## Runs -/

theorem Cut.receiver_move {lib : JsonLib} {t next : Threads} (h : t.Cut) (horderly : t.Orderly)
    (hmove : ReceiverMove lib t next) : next.Cut := by
  cases hmove with
  | check hreceiver =>
    refine ⟨fun line hline ↦ ?_, fun hloop hleaving ↦ ?_⟩
    · dsimp only at hline
      split at hline
      · cases hline
      · cases hline
    · have hunfinished : ¬t.receiver.Finished := by
        rw [hreceiver]
        decide
      rw [if_pos (horderly.running hloop hunfinished)] at hleaving
      cases hleaving
  | receive bytes hreceiver =>
    refine ⟨h.line, fun _ hleaving ↦ ?_⟩
    cases hreceiver.symm.trans hleaving
  | take line rest hreceiver hline =>
    refine ⟨fun other hother ↦ ?_, fun _ ↦ nofun⟩
    cases hother
    exact (Lines.cut_eq_some hline).2
  | push line hreceiver => exact ⟨fun _ ↦ nofun, fun _ ↦ nofun⟩
  | fail hreceiver hincoming => exact ⟨fun _ ↦ nofun, fun _ _ ↦ hincoming⟩
  | leave hreceiver => exact ⟨fun _ ↦ nofun, fun _ ↦ nofun⟩

theorem Cut.main_move {lib : JsonLib} {t next : Threads} (h : t.Cut)
    (hmove : MainMove lib t next) : next.Cut := by
  have hkeeps : next.receiver = t.receiver → next.app.ctx.net.incoming = t.app.ctx.net.incoming →
      (next.main.InLoop → t.main.InLoop) → next.Cut := by
    intro hreceiver hincoming hloop
    refine ⟨fun line hline ↦ h.line line (hreceiver.symm.trans hline), fun hnext hleaving ↦ ?_⟩
    rw [hincoming]
    exact h.leaving (hloop hnext) (hreceiver.symm.trans hleaving)
  cases hmove with
  | frame input hmain => exact hkeeps rfl rfl fun _ ↦ hmain ▸ trivial
  | polled input hmain => exact hkeeps rfl rfl fun _ ↦ hmain ▸ trivial
  | poll input msg queue hmain =>
    refine hkeeps rfl ?_ id
    rw [conclude_ctx, onMessage_net]
  | finish input hmain =>
    exact hkeeps rfl (conclude_updateScenes_net lib t.app input).2 fun _ ↦ hmain ▸ trivial
  | close hmain => exact hkeeps rfl rfl False.elim
  | test caller hmain =>
    refine hkeeps rfl rfl fun hloop ↦ ?_
    dsimp only at hloop
    split at hloop
    · exact hloop.elim
    · cases caller <;> exact hloop.elim
  | stop caller hmain => exact hkeeps rfl rfl False.elim
  | shut caller hmain =>
    refine hkeeps rfl rfl fun hloop ↦ ?_
    cases caller <;> exact hloop.elim
  | join hmain => exact hkeeps rfl rfl False.elim

/-- The threads and the process they are seen as. -/
structure Refines (lib : JsonLib) (t : Threads) (app : Application) : Prop where
  orderly : t.Orderly
  cut : t.Cut
  follows : t.Follows lib app

theorem refines_start (lib : JsonLib) (connection : Connection) :
    (start connection).Refines lib (Application.start (connection ≠ .refused)) := by
  refine ⟨orderly_start connection, ⟨?_, ?_⟩, .looping rfl rfl ?_⟩
  · cases connection <;> exact fun _ ↦ nofun
  · cases connection <;> exact fun _ ↦ nofun
  · rw [view_of_ne_handling (by cases connection <;> exact fun _ ↦ nofun)]
    rfl

/-- Each step of a thread is answered by at most one step of the process. -/
theorem Refines.step {lib : JsonLib} {t next : Threads} {app : Application} {event : Event}
    (h : t.Refines lib app) (hstep : t.step lib event = some next) :
    ∃ answer reached, Transition.run (Application.step lib) app answer = some reached ∧
      next.Refines lib reached := by
  have horderly := h.orderly.step hstep
  obtain ⟨halive, hreceiver | hmain⟩ := step_move hstep
  · obtain ⟨answer, reached, hrun, hfollows⟩ :=
      h.follows.receiver_move h.orderly h.cut halive hreceiver
    exact ⟨answer, reached, hrun, horderly, h.cut.receiver_move h.orderly hreceiver, hfollows⟩
  · obtain ⟨answer, reached, hrun, hfollows⟩ := h.follows.main_move halive hmain
    exact ⟨answer, reached, hrun, horderly, h.cut.main_move hmain, hfollows⟩

/-! ## Frames without interruption -/

theorem step_main {lib : JsonLib} {t : Threads} (halive : t.app.alive = true)
    (event : MainEvent) : t.step lib (.main event) = t.stepMain lib event := if_pos halive

theorem step_receiver {lib : JsonLib} {t : Threads} (halive : t.app.alive = true)
    (event : ReceiverEvent) : t.step lib (.receiver event) = t.stepReceiver lib event :=
  if_pos halive

/-- The poll loop of a frame, without a step of the receiving thread in it. -/
theorem run_polls (lib : JsonLib) {t : Threads} {input : FrameInput}
    (hmain : t.main = .polling input) (halive : t.app.alive = true)
    {queue : List Protocol.Message} (hqueue : t.app.ctx.net.recvQueue = queue)
    {result : Application × Outcome Unit} (h : t.app.pollLoop queue = result) :
    ∃ polls, (result.2 = .returned () → Transition.run (step lib) t polls =
        some { t with app := result.1, main := .updating input }) ∧
      (result.2 ≠ .returned () → Transition.run (step lib) t polls =
        some { t with app := conclude result }) := by
  subst h
  induction queue generalizing t with
  | nil =>
    refine ⟨[.main .poll], fun _ ↦ ?_, fun hthrew ↦ absurd rfl hthrew⟩
    rw [Transition.run_cons, step_main halive]
    simp only [stepMain, hmain, NetworkClient.pollMessage, hqueue]
    rfl
  | cons msg queue ih =>
    have hpoll : t.step lib (.main .poll) = some { t with
        app := conclude
          (Application.onMessage { t.app with ctx.net.recvQueue := queue } msg) } := by
      rw [step_main halive]
      simp only [stepMain, hmain, NetworkClient.pollMessage, hqueue]
      rfl
    rw [pollLoop]
    dsimp only
    cases hmessage : Application.onMessage { t.app with ctx.net.recvQueue := queue } msg with
    | mk next outcome =>
      rw [hmessage] at hpoll
      cases outcome with
      | returned =>
        have hnet : next.ctx.net.recvQueue = queue := by
          have hkept := onMessage_net { t.app with ctx.net.recvQueue := queue } msg
          rw [hmessage] at hkept
          exact congrArg NetworkClient.recvQueue hkept
        have hnext : next.alive = true := by
          have hkept := onMessage_alive { t.app with ctx.net.recvQueue := queue } msg
          rw [hmessage] at hkept
          exact hkept.trans halive
        obtain ⟨polls, hreturned, hthrew⟩ := @ih { t with app := next } hmain hnext hnet
        refine ⟨.main .poll :: polls, fun h ↦ ?_, fun h ↦ ?_⟩
        · exact Transition.run_cons_eq_some.mpr ⟨_, hpoll, hreturned h⟩
        · exact Transition.run_cons_eq_some.mpr ⟨_, hpoll, hthrew h⟩
      | threw | died | crashed =>
        refine ⟨[.main .poll], fun hreturned ↦ ?_, fun _ ↦ ?_⟩
        · cases hreturned
        · rw [Transition.run_cons, hpoll]
          rfl

/-- Two threads that are between frames, with no line in hand. -/
structure Rests (app : Application) (t : Threads) : Prop where
  same : t.app = app
  main : app.alive = true → t.main = .looping ∧ t.closed = false
  receiver : app.alive = true → app.ctx.net.running = true →
    t.receiver = .checking ∨ t.receiver = .reading
  idle : ∀ line, t.receiver ≠ .handling line

theorem rests_start (connected : Bool) :
    Rests (Application.start connected)
      (start (if connected = true then .attended else .refused)) := by
  cases connected with
  | true => exact ⟨rfl, fun _ ↦ ⟨rfl, rfl⟩, fun _ _ ↦ Or.inl rfl, fun _ ↦ nofun⟩
  | false => exact ⟨rfl, fun _ ↦ ⟨rfl, rfl⟩, fun _ ↦ nofun, fun _ ↦ nofun⟩

/-- The receiving thread can be about to read. -/
theorem Rests.reading (lib : JsonLib) {app : Application} {t : Threads} (h : Rests app t)
    (halive : app.alive = true) (hrunning : app.ctx.net.running = true) :
    ∃ checks, Transition.run (step lib) t checks = some { t with receiver := .reading } := by
  rcases h.receiver halive hrunning with hreceiver | hreceiver
  · refine ⟨[.receiver .check], ?_⟩
    rw [← h.same] at halive hrunning
    rw [Transition.run_cons, step_receiver halive]
    simp only [stepReceiver, hreceiver, if_pos hrunning]
    rfl
  · exact ⟨[], by rw [← hreceiver]; rfl⟩

/-- The receiving thread can do from reading what it is asked to do between frames. -/
theorem Rests.run_reading {lib : JsonLib} {app : Application} {t reached : Threads}
    {rest : List Event} (h : Rests app t) (halive : app.alive = true)
    (hrunning : app.ctx.net.running = true)
    (hrest : Transition.run (step lib) { t with receiver := .reading } rest = some reached) :
    ∃ answer, Transition.run (step lib) t answer = some reached := by
  obtain ⟨checks, hchecks⟩ := h.reading lib halive hrunning
  exact ⟨checks ++ rest, Transition.run_append_eq_some.mpr ⟨_, hchecks, hrest⟩⟩

theorem run_receive {lib : JsonLib} {t : Threads} (halive : t.app.alive = true)
    (hreceiver : t.receiver = .reading) (hclosed : t.closed = false)
    (hincoming : newline ∉ t.app.ctx.net.incoming) (bytes : Bytes) :
    Transition.run (step lib) t [.receiver (.receive bytes)] = some
      (t.withNet { t.app.ctx.net with incoming := t.app.ctx.net.incoming ++ bytes }) := by
  rw [Transition.run_cons, step_receiver halive]
  simp only [stepReceiver, hreceiver, if_pos (And.intro hincoming hclosed)]
  rfl

theorem run_take_push {lib : JsonLib} {t : Threads} {line rest : Bytes}
    (halive : t.app.alive = true) (hreceiver : t.receiver = .reading)
    (hcut : Lines.cut newline t.app.ctx.net.incoming = some (line, rest)) :
    Transition.run (step lib) t [.receiver .take, .receiver .push] = some
      { t.withNet { t.app.ctx.net with
          incoming := rest, recvQueue := Protocol.deliver lib t.app.ctx.net.recvQueue line } with
        receiver := .checking } := by
  let taken : Threads :=
    { t.withNet { t.app.ctx.net with incoming := rest } with receiver := .handling line }
  have htake : t.step lib (.receiver .take) = some taken := by
    rw [step_receiver halive]
    simp only [stepReceiver, hreceiver, hcut]
    rfl
  exact Transition.run_cons_eq_some.mpr ⟨taken, htake,
    Transition.run_cons_eq_some.mpr ⟨_, @step_receiver lib taken halive .push, rfl⟩⟩

theorem run_fail_leave {lib : JsonLib} {t : Threads} (halive : t.app.alive = true)
    (hreceiver : t.receiver = .reading) (hincoming : newline ∉ t.app.ctx.net.incoming) :
    Transition.run (step lib) t [.receiver .fail, .receiver .leave] = some
      { t.withNet { t.app.ctx.net with running := false } with receiver := .ended } := by
  let failed : Threads := { t with receiver := .leaving }
  have hfail : t.step lib (.receiver .fail) = some failed := by
    rw [step_receiver halive]
    simp only [stepReceiver, hreceiver, if_pos hincoming]
    rfl
  exact Transition.run_cons_eq_some.mpr ⟨failed, hfail,
    Transition.run_cons_eq_some.mpr ⟨_, @step_receiver lib failed halive .leave, rfl⟩⟩

/-- A frame, without a step of the receiving thread in it. -/
theorem run_frame (lib : JsonLib) {t : Threads} {input : FrameInput} (htyped : input.Typed)
    (hmain : t.main = .looping) (halive : t.app.alive = true) :
    ∃ answer reached, Transition.run (step lib) t answer = some reached ∧
      reached.app = conclude (t.app.update lib input) ∧ reached.closed = t.closed ∧
      reached.receiver = t.receiver ∧ (reached.app.alive = true → reached.main = .looping) := by
  have hframe : t.step lib (.main (.frame input)) = some { t with main := .polling input } := by
    rw [step_main halive]
    simp only [stepMain, hmain, if_pos htyped]
  let polling : Threads := { t with main := .polling input }
  obtain ⟨polls, hreturned, hthrew⟩ := @run_polls lib polling input rfl halive _ rfl _ rfl
  rcases t.app.pollLoop_spec rfl with
    ⟨_, polled, hpoll, hpolled⟩ | ⟨_, failed, exception, hpoll, _⟩
  · have hupdate : t.app.update lib input = polled.enterGame.updateScenes lib input := by
      rw [Application.update, hpoll]
    have hpolls := hreturned (congrArg Prod.snd hpoll)
    rw [show polling.app.pollLoop polling.app.ctx.net.recvQueue = _ from hpoll] at hpolls
    let updating : Threads := { polling with app := polled, main := .updating input }
    let finished : Threads := { updating with
      app := conclude (polled.enterGame.updateScenes lib input), main := .looping }
    have hfinish : updating.step lib (.main .finish) = some finished :=
      step_main (hpolled.alive.trans halive) .finish
    refine ⟨.main (.frame input) :: (polls ++ [.main .finish]), finished,
      Transition.run_cons_eq_some.mpr ⟨polling, hframe, Transition.run_append_eq_some.mpr
        ⟨updating, hpolls, Transition.run_cons_eq_some.mpr ⟨_, hfinish, rfl⟩⟩⟩, ?_, rfl, rfl,
      fun _ ↦ rfl⟩
    rw [hupdate]
  · have hupdate : t.app.update lib input = (failed, .threw exception) := by
      rw [Application.update, hpoll]
    have hpolls := hthrew (by
      rw [show polling.app.pollLoop polling.app.ctx.net.recvQueue = _ from hpoll]
      intro hthrew
      cases hthrew)
    rw [show polling.app.pollLoop polling.app.ctx.net.recvQueue = _ from hpoll] at hpolls
    refine ⟨.main (.frame input) :: polls, _,
      Transition.run_cons_eq_some.mpr ⟨polling, hframe, hpolls⟩, ?_, rfl, rfl, ?_⟩
    · rw [hupdate]
    · intro hliving
      cases hliving

/-- A frame that the process survives keeps `m_running`. -/
theorem conclude_update_running {lib : JsonLib} {app : Application} {input : FrameInput}
    (h : (conclude (app.update lib input)).alive = true) :
    (conclude (app.update lib input)).ctx.net.running = app.ctx.net.running := by
  rcases app.update_spec lib input with
    ⟨_, polled, hpolled, _, hupdate⟩ | ⟨_, next, exception, hthrew, _⟩
  · rw [hupdate, (conclude_updateScenes_net lib polled input).1, hpolled.net]
  · rw [hthrew] at h
    cases h

/-- Each step of the process is one or more steps of the threads. -/
theorem Rests.step {lib : JsonLib} {app next : Application} {t : Threads}
    {event : Application.Event} (h : Rests app t) (hstep : app.step lib event = some next) :
    ∃ answer reached, Transition.run (Threads.step lib) t answer = some reached ∧
      Rests next reached := by
  obtain ⟨rfl, hmain, _, _⟩ := id h
  have halive := (step_spec hstep).1
  obtain ⟨hlooping, hclosed⟩ := hmain halive
  unfold Application.step at hstep
  rw [if_pos halive] at hstep
  cases event with
  | receive bytes =>
    obtain ⟨net, hnet, rfl⟩ := Option.map_eq_some_iff.mp hstep
    unfold NetworkClient.receive at hnet
    split at hnet
    · next hreads =>
      cases hnet
      obtain ⟨answer, hanswer⟩ := h.run_reading halive hreads.1
        (@run_receive lib { t with receiver := .reading } halive rfl hclosed hreads.2 bytes)
      exact ⟨answer, _, hanswer, rfl, fun _ ↦ ⟨hlooping, hclosed⟩, fun _ _ ↦ Or.inr rfl,
        fun _ ↦ nofun⟩
    · cases hnet
  | takeLine =>
    obtain ⟨net, hnet, rfl⟩ := Option.map_eq_some_iff.mp hstep
    unfold NetworkClient.takeLine at hnet
    split at hnet
    · next hrunning =>
      obtain ⟨⟨line, rest⟩, hcut, rfl⟩ := Option.map_eq_some_iff.mp hnet
      obtain ⟨answer, hanswer⟩ := h.run_reading halive hrunning
        (@run_take_push lib { t with receiver := .reading } line rest halive rfl hcut)
      exact ⟨answer, _, hanswer, rfl, fun _ ↦ ⟨hlooping, hclosed⟩, fun _ _ ↦ Or.inl rfl,
        fun _ ↦ nofun⟩
    · cases hnet
  | failRead =>
    obtain ⟨net, hnet, rfl⟩ := Option.map_eq_some_iff.mp hstep
    unfold NetworkClient.failRead at hnet
    split at hnet
    · next hreads =>
      cases hnet
      obtain ⟨answer, hanswer⟩ := h.run_reading halive hreads.1
        (@run_fail_leave lib { t with receiver := .reading } halive rfl hreads.2)
      exact ⟨answer, _, hanswer, rfl, fun _ ↦ ⟨hlooping, hclosed⟩, fun _ ↦ nofun, fun _ ↦ nofun⟩
    · cases hnet
  | frame input =>
    dsimp only at hstep
    split at hstep
    · next htyped =>
      cases hstep
      obtain ⟨answer, reached, hanswer, happ, hclosed', hreceiver, hmain'⟩ :=
        run_frame lib htyped hlooping halive
      refine ⟨answer, reached, hanswer, happ,
        fun hnext ↦ ⟨hmain' (happ ▸ hnext), hclosed'.trans hclosed⟩, fun hnext hrunning ↦ ?_,
        hreceiver ▸ h.idle⟩
      rw [hreceiver]
      exact h.receiver halive ((conclude_update_running hnext).symm.trans hrunning)
    · cases hstep

/-! ## Both directions -/

theorem Follows.eq_view {lib : JsonLib} {t : Threads} {app : Application} (h : t.Follows lib app)
    (halive : t.app.alive = true) (hmain : t.main = .looping) : app = t.view := by
  cases h with
  | looping _ _ happ => exact happ
  | polling _ _ hmain' => cases hmain.symm.trans hmain'
  | updating _ _ hmain' => cases hmain.symm.trans hmain'
  | left _ hloop => exact absurd (hmain ▸ trivial) hloop
  | died hdead => cases halive.symm.trans hdead

theorem Follows.eq_arrive {lib : JsonLib} {t : Threads} {app : Application}
    (h : t.Follows lib app) (hdead : t.app.alive = false) :
    ∃ arrival, t.app = app.arrive arrival := by
  cases h with
  | looping halive | polling halive | updating halive | left halive =>
    cases halive.symm.trans hdead
  | died _ arrival happ => exact ⟨arrival, happ⟩

/-- A frame can be taken as one step. In every run of the two threads, whatever the outcome of
`connect`, the state between two frames, seen with the line in hand unread, is one that the process
reaches frame by frame; when the process ends in a frame, it ends there in the state of the threads,
up to what the receiving thread did behind that frame. And whatever the process reaches frame by
frame is a state of the threads. -/
theorem frames_atomic (lib : JsonLib) :
    (∀ (connection : Connection) (events : List Event) (t : Threads),
      Transition.run (step lib) (start connection) events = some t →
      ∃ answer app, Transition.run (Application.step lib)
          (Application.start (connection ≠ .refused)) answer = some app ∧
        (t.app.alive = true → t.main = .looping → app = t.view) ∧
        (t.app.alive = false → ∃ arrival, t.app = app.arrive arrival)) ∧
    (∀ (connected : Bool) (events : List Application.Event) (app : Application),
      Transition.run (Application.step lib) (Application.start connected) events = some app →
      ∃ answer t, Transition.run (step lib)
          (start (if connected = true then .attended else .refused)) answer = some t ∧
        t.app = app ∧ (app.alive = true → t.main = .looping ∧ t.view = app)) := by
  constructor
  · intro connection events t hrun
    obtain ⟨answer, app, hanswer, hrefines⟩ :=
      Transition.refinement_run Refines.step (refines_start lib connection) hrun
    refine ⟨answer, app, hanswer, fun halive hmain ↦ ?_, fun hdead ↦ ?_⟩
    · exact hrefines.follows.eq_view halive hmain
    · exact hrefines.follows.eq_arrive hdead
  · intro connected events app hrun
    obtain ⟨answer, t, hanswer, hrests⟩ :=
      Transition.refinement_run Rests.step (rests_start connected) hrun
    exact ⟨answer, t, hanswer, hrests.same, fun halive ↦
      ⟨(hrests.main halive).1, (view_of_ne_handling hrests.idle).trans hrests.same⟩⟩

end Threads

end Application

end NetPixeld
