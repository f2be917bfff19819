import NetPixeld.Client.Frames

/-!
# What a frame does with any messages

A message that passes the filter is handled without an exception exactly when it is legible: the
fields its handler reads are there, with types that the library converts. Handling it changes at
most the client id, the uuid and the resources, and the uuid only in the login scene.
-/

namespace NetPixeld

open Protocol (Message)

/-! ## Fields -/

/-- Read a member of a payload. -/
def Protocol.Message.field {α : Type} (msg : Message) (key : Bytes) (get : Json → Except Exn α) :
    Except Exn α := do
  get (← msg.payload.atKey key)

/-- A member is there, with a type that the library converts. -/
def Protocol.Message.Has {α : Type} (msg : Message) (key : Bytes) (get : Json → Except Exn α) :
    Prop :=
  ∃ value, msg.field key get = .ok value

/-- What the handler of a scene reads from a message is there, with a uuid known. -/
def Scene.Reads (uuid : Bytes) (msg : Message) : Scene → Prop
  | .login _ _ => msg.type = Protocol.msgLoginResult → msg.Has (text "uuid") Json.getString
  | .game =>
      msg.type = Protocol.msgResourceUpdate →
        ∃ found, msg.field (text "uuid") Json.getString = .ok found ∧
          (found = uuid → msg.Has (text "wood") Json.getUInt64 ∧
            msg.Has (text "food") Json.getUInt64 ∧ msg.Has (text "iron") Json.getUInt64)

/-- The uuid after a scene handled a message. -/
def Scene.learn (uuid : Bytes) (msg : Message) : Scene → Bytes
  | .login _ _ =>
      if msg.type = Protocol.msgLoginResult then
        match msg.field (text "uuid") Json.getString with
        | .ok found => found
        | .error _ => uuid
      else uuid
  | .game => uuid

/-! ## Handlers -/

theorem Protocol.Message.atKey_bind {α β : Type} (msg : Message) (key : Bytes)
    (get : Json → Except Exn α) (next : α → Except Exn β) :
    (msg.payload.atKey key >>= fun found ↦ get found >>= next) = msg.field key get >>= next := by
  unfold Protocol.Message.field
  cases msg.payload.atKey key <;> rfl

theorem Protocol.Message.not_has {α : Type} {msg : Message} {key : Bytes}
    {get : Json → Except Exn α} {exception : Exn} (h : msg.field key get = .error exception) :
    ¬msg.Has key get := by
  rintro ⟨value, hvalue⟩
  cases h.symm.trans hvalue

/-- Three totals are read one after the other. -/
theorem Protocol.Message.read_totals {β : Type} (msg : Message)
    (next : UInt64 → UInt64 → UInt64 → Except Exn β) :
    let reading : Except Exn β := do
      let wood ← msg.field (text "wood") Json.getUInt64
      let food ← msg.field (text "food") Json.getUInt64
      let iron ← msg.field (text "iron") Json.getUInt64
      next wood food iron
    let legible := msg.Has (text "wood") Json.getUInt64 ∧ msg.Has (text "food") Json.getUInt64 ∧
      msg.Has (text "iron") Json.getUInt64
    legible ∧ (∃ wood food iron, reading = next wood food iron) ∨
      ¬legible ∧ ∃ exception, reading = .error exception := by
  dsimp only
  cases hwood : msg.field (text "wood") Json.getUInt64 with
  | error exception => exact Or.inr ⟨fun h ↦ not_has hwood h.1, exception, rfl⟩
  | ok wood =>
    cases hfood : msg.field (text "food") Json.getUInt64 with
    | error exception => exact Or.inr ⟨fun h ↦ not_has hfood h.2.1, exception, rfl⟩
    | ok food =>
      cases hiron : msg.field (text "iron") Json.getUInt64 with
      | error exception => exact Or.inr ⟨fun h ↦ not_has hiron h.2.2, exception, rfl⟩
      | ok iron =>
        exact Or.inl ⟨⟨⟨wood, hwood⟩, ⟨food, hfood⟩, ⟨iron, hiron⟩⟩, wood, food, iron, rfl⟩

/-- A scene reads a message and changes at most the uuid and the resources, or throws. -/
def Scene.Handles (scene : Scene) (ctx : GameContext) (msg : Message) : Prop :=
  (scene.Reads ctx.uuid msg ∧ ∃ resources applied handled, scene.handleMessage ctx msg =
    .ok ({ ctx with
      uuid := scene.learn ctx.uuid msg, resources := resources, applied := applied }, handled)) ∨
  ¬scene.Reads ctx.uuid msg ∧ ∃ exception, scene.handleMessage ctx msg = .error exception

theorem LoginScene.handles (username pass : Bytes) (ctx : GameContext) (msg : Message) :
    (Scene.login username pass).Handles ctx msg := by
  have hread : LoginScene.handleMessage ctx msg =
      if msg.type = Protocol.msgLoginResult then
        msg.field (text "uuid") Json.getString >>= fun uuid ↦ .ok ({ ctx with uuid := uuid }, true)
      else .ok (ctx, false) := by
    simp only [handleMessage, Protocol.Message.atKey_bind]
  unfold Scene.Handles
  simp only [Scene.handleMessage, Scene.Reads, Scene.learn, hread]
  by_cases htype : msg.type = Protocol.msgLoginResult
  · simp only [forall_const, htype]
    cases hfield : msg.field (text "uuid") Json.getString with
    | error exception => exact Or.inr ⟨Protocol.Message.not_has hfield, exception, rfl⟩
    | ok uuid => exact Or.inl ⟨⟨uuid, hfield⟩, ctx.resources, ctx.applied, true, rfl⟩
  · simp only [if_neg htype]
    exact Or.inl ⟨fun h ↦ absurd h htype, ctx.resources, ctx.applied, false, rfl⟩

theorem GameScene.handles (ctx : GameContext) (msg : Message) : Scene.game.Handles ctx msg := by
  let finish (uuid : Bytes) (wood food iron : UInt64) : Except Exn (GameContext × Bool) :=
    .ok ({ ctx with
      resources := ⟨wood, food, iron⟩
      applied := ctx.applied ++ [(uuid, ⟨wood, food, iron⟩)] }, true)
  have hread : GameScene.handleMessage ctx msg =
      if msg.type = Protocol.msgResourceUpdate then
        msg.field (text "uuid") Json.getString >>= fun uuid ↦
          if uuid = ctx.uuid then
            msg.field (text "wood") Json.getUInt64 >>= fun wood ↦
              msg.field (text "food") Json.getUInt64 >>= fun food ↦
                msg.field (text "iron") Json.getUInt64 >>= finish uuid wood food
          else .ok (ctx, true)
      else .ok (ctx, false) := by
    simp only [handleMessage, Protocol.Message.atKey_bind]
    rfl
  unfold Scene.Handles
  simp only [Scene.handleMessage, Scene.Reads, Scene.learn, hread]
  by_cases htype : msg.type = Protocol.msgResourceUpdate
  swap
  · simp only [if_neg htype]
    exact Or.inl ⟨fun h ↦ absurd h htype, ctx.resources, ctx.applied, false, rfl⟩
  simp only [forall_const, htype]
  cases hfield : msg.field (text "uuid") Json.getString with
  | error exception =>
    refine Or.inr ⟨?_, exception, rfl⟩
    rintro ⟨found, hfound, _⟩
    cases hfound
  | ok uuid =>
    simp only [Except.ok.injEq, exists_eq_left']
    by_cases huuid : uuid = ctx.uuid
    · rcases msg.read_totals (finish uuid) with
        ⟨hlegible, wood, food, iron, hok⟩ | ⟨hillegible, exception, herror⟩
      · refine Or.inl ⟨fun _ ↦ hlegible, ⟨wood, food, iron⟩,
          ctx.applied ++ [(uuid, ⟨wood, food, iron⟩)], true, ?_⟩
        exact (if_pos huuid).trans hok
      · exact Or.inr ⟨fun h ↦ hillegible (h huuid), exception, (if_pos huuid).trans herror⟩
    · exact Or.inl ⟨fun h ↦ absurd h huuid, ctx.resources, ctx.applied, true, if_neg huuid⟩

theorem Scene.handles (scene : Scene) (ctx : GameContext) (msg : Message) :
    scene.Handles ctx msg := by
  cases scene with
  | login username pass => exact LoginScene.handles username pass ctx msg
  | game => exact GameScene.handles ctx msg

namespace Application

/-! ## One message -/

/-- The handler of a message finds what it reads, with the scene shown and the uuid known. -/
def Legible (scene : Option Scene) (uuid : Bytes) (msg : Message) : Prop :=
  if msg.type = Protocol.msgAssignClientId then msg.Has (text "clientId") Json.getUInt8
  else ∀ shown, scene = some shown → shown.Reads uuid msg

/-- The uuid after a message that passed. -/
def learn (scene : Option Scene) (uuid : Bytes) (msg : Message) : Bytes :=
  if msg.type = Protocol.msgAssignClientId then uuid
  else
    match scene with
    | none => uuid
    | some shown => shown.learn uuid msg

/-- What handling a message leaves alone, and the uuid after it. -/
structure Dispatched (before after : Application) (msg : Message) : Prop where
  scenes : after.scenes = before.scenes
  alive : after.alive = before.alive
  net : after.ctx.net = before.ctx.net
  lastSeqByType : after.ctx.lastSeqByType = before.ctx.lastSeqByType
  uuid : after.ctx.uuid = learn before.scenes.scene before.ctx.uuid msg

/-- A message is handled exactly when it is legible. -/
theorem dispatch_spec (app : Application) (msg : Message) :
    (Legible app.scenes.scene app.ctx.uuid msg ∧
      ∃ next, app.dispatch msg = .ok next ∧ Dispatched app next msg) ∨
    (¬Legible app.scenes.scene app.ctx.uuid msg ∧
      ∃ exception, app.dispatch msg = .error exception) := by
  unfold dispatch Legible
  by_cases htype : msg.type = Protocol.msgAssignClientId
  · rw [if_pos htype, if_pos htype, Protocol.Message.atKey_bind]
    cases hfield : msg.field (text "clientId") Json.getUInt8 with
    | error exception =>
      exact Or.inr ⟨Protocol.Message.not_has hfield, exception, rfl⟩
    | ok clientId =>
      exact Or.inl ⟨⟨clientId, hfield⟩, _, rfl, rfl, rfl, rfl, rfl, (if_pos htype).symm⟩
  · rw [if_neg htype, if_neg htype]
    cases hscene : app.scenes.scene with
    | none =>
      refine Or.inl ⟨nofun, app, rfl, rfl, rfl, rfl, rfl, ?_⟩
      simp only [learn, if_neg htype, hscene]
    | some scene =>
      simp only [Option.some.injEq, forall_eq']
      rcases scene.handles app.ctx msg with
        ⟨hreads, resources, applied, handled, hok⟩ | ⟨hillegible, exception, herror⟩
      · rw [hok]
        refine Or.inl ⟨hreads, _, rfl, rfl, rfl, rfl, rfl, ?_⟩
        simp only [learn, if_neg htype, hscene]
      · rw [herror]
        exact Or.inr ⟨hillegible, exception, rfl⟩

/-- A polled message advances the filter, and is handled when it passes. -/
theorem onMessage_spec (app : Application) (msg : Message) :
    let filtered := filterSequence app.ctx.lastSeqByType msg
    let judged : Application := { app with ctx.lastSeqByType := filtered.1 }
    (filtered.2 = false ∧ app.onMessage msg = (judged, .returned ())) ∨
    (filtered.2 = true ∧ Legible app.scenes.scene app.ctx.uuid msg ∧
      ∃ next, app.onMessage msg = (next, .returned ()) ∧ Dispatched judged next msg) ∨
    (filtered.2 = true ∧ ¬Legible app.scenes.scene app.ctx.uuid msg ∧
      ∃ exception, app.onMessage msg = (judged, .threw exception)) := by
  unfold onMessage
  dsimp only
  split
  · next hpasses =>
    right
    rcases dispatch_spec { app with
        ctx.lastSeqByType := (filterSequence app.ctx.lastSeqByType msg).1 } msg with
      ⟨hlegible, next, hok, hnext⟩ | ⟨hillegible, exception, herror⟩
    · exact Or.inl ⟨hpasses, hlegible, next, by rw [hok], hnext⟩
    · exact Or.inr ⟨hpasses, hillegible, exception, by rw [herror]⟩
  · next hdropped => exact Or.inl ⟨Bool.not_eq_true _ ▸ hdropped, rfl⟩

/-! ## One frame -/

/-- Whether a message is legible does not change during a poll loop. -/
theorem legible_learn (scene : Option Scene) (uuid : Bytes) (msg other : Message) :
    Legible scene (learn scene uuid msg) other ↔ Legible scene uuid other := by
  unfold learn
  split
  · rfl
  · cases scene with
    | none => rfl
    | some shown =>
      cases shown with
      | login => simp [Legible, Scene.Reads]
      | game => rfl

/-- What a poll loop that returns has done. -/
structure Polled (before after : Application) (queue : List Message) : Prop where
  scenes : after.scenes = before.scenes
  alive : after.alive = before.alive
  net : after.ctx.net = { before.ctx.net with recvQueue := [] }
  uuid : after.ctx.uuid =
    (passed before.ctx.lastSeqByType queue).foldl (learn before.scenes.scene) before.ctx.uuid

theorem Polled.cons {app next final : Application} {msg : Message} {queue : List Message}
    (h : Polled next final queue) (hscenes : next.scenes = app.scenes)
    (halive : next.alive = app.alive)
    (hnet : next.ctx.net = { app.ctx.net with recvQueue := queue })
    (hlast : next.ctx.lastSeqByType = (filterSequence app.ctx.lastSeqByType msg).1)
    (huuid : next.ctx.uuid =
      if (filterSequence app.ctx.lastSeqByType msg).2 = true then
        learn app.scenes.scene app.ctx.uuid msg else app.ctx.uuid) :
    Polled app final (msg :: queue) := by
  refine ⟨h.scenes.trans hscenes, h.alive.trans halive, by rw [h.net, hnet], ?_⟩
  rw [h.uuid, hscenes, hlast, huuid, passed]
  split
  · rfl
  · rfl

/-- A poll loop returns exactly when the messages that pass are legible. -/
theorem pollLoop_spec (app : Application) {queue : List Message}
    (hqueue : app.ctx.net.recvQueue = queue) :
    ((∀ msg ∈ passed app.ctx.lastSeqByType queue,
        Legible app.scenes.scene app.ctx.uuid msg) ∧
      ∃ next, app.pollLoop queue = (next, .returned ()) ∧ Polled app next queue) ∨
    ((¬∀ msg ∈ passed app.ctx.lastSeqByType queue,
        Legible app.scenes.scene app.ctx.uuid msg) ∧
      ∃ next exception, app.pollLoop queue = (next, .threw exception) ∧
        next.scenes = app.scenes) := by
  induction queue generalizing app with
  | nil =>
    refine Or.inl ⟨nofun, app, rfl, rfl, rfl, ?_, rfl⟩
    rw [← hqueue]
  | cons msg queue ih =>
    let polled : Application := { app with ctx.net.recvQueue := queue }
    rw [pollLoop, passed]
    dsimp only
    rcases polled.onMessage_spec msg with
      ⟨hdropped, hmessage⟩ | ⟨hpasses, hlegible, next, hmessage, hnext⟩ |
        ⟨hpasses, hillegible, exception, hmessage⟩
    · have hdropped' : ¬(filterSequence app.ctx.lastSeqByType msg).2 = true := by
        intro hpasses
        cases hdropped.symm.trans hpasses
      rw [hmessage, if_neg hdropped']
      rcases ih { polled with
          ctx.lastSeqByType := (filterSequence app.ctx.lastSeqByType msg).1 } rfl with
        ⟨hlegible, final, hfinal, hpolled⟩ | ⟨hillegible, final, exception, hfinal, hscenes⟩
      · exact Or.inl ⟨hlegible, final, hfinal,
          hpolled.cons rfl rfl rfl rfl (if_neg hdropped').symm⟩
      · exact Or.inr ⟨hillegible, final, exception, hfinal, hscenes⟩
    · rw [hmessage, if_pos (show (filterSequence app.ctx.lastSeqByType msg).2 = true from hpasses)]
      have hlast : next.ctx.lastSeqByType = (filterSequence app.ctx.lastSeqByType msg).1 :=
        hnext.lastSeqByType
      have hscene : next.scenes.scene = app.scenes.scene :=
        congrArg SceneManager.scene hnext.scenes
      have hothers : ∀ other, Legible next.scenes.scene next.ctx.uuid other ↔
          Legible app.scenes.scene app.ctx.uuid other := by
        intro other
        rw [hscene, hnext.uuid]
        exact legible_learn app.scenes.scene app.ctx.uuid msg other
      have hrest := ih next (congrArg NetworkClient.recvQueue hnext.net)
      simp only [hothers, hlast] at hrest
      simp only [List.forall_mem_cons]
      rcases hrest with
        ⟨hlegibles, final, hfinal, hpolled⟩ | ⟨hillegible, final, exception, hfinal, hscenes⟩
      · exact Or.inl ⟨⟨hlegible, hlegibles⟩, final, hfinal,
          hpolled.cons hnext.scenes hnext.alive hnext.net hlast
            (hnext.uuid.trans (if_pos hpasses).symm)⟩
      · exact Or.inr ⟨fun h ↦ hillegible h.2, final, exception, hfinal,
          hscenes.trans hnext.scenes⟩
    · rw [hmessage, if_pos (show (filterSequence app.ctx.lastSeqByType msg).2 = true from hpasses)]
      refine Or.inr ⟨fun h ↦ hillegible (h msg (List.mem_cons_self ..)), _, exception, rfl, rfl⟩

theorem onMessage_net (app : Application) (msg : Protocol.Message) :
    (app.onMessage msg).1.ctx.net = app.ctx.net := by
  rcases app.onMessage_spec msg with
    ⟨_, hmessage⟩ | ⟨_, _, next, hmessage, hnext⟩ | ⟨_, _, _, hmessage⟩
  · rw [hmessage]
  · rw [hmessage, hnext.net]
  · rw [hmessage]

theorem onMessage_alive (app : Application) (msg : Protocol.Message) :
    (app.onMessage msg).1.alive = app.alive := by
  rcases app.onMessage_spec msg with
    ⟨_, hmessage⟩ | ⟨_, _, next, hmessage, hnext⟩ | ⟨_, _, _, hmessage⟩
  · rw [hmessage]
  · rw [hmessage, hnext.alive]
  · rw [hmessage]

/-- Every queued message that passes the filter is legible. -/
def Understood (app : Application) : Prop :=
  ∀ msg ∈ passed app.ctx.lastSeqByType app.ctx.net.recvQueue,
    Legible app.scenes.scene app.ctx.uuid msg

@[simp]
theorem enterGame_ctx (app : Application) : app.enterGame.ctx = app.ctx := by
  unfold enterGame
  split <;> rfl

@[simp]
theorem enterGame_alive (app : Application) : app.enterGame.alive = app.alive := by
  unfold enterGame
  split <;> rfl

/-- Updating the current scene changes nothing of the context but the connection. -/
theorem updateScenes_spec (lib : JsonLib) (app : Application) (input : FrameInput) :
    (app.updateScenes lib input).1.alive = app.alive ∧
      (app.updateScenes lib input).1.ctx =
        { app.ctx with net := (app.updateScenes lib input).1.ctx.net } ∧
      NetworkClient.Sent app.ctx.net (app.updateScenes lib input).1.ctx.net := by
  unfold updateScenes
  split
  · exact ⟨rfl, rfl, .refl _⟩
  · next scene _ =>
    obtain ⟨_, hctx, hsent⟩ := scene.update_spec lib app.ctx input
    exact ⟨rfl, hctx, hsent⟩

/-- A frame throws out of its poll loop, or updates the scene behind it. -/
theorem update_spec (lib : JsonLib) (app : Application) (input : FrameInput) :
    (app.Understood ∧ ∃ polled, Polled app polled app.ctx.net.recvQueue ∧
      app.pollLoop app.ctx.net.recvQueue = (polled, .returned ()) ∧
      app.update lib input = polled.enterGame.updateScenes lib input) ∨
    (¬app.Understood ∧ ∃ next exception, app.update lib input = (next, .threw exception) ∧
      next.scenes = app.scenes) := by
  rcases app.pollLoop_spec rfl with
    ⟨hlegible, polled, hreturned, hpolled⟩ | ⟨hillegible, next, exception, hthrew, hscenes⟩
  · exact Or.inl ⟨hlegible, polled, hpolled, hreturned, by rw [update, hreturned]⟩
  · exact Or.inr ⟨hillegible, next, exception, by rw [update, hthrew], hscenes⟩

end Application

end NetPixeld
