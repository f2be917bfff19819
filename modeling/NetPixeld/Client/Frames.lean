import NetPixeld.Client.Application

/-!
# What a frame does with the messages of the server

A `Notice` is a message with a type and a payload that the server sends. A notice never makes a
frame throw, and its effect depends only on which of the two scenes is shown. A frame handles the
notices it polls one after the other with the scene of its beginning, and ends with the game scene
when a uuid is known.
-/

namespace NetPixeld

/-- What the server has to say. -/
inductive Notice where
  | assign (sequence : UInt32) (clientId : UInt8)
  | result (sequence : UInt32) (uuid : Bytes)
  | update (sequence : UInt32) (uuid : Bytes) (pool : Resources)
deriving DecidableEq

namespace Notice

def message : Notice → Protocol.Message
  | assign sequence clientId => { Protocol.assignClientId clientId with sequence := sequence }
  | result sequence uuid => { Protocol.loginResult uuid with sequence := sequence }
  | update sequence uuid pool =>
      Protocol.resourceUpdate sequence uuid pool.wood pool.food pool.iron

@[simp]
theorem type_assign (sequence : UInt32) (clientId : UInt8) :
    (assign sequence clientId).message.type = Protocol.msgAssignClientId := rfl

@[simp]
theorem type_result (sequence : UInt32) (uuid : Bytes) :
    (result sequence uuid).message.type = Protocol.msgLoginResult := rfl

@[simp]
theorem type_update (sequence : UInt32) (uuid : Bytes) (pool : Resources) :
    (update sequence uuid pool).message.type = Protocol.msgResourceUpdate := rfl

/-- The fields of an update are read back. -/
theorem update_fields (sequence : UInt32) (uuid : Bytes) (pool : Resources) :
    let payload := (update sequence uuid pool).message.payload
    payload.atKey (text "uuid") = .ok (.str uuid) ∧
      payload.atKey (text "wood") = .ok (.num pool.wood.toNat) ∧
      payload.atKey (text "food") = .ok (.num pool.food.toNat) ∧
      payload.atKey (text "iron") = .ok (.num pool.iron.toNat) := by
  have hnames : [text "uuid", text "wood", text "food", text "iron"].Nodup := by decide
  have hnodup : ([(text "uuid", Json.str uuid), (text "wood", .num pool.wood.toNat),
      (text "food", .num pool.food.toNat), (text "iron", .num pool.iron.toNat)].map
        Prod.fst).Nodup := hnames
  exact ⟨Json.atKey_insertAll hnodup (by simp), Json.atKey_insertAll hnodup (by simp),
    Json.atKey_insertAll hnodup (by simp), Json.atKey_insertAll hnodup (by simp)⟩

/-- A login result has the number that the server gives to all of them. -/
def Single (notice : Notice) : Prop :=
  ∀ sequence uuid, notice = .result sequence uuid → sequence = 1

end Notice

/-! ## One notice -/

/-- Which scene a scene object is. -/
def Scene.id : Scene → SceneID
  | .login _ _ => .login
  | .game => .game

namespace GameContext

/-- The scene shown between frames. -/
def shown (ctx : GameContext) : SceneID := if ctx.uuid = [] then .login else .game

/-- A notice that passed the filter, with a scene shown. -/
def absorb (scene : SceneID) (ctx : GameContext) : Notice → GameContext
  | .assign _ clientId => { ctx with clientId := clientId.toUInt32 }
  | .result _ uuid =>
      match scene with
      | .login => { ctx with uuid := uuid }
      | .game => ctx
  | .update _ uuid pool =>
      match scene with
      | .login => ctx
      | .game =>
          if uuid = ctx.uuid then
            { ctx with resources := pool, applied := ctx.applied ++ [(uuid, pool)] }
          else ctx

/-- A notice that is polled, with a scene shown. -/
def receive (scene : SceneID) (ctx : GameContext) (notice : Notice) : GameContext :=
  let filtered := Application.filterSequence ctx.lastSeqByType notice.message
  let ctx := { ctx with lastSeqByType := filtered.1 }
  if filtered.2 = true then ctx.absorb scene notice else ctx

/-- Notices do not concern the connection. -/
theorem receive_net (scene : SceneID) (ctx : GameContext) (net : NetworkClient)
    (notice : Notice) :
    ({ ctx with net := net } : GameContext).receive scene notice =
      { ctx.receive scene notice with net := net } := by
  unfold receive
  dsimp only
  split
  · cases notice with
    | assign => rfl
    | result => cases scene <;> rfl
    | update =>
      cases scene with
      | login => rfl
      | game =>
        simp only [absorb]
        split <;> rfl
  · rfl

theorem foldl_receive_net (scene : SceneID) (ctx : GameContext) (net : NetworkClient)
    (notices : List Notice) :
    notices.foldl (receive scene) { ctx with net := net } =
      { notices.foldl (receive scene) ctx with net := net } := by
  induction notices generalizing ctx with
  | nil => rfl
  | cons notice notices ih => rw [List.foldl_cons, receive_net, ih, List.foldl_cons]

end GameContext

/-- A scene handles a notice, or ignores it, without an exception. -/
theorem Scene.handleMessage_notice (scene : Scene) (ctx : GameContext) {notice : Notice}
    (h : ∀ sequence clientId, notice ≠ .assign sequence clientId) :
    ∃ handled, scene.handleMessage ctx notice.message =
      .ok (ctx.absorb scene.id notice, handled) := by
  cases notice with
  | assign sequence clientId => exact absurd rfl (h sequence clientId)
  | result sequence uuid =>
    have hfield : (Notice.result sequence uuid).message.payload.atKey (text "uuid") =
        .ok (.str uuid) := Json.atKey_insertAll (by simp) (List.mem_singleton_self _)
    cases scene with
    | login username pass =>
      refine ⟨true, ?_⟩
      rw [handleMessage, LoginScene.handleMessage, if_pos (Notice.type_result ..), hfield]
      rfl
    | game =>
      have hother : Protocol.msgLoginResult ≠ Protocol.msgResourceUpdate := by decide
      refine ⟨false, ?_⟩
      rw [handleMessage, GameScene.handleMessage, Notice.type_result, if_neg hother]
      rfl
  | update sequence uuid pool =>
    cases scene with
    | login username pass =>
      have hother : Protocol.msgResourceUpdate ≠ Protocol.msgLoginResult := by decide
      refine ⟨false, ?_⟩
      rw [handleMessage, LoginScene.handleMessage, Notice.type_update, if_neg hother]
      rfl
    | game =>
      obtain ⟨huuid, hwood, hfood, hiron⟩ := Notice.update_fields sequence uuid pool
      refine ⟨true, ?_⟩
      rw [handleMessage, GameScene.handleMessage, if_pos (Notice.type_update ..), huuid, hwood,
        hfood, hiron]
      simp only [bind, Except.bind, Json.getString_str, Json.getUInt64_num, GameContext.absorb, id]
      split <;> rfl

/-! ## The filter -/

/-- The number of the last message of a type that passed. -/
def lastSeq (lastSeqByType : SortedMap Bytes UInt32) (type : Bytes) : UInt32 :=
  (lastSeqByType.find type).getD 0

/-- A message passes exactly when its number is the next one of its type. -/
theorem Application.filterSequence_spec (lastSeqByType : SortedMap Bytes UInt32)
    (msg : Protocol.Message) :
    ((filterSequence lastSeqByType msg).2 = true ∧ lastSeq lastSeqByType msg.type < msg.sequence ∧
      msg.sequence = lastSeq lastSeqByType msg.type + 1 ∧
      (filterSequence lastSeqByType msg).1 = lastSeqByType.insert msg.type msg.sequence) ∨
    ((filterSequence lastSeqByType msg).2 = false ∧
      (msg.sequence ≤ lastSeq lastSeqByType msg.type ∨
        msg.sequence ≠ lastSeq lastSeqByType msg.type + 1) ∧
      (filterSequence lastSeqByType msg).1 =
        lastSeqByType.insert msg.type (lastSeq lastSeqByType msg.type)) := by
  unfold filterSequence lastSeq
  dsimp only
  split
  · next hle => exact Or.inr ⟨rfl, Or.inl hle, rfl⟩
  · next hlt =>
    split
    · next hne => exact Or.inr ⟨rfl, Or.inr hne, rfl⟩
    · next heq => exact Or.inl ⟨rfl, UInt32.not_le.mp hlt, not_not.mp heq, rfl⟩

theorem lastSeq_insert (lastSeqByType : SortedMap Bytes UInt32) (type other : Bytes)
    (sequence : UInt32) :
    lastSeq (lastSeqByType.insert type sequence) other =
      if type = other then sequence else lastSeq lastSeqByType other := by
  unfold lastSeq
  rw [SortedMap.find_insert]
  split <;> rfl

/-- The numbers that passed never go down. -/
theorem Application.lastSeq_filterSequence (lastSeqByType : SortedMap Bytes UInt32)
    (msg : Protocol.Message) (type : Bytes) :
    lastSeq lastSeqByType type ≤ lastSeq (filterSequence lastSeqByType msg).1 type := by
  rcases filterSequence_spec lastSeqByType msg with ⟨_, hlt, _, hfiltered⟩ | ⟨_, _, hfiltered⟩
  · rw [hfiltered, lastSeq_insert]
    split
    · next heq => exact heq ▸ UInt32.le_of_lt hlt
    · exact UInt32.le_refl _
  · rw [hfiltered, lastSeq_insert]
    split
    · next heq => exact heq ▸ UInt32.le_refl _
    · exact UInt32.le_refl _

/-- The messages of a list that pass the filter, one after the other. -/
def Application.passed (lastSeqByType : SortedMap Bytes UInt32) :
    List Protocol.Message → List Protocol.Message
  | [] => []
  | msg :: rest =>
      let filtered := filterSequence lastSeqByType msg
      if filtered.2 = true then msg :: passed filtered.1 rest else passed filtered.1 rest

namespace GameContext

theorem lastSeqByType_receive (scene : SceneID) (ctx : GameContext) (notice : Notice) :
    (ctx.receive scene notice).lastSeqByType =
      (Application.filterSequence ctx.lastSeqByType notice.message).1 := by
  unfold receive
  dsimp only
  split
  · cases notice with
    | assign => rfl
    | result => cases scene <;> rfl
    | update =>
      cases scene with
      | login => rfl
      | game =>
        simp only [absorb]
        split <;> rfl
  · rfl

/-- A login result has passed the filter. -/
def Answered (ctx : GameContext) : Prop :=
  lastSeq ctx.lastSeqByType Protocol.msgLoginResult ≠ 0

/-- A known uuid came with a login result. -/
def Told (ctx : GameContext) : Prop := ctx.uuid ≠ [] → ctx.Answered

theorem Answered.receive {ctx : GameContext} (h : ctx.Answered) (scene : SceneID)
    (notice : Notice) : (ctx.receive scene notice).Answered := by
  intro hzero
  have hle := Application.lastSeq_filterSequence ctx.lastSeqByType notice.message
    Protocol.msgLoginResult
  rw [← lastSeqByType_receive scene, hzero] at hle
  exact h (UInt32.le_zero_iff.mp hle)

/-- The uuid changes only with a login result that passes the filter. -/
theorem uuid_receive (scene : SceneID) (ctx : GameContext) (notice : Notice) :
    (ctx.receive scene notice).uuid = ctx.uuid ∨
      ∃ sequence uuid, notice = .result sequence uuid ∧
        lastSeq ctx.lastSeqByType Protocol.msgLoginResult < sequence ∧
        (ctx.receive scene notice).uuid = uuid ∧ (ctx.receive scene notice).Answered := by
  rcases Application.filterSequence_spec ctx.lastSeqByType notice.message with
    ⟨hpasses, hlt, _, hfiltered⟩ | ⟨hdropped, _⟩
  · have hreceive : ctx.receive scene notice =
        ({ ctx with
            lastSeqByType := (Application.filterSequence ctx.lastSeqByType notice.message).1 } :
          GameContext).absorb scene notice := if_pos hpasses
    cases notice with
    | assign =>
      left
      rw [hreceive]
      rfl
    | update =>
      left
      rw [hreceive]
      cases scene with
      | login => rfl
      | game =>
        simp only [absorb]
        split <;> rfl
    | result sequence uuid =>
      cases scene with
      | game =>
        left
        rw [hreceive]
        rfl
      | login =>
        refine Or.inr ⟨sequence, uuid, rfl, hlt, by rw [hreceive]; rfl, ?_⟩
        rw [Answered, lastSeqByType_receive, hfiltered, Notice.type_result, lastSeq_insert,
          if_pos rfl]
        rintro rfl
        exact absurd hlt UInt32.not_lt_zero
  · left
    simp [receive, hdropped]

theorem Told.receive {ctx : GameContext} (h : ctx.Told) (scene : SceneID) (notice : Notice) :
    (ctx.receive scene notice).Told := by
  rcases uuid_receive scene ctx notice with huuid | ⟨_, _, _, _, _, hanswered⟩
  · intro hne
    rw [huuid] at hne
    exact (h hne).receive scene notice
  · exact fun _ ↦ hanswered

theorem Told.foldl_receive {ctx : GameContext} (h : ctx.Told) (scene : SceneID)
    (notices : List Notice) : (notices.foldl (GameContext.receive scene) ctx).Told := by
  induction notices generalizing ctx with
  | nil => exact h
  | cons notice notices ih => exact ih (h.receive scene notice)

/-- After a login result has passed, no second one does. -/
theorem Answered.uuid_receive {ctx : GameContext} (h : ctx.Answered) (scene : SceneID)
    {notice : Notice} (hsingle : notice.Single) :
    (ctx.receive scene notice).uuid = ctx.uuid := by
  rcases GameContext.uuid_receive scene ctx notice with huuid | ⟨sequence, uuid, hnotice, hlt, _⟩
  · exact huuid
  · rw [hsingle sequence uuid hnotice] at hlt
    exact absurd (UInt32.lt_one_iff.mp hlt) h

theorem Answered.uuid_foldl_receive {ctx : GameContext} (h : ctx.Answered) (scene : SceneID)
    {notices : List Notice} (hsingle : ∀ notice ∈ notices, notice.Single) :
    (notices.foldl (GameContext.receive scene) ctx).uuid = ctx.uuid := by
  induction notices generalizing ctx with
  | nil => rfl
  | cons notice notices ih =>
    rw [List.foldl_cons,
      ih (h.receive scene notice) fun other hother ↦ hsingle other (List.mem_cons_of_mem _ hother),
      h.uuid_receive scene (hsingle notice (List.mem_cons_self ..))]

end GameContext

/-- Once the game is shown the uuid stays. -/
theorem GameContext.uuid_receive_game (ctx : GameContext) (notice : Notice) :
    (ctx.receive .game notice).uuid = ctx.uuid := by
  unfold receive
  dsimp only
  split
  · cases notice with
    | assign | result => rfl
    | update =>
      simp only [absorb]
      split <;> rfl
  · rfl

theorem GameContext.uuid_foldl_receive_game (ctx : GameContext) (notices : List Notice) :
    (notices.foldl (receive .game) ctx).uuid = ctx.uuid := by
  induction notices generalizing ctx with
  | nil => rfl
  | cons notice notices ih => rw [List.foldl_cons, ih, uuid_receive_game]

/-! ## Sending -/

/-- Nothing but the written bytes changes, and these grow. -/
structure NetworkClient.Sent (before after : NetworkClient) : Prop where
  same : after = { before with written := after.written }
  written : before.written <+: after.written

theorem NetworkClient.Sent.refl (net : NetworkClient) : Sent net net := ⟨rfl, List.prefix_rfl⟩

theorem NetworkClient.sendMessage_sent (lib : JsonLib) (net : NetworkClient)
    (msg : Protocol.Message) (failure : Option ℕ) :
    Sent net (net.sendMessage lib msg failure).1 := by
  unfold sendMessage
  split
  · exact .refl net
  split
  · split
    · exact ⟨rfl, List.prefix_append _ _⟩
    · exact ⟨rfl, List.prefix_append _ _⟩
  · exact .refl net

/-- Updating a scene changes nothing of the context but the connection. -/
theorem Scene.update_spec (scene : Scene) (lib : JsonLib) (ctx : GameContext)
    (input : FrameInput) :
    (scene.update lib ctx input).1.id = scene.id ∧
      (scene.update lib ctx input).2.1 =
        { ctx with net := (scene.update lib ctx input).2.1.net } ∧
      NetworkClient.Sent ctx.net (scene.update lib ctx input).2.1.net := by
  cases scene with
  | game => exact ⟨rfl, rfl, .refl _⟩
  | login username pass =>
    unfold update
    dsimp only
    split
    · unfold LoginScene.onClick
      split
      · exact ⟨rfl, rfl, NetworkClient.sendMessage_sent ..⟩
      · exact ⟨rfl, rfl, .refl _⟩
    · exact ⟨rfl, rfl, .refl _⟩

namespace Application

/-- A notice is dispatched without an exception. -/
theorem dispatch_notice {app : Application} {scene : Scene} (hscene : app.scenes.scene = some scene)
    (notice : Notice) :
    app.dispatch notice.message = .ok { app with ctx := app.ctx.absorb scene.id notice } := by
  have hscenes : (∀ sequence clientId, notice ≠ .assign sequence clientId) →
      notice.message.type ≠ Protocol.msgAssignClientId →
      app.dispatch notice.message = .ok { app with ctx := app.ctx.absorb scene.id notice } := by
    intro hnotice htype
    obtain ⟨handled, hhandled⟩ := scene.handleMessage_notice app.ctx hnotice
    rw [dispatch, if_neg htype, hscene]
    simp only [hhandled, Except.map]
  cases notice with
  | assign sequence clientId =>
    have hfield : (Notice.assign sequence clientId).message.payload.atKey (text "clientId") =
        .ok (.num clientId.toNat) := Json.atKey_insertAll (by simp) (List.mem_singleton_self _)
    rw [dispatch, if_pos (Notice.type_assign ..), hfield]
    simp only [bind, Except.bind, Json.getUInt8_num]
    rfl
  | result => exact hscenes nofun (by rw [Notice.type_result]; decide)
  | update => exact hscenes nofun (by rw [Notice.type_update]; decide)

theorem onMessage_notice {app : Application} {scene : Scene}
    (hscene : app.scenes.scene = some scene) (notice : Notice) :
    app.onMessage notice.message =
      ({ app with ctx := app.ctx.receive scene.id notice }, .returned ()) := by
  unfold onMessage GameContext.receive
  dsimp only
  split
  · rw [dispatch_notice (by exact hscene) notice]
  · rfl

/-! ## One frame -/

/-- The poll loop handles the notices in their order with the scene of its beginning. -/
theorem pollLoop_notices {app : Application} {scene : Scene}
    (hscene : app.scenes.scene = some scene) {notices : List Notice}
    (hqueue : app.ctx.net.recvQueue = notices.map Notice.message) :
    app.pollLoop (notices.map Notice.message) =
      ({ app with ctx := { notices.foldl (GameContext.receive scene.id) app.ctx with
          net := { app.ctx.net with recvQueue := [] } } }, .returned ()) := by
  induction notices generalizing app with
  | nil =>
    have hnet : { app.ctx.net with recvQueue := [] } = app.ctx.net := by
      rw [List.map_nil] at hqueue
      rw [← hqueue]
    rw [hnet]
    rfl
  | cons notice notices ih =>
    let polled : Application := { app with ctx.net.recvQueue := notices.map Notice.message }
    let next : Application := { polled with
      ctx := { app.ctx.receive scene.id notice with net := polled.ctx.net } }
    have hscene' : polled.scenes.scene = some scene := hscene
    have hpolled : polled.onMessage notice.message = (next, .returned ()) := by
      rw [onMessage_notice hscene', GameContext.receive_net]
    have hrest := @ih next hscene rfl
    rw [GameContext.foldl_receive_net] at hrest
    rw [List.map_cons, pollLoop, hpolled]
    exact hrest

/-- Between frames the game scene is shown when a uuid is known, and the login scene otherwise. -/
structure Ready (app : Application) : Prop where
  shown : ∃ scene, app.scenes.scene = some scene ∧ scene.id = app.ctx.shown
  game : app.scenes.factories .game = some .game

/-- What a frame that polls some notices leaves behind. -/
structure Framed (before after : Application) (notices : List Notice) : Prop where
  ctx : after.ctx = { notices.foldl (GameContext.receive before.ctx.shown) before.ctx with
    net := after.ctx.net }
  ready : after.Ready
  net : NetworkClient.Sent { before.ctx.net with recvQueue := [] } after.ctx.net

/-- Entering the game keeps the context and makes the scene fit the uuid. -/
theorem enterGame_ready {app : Application} (hgame : app.scenes.factories .game = some .game)
    (hlogin : app.ctx.uuid = [] → ∃ scene, app.scenes.scene = some scene ∧ scene.id = .login) :
    app.enterGame.ctx = app.ctx ∧ app.enterGame.Ready := by
  unfold enterGame
  split
  · next huuid =>
    refine ⟨rfl, ⟨.game, SceneManager.scene_changeScene hgame, (if_neg huuid).symm⟩, ?_⟩
    exact (congrFun (SceneManager.changeScene_factories ..) _).trans hgame
  · next huuid =>
    have hempty : app.ctx.uuid = [] := not_not.mp huuid
    obtain ⟨scene, hscene, hid⟩ := hlogin hempty
    exact ⟨rfl, ⟨scene, hscene, hid.trans (if_pos hempty).symm⟩, hgame⟩

theorem updateScenes_ready (lib : JsonLib) {app : Application} (hready : app.Ready)
    (input : FrameInput) :
    (app.updateScenes lib input).1.ctx =
        { app.ctx with net := (app.updateScenes lib input).1.ctx.net } ∧
      (app.updateScenes lib input).1.Ready ∧
      NetworkClient.Sent app.ctx.net (app.updateScenes lib input).1.ctx.net := by
  obtain ⟨scene, hscene, hid⟩ := hready.shown
  obtain ⟨hupdated, hctx, hsent⟩ := scene.update_spec lib app.ctx input
  simp only [updateScenes, hscene]
  refine ⟨hctx, ⟨⟨_, SceneManager.scene_updateCurrent hscene _, ?_⟩, hready.game⟩, hsent⟩
  rw [hupdated, hid, hctx]
  rfl

theorem update_framed (lib : JsonLib) {app : Application} (hready : app.Ready)
    {notices : List Notice} (hqueue : app.ctx.net.recvQueue = notices.map Notice.message)
    (input : FrameInput) : Framed app (app.update lib input).1 notices := by
  obtain ⟨scene, hscene, hid⟩ := hready.shown
  have hpolled := pollLoop_notices hscene hqueue
  rw [← hqueue, hid] at hpolled
  let polled : Application := { app with
    ctx := { notices.foldl (GameContext.receive app.ctx.shown) app.ctx with
      net := { app.ctx.net with recvQueue := [] } } }
  have hlogin : polled.ctx.uuid = [] →
      ∃ scene, polled.scenes.scene = some scene ∧ scene.id = .login := by
    intro hempty
    refine ⟨scene, hscene, ?_⟩
    by_contra hgame
    have hshown : app.ctx.shown = .game := by
      rw [← hid]
      cases scene with
      | login => exact absurd rfl hgame
      | game => rfl
    have huuid : polled.ctx.uuid = app.ctx.uuid := by
      simp only [polled, hshown, GameContext.uuid_foldl_receive_game]
    rw [GameContext.shown, if_pos (huuid ▸ hempty)] at hshown
    cases hshown
  obtain ⟨hentered, hentered_ready⟩ :=
    enterGame_ready (show polled.scenes.factories .game = some .game from hready.game) hlogin
  obtain ⟨hctx, hready', hsent⟩ := updateScenes_ready lib hentered_ready input
  rw [hentered] at hctx hsent
  have hupdate : app.update lib input = polled.enterGame.updateScenes lib input := by
    rw [update, hpolled]
  rw [hupdate]
  exact ⟨hctx, hready', hsent⟩

theorem ready_start (connected : Bool) : (start connected).Ready :=
  ⟨⟨.login [] [], rfl, rfl⟩, rfl⟩

end Application

/-! ## Frames that do not throw -/

/-- A click in this frame has a text to send and a connection that takes it. -/
def FrameInput.Sendable (connected : Bool) (input : FrameInput) : Prop :=
  input.clicked = true → connected = true ∧ input.failure = none ∧
    Utf8.Valid input.username ∧ Utf8.Valid input.pass

theorem Scene.update_returned (scene : Scene) (lib : JsonLib) {ctx : GameContext}
    {input : FrameInput} (h : input.Sendable ctx.net.connected) :
    (scene.update lib ctx input).2.2 = .returned () := by
  cases scene with
  | game => rfl
  | login username pass =>
    unfold update
    dsimp only
    split
    · next hclicked =>
      obtain ⟨hconnected, hfailure, husername, hpass⟩ := h hclicked
      obtain ⟨out, hout⟩ :=
        Protocol.Message.serialize_ok lib (Protocol.wellFormed_loginRequest husername hpass)
      unfold LoginScene.onClick
      split
      · simp [NetworkClient.sendMessage, hout, hconnected, hfailure]
      · rfl
    · rfl

namespace Application

theorem update_returned (lib : JsonLib) {app : Application} (hready : app.Ready)
    {notices : List Notice} (hqueue : app.ctx.net.recvQueue = notices.map Notice.message)
    {input : FrameInput} (hinput : input.Sendable app.ctx.net.connected) :
    (app.update lib input).2 = .returned () := by
  obtain ⟨scene, hscene, _⟩ := hready.shown
  have hpolled := pollLoop_notices hscene hqueue
  rw [← hqueue] at hpolled
  rw [update, hpolled]
  dsimp only [updateScenes]
  split
  · rfl
  · refine Scene.update_returned _ lib ?_
    unfold enterGame
    split
    · exact hinput
    · exact hinput

end Application

end NetPixeld
