import NetPixeld.Client.NetworkClient
import NetPixeld.Client.SceneManager
import NetPixeld.Common.Resource

/-!
# The client

The scenes, the context they share, and one frame of the application. What the user does in a frame
and the outcome of a write are in the input of the frame. Messages that the receiving thread pushes
while a frame polls count as pushed before the frame.
-/

namespace NetPixeld

/-- `GameContext`, with the player and the connection it refers to. -/
structure GameContext where
  clientId : UInt32 := 0
  /-- `player.m_resources`. -/
  resources : Resources := {}
  net : NetworkClient
  lastSeqByType : SortedMap Bytes UInt32 := ∅
  uuid : Bytes := []
  /-- The updates given to the player, each with the uuid it came for; no code reads it. -/
  applied : List (Bytes × Resources) := []

inductive SceneID where
  | login
  | game
deriving DecidableEq

/-- A scene object: `m_username` and `m_pass` of the login scene; the game scene has no state. -/
inductive Scene where
  | login (username pass : Bytes)
  | game
deriving DecidableEq

/-- What a frame gets from outside. -/
structure FrameInput where
  /-- The texts of the two text boxes after their update. -/
  username : Bytes := []
  pass : Bytes := []
  /-- The login button runs its click callback. -/
  clicked : Bool := false
  /-- The number of bytes after which a write of this frame fails. -/
  failure : Option ℕ := none

/-! ## Scenes -/

/-- The click callback of the login button. -/
def LoginScene.onClick (lib : JsonLib) (ctx : GameContext) (username pass : Bytes)
    (failure : Option ℕ) : GameContext × Outcome Unit :=
  if username ≠ [] ∧ pass ≠ [] then
    let sent := ctx.net.sendMessage lib (Protocol.loginRequest username pass) failure
    ({ ctx with net := sent.1 }, sent.2)
  else (ctx, .returned ())

def LoginScene.handleMessage (ctx : GameContext) (msg : Protocol.Message) :
    Except Exn (GameContext × Bool) :=
  if msg.type = Protocol.msgLoginResult then do
    let uuid ← (← msg.payload.atKey (text "uuid")).getString
    .ok ({ ctx with uuid := uuid }, true)
  else .ok (ctx, false)

def GameScene.handleMessage (ctx : GameContext) (msg : Protocol.Message) :
    Except Exn (GameContext × Bool) :=
  if msg.type = Protocol.msgResourceUpdate then do
    let uuid ← (← msg.payload.atKey (text "uuid")).getString
    if uuid = ctx.uuid then
      let wood ← (← msg.payload.atKey (text "wood")).getUInt64
      let food ← (← msg.payload.atKey (text "food")).getUInt64
      let iron ← (← msg.payload.atKey (text "iron")).getUInt64
      .ok ({ ctx with
        resources := ⟨wood, food, iron⟩
        applied := ctx.applied ++ [(uuid, ⟨wood, food, iron⟩)] }, true)
    else .ok (ctx, true)
  else .ok (ctx, false)

def Scene.handleMessage (ctx : GameContext) (msg : Protocol.Message) :
    Scene → Except Exn (GameContext × Bool)
  | .login _ _ => LoginScene.handleMessage ctx msg
  | .game => GameScene.handleMessage ctx msg

/-- `Update` of a scene. -/
def Scene.update (lib : JsonLib) (ctx : GameContext) (input : FrameInput) :
    Scene → Scene × GameContext × Outcome Unit
  | .login _ _ =>
      let scene := Scene.login input.username input.pass
      if input.clicked = true then
        (scene, LoginScene.onClick lib ctx input.username input.pass input.failure)
      else (scene, ctx, .returned ())
  | .game => (.game, ctx, .returned ())

/-! ## The application -/

structure Application where
  ctx : GameContext
  scenes : SceneManager SceneID Scene
  /-- No exception left `main`. -/
  alive : Bool := true

namespace Application

/-- The constructor, with the outcome of `connect`. -/
def start (connected : Bool) : Application :=
  let scenes : SceneManager SceneID Scene := { currentID := .login }
  let scenes := scenes.registerScene .login (.login [] [])
  let scenes := scenes.registerScene .game .game
  { ctx := { net := .connect connected }
    scenes := scenes.changeScene .login }

/-- The duplicate filter: the counters with the one `operator[]` inserts, and whether the message
passes. -/
def filterSequence (lastSeqByType : SortedMap Bytes UInt32) (msg : Protocol.Message) :
    SortedMap Bytes UInt32 × Bool :=
  let lastSeq := (lastSeqByType.find msg.type).getD 0
  if msg.sequence ≤ lastSeq then (lastSeqByType.insert msg.type lastSeq, false)
  else if msg.sequence ≠ lastSeq + 1 then (lastSeqByType.insert msg.type lastSeq, false)
  else (lastSeqByType.insert msg.type msg.sequence, true)

/-- A message behind the filter: the handshake is handled here, all others by the scene. A message
that is not handled is dropped. -/
def dispatch (app : Application) (msg : Protocol.Message) : Except Exn Application :=
  if msg.type = Protocol.msgAssignClientId then do
    let clientId ← (← msg.payload.atKey (text "clientId")).getUInt8
    .ok { app with ctx := { app.ctx with clientId := clientId.toUInt32 } }
  else
    match app.scenes.scene with
    | none => .ok app
    | some scene => (scene.handleMessage app.ctx msg).map fun handled ↦
        { app with ctx := handled.1 }

/-- The body of the poll loop for one message. -/
def onMessage (app : Application) (msg : Protocol.Message) : Application × Outcome Unit :=
  let filtered := filterSequence app.ctx.lastSeqByType msg
  let app := { app with ctx := { app.ctx with lastSeqByType := filtered.1 } }
  if filtered.2 = true then
    match app.dispatch msg with
    | .ok app => (app, .returned ())
    | .error exception => (app, .threw exception)
  else (app, .returned ())

/-- The poll loop over a queue. -/
def pollLoop (app : Application) : List Protocol.Message → Application × Outcome Unit
  | [] => (app, .returned ())
  | msg :: queue =>
      let polled := { app with ctx.net.recvQueue := queue }
      match polled.onMessage msg with
      | (app, .returned ()) => pollLoop app queue
      | failed => failed

/-- `m_scenes.Update()`. -/
def updateScenes (lib : JsonLib) (app : Application) (input : FrameInput) :
    Application × Outcome Unit :=
  match app.scenes.scene with
  | none => (app, .returned ())
  | some scene =>
      let updated := scene.update lib app.ctx input
      ({ app with ctx := updated.2.1, scenes := app.scenes.updateCurrent updated.1 }, updated.2.2)

/-- The game scene is made current in every frame in which a uuid is known. -/
def enterGame (app : Application) : Application :=
  if app.ctx.uuid ≠ [] then { app with scenes := app.scenes.changeScene .game } else app

def update (lib : JsonLib) (app : Application) (input : FrameInput) :
    Application × Outcome Unit :=
  match app.pollLoop app.ctx.net.recvQueue with
  | (app, .returned ()) => app.enterGame.updateScenes lib input
  | failed => failed

end Application

end NetPixeld
