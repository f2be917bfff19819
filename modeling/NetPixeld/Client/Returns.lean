import NetPixeld.Client.Dispatch
import NetPixeld.Json.Reference

/-!
# When a frame returns

Nothing between the payload of a message and `main` catches an exception, and neither does anything
between a click and `main`. A frame returns exactly when every message that passes the filter is
legible and the request of its click, if it sends one, is written.
-/

namespace NetPixeld

open Protocol (Message)

/-! ## The click -/

/-- The click callback sends a request. -/
def FrameInput.Sends (input : FrameInput) : Prop :=
  input.clicked = true ∧ input.username ≠ [] ∧ input.pass ≠ []

/-- A request with the two texts can be serialized and written. -/
def FrameInput.Writable (connected : Bool) (input : FrameInput) : Prop :=
  connected = true ∧ input.failure = none ∧ Utf8.Valid input.username ∧ Utf8.Valid input.pass

theorem NetworkClient.sendMessage_returned_iff (lib : JsonLib) (net : NetworkClient)
    (input : FrameInput) :
    (net.sendMessage lib (Protocol.loginRequest input.username input.pass) input.failure).2 =
      .returned () ↔ input.Writable net.connected := by
  unfold sendMessage FrameInput.Writable
  constructor
  · intro h
    split at h
    · cases h
    next out hout =>
    obtain ⟨husername, hpass⟩ := Protocol.valid_of_serialize_loginRequest hout
    split at h
    · next hconnected =>
      split at h
      · next hfailure => exact ⟨hconnected, hfailure, husername, hpass⟩
      · cases h
    · cases h
  · rintro ⟨hconnected, hfailure, husername, hpass⟩
    obtain ⟨out, hout⟩ :=
      Protocol.Message.serialize_ok lib (Protocol.wellFormed_loginRequest husername hpass)
    simp [hout, hconnected, hfailure]

/-- The update of a scene returns exactly when it has nothing to send or can send it. -/
theorem Scene.update_returned_iff (scene : Scene) (lib : JsonLib) (ctx : GameContext)
    (input : FrameInput) :
    (scene.update lib ctx input).2.2 = .returned () ↔
      (scene.id = .login → input.Sends → input.Writable ctx.net.connected) := by
  cases scene with
  | game => exact iff_of_true rfl nofun
  | login username pass =>
    rw [← NetworkClient.sendMessage_returned_iff lib]
    unfold update LoginScene.onClick FrameInput.Sends
    dsimp only [Scene.id]
    by_cases hclicked : input.clicked = true
    · by_cases htexts : input.username ≠ [] ∧ input.pass ≠ []
      · simp [hclicked, htexts]
      · simp [hclicked, htexts]
    · simp [hclicked]

namespace Application

/-! ## The scene behind the poll loop -/

/-- The uuid behind the poll loop of a frame. -/
def uuidAfter (app : Application) : Bytes :=
  (passed app.ctx.lastSeqByType app.ctx.net.recvQueue).foldl (learn app.scenes.scene) app.ctx.uuid

/-- The scene that is updated in a frame. -/
def sceneAfter (app : Application) : Option Scene :=
  if app.uuidAfter = [] then app.scenes.scene else app.scenes.factories .game

theorem enterGame_scene {app polled : Application}
    (h : Polled app polled app.ctx.net.recvQueue) :
    polled.enterGame.scenes.scene = app.sceneAfter := by
  have huuid : polled.ctx.uuid = app.uuidAfter := h.uuid
  unfold enterGame sceneAfter
  rw [huuid, h.scenes]
  by_cases hempty : app.uuidAfter = []
  · simp [hempty, h.scenes]
  · simp [hempty, SceneManager.scene_changeScene_eq]

/-- The click of a frame has nothing to send, or sends it. -/
def ClickTaken (app : Application) (input : FrameInput) : Prop :=
  ∀ scene, app.sceneAfter = some scene → scene.id = .login → input.Sends →
    input.Writable app.ctx.net.connected

/-- A frame returns exactly when its messages are legible and its click is taken. -/
theorem update_returned_iff (lib : JsonLib) (app : Application) (input : FrameInput) :
    (app.update lib input).2 = .returned () ↔ app.Understood ∧ app.ClickTaken input := by
  rcases app.update_spec lib input with
    ⟨hunderstood, polled, hpolled, _, hupdate⟩ | ⟨hnot, next, exception, hthrew, _⟩
  · rw [hupdate, and_iff_right hunderstood, ClickTaken, ← enterGame_scene hpolled, updateScenes]
    cases hscene : polled.enterGame.scenes.scene with
    | none =>
      refine iff_of_true rfl fun scene hnone ↦ ?_
      cases hnone
    | some scene =>
      simp only [Option.some.injEq, forall_eq']
      rw [scene.update_returned_iff, enterGame_ctx, hpolled.net]
  · rw [hthrew]
    refine iff_of_false ?_ fun h ↦ hnot h.1
    intro hreturned
    cases hreturned

/-! ## Malformed payloads -/

/-- What the client knows is the same. -/
structure Unchanged (before after : GameContext) : Prop where
  clientId : after.clientId = before.clientId
  uuid : after.uuid = before.uuid
  resources : after.resources = before.resources

/-- A frame survives its messages: it returns, no message is left in the queue, and a message whose
handler cannot read it changes nothing of what the client knows. -/
structure Survives (lib : JsonLib) (app : Application) (input : FrameInput) : Prop where
  returned : (app.update lib input).2 = .returned ()
  processed : (app.update lib input).1.ctx.net.recvQueue = []
  dropped : ∀ before msg after, app.ctx.net.recvQueue = before ++ msg :: after →
    let polled := (app.pollLoop before).1
    ¬Legible polled.scenes.scene polled.ctx.uuid msg →
      Unchanged polled.ctx (polled.onMessage msg).1.ctx

/-- A message whose handler cannot read it changes nothing, also when it throws. -/
theorem onMessage_unchanged {app : Application} {msg : Message}
    (h : ¬Legible app.scenes.scene app.ctx.uuid msg) :
    Unchanged app.ctx (app.onMessage msg).1.ctx := by
  rcases app.onMessage_spec msg with
    ⟨_, hmessage⟩ | ⟨_, hlegible, _⟩ | ⟨_, _, exception, hmessage⟩
  · rw [hmessage]
    exact ⟨rfl, rfl, rfl⟩
  · exact absurd hlegible h
  · rw [hmessage]
    exact ⟨rfl, rfl, rfl⟩

/-- A frame survives its messages exactly when every message that passes the filter is legible and
the click is taken: nothing catches what a handler throws. -/
theorem survives_iff_understood (lib : JsonLib) (app : Application) (input : FrameInput) :
    Survives lib app input ↔ app.Understood ∧ app.ClickTaken input := by
  constructor
  · intro h
    exact (update_returned_iff lib app input).mp h.returned
  · intro h
    have hreturned := (update_returned_iff lib app input).mpr h
    refine ⟨hreturned, ?_, fun before msg after _ ↦ onMessage_unchanged⟩
    rcases app.update_spec lib input with
      ⟨_, polled, hpolled, _, hupdate⟩ | ⟨hnot, _⟩
    · obtain ⟨_, _, hsent⟩ := polled.enterGame.updateScenes_spec lib input
      rw [← hupdate, enterGame_ctx] at hsent
      rw [hsent.same, hpolled.net]
    · exact absurd h.1 hnot

/-- A handshake without a client id: the text is a message for `parse`, and the frame that polls it
throws. -/
theorem not_survives_missing_clientId :
    ∃ line msg, Message.parse JsonLib.reference line = .ok msg ∧
      msg.type = Protocol.msgAssignClientId ∧ msg.sequence = 1 ∧
      ¬Survives JsonLib.reference { start true with
        ctx := { (start true).ctx with net := { (start true).ctx.net with recvQueue := [msg] } } }
        {} := by
  have hformed : (⟨Protocol.msgAssignClientId, 1, .obj []⟩ : Message).WellFormed :=
    ⟨Utf8.valid_text (by decide), List.Pairwise.nil, trivial⟩
  obtain ⟨serialized, hserialized⟩ := Message.serialize_ok JsonLib.reference hformed
  obtain ⟨line, _, _, hparse⟩ := Message.serialize_line JsonLib.reference_lawful hformed hserialized
  refine ⟨line, _, hparse, rfl, rfl, fun h ↦ ?_⟩
  have hreturned := h.returned
  exact absurd hreturned (by decide +kernel)

end Application

end NetPixeld
