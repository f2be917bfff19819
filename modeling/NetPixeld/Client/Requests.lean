import NetPixeld.Client.Process

/-!
# What a client writes

A client writes login requests and nothing else: one for every frame in which the login form is
shown behind the poll loop and its button is clicked over two texts. A write that fails leaves a
part of its request on the wire and ends the process, so that only the last one can be incomplete.
-/

namespace NetPixeld

/-- What `sendMessage` writes for a user name and a password. -/
def requestText (lib : JsonLib) (request : Bytes × Bytes) : Bytes :=
  ((Protocol.loginRequest request.1 request.2).serialize lib).toOption.getD []

instance (input : FrameInput) : Decidable input.Sends :=
  decidable_of_iff (input.clicked = true ∧ input.username ≠ [] ∧ input.pass ≠ []) Iff.rfl

theorem FrameInput.Typed.valid {input : FrameInput} (h : input.Typed) :
    Utf8.Valid input.username ∧ Utf8.Valid input.pass := by
  have hascii : ∀ {typed : Bytes}, (∀ byte ∈ typed, 32 ≤ byte ∧ byte ≤ 125) → Utf8.Valid typed :=
    fun h ↦ Utf8.valid_of_ascii fun byte hbyte ↦ lt_of_le_of_lt (h byte hbyte).2 (by decide)
  exact ⟨hascii h.1, hascii h.2⟩

namespace Application

/-- The login that a frame asks for, if any. -/
def asks (app : Application) (input : FrameInput) : List (Bytes × Bytes) :=
  match app.pollLoop app.ctx.net.recvQueue with
  | (polled, .returned ()) =>
      if polled.enterGame.scenes.scene.map Scene.id = some .login ∧ input.Sends ∧
        app.ctx.net.connected = true then [(input.username, input.pass)]
      else []
  | _ => []

/-- The logins that a step asks for. -/
def asked (app : Application) : Event → List (Bytes × Bytes)
  | .frame input => app.asks input
  | _ => []

theorem mem_asks {app : Application} {input : FrameInput} {request : Bytes × Bytes}
    (h : request ∈ app.asks input) :
    input.Sends ∧ request = (input.username, input.pass) := by
  unfold asks at h
  split at h
  · split at h
    · next hasks => exact ⟨hasks.2.1, List.mem_singleton.mp h⟩
    · cases h
  · cases h

/-- Bytes were written, which are those of some requests, or begin like them. -/
structure Writes (lib : JsonLib) (requests : List (Bytes × Bytes)) (before after : NetworkClient)
    (complete : Prop) : Prop where
  written : ∃ bytes, after.written = before.written ++ bytes ∧
    bytes <+: requests.flatMap (requestText lib) ∧
    (complete → bytes = requests.flatMap (requestText lib))

theorem Writes.none {lib : JsonLib} {before after : NetworkClient} {complete : Prop}
    (h : after.written = before.written) : Writes lib [] before after complete :=
  ⟨[], h.trans (List.append_nil _).symm, List.nil_prefix, fun _ ↦ rfl⟩

/-! ## One frame -/

/-- The click of a request. -/
theorem sendMessage_writes {lib : JsonLib} {net : NetworkClient} (hconnected : net.connected = true)
    {username pass : Bytes} (hvalid : Utf8.Valid username ∧ Utf8.Valid pass)
    (failure : Option ℕ) :
    let sent := net.sendMessage lib (Protocol.loginRequest username pass) failure
    Writes lib [(username, pass)] net sent.1 (sent.2 = .returned ()) := by
  obtain ⟨out, hout⟩ := Protocol.Message.serialize_ok lib
    (Protocol.wellFormed_loginRequest hvalid.1 hvalid.2)
  have htext : [(username, pass)].flatMap (requestText lib) = out := by
    rw [List.flatMap_singleton, requestText, hout]
    rfl
  dsimp only
  unfold NetworkClient.sendMessage
  rw [hout]
  dsimp only
  rw [if_pos hconnected]
  cases failure with
  | none => exact ⟨out, rfl, htext ▸ List.prefix_rfl, fun _ ↦ htext.symm⟩
  | some count =>
    refine ⟨out.take count, rfl, ?_, fun hreturned ↦ ?_⟩
    · rw [htext]
      exact List.take_prefix count out
    · cases hreturned

/-- A scene that is not asked to send anything writes nothing. -/
theorem Scene.update_of_not_sends (lib : JsonLib) (ctx : GameContext) {input : FrameInput}
    (h : ¬input.Sends) (scene : Scene) : (scene.update lib ctx input).2.1 = ctx := by
  cases scene with
  | game => rfl
  | login username pass =>
    unfold Scene.update
    dsimp only
    split
    · next hclicked =>
      unfold LoginScene.onClick
      rw [if_neg fun htexts ↦ h ⟨hclicked, htexts⟩]
    · rfl

theorem Scene.update_of_sends (lib : JsonLib) (ctx : GameContext) {input : FrameInput}
    (h : input.Sends) (username pass : Bytes) :
    let sent := ctx.net.sendMessage lib (Protocol.loginRequest input.username input.pass)
      input.failure
    ((Scene.login username pass).update lib ctx input).2 =
      ({ ctx with net := sent.1 }, sent.2) := by
  unfold Scene.update LoginScene.onClick
  dsimp only
  rw [if_pos h.1, if_pos h.2]

/-- A scene writes the request of its click. -/
theorem updateScenes_writes (lib : JsonLib) {app : Application} {input : FrameInput}
    (htyped : input.Typed) :
    let updated := app.updateScenes lib input
    Writes lib (if app.scenes.scene.map Scene.id = some .login ∧ input.Sends ∧
        app.ctx.net.connected = true then [(input.username, input.pass)] else [])
      app.ctx.net updated.1.ctx.net (updated.2 = .returned ()) := by
  dsimp only
  unfold updateScenes
  cases hscene : app.scenes.scene with
  | none =>
    rw [if_neg fun h ↦ by cases h.1]
    exact .none rfl
  | some scene =>
    dsimp only [Option.map_some]
    by_cases hsends : input.Sends
    swap
    · rw [if_neg fun h ↦ hsends h.2.1, Scene.update_of_not_sends lib app.ctx hsends scene]
      exact .none rfl
    cases scene with
    | game =>
      rw [if_neg fun h ↦ by cases h.1]
      exact .none rfl
    | login username pass =>
      rw [Scene.update_of_sends lib app.ctx hsends username pass]
      by_cases hconnected : app.ctx.net.connected = true
      · rw [if_pos ⟨rfl, hsends, hconnected⟩]
        exact sendMessage_writes hconnected htyped.valid input.failure
      · rw [if_neg fun h ↦ hconnected h.2.2]
        refine .none ?_
        dsimp only
        unfold NetworkClient.sendMessage
        split
        · rfl
        · rw [if_neg hconnected]

/-- The poll loop writes nothing. -/
theorem pollLoop_written (app : Application) (queue : List Protocol.Message) :
    (app.pollLoop queue).1.ctx.net.written = app.ctx.net.written ∧
      (app.pollLoop queue).1.ctx.net.connected = app.ctx.net.connected := by
  induction queue generalizing app with
  | nil => exact ⟨rfl, rfl⟩
  | cons msg queue ih =>
    have hnet := onMessage_net { app with ctx.net.recvQueue := queue } msg
    rw [pollLoop]
    dsimp only
    split
    · next next hmessage =>
      rw [hmessage] at hnet
      obtain ⟨hwritten, hconnected⟩ := ih next
      rw [hwritten, hconnected, hnet]
      exact ⟨rfl, rfl⟩
    · rw [hnet]
      exact ⟨rfl, rfl⟩

/-- A frame writes the request that it asks for, all of it when the frame returns. -/
theorem update_writes (lib : JsonLib) {app : Application} {input : FrameInput}
    (htyped : input.Typed) :
    let updated := app.update lib input
    Writes lib (app.asks input) app.ctx.net updated.1.ctx.net (updated.2 = .returned ()) := by
  dsimp only
  obtain ⟨hwritten, hconnected⟩ := app.pollLoop_written app.ctx.net.recvQueue
  rcases app.pollLoop_spec rfl with
    ⟨_, polled, hpoll, _⟩ | ⟨_, failed, exception, hpoll, _⟩
  · have hupdate : app.update lib input = polled.enterGame.updateScenes lib input := by
      rw [update, hpoll]
    obtain ⟨bytes, hbytes, hprefix, hcomplete⟩ :=
      @updateScenes_writes lib polled.enterGame input htyped
    rw [hpoll] at hwritten hconnected
    rw [enterGame_ctx, hconnected] at hprefix hcomplete
    rw [enterGame_ctx, hwritten] at hbytes
    rw [hupdate, asks, hpoll]
    exact ⟨bytes, hbytes, hprefix, hcomplete⟩
  · have hupdate : app.update lib input = (failed, .threw exception) := by
      rw [update, hpoll]
    rw [hpoll] at hwritten
    rw [hupdate, asks, hpoll]
    exact .none hwritten

/-! ## Every run -/

/-- A step writes the requests that it asks for, all of them when the process lives on. -/
theorem step_writes {lib : JsonLib} {app next : Application} {event : Event}
    (hstep : app.step lib event = some next) :
    Writes lib (app.asked event) app.ctx.net next.ctx.net (next.alive = true) := by
  obtain ⟨halive, ⟨net, rfl, hevent⟩ | ⟨input, rfl, htyped, rfl⟩⟩ := step_spec hstep
  · unfold Application.step at hstep
    rw [if_pos halive] at hstep
    cases event with
    | receive bytes =>
      obtain ⟨received, hreceived, heq⟩ := advance_eq_some hstep
      cases heq
      exact .none (by rw [NetworkClient.receive_eq_some hreceived])
    | takeLine =>
      obtain ⟨taken, htaken, heq⟩ := advance_eq_some hstep
      cases heq
      obtain ⟨line, rest, _, rfl⟩ := NetworkClient.takeLine_eq_some htaken
      exact .none rfl
    | failRead =>
      obtain ⟨failed, hfailed, heq⟩ := advance_eq_some hstep
      cases heq
      exact .none (by rw [NetworkClient.failRead_eq_some hfailed])
    | frame input => exact absurd rfl (hevent input)
  · obtain ⟨bytes, hbytes, hprefix, hcomplete⟩ := @update_writes lib app input htyped
    obtain ⟨alive, hconclude⟩ := conclude_eq (app.update lib input)
    refine ⟨bytes, ?_, hprefix, fun hlives ↦ hcomplete ((conclude_alive halive input).mp hlives)⟩
    rw [hconclude]
    exact hbytes

theorem valid_of_mem_asked {lib : JsonLib} {app next : Application} {event : Event}
    (hstep : app.step lib event = some next) {request : Bytes × Bytes}
    (hrequest : request ∈ app.asked event) : Utf8.Valid request.1 ∧ Utf8.Valid request.2 := by
  cases event with
  | receive | takeLine | failRead => cases hrequest
  | frame input =>
    obtain ⟨_, ⟨_, _, hevent⟩ | ⟨_, hinput, htyped, _⟩⟩ := step_spec hstep
    · exact absurd rfl (hevent input)
    · cases hinput
      rw [(mem_asks hrequest).2]
      exact htyped.valid

/-- What a client has written is the requests that it was asked for, as long as it lives. -/
structure Wrote (lib : JsonLib) (app : Application) (requests : List (Bytes × Bytes)) : Prop where
  written : app.ctx.net.written <+: requests.flatMap (requestText lib)
  complete : app.alive = true → app.ctx.net.written = requests.flatMap (requestText lib)
  valid : ∀ request ∈ requests, Utf8.Valid request.1 ∧ Utf8.Valid request.2

theorem wrote_start (lib : JsonLib) (connected : Bool) : (start connected).Wrote lib [] :=
  ⟨List.nil_prefix, fun _ ↦ rfl, nofun⟩

theorem Wrote.step {lib : JsonLib} {app next : Application} {requests : List (Bytes × Bytes)}
    (h : app.Wrote lib requests) {event : Event} (hstep : app.step lib event = some next) :
    next.Wrote lib (requests ++ app.asked event) := by
  obtain ⟨bytes, hbytes, hprefix, hcomplete⟩ := step_writes hstep
  rw [h.complete (step_spec hstep).1] at hbytes
  refine ⟨?_, fun hlives ↦ ?_, ?_⟩
  · rw [hbytes, List.flatMap_append]
    exact (List.prefix_append_right_inj _).mpr hprefix
  · rw [hbytes, List.flatMap_append, hcomplete hlives]
  · exact List.forall_mem_append.mpr
      ⟨h.valid, fun _ hrequest ↦ valid_of_mem_asked hstep hrequest⟩

end Application

end NetPixeld
