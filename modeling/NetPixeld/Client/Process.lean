import NetPixeld.Client.Returns
import NetPixeld.Foundation.Transition

/-!
# The client process

The receiving thread and the frames of the main thread, in any interleaving, with the outcomes of
the connection and the actions of the user in the events. An exception that leaves a frame leaves
`main`, after which nothing happens any more.
-/

namespace NetPixeld

/-- The text boxes take these characters only. -/
def FrameInput.Typed (input : FrameInput) : Prop :=
  (∀ byte ∈ input.username, 32 ≤ byte ∧ byte ≤ 125) ∧
    ∀ byte ∈ input.pass, 32 ≤ byte ∧ byte ≤ 125

instance (input : FrameInput) : Decidable input.Typed :=
  @instDecidableAnd _ _ (List.decidableBAll _ input.username) (List.decidableBAll _ input.pass)

namespace NetworkClient

theorem receive_eq_some {net next : NetworkClient} {bytes : Bytes}
    (h : net.receive bytes = some next) :
    next = { net with incoming := net.incoming ++ bytes } := by
  unfold receive at h
  split at h
  · exact (Option.some.inj h).symm
  · cases h

theorem takeLine_eq_some {lib : JsonLib} {net next : NetworkClient}
    (h : net.takeLine lib = some next) :
    ∃ line rest, Lines.cut newline net.incoming = some (line, rest) ∧ next = { net with
      incoming := rest, recvQueue := Protocol.deliver lib net.recvQueue line } := by
  unfold takeLine at h
  split at h
  · obtain ⟨⟨line, rest⟩, hcut, rfl⟩ := Option.map_eq_some_iff.mp h
    exact ⟨line, rest, hcut, rfl⟩
  · cases h

theorem failRead_eq_some {net next : NetworkClient} (h : net.failRead = some next) :
    next = { net with running := false } := by
  unfold failRead at h
  split at h
  · exact (Option.some.inj h).symm
  · cases h

end NetworkClient

namespace Application

inductive Event where
  | receive (bytes : Bytes)
  | takeLine
  /-- The connection ends for the receiving thread. -/
  | failRead
  /-- A round of the loop in `Run`. -/
  | frame (input : FrameInput)

/-- A part of the receive loop, where it can happen. -/
def advance (app : Application) (part : NetworkClient → Option NetworkClient) :
    Option Application :=
  (part app.ctx.net).map fun net ↦ { app with ctx := { app.ctx with net := net } }

theorem advance_eq_some {app next : Application} {part : NetworkClient → Option NetworkClient}
    (h : app.advance part = some next) :
    ∃ net, part app.ctx.net = some net ∧
      next = { app with ctx := { app.ctx with net := net } } := by
  obtain ⟨net, hnet, rfl⟩ := Option.map_eq_some_iff.mp h
  exact ⟨net, hnet, rfl⟩

/-- Nothing in `Run` or `main` catches what a frame throws. -/
def conclude (result : Application × Outcome Unit) : Application :=
  match result.2 with
  | .returned () => result.1
  | _ => { result.1 with alive := false }

/-- The end of a frame changes nothing but whether the process lives. -/
theorem conclude_eq (result : Application × Outcome Unit) :
    ∃ alive, conclude result = { result.1 with alive := alive } := by
  unfold conclude
  split
  · exact ⟨result.1.alive, rfl⟩
  · exact ⟨false, rfl⟩

/-- One step of the process. -/
def step (lib : JsonLib) (app : Application) (event : Event) : Option Application :=
  if app.alive = true then
    match event with
    | .receive bytes => app.advance (NetworkClient.receive bytes)
    | .takeLine => app.advance (NetworkClient.takeLine lib)
    | .failRead => app.advance NetworkClient.failRead
    | .frame input => if input.Typed then some (conclude (app.update lib input)) else none
  else none

/-- A step of the receive loop concerns the connection only, and a frame is one `Update`. -/
theorem step_spec {lib : JsonLib} {app next : Application} {event : Event}
    (h : app.step lib event = some next) :
    app.alive = true ∧
      ((∃ net, next = { app with ctx := { app.ctx with net := net } } ∧
          ∀ input, event ≠ .frame input) ∨
        ∃ input, event = .frame input ∧ input.Typed ∧ next = conclude (app.update lib input)) := by
  have hadvance : ∀ {part : NetworkClient → Option NetworkClient}, app.advance part = some next →
      ∃ net, next = { app with ctx := { app.ctx with net := net } } := by
    intro part hpart
    obtain ⟨net, _, hnet⟩ := Option.map_eq_some_iff.mp hpart
    exact ⟨net, hnet.symm⟩
  unfold step at h
  split at h
  swap
  · cases h
  next halive =>
  refine ⟨halive, ?_⟩
  cases event with
  | receive bytes => exact Or.inl ((hadvance h).imp fun _ hnet ↦ ⟨hnet, nofun⟩)
  | takeLine => exact Or.inl ((hadvance h).imp fun _ hnet ↦ ⟨hnet, nofun⟩)
  | failRead => exact Or.inl ((hadvance h).imp fun _ hnet ↦ ⟨hnet, nofun⟩)
  | frame input =>
    simp only at h
    split at h
    · next htyped => exact Or.inr ⟨input, rfl, htyped, (Option.some.inj h).symm⟩
    · cases h

/-! ## Staying alive -/

theorem update_alive (lib : JsonLib) (app : Application) (input : FrameInput)
    (h : (app.update lib input).2 = .returned ()) :
    (app.update lib input).1.alive = app.alive := by
  rcases app.update_spec lib input with
    ⟨_, polled, hpolled, _, hupdate⟩ | ⟨_, next, exception, hthrew, _⟩
  · rw [hupdate, (polled.enterGame.updateScenes_spec lib input).1, enterGame_alive, hpolled.alive]
  · rw [hthrew] at h
    cases h

/-- The process lives on exactly when the frame returns. -/
theorem conclude_alive {lib : JsonLib} {app : Application} (halive : app.alive = true)
    (input : FrameInput) :
    (conclude (app.update lib input)).alive = true ↔ (app.update lib input).2 = .returned () := by
  unfold conclude
  split
  · next hreturned =>
    exact iff_of_true ((update_alive lib app input hreturned).trans halive) hreturned
  · next hfailed =>
    apply iff_of_false (by simp)
    intro hreturned
    exact hfailed hreturned

/-- A frame whose messages are legible, and in which no request has to be written to a socket that
was never connected or whose write fails. -/
def Undisturbed (app : Application) : Event → Prop
  | .frame input => app.Understood ∧
      ∀ scene, app.sceneAfter = some scene → scene.id = .login → input.Sends →
        app.ctx.net.connected = true ∧ input.failure = none
  | _ => True

/-- What is typed can be serialized, so that only the connection can refuse a request. -/
theorem clickTaken_of_typed {app : Application} {input : FrameInput} (htyped : input.Typed) :
    app.ClickTaken input ↔
      ∀ scene, app.sceneAfter = some scene → scene.id = .login → input.Sends →
        app.ctx.net.connected = true ∧ input.failure = none := by
  have hvalid : ∀ {typed : Bytes}, (∀ byte ∈ typed, 32 ≤ byte ∧ byte ≤ 125) → Utf8.Valid typed :=
    fun h ↦ Utf8.valid_of_ascii fun byte hbyte ↦ lt_of_le_of_lt (h byte hbyte).2 (by decide)
  constructor
  · intro h scene hscene hid hsends
    obtain ⟨hconnected, hfailure, _⟩ := h scene hscene hid hsends
    exact ⟨hconnected, hfailure⟩
  · intro h scene hscene hid hsends
    obtain ⟨hconnected, hfailure⟩ := h scene hscene hid hsends
    exact ⟨hconnected, hfailure, hvalid htyped.1, hvalid htyped.2⟩

/-- A step keeps the process alive exactly when it is undisturbed. -/
theorem step_alive {lib : JsonLib} {app next : Application} {event : Event}
    (h : app.step lib event = some next) : next.alive = true ↔ app.Undisturbed event := by
  obtain ⟨halive, ⟨net, rfl, hevent⟩ | ⟨input, rfl, htyped, rfl⟩⟩ := step_spec h
  · cases event with
    | frame input => exact absurd rfl (hevent input)
    | receive | takeLine | failRead => exact iff_of_true halive trivial
  · rw [conclude_alive halive, update_returned_iff, clickTaken_of_typed htyped]
    rfl

/-- Whether or not the first connect succeeded, and whenever the connection is lost, every frame of
a run returns exactly when no frame meets an illegible message or has to write a request to a
connection that does not take it. -/
theorem alive_iff_undisturbed (lib : JsonLib) (connected : Bool) {final : Application}
    {events : List Event}
    (hrun : Transition.run (step lib) (start connected) events = some final) :
    Transition.Always (step lib) Undisturbed (start connected) events ↔
      ∀ visited, Transition.Visited (step lib) (start connected) events visited →
        visited.alive = true :=
  Transition.always_iff_visited (fun h ↦ h) (fun _ hsafe hstep ↦ (step_alive hstep).mpr hsafe)
    (fun _ hstep halive ↦ (step_alive hstep).mp halive) rfl hrun

/-- Only a process that lives takes steps. -/
theorem alive_of_run {lib : JsonLib} {app final : Application} {events : List Event}
    (hrun : Transition.run (step lib) app events = some final) (halive : final.alive = true) :
    app.alive = true := by
  cases events with
  | nil =>
    cases hrun
    exact halive
  | cons event rest =>
    obtain ⟨next, hnext, _⟩ := Transition.run_cons_eq_some.mp hrun
    exact (step_spec hnext).1

/-- A login, its result, an update, and the end of the connection. -/
theorem alive_iff_undisturbed_played :
    let packet (message : Protocol.Message) : Bytes :=
      (message.serialize JsonLib.reference).toOption.getD []
    let events : List Event :=
      [.receive (packet (Protocol.assignClientId 1)), .takeLine, .frame { username := text "a" },
        .frame { username := text "a", pass := text "b" },
        .frame { username := text "a", pass := text "b", clicked := true },
        .receive (packet (Protocol.loginResult (text "u"))), .takeLine, .frame {},
        .receive (packet (Protocol.resourceUpdate 1 (text "u") 10 20 30)), .takeLine, .failRead,
        .frame {}, .frame {}]
    ∃ final, Transition.run (step JsonLib.reference) (start true) events = some final ∧
      final.ctx.uuid = text "u" ∧ final.ctx.resources = ⟨10, 20, 30⟩ ∧
      Transition.Always (step JsonLib.reference) Undisturbed (start true) events ∧
      ∀ visited, Transition.Visited (step JsonLib.reference) (start true) events visited →
        visited.alive = true := by
  intro packet events
  have hend : (Transition.run (step JsonLib.reference) (start true) events).map
      (fun final ↦ (final.alive, final.ctx.uuid, final.ctx.resources)) =
      some (true, text "u", ⟨10, 20, 30⟩) := by decide +kernel
  obtain ⟨final, hrun, hfinal⟩ := Option.map_eq_some_iff.mp hend
  obtain ⟨halive, hfinal⟩ := Prod.mk.inj hfinal
  obtain ⟨huuid, hshown⟩ := Prod.mk.inj hfinal
  have hvisited : ∀ visited, Transition.Visited (step JsonLib.reference) (start true) events
      visited → visited.alive = true := by
    rintro visited ⟨before, after, hevents, hbefore⟩
    rw [hevents] at hrun
    obtain ⟨middle, hmiddle, hafter⟩ := Transition.run_append_eq_some.mp hrun
    cases hbefore.symm.trans hmiddle
    exact alive_of_run hafter halive
  exact ⟨final, hrun, huuid, hshown,
    (alive_iff_undisturbed JsonLib.reference true hrun).mpr hvisited, hvisited⟩

/-- Without a server, a click on Login with two texts ends the client. -/
theorem not_alive_after_click :
    ∃ final, Transition.run (step JsonLib.reference) (start false)
      [.frame { username := text "ana" }, .frame { username := text "ana", pass := text "pw" },
        .frame { username := text "ana", pass := text "pw", clicked := true }] = some final ∧
      final.alive = false :=
  ⟨_, rfl, by decide +kernel⟩

end Application

end NetPixeld
