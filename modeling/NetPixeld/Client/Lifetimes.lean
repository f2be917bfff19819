import NetPixeld.Client.Process

/-!
# The lifetimes of the scenes

`Update` changes to the game scene in every frame in which a uuid is known, and `changeScene`
replaces the current scene object without looking at its id. The first such frame enters the game;
every later one destroys the game scene and constructs another.
-/

namespace NetPixeld

namespace SceneManager

variable {ι σ : Type}

/-- What replacing a scene object by one of a registered id logs. -/
theorem changeScene_lifetimes {manager : SceneManager ι σ} {object : SceneObject σ} {id : ι}
    {scene : σ} (hcurrent : manager.current = some object)
    (hfactory : manager.factories id = some scene) :
    (manager.changeScene id).lifetimes = manager.lifetimes ++
        [.exited object.serial, .destroyed object.serial, .constructed manager.constructed id,
          .entered manager.constructed] ∧
      (manager.changeScene id).current = some ⟨manager.constructed, scene⟩ := by
  unfold changeScene leave
  simp only [hcurrent, hfactory]
  refine ⟨?_, trivial⟩
  rw [List.append_assoc]
  rfl

end SceneManager

namespace Application

/-- The login scene is constructed and entered at the start. -/
def loginOnly : List (Lifetime SceneID) := [.constructed 0 .login, .entered 0]

/-- The login scene is replaced by the game scene, once. -/
def loginThenGame : List (Lifetime SceneID) :=
  loginOnly ++ [.exited 0, .destroyed 0, .constructed 1 .game, .entered 1]

/-- The first scene object is shown as long as no uuid is known, and the second one from then on. -/
def SceneOnce (app : Application) : Prop :=
  app.scenes.lifetimes = loginOnly ∧ (app.alive = true → app.ctx.uuid = []) ∧
      app.scenes.current.map SceneObject.serial = some 0 ∨
    app.scenes.lifetimes = loginThenGame ∧ (app.alive = true → app.ctx.uuid ≠ []) ∧
      app.scenes.current.map SceneObject.serial = some 1

/-- No frame that gets past its poll loop begins with a known uuid. -/
def EntersOnce (app : Application) : Event → Prop
  | .frame _ => app.ctx.uuid = [] ∨ ¬app.Understood
  | _ => True

/-- The scenes of a living client that met the condition so far. -/
structure Staged (app : Application) : Prop where
  once : app.SceneOnce
  alive : app.alive = true → app.Ready ∧
    (app.ctx.uuid = [] → app.scenes.constructed = 1)

/-! ## Steps -/

@[simp]
theorem conclude_scenes (result : Application × Outcome Unit) :
    (conclude result).scenes = result.1.scenes := by
  unfold conclude
  split <;> rfl

@[simp]
theorem conclude_ctx (result : Application × Outcome Unit) :
    (conclude result).ctx = result.1.ctx := by
  unfold conclude
  split <;> rfl

/-- Updating the current scene object logs nothing. -/
theorem updateScenes_lifetimes (lib : JsonLib) (app : Application) (input : FrameInput) :
    (app.updateScenes lib input).1.scenes.lifetimes = app.scenes.lifetimes ∧
      (app.updateScenes lib input).1.scenes.constructed = app.scenes.constructed ∧
      (app.updateScenes lib input).1.scenes.current.map SceneObject.serial =
        app.scenes.current.map SceneObject.serial := by
  unfold updateScenes
  split
  · exact ⟨rfl, rfl, rfl⟩
  · exact ⟨rfl, rfl, by simp [SceneManager.updateCurrent, Function.comp_def]⟩

/-- With the game scene shown no message changes the uuid. -/
theorem uuidAfter_of_game {app : Application} (h : app.scenes.scene = some .game) :
    app.uuidAfter = app.ctx.uuid := by
  have hlearn : ∀ messages : List Protocol.Message,
      messages.foldl (learn (some .game)) app.ctx.uuid = app.ctx.uuid := by
    intro messages
    induction messages with
    | nil => rfl
    | cons msg messages ih =>
      have hmsg : learn (some .game) app.ctx.uuid msg = app.ctx.uuid := by
        unfold learn
        split <;> rfl
      rw [List.foldl_cons, hmsg, ih]
  rw [uuidAfter, h, hlearn]

theorem Ready.scene_eq_game {app : Application} (h : app.Ready) (huuid : app.ctx.uuid ≠ []) :
    app.scenes.scene = some .game := by
  obtain ⟨scene, hscene, hid⟩ := h.shown
  rw [GameContext.shown, if_neg huuid] at hid
  cases scene with
  | login => cases hid
  | game => exact hscene

/-- The step that may enter the game. -/
theorem Staged.enterGame {app polled : Application} (h : app.Staged) (halive : app.alive = true)
    (huuid : app.ctx.uuid = []) (hpolled : Polled app polled app.ctx.net.recvQueue) :
    polled.enterGame.Staged := by
  obtain ⟨hready, hconstructed⟩ := h.alive halive
  obtain ⟨hlifetimes, _, hserial⟩ | ⟨_, hknown, _⟩ := h.once
  swap
  · exact absurd huuid (hknown halive)
  have hlogin : polled.ctx.uuid = [] →
      ∃ scene, polled.scenes.scene = some scene ∧ scene.id = .login := by
    intro _
    obtain ⟨scene, hscene, hid⟩ := hready.shown
    exact ⟨scene, by rw [hpolled.scenes, hscene], hid.trans (if_pos huuid)⟩
  have hgame : polled.scenes.factories .game = some .game := by rw [hpolled.scenes, hready.game]
  have hentered := (enterGame_ready hgame hlogin).2
  by_cases hempty : polled.ctx.uuid = []
  · have hsame : polled.enterGame = polled := if_neg (not_not.mpr hempty)
    rw [hsame] at hentered ⊢
    refine ⟨Or.inl ⟨?_, fun _ ↦ hempty, ?_⟩, fun _ ↦ ⟨hentered, fun _ ↦ ?_⟩⟩
    · rw [hpolled.scenes, hlifetimes]
    · rw [hpolled.scenes, hserial]
    · rw [hpolled.scenes, hconstructed huuid]
  · have hchanged : polled.enterGame = { polled with scenes := polled.scenes.changeScene .game } :=
      if_pos hempty
    obtain ⟨object, hcurrent, hobject⟩ := Option.map_eq_some_iff.mp hserial
    obtain ⟨hlog, hobject'⟩ := SceneManager.changeScene_lifetimes
      (show polled.scenes.current = some object by rw [hpolled.scenes, hcurrent]) hgame
    rw [hobject, hpolled.scenes, hlifetimes, hconstructed huuid] at hlog
    rw [hpolled.scenes, hconstructed huuid] at hobject'
    rw [hchanged] at hentered ⊢
    refine ⟨Or.inr ⟨?_, fun _ ↦ hempty, ?_⟩, fun _ ↦ ⟨hentered, fun h ↦ absurd h hempty⟩⟩
    · rw [hpolled.scenes]
      exact hlog
    · rw [hpolled.scenes, hobject']
      rfl

/-- A step that meets the condition keeps the stage. -/
theorem step_staged {lib : JsonLib} {app next : Application} {event : Event} (h : app.Staged)
    (henters : app.EntersOnce event) (hstep : app.step lib event = some next) : next.Staged := by
  obtain ⟨halive, ⟨net, rfl, _⟩ | ⟨input, rfl, _, rfl⟩⟩ := step_spec hstep
  · obtain ⟨hready, hconstructed⟩ := h.alive halive
    exact ⟨h.once, fun _ ↦ ⟨⟨hready.shown, hready.game⟩, hconstructed⟩⟩
  rcases app.update_spec lib input with
    ⟨hunderstood, polled, hpolled, _, hupdate⟩ | ⟨_, next, exception, hthrew, hscenes⟩
  · have huuid := henters.resolve_right (not_not.mpr hunderstood)
    have hentered := h.enterGame halive huuid hpolled
    have hentered_alive : polled.enterGame.alive = true := by
      rw [enterGame_alive, hpolled.alive, halive]
    obtain ⟨hready, hconstructed⟩ := hentered.alive hentered_alive
    obtain ⟨hctx, hready', _⟩ := updateScenes_ready lib hready input
    obtain ⟨hlifetimes, hcount, hserial⟩ := polled.enterGame.updateScenes_lifetimes lib input
    rw [hupdate]
    constructor
    · unfold SceneOnce
      rw [conclude_scenes, conclude_ctx, hlifetimes, hserial, hctx]
      exact hentered.once.imp
        (And.imp_right (And.imp_left fun hempty _ ↦ hempty hentered_alive))
        (And.imp_right (And.imp_left fun hknown _ ↦ hknown hentered_alive))
    · intro _
      refine ⟨⟨?_, ?_⟩, ?_⟩
      · rw [conclude_scenes, conclude_ctx]
        exact hready'.shown
      · rw [conclude_scenes]
        exact hready'.game
      · rw [conclude_scenes, conclude_ctx, hcount, hctx]
        exact hconstructed
  · have hdead : (conclude (app.update lib input)).alive ≠ true := by
      rw [hthrew]
      exact Bool.false_ne_true
    refine ⟨?_, fun hliving ↦ absurd hliving hdead⟩
    unfold SceneOnce
    rw [conclude_scenes]
    rw [show (app.update lib input).1.scenes = app.scenes by rw [hthrew, hscenes]]
    exact h.once.imp
      (And.imp_right (And.imp_left fun _ hliving ↦ absurd hliving hdead))
      (And.imp_right (And.imp_left fun _ hliving ↦ absurd hliving hdead))

/-- A step that breaks the condition replaces the game scene. -/
theorem entersOnce_of_step {lib : JsonLib} {app next : Application} {event : Event}
    (h : app.Staged) (hstep : app.step lib event = some next) (honce : next.SceneOnce) :
    app.EntersOnce event := by
  obtain ⟨halive, ⟨net, _, hevent⟩ | ⟨input, rfl, _, rfl⟩⟩ := step_spec hstep
  · cases event with
    | frame input => exact absurd rfl (hevent input)
    | receive | takeLine | failRead => trivial
  by_contra hbroken
  obtain ⟨huuid, hunderstood⟩ := not_or.mp hbroken
  obtain ⟨hready, _⟩ := h.alive halive
  obtain ⟨_, hempty, _⟩ | ⟨hlifetimes, _, hserial⟩ := h.once
  · exact huuid (hempty halive)
  rcases app.update_spec lib input with
    ⟨_, polled, hpolled, _, hupdate⟩ | ⟨hnot, _⟩
  swap
  · exact hunderstood hnot
  have hgame := hready.scene_eq_game huuid
  have hpolled_uuid : polled.ctx.uuid ≠ [] := by
    rw [show polled.ctx.uuid = app.uuidAfter from hpolled.uuid, uuidAfter_of_game hgame]
    exact huuid
  have hchanged : polled.enterGame.scenes = app.scenes.changeScene .game := by
    rw [enterGame, if_pos hpolled_uuid, hpolled.scenes]
  obtain ⟨object, hcurrent, _⟩ := Option.map_eq_some_iff.mp hserial
  have hlog := (SceneManager.changeScene_lifetimes hcurrent hready.game).1
  have hfinal : (conclude (app.update lib input)).scenes.lifetimes.length = 10 := by
    rw [conclude_scenes, hupdate, (polled.enterGame.updateScenes_lifetimes lib input).1, hchanged,
      hlog, hlifetimes]
    rfl
  rcases honce with ⟨hone, _⟩ | ⟨htwo, _⟩
  · rw [hone] at hfinal
    cases hfinal
  · rw [htwo] at hfinal
    cases hfinal

/-! ## Runs -/

theorem staged_start (connected : Bool) : (start connected).Staged :=
  ⟨Or.inl ⟨rfl, fun _ ↦ rfl, rfl⟩, fun _ ↦ ⟨ready_start connected, fun _ ↦ rfl⟩⟩

/-- Over a whole run the login scene is followed by one game scene object, which stays, exactly when
no frame that gets past its poll loop begins with a known uuid: the frame after the one that enters
the game replaces the game scene. -/
theorem sceneOnce_iff_entersOnce (lib : JsonLib) (connected : Bool) {final : Application}
    {events : List Event}
    (hrun : Transition.run (step lib) (start connected) events = some final) :
    Transition.Always (step lib) EntersOnce (start connected) events ↔
      ∀ visited, Transition.Visited (step lib) (start connected) events visited →
        visited.SceneOnce :=
  Transition.always_iff_visited (fun h ↦ h.once) step_staged entersOnce_of_step
    (staged_start connected) hrun

/-- The text of a login result. -/
def loginResultText : Bytes :=
  ((Protocol.loginResult (text "u")).serialize JsonLib.reference).toOption.getD []

/-- The frame that polls the login result enters the game. -/
theorem sceneOnce_iff_entersOnce_login :
    (Transition.run (step JsonLib.reference) (start true)
      [.receive loginResultText, .takeLine, .frame {}]).isSome = true ∧
      ∀ visited, Transition.Visited (step JsonLib.reference) (start true)
        [.receive loginResultText, .takeLine, .frame {}] visited → visited.SceneOnce := by
  have hsome : (Transition.run (step JsonLib.reference) (start true)
      [.receive loginResultText, .takeLine, .frame {}]).isSome = true := by
    decide +kernel
  obtain ⟨final, hrun⟩ := Option.isSome_iff_exists.mp hsome
  have hbefore : (Transition.run (step JsonLib.reference) (start true)
      [.receive loginResultText, .takeLine]).map (fun app ↦ app.ctx.uuid) = some [] := by
    decide +kernel
  refine ⟨hsome, ?_⟩
  apply (sceneOnce_iff_entersOnce JsonLib.reference true hrun).mp
  refine ⟨trivial, fun received hreceived ↦ ⟨trivial, fun taken htaken ↦
    ⟨Or.inl ?_, fun _ _ ↦ trivial⟩⟩⟩
  rw [Transition.run_cons, hreceived, Option.bind_some, Transition.run_cons, htaken] at hbefore
  exact Option.some.inj hbefore

/-- One frame later the game scene has been destroyed and constructed again. -/
theorem not_sceneOnce_next_frame :
    ∃ final, Transition.run (step JsonLib.reference) (start true)
        [.receive loginResultText, .takeLine, .frame {}, .frame {}] = some final ∧
      final.scenes.lifetimes = loginThenGame ++
        [.exited 1, .destroyed 1, .constructed 2 .game, .entered 2] ∧
      ¬final.SceneOnce := by
  have hrun : (Transition.run (step JsonLib.reference) (start true)
      [.receive loginResultText, .takeLine, .frame {}, .frame {}]).map
        (fun final ↦ final.scenes.lifetimes) = some (loginThenGame ++
          [.exited 1, .destroyed 1, .constructed 2 .game, .entered 2]) := by
    decide +kernel
  obtain ⟨final, hfinal, hlifetimes⟩ := Option.map_eq_some_iff.mp hrun
  refine ⟨final, hfinal, hlifetimes, ?_⟩
  unfold SceneOnce
  rw [hlifetimes]
  rintro (⟨hone, _⟩ | ⟨htwo, _⟩)
  · exact absurd hone (by decide)
  · exact absurd htwo (by decide)

end Application

end NetPixeld
