import NetPixeld.Client.Application
import NetPixeld.Client.Button
import NetPixeld.Client.TextBox

/-!
# The login form

Two text boxes and a button. The boxes are updated one after the other against one queue of
characters, their texts are copied, and then the button is updated, whose click callback sends them.
After `onEnter` both boxes have the same font.
-/

namespace NetPixeld

structure LoginScene where
  username : Bytes := []
  pass : Bytes := []
  font : Option ℕ := none
  usernameTextbox : TextBox
  passTextbox : TextBox
  loginButton : Button
  /-- What the pointers of the scene and of its boxes refer to. -/
  fonts : Fonts

namespace LoginScene

/-- The constructor. Numbers that no font was made for are not read. -/
def create (screenWidth screenHeight : ℤ) : LoginScene :=
  let usernameTextbox := TextBox.create screenWidth screenHeight ⟨fun _ ↦ ⟨0, 0⟩, 0⟩
  let passTextbox := TextBox.create screenWidth screenHeight usernameTextbox.2
  { usernameTextbox := usernameTextbox.1
    passTextbox := passTextbox.1
    loginButton := { bounds := ⟨screenWidth / 2 - 100, screenHeight / 2 + 125, 200, 50⟩ }
    fonts := passTextbox.2 }

def onEnter (screenWidth screenHeight : ℤ) (scene : LoginScene) : LoginScene :=
  let font := scene.fonts.makeShared .load
  let usernameTextbox := scene.usernameTextbox.setCenter ⟨screenWidth / 2, screenHeight / 2 - 50⟩
  let usernameTextbox := usernameTextbox.setDimensions ⟨200, 40⟩
  let usernameTextbox := usernameTextbox.setFocusAnimation true
  let passTextbox := scene.passTextbox.setCenter ⟨screenWidth / 2, screenHeight / 2 + 50⟩
  let passTextbox := passTextbox.setDimensions ⟨200, 40⟩
  let passTextbox := passTextbox.setFocusAnimation true
  { scene with
    font := some font.1
    usernameTextbox := usernameTextbox.setFont font.1
    passTextbox := passTextbox.setFont font.1
    loginButton := scene.loginButton.setCallbacks true true true
    fonts := font.2 }

/-- The beginning of `Update`, which follows the size of the window. -/
def reposition (input : FormInput) (scene : LoginScene) : LoginScene :=
  let passTextbox :=
    scene.passTextbox.setCenter ⟨input.screenWidth / 2, input.screenHeight / 2 + 50⟩
  let usernameTextbox :=
    scene.usernameTextbox.setCenter ⟨input.screenWidth / 2, input.screenHeight / 2 - 50⟩
  { scene with
    passTextbox := passTextbox.setDimensions ⟨200, 40⟩
    usernameTextbox := usernameTextbox.setDimensions ⟨200, 40⟩ }

/-- `Update` without the calls of the button. -/
def updateForm (measureText : MeasureText) (input : FormInput) (scene : LoginScene) : LoginScene :=
  let scene := scene.reposition input
  let usernameTextbox := scene.usernameTextbox.update measureText input.mouse input.backspace
    input.usernameBlinks scene.fonts input.chars
  let passTextbox := scene.passTextbox.update measureText input.mouse input.backspace
    input.passBlinks usernameTextbox.2.1 usernameTextbox.2.2
  { scene with
    username := usernameTextbox.1.getText
    pass := passTextbox.1.getText
    usernameTextbox := usernameTextbox.1
    passTextbox := passTextbox.1
    loginButton := (scene.loginButton.update input.mouse).1
    fonts := passTextbox.2.1 }

/-- The button calls its click callback in this frame. -/
def clicks (input : FormInput) (scene : LoginScene) : Bool :=
  decide (.onClick ∈ (scene.loginButton.update input.mouse).2)

/-- `Update`; the other callbacks only write to the log. -/
def update (lib : JsonLib) (measureText : MeasureText) (ctx : GameContext) (input : FormInput)
    (scene : LoginScene) : LoginScene × GameContext × Outcome Unit :=
  let updated := scene.updateForm measureText input
  if scene.clicks input = true then
    (updated, onClick lib ctx updated.username updated.pass input.failure)
  else (updated, ctx, .returned ())

/-- `Draw`, as far as the boxes go: the user name box and the password box. -/
def draw (measureText : MeasureText) (scene : LoginScene) : TextBox.Drawn × TextBox.Drawn :=
  (scene.usernameTextbox.draw measureText scene.fonts,
    scene.passTextbox.draw measureText scene.fonts)

/-- The scene in which the form begins. -/
def start (screenWidth screenHeight : ℤ) : LoginScene :=
  (create screenWidth screenHeight).onEnter screenWidth screenHeight

/-- The scene after some frames. -/
def after (measureText : MeasureText) (scene : LoginScene) (frames : List FormInput) : LoginScene :=
  frames.foldl (fun scene input ↦ scene.updateForm measureText input) scene

theorem after_concat {measureText : MeasureText} (scene : LoginScene) (frames : List FormInput)
    (input : FormInput) :
    scene.after measureText (frames ++ [input]) =
      (scene.after measureText frames).updateForm measureText input := by
  rw [LoginScene.after, List.foldl_append]
  rfl

/-! ## The scene of the application -/

/-- What the application sees of the form in a frame. -/
def frameInput (measureText : MeasureText) (input : FormInput) (scene : LoginScene) : FrameInput :=
  let updated := scene.updateForm measureText input
  ⟨updated.username, updated.pass, scene.clicks input, input.failure⟩

/-- An update of the form is one of the scene of the application. -/
theorem update_refines (lib : JsonLib) (measureText : MeasureText) (ctx : GameContext)
    (input : FormInput) (scene : LoginScene) :
    Scene.update lib ctx (scene.frameInput measureText input) (.login scene.username scene.pass) =
      let updated := scene.update lib measureText ctx input
      (.login updated.1.username updated.1.pass, updated.2) := by
  unfold Scene.update update frameInput
  split_ifs <;> rfl

end LoginScene

end NetPixeld
