import NetPixeld.Client.Focus

/-!
# The sizes in which the boxes are drawn

Every box selects a size for its text, but stores it in the font that `onEnter` gave to both. The
password box is updated last, and both boxes are drawn after that, so both are drawn in its size.
-/

namespace NetPixeld.LoginScene

/-- Any texts in the boxes. -/
def withTexts (username pass : Bytes) (scene : LoginScene) : LoginScene :=
  { scene with
    usernameTextbox := { scene.usernameTextbox with inputText := username }
    passTextbox := { scene.passTextbox with inputText := pass } }

/-- After an update each box is drawn in the largest size in which its text fits into the box as it
was before it grew. -/
structure DrawnFitted (measureText : MeasureText) (input : FormInput) (scene : LoginScene) :
    Prop where
  username : Descent.Largest
    (TextBox.Fits measureText (scene.updateForm measureText input).usernameTextbox.inputText
      (scene.reposition input).usernameTextbox.getTransformedBounds.width) 8 20
    ((scene.updateForm measureText input).draw measureText).1.fontSize
  pass : Descent.Largest
    (TextBox.Fits measureText (scene.updateForm measureText input).passTextbox.inputText
      (scene.reposition input).passTextbox.getTransformedBounds.width) 8 20
    ((scene.updateForm measureText input).draw measureText).2.fontSize

/-- Going down from 20, the two texts that the frame leaves in the boxes first fit in one size. -/
def FitTogether (measureText : MeasureText) (input : FormInput) (scene : LoginScene) : Prop :=
  let placed := scene.reposition input
  Descent.FirstTogether
    (TextBox.Fits measureText
      (placed.usernameTextbox.textAfter input.mouse input.backspace input.chars)
      placed.usernameTextbox.getTransformedBounds.width)
    (TextBox.Fits measureText
      (placed.passTextbox.textAfter input.mouse input.backspace input.chars)
      placed.passTextbox.getTransformedBounds.width) 8 20

/-- The boxes share a font. -/
def Shared (scene : LoginScene) : Prop := scene.usernameTextbox.font = scene.passTextbox.font

variable {measureText : MeasureText} {input : FormInput} {scene : LoginScene}

/-! ## One frame -/

theorem Shared.updateForm (h : scene.Shared) : (scene.updateForm measureText input).Shared := by
  have husername : (scene.updateForm measureText input).usernameTextbox.font =
      scene.usernameTextbox.font := TextBox.update_font ..
  have hpass : (scene.updateForm measureText input).passTextbox.font = scene.passTextbox.font :=
    TextBox.update_font ..
  rw [Shared, husername, hpass]
  exact h

/-- After a frame the font of the password box is fitted to its text. -/
theorem updateForm_font :
    (scene.updateForm measureText input).fonts.objects
        (scene.updateForm measureText input).passTextbox.font =
      ⟨kDefaultFontSpacing, TextBox.fitted measureText
        (scene.updateForm measureText input).passTextbox.inputText
        (scene.reposition input).passTextbox.getTransformedBounds.width⟩ := by
  unfold LoginScene.updateForm
  dsimp only
  rw [TextBox.update_fonts, TextBox.update_font, TextBox.update_inputText, Fonts.put_objects_self]

theorem draw_pass_fontSize :
    ((scene.updateForm measureText input).draw measureText).2.fontSize =
      TextBox.fitted measureText (scene.updateForm measureText input).passTextbox.inputText
        (scene.reposition input).passTextbox.getTransformedBounds.width :=
  congrArg CFont.fontSize updateForm_font

/-- What the user name box has set in the font is overwritten. -/
theorem Shared.draw_fontSize (h : scene.Shared) :
    ((scene.updateForm measureText input).draw measureText).1.fontSize =
      ((scene.updateForm measureText input).draw measureText).2.fontSize := by
  unfold draw TextBox.draw
  dsimp only
  rw [h.updateForm]

/-- Both boxes are drawn in the size that fits the password. -/
theorem Formed.drawnFitted_iff (h : scene.Formed) (hshared : scene.Shared) :
    DrawnFitted measureText input scene ↔ FitTogether measureText input scene := by
  have husername := TextBox.largest_fitted measureText
    (scene.updateForm measureText input).usernameTextbox.inputText
    (scene.reposition input).usernameTextbox.getTransformedBounds.width
  have hpass := TextBox.largest_fitted measureText
    (scene.updateForm measureText input).passTextbox.inputText
    (scene.reposition input).passTextbox.getTransformedBounds.width
  rw [FitTogether, ← @updateForm_username_inputText measureText,
    ← @Formed.updateForm_pass_inputText measureText _ _ h, ← husername.eq_iff hpass]
  constructor
  · intro hdrawn
    rw [husername.unique hdrawn.username, hshared.draw_fontSize, draw_pass_fontSize]
  · intro heq
    refine ⟨?_, ?_⟩
    · rw [hshared.draw_fontSize, draw_pass_fontSize, ← heq]
      exact husername
    · rw [draw_pass_fontSize]
      exact hpass

/-! ## Every frame -/

theorem Shared.after (h : scene.Shared) (frames : List FormInput) :
    (scene.after measureText frames).Shared := by
  induction frames generalizing scene with
  | nil => exact h
  | cons input frames ih => exact ih h.updateForm

theorem Formed.withTexts (h : scene.Formed) (username pass : Bytes) :
    (scene.withTexts username pass).Formed :=
  ⟨⟨h.usernameScale.low, h.usernameScale.high⟩, ⟨h.passScale.low, h.passScale.high⟩, h.exclusive⟩

/-- With any texts in the boxes, and in every frame, each box is drawn in the size that fits its own
text exactly when the two texts first fit in one size. -/
theorem drawnFitted_iff_fitTogether (measureText : MeasureText) (screenWidth screenHeight : ℤ)
    (username pass : Bytes) (frames : List FormInput) (input : FormInput) :
    DrawnFitted measureText input
        (((start screenWidth screenHeight).withTexts username pass).after measureText frames) ↔
      FitTogether measureText input
        (((start screenWidth screenHeight).withTexts username pass).after measureText frames) := by
  have hformed := (formed_start screenWidth screenHeight).withTexts username pass
  have hshared : ((start screenWidth screenHeight).withTexts username pass).Shared := rfl
  exact (hformed.after frames).drawnFitted_iff (hshared.after frames)

/-- Where all characters are as wide as the size says, a long user name is drawn as if it fitted in
size 20. -/
theorem not_drawnFitted_longName :
    ¬DrawnFitted (fun shown size _ ↦ ⟨size * shown.length, size⟩)
      { screenWidth := 800, screenHeight := 450, mouse := { position := ⟨0, 0⟩ } }
      ((start 800 450).withTexts (text "abcdefghijklmnopqrstu") []) := by
  intro h
  exact absurd h.username.floor_or_admits (by decide +kernel)

end NetPixeld.LoginScene
