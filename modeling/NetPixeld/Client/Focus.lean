import NetPixeld.Client.LoginScene

/-!
# The focus in the login form

The areas of the two boxes are apart, in every window and however far the boxes have grown, so a
press makes at most one of them active. The queue of characters is empty after an active box, but
only one box is active, so the active box has got all characters of the frame.
-/

namespace NetPixeld

namespace TextBox

variable {measureText : MeasureText} {mouse : Mouse} {box : TextBox}

/-- The mouse is over the box. -/
def Hit (mouse : Mouse) (box : TextBox) : Prop :=
  checkCollisionPointRec mouse.position box.getTransformedBounds = true

/-- A press gives the focus to the box under the mouse and takes it from all others. -/
theorem stateAfter_eq_active :
    box.stateAfter mouse = .active ↔
      mouse.pressed = true ∧ box.Hit mouse ∨ mouse.pressed = false ∧ box.state = .active := by
  unfold stateAfter updateState Hit
  split_ifs <;> simp_all

/-- A box of this height lies between these lines. -/
theorem Hit.vertical (h : box.Hit mouse) (hscale : box.ScaleInRange)
    (hheight : box.baseSize.y = 40) :
    box.position.y - 21 ≤ mouse.position.y ∧ mouse.position.y < box.position.y + 21 := by
  obtain ⟨_, hlow, hhigh⟩ := checkCollisionPointRec_iff.mp h
  have hlarge := hscale.high
  simp only [getTransformedBounds, hheight] at hlow hhigh
  unfold kScaleHover at hlarge
  constructor
  · linarith
  · linarith

end TextBox

namespace LoginScene

/-- The boxes are not out of scale, and not both active. -/
structure Formed (scene : LoginScene) : Prop where
  usernameScale : scene.usernameTextbox.ScaleInRange
  passScale : scene.passTextbox.ScaleInRange
  exclusive : ¬(scene.usernameTextbox.state = .active ∧ scene.passTextbox.state = .active)

/-- What a frame typed went to the active box. -/
structure Focused (input : FormInput) (before after : LoginScene) : Prop where
  exclusive : ¬(after.usernameTextbox.state = .active ∧ after.passTextbox.state = .active)
  username : after.usernameTextbox.inputText =
    if after.usernameTextbox.state = .active then
      TextBox.entered 125 input.chars input.backspace before.usernameTextbox.inputText
    else before.usernameTextbox.inputText
  pass : after.passTextbox.inputText =
    if after.passTextbox.state = .active then
      TextBox.entered 125 input.chars input.backspace before.passTextbox.inputText
    else before.passTextbox.inputText

variable {measureText : MeasureText} {input : FormInput} {scene : LoginScene}

/-! ## One frame -/

/-- The two boxes are apart. -/
theorem Formed.not_both_hit (h : scene.Formed) :
    ¬((scene.reposition input).usernameTextbox.Hit input.mouse ∧
      (scene.reposition input).passTextbox.Hit input.mouse) := by
  rintro ⟨husername, hpass⟩
  have habove := (husername.vertical ⟨h.usernameScale.low, h.usernameScale.high⟩ rfl).2
  have hbelow := (hpass.vertical ⟨h.passScale.low, h.passScale.high⟩ rfl).1
  simp only [reposition, TextBox.setCenter, TextBox.setDimensions] at habove hbelow
  linarith

/-- At most one box is active after the mouse was read. -/
theorem Formed.not_both_active (h : scene.Formed) :
    ¬((scene.reposition input).usernameTextbox.stateAfter input.mouse = .active ∧
      (scene.reposition input).passTextbox.stateAfter input.mouse = .active) := by
  rw [TextBox.stateAfter_eq_active, TextBox.stateAfter_eq_active]
  rintro ⟨⟨hpressed, husername⟩ | ⟨hpressed, husername⟩, ⟨hpressed', hpass⟩ | ⟨hpressed', hpass⟩⟩
  · exact h.not_both_hit ⟨husername, hpass⟩
  · rw [hpressed] at hpressed'
    cases hpressed'
  · rw [hpressed] at hpressed'
    cases hpressed'
  · exact h.exclusive ⟨husername, hpass⟩

theorem updateForm_username_state :
    (scene.updateForm measureText input).usernameTextbox.state =
      (scene.reposition input).usernameTextbox.stateAfter input.mouse :=
  TextBox.update_state ..

theorem updateForm_pass_state :
    (scene.updateForm measureText input).passTextbox.state =
      (scene.reposition input).passTextbox.stateAfter input.mouse :=
  TextBox.update_state ..

theorem updateForm_username_inputText :
    (scene.updateForm measureText input).usernameTextbox.inputText =
      (scene.reposition input).usernameTextbox.textAfter input.mouse input.backspace input.chars :=
  TextBox.update_inputText ..

/-- An active password box has the whole queue, since the user name box is not active then. -/
theorem Formed.updateForm_pass_inputText (h : scene.Formed) :
    (scene.updateForm measureText input).passTextbox.inputText =
      (scene.reposition input).passTextbox.textAfter input.mouse input.backspace input.chars := by
  have hread : (scene.updateForm measureText input).passTextbox.inputText =
      (scene.reposition input).passTextbox.textAfter input.mouse input.backspace
        (if (scene.reposition input).usernameTextbox.stateAfter input.mouse = .active then []
          else input.chars) := by
    rw [← TextBox.update_queue]
    exact TextBox.update_inputText ..
  rw [hread]
  by_cases hpass : (scene.reposition input).passTextbox.stateAfter input.mouse = .active
  · rw [if_neg fun husername ↦ h.not_both_active ⟨husername, hpass⟩]
  · rw [TextBox.textAfter, TextBox.textAfter, if_neg hpass, if_neg hpass]

theorem Formed.updateForm (h : scene.Formed) : (scene.updateForm measureText input).Formed where
  usernameScale :=
    TextBox.ScaleInRange.update _ _ _ _ _ _ ⟨h.usernameScale.low, h.usernameScale.high⟩
  passScale := TextBox.ScaleInRange.update _ _ _ _ _ _ ⟨h.passScale.low, h.passScale.high⟩
  exclusive := by
    rw [updateForm_username_state, updateForm_pass_state]
    exact h.not_both_active

theorem Formed.focused (h : scene.Formed) :
    Focused input scene (scene.updateForm measureText input) where
  exclusive := h.updateForm.exclusive
  username := by
    rw [updateForm_username_state, updateForm_username_inputText]
    rfl
  pass := by
    rw [updateForm_pass_state, h.updateForm_pass_inputText]
    rfl

/-! ## Every sequence of frames -/

theorem formed_start (screenWidth screenHeight : ℤ) : (start screenWidth screenHeight).Formed := by
  have hhigh : (1 : ℚ) ≤ kScaleHover := by
    unfold kScaleHover
    linarith
  refine ⟨⟨le_refl 1, hhigh⟩, ⟨le_refl 1, hhigh⟩, ?_⟩
  rintro ⟨husername, _⟩
  cases husername

theorem Formed.after (h : scene.Formed) (frames : List FormInput) :
    (scene.after measureText frames).Formed := by
  induction frames generalizing scene with
  | nil => exact h
  | cons input frames ih => exact ih h.updateForm

/-- After every frame at most one of the boxes is active, and every character and every backspace of
the frame was applied to the active box only. -/
theorem focused_after (measureText : MeasureText) (screenWidth screenHeight : ℤ)
    (frames : List FormInput) (input : FormInput) :
    Focused input ((start screenWidth screenHeight).after measureText frames)
      ((start screenWidth screenHeight).after measureText (frames ++ [input])) := by
  have hformed := @Formed.after measureText _ (formed_start screenWidth screenHeight) frames
  rw [after_concat]
  exact hformed.focused

end LoginScene

end NetPixeld
