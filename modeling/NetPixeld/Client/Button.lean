import NetPixeld.Client.Raylib
import NetPixeld.Foundation.Levels

/-!
# Buttons

`Update` calls the callbacks of a button and keeps one bit, `wasPressed`, from a press on. A
callback is a flag here: it is set or not. What a call does is up to the owner of the button.
-/

namespace NetPixeld

inductive ButtonState where
  | normal
  | hovered
  | pressed
deriving DecidableEq

/-- What `Update` calls. -/
inductive ButtonCall where
  | playSound
  | onClick
  | onHover
  | onRelease
deriving DecidableEq

structure Button where
  bounds : Rectangle
  /-- `clickSound` and the callbacks are set. -/
  clickSound : Bool := false
  onClickCallback : Bool := false
  onHoverCallback : Bool := false
  onReleaseCallback : Bool := false
  state : ButtonState := .normal
  wasPressed : Bool := false
deriving DecidableEq

namespace Button

def setCallbacks (onClick onHover onRelease : Bool) (button : Button) : Button :=
  { button with
    onClickCallback := onClick
    onHoverCallback := onHover
    onReleaseCallback := onRelease }

/-- `Update`, with the calls in their order. -/
def update (mouse : Mouse) (button : Button) : Button × List ButtonCall :=
  if checkCollisionPointRec mouse.position button.bounds = true then
    if mouse.pressed = true then
      ({ button with state := .pressed, wasPressed := true },
        (if button.clickSound = true then [.playSound] else []) ++
          if button.onClickCallback = true then [.onClick] else [])
    else if mouse.down = true then ({ button with state := .pressed }, [])
    else
      let hovers : List ButtonCall := if button.onHoverCallback = true then [.onHover] else []
      if button.wasPressed = true ∧ mouse.released = true then
        ({ button with state := .hovered, wasPressed := false },
          hovers ++ if button.onReleaseCallback = true then [.onRelease] else [])
      else ({ button with state := .hovered }, hovers)
  else ({ button with state := .normal, wasPressed := false }, [])

/-- `Update` changes the state and the memory only. -/
theorem update_fst (mouse : Mouse) (button : Button) :
    ∃ state wasPressed,
      (button.update mouse).1 = { button with state := state, wasPressed := wasPressed } := by
  unfold update
  split_ifs <;> exact ⟨_, _, rfl⟩

/-! ## What a frame calls -/

theorem count_onClick (mouse : Mouse) (button : Button) :
    (button.update mouse).2.count .onClick =
      if button.onClickCallback = true ∧ mouse.pressed = true ∧
        checkCollisionPointRec mouse.position button.bounds = true then 1 else 0 := by
  unfold update
  split_ifs <;> simp_all

theorem onRelease_mem (mouse : Mouse) (button : Button) :
    .onRelease ∈ (button.update mouse).2 ↔
      button.onReleaseCallback = true ∧ checkCollisionPointRec mouse.position button.bounds = true ∧
        mouse.pressed = false ∧ mouse.down = false ∧ button.wasPressed = true ∧
        mouse.released = true := by
  unfold update
  split_ifs <;> simp_all

theorem update_nodup (mouse : Mouse) (button : Button) : (button.update mouse).2.Nodup := by
  unfold update
  split_ifs <;> simp

theorem update_wasPressed (mouse : Mouse) (button : Button) :
    (button.update mouse).1.wasPressed = true ↔
      checkCollisionPointRec mouse.position button.bounds = true ∧
        (mouse.pressed = true ∨ button.wasPressed = true ∧
          (mouse.down = true ∨ mouse.released = false)) := by
  unfold update
  split_ifs <;> simp_all

end Button

end NetPixeld
