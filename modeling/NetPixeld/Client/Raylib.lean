import Mathlib.Data.PNat.Defs
import Mathlib.Algebra.Order.Field.Rat

/-!
# What the client asks of raylib

The window, the mouse and the keyboard as they are in one frame. Coordinates are exact.
-/

namespace NetPixeld

structure Vector2 where
  x : ℚ
  y : ℚ
deriving DecidableEq

structure Rectangle where
  x : ℚ
  y : ℚ
  width : ℚ
  height : ℚ
deriving DecidableEq

/-- The left and the upper edge belong to a rectangle, the right and the lower edge do not. -/
def checkCollisionPointRec (point : Vector2) (rec : Rectangle) : Bool :=
  decide (rec.x ≤ point.x) && decide (point.x < rec.x + rec.width) &&
    decide (rec.y ≤ point.y) && decide (point.y < rec.y + rec.height)

theorem checkCollisionPointRec_iff {point : Vector2} {rec : Rectangle} :
    checkCollisionPointRec point rec = true ↔
      (rec.x ≤ point.x ∧ point.x < rec.x + rec.width) ∧
        rec.y ≤ point.y ∧ point.y < rec.y + rec.height := by
  simp [checkCollisionPointRec, and_assoc]

/-- Where the mouse is, and its left button. -/
structure Mouse where
  position : Vector2
  /-- `IsMouseButtonDown`. -/
  down : Bool := false
  /-- `IsMouseButtonPressed`. -/
  pressed : Bool := false
  /-- `IsMouseButtonReleased`. -/
  released : Bool := false

/-- What a frame of the login form gets from outside. -/
structure FormInput where
  screenWidth : ℤ
  screenHeight : ℤ
  mouse : Mouse
  /-- The codes of the characters typed in the frame, which `GetCharPressed` takes out one by one;
  it gives `0` when there is none left. -/
  chars : List ℕ+ := []
  /-- `IsKeyPressed(KEY_BACKSPACE)`. -/
  backspace : Bool := false
  /-- The blink interval of the cursor in the user name box has passed. -/
  usernameBlinks : Bool := false
  passBlinks : Bool := false
  /-- The number of bytes after which a write of this frame fails. -/
  failure : Option ℕ := none

end NetPixeld
