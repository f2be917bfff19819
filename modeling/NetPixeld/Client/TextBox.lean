import NetPixeld.Client.Raylib
import NetPixeld.Foundation.Bytes
import NetPixeld.Foundation.Descent
import Mathlib.Logic.Function.Basic
import Mathlib.Tactic.Linarith

/-!
# Text boxes

A box follows the mouse, takes characters out of the queue while it is active, fits the size of its
font to its text, and grows while the mouse is over it. The font is behind a shared pointer, so what
one box sets is seen by every box with that font.
-/

namespace NetPixeld

/-! ## Fonts -/

/-- A font as the boxes use it. -/
structure CFont where
  fontSpacing : ℚ
  fontSize : ℕ
deriving DecidableEq

/-- The constructor with a path. -/
def CFont.load : CFont := ⟨1, 20⟩

/-- The font objects, by the numbers that stand for shared pointers. -/
structure Fonts where
  objects : ℕ → CFont
  count : ℕ

namespace Fonts

def makeShared (fonts : Fonts) (font : CFont) : ℕ × Fonts :=
  (fonts.count, ⟨Function.update fonts.objects fonts.count font, fonts.count + 1⟩)

/-- What a pointer refers to becomes this font. -/
def put (fonts : Fonts) (pointer : ℕ) (font : CFont) : Fonts :=
  { fonts with objects := Function.update fonts.objects pointer font }

def setFontSize (fonts : Fonts) (pointer size : ℕ) : Fonts :=
  fonts.put pointer { fonts.objects pointer with fontSize := size }

def setFontSpacing (fonts : Fonts) (pointer : ℕ) (spacing : ℚ) : Fonts :=
  fonts.put pointer { fonts.objects pointer with fontSpacing := spacing }

@[simp]
theorem put_objects_self (fonts : Fonts) (pointer : ℕ) (font : CFont) :
    (fonts.put pointer font).objects pointer = font :=
  Function.update_self ..

@[simp]
theorem put_put (fonts : Fonts) (pointer : ℕ) (first second : CFont) :
    (fonts.put pointer first).put pointer second = fonts.put pointer second := by
  simp [put]

end Fonts

/-- `MeasureText` of a text in a size, with a spacing. -/
abbrev MeasureText := Bytes → ℕ → ℚ → Vector2

/-! ## Boxes -/

def kScaleHover : ℚ := 105 / 100

def kScaleSpeed : ℚ := 15 / 100

def kDefaultFontSize : ℕ := 20

def kDefaultFontSpacing : ℚ := 2

def kDefaultWidth : ℤ := 180

def kDefaultHeight : ℤ := 36

inductive TextBoxState where
  | notActive
  | hovered
  | active
deriving DecidableEq

/-- The part of the texture that is drawn in a state. -/
def TextBoxState.row : TextBoxState → ℚ
  | .notActive => 0
  | .hovered => 1
  | .active => 2

/-- A box with the fallback texture and without a sound. -/
structure TextBox where
  font : ℕ
  inputText : Bytes := []
  outputText : Bytes := text "-"
  /-- The center. -/
  position : Vector2
  baseSize : Vector2 := ⟨kDefaultWidth, kDefaultHeight⟩
  state : TextBoxState := .notActive
  scale : ℚ := 1
  animateFocus : Bool := true
  showingCursor : Bool := true

namespace TextBox

/-- The constructor without arguments, which makes a font of its own. -/
def create (screenWidth screenHeight : ℤ) (fonts : Fonts) : TextBox × Fonts :=
  let made := fonts.makeShared ⟨kDefaultFontSpacing, kDefaultFontSize⟩
  ({ font := made.1, position := ⟨screenWidth / 2, screenHeight / 2⟩ }, made.2)

def setCenter (center : Vector2) (box : TextBox) : TextBox := { box with position := center }

def setDimensions (dimensions : Vector2) (box : TextBox) : TextBox :=
  { box with baseSize := dimensions }

def setFont (font : ℕ) (box : TextBox) : TextBox := { box with font := font }

def setFocusAnimation (enabled : Bool) (box : TextBox) : TextBox :=
  { box with animateFocus := enabled }

def getText (box : TextBox) : Bytes := box.inputText

def getTransformedBounds (box : TextBox) : Rectangle :=
  let size : Vector2 := ⟨box.baseSize.x * box.scale, box.baseSize.y * box.scale⟩
  ⟨box.position.x - size.x / 2, box.position.y - size.y / 2, size.x, size.y⟩

def updateState (mouse : Mouse) (box : TextBox) : TextBox :=
  if checkCollisionPointRec mouse.position box.getTransformedBounds = true then
    if mouse.pressed = true then { box with state := .active }
    else if box.state ≠ .active then { box with state := .hovered }
    else box
  else if mouse.pressed = true then { box with state := .notActive }
  else if box.state = .hovered then { box with state := .notActive }
  else box

/-- The loop of `HandleInput` over the queue, with what it leaves there. -/
def readChars (inputText : Bytes) : List ℕ+ → Bytes × List ℕ+
  | [] => (inputText, [])
  | key :: chars =>
      if 32 ≤ key.val ∧ key.val ≤ 125 then readChars (inputText ++ [UInt8.ofNat key.val]) chars
      else readChars inputText chars

def handleInput (chars : List ℕ+) (backspace : Bool) (box : TextBox) : TextBox × List ℕ+ :=
  let read := readChars box.inputText chars
  let inputText := if backspace = true ∧ read.1 ≠ [] then read.1.dropLast else read.1
  ({ box with inputText := inputText }, read.2)

/-- `UpdateOutputText`; the cursor toggles when the blink interval has passed. -/
def updateOutputText (measureText : MeasureText) (blinks : Bool) (fonts : Fonts) (box : TextBox) :
    TextBox × Fonts :=
  let maxWidth := box.getTransformedBounds.width - 10
  let fonts := fonts.setFontSize box.font kDefaultFontSize
  let fonts := fonts.setFontSpacing box.font kDefaultFontSpacing
  let displayText := box.inputText
  let size := Descent.descend
    (fun size ↦ (measureText displayText size (fonts.objects box.font).fontSpacing).x ≤ maxWidth)
    8 (fonts.objects box.font).fontSize
  let outputText := if box.showingCursor = true then displayText ++ text "|" else displayText
  ({ box with
      outputText := if outputText = [] then text "-" else outputText
      showingCursor := if blinks = true then !box.showingCursor else box.showingCursor },
    fonts.setFontSize box.font size)

def animate (box : TextBox) : TextBox :=
  if box.animateFocus = true then
    let targetScale := if box.state = .hovered ∨ box.state = .active then kScaleHover else 1
    { box with scale := box.scale + (targetScale - box.scale) * kScaleSpeed }
  else box

/-- `Update`, with the fonts and the characters it leaves in the queue. -/
def update (measureText : MeasureText) (mouse : Mouse) (backspace blinks : Bool)
    (fonts : Fonts) (chars : List ℕ+) (box : TextBox) : TextBox × Fonts × List ℕ+ :=
  let box := box.updateState mouse
  let handled := if box.state = .active then box.handleInput chars backspace else (box, chars)
  let shown := handled.1.updateOutputText measureText blinks fonts
  (shown.1.animate, shown.2, handled.2)

/-- What `Draw` puts on the screen: a part of the texture, and a text over it. -/
structure Drawn where
  sourceRec : Rectangle
  bounds : Rectangle
  text : Bytes
  textPos : Vector2
  fontSize : ℕ
  fontSpacing : ℚ

def draw (measureText : MeasureText) (fonts : Fonts) (box : TextBox) : Drawn :=
  let bounds := box.getTransformedBounds
  let font := fonts.objects box.font
  let textSize := measureText box.outputText font.fontSize font.fontSpacing
  { sourceRec := ⟨0, box.state.row * kDefaultHeight, kDefaultWidth, kDefaultHeight⟩
    bounds := bounds
    text := box.outputText
    textPos := ⟨bounds.x + (bounds.width - textSize.x) / 2,
      bounds.y + (bounds.height - textSize.y) / 2⟩
    fontSize := font.fontSize
    fontSpacing := font.fontSpacing }

/-! ## What a frame changes -/

/-- The bytes of the characters from code 32 up to a last one. -/
def printable (last : ℕ) (chars : List ℕ+) : Bytes :=
  (chars.filter fun key ↦ 32 ≤ key.val ∧ key.val ≤ last).map fun key : ℕ+ ↦
    UInt8.ofNat key.val

/-- A text after these characters are appended to it and, with backspace, the last is dropped. -/
def entered (last : ℕ) (chars : List ℕ+) (backspace : Bool) (inputText : Bytes) : Bytes :=
  if backspace = true then (inputText ++ printable last chars).dropLast
  else inputText ++ printable last chars

theorem readChars_eq (inputText : Bytes) (chars : List ℕ+) :
    readChars inputText chars = (inputText ++ printable 125 chars, []) := by
  induction chars generalizing inputText with
  | nil => rw [readChars, printable, List.filter_nil, List.map_nil, List.append_nil]
  | cons key chars ih =>
    unfold readChars
    split
    · next hkey => rw [ih, List.append_assoc, printable, printable,
        List.filter_cons_of_pos (by simpa using hkey), List.map_cons, List.singleton_append]
    · next hkey => rw [ih, printable, printable,
        List.filter_cons_of_neg (by simpa using hkey)]

variable (measureText : MeasureText) (mouse : Mouse) (backspace blinks : Bool) (fonts : Fonts)
  (chars : List ℕ+) (box : TextBox)

/-- The box takes everything out of the queue. -/
theorem handleInput_eq :
    box.handleInput chars backspace =
      ({ box with inputText := entered 125 chars backspace box.inputText }, []) := by
  unfold handleInput entered
  rw [readChars_eq]
  cases backspace with
  | false => rfl
  | true =>
    by_cases hempty : box.inputText ++ printable 125 chars = []
    · simp [hempty]
    · simp [hempty]

/-- The mouse changes the state only. -/
theorem updateState_eq :
    box.updateState mouse = { box with state := (box.updateState mouse).state } := by
  unfold updateState
  split_ifs <;> rfl

/-- The state after the update. -/
def stateAfter : TextBoxState := (box.updateState mouse).state

/-- The text after the update. -/
def textAfter : Bytes :=
  if box.stateAfter mouse = .active then entered 125 chars backspace box.inputText
  else box.inputText

/-- In this size the text is no wider than a box of this width allows. -/
def Fits (inputText : Bytes) (width : ℚ) (size : ℕ) : Prop :=
  (measureText inputText size kDefaultFontSpacing).x ≤ width - 10

instance decidableFits (inputText : Bytes) (width : ℚ) :
    DecidablePred (Fits measureText inputText width) :=
  fun size ↦
    inferInstanceAs (Decidable ((measureText inputText size kDefaultFontSpacing).x ≤ width - 10))

/-- The size that the loop selects. -/
def fitted (inputText : Bytes) (width : ℚ) : ℕ :=
  Descent.descend (Fits measureText inputText width) 8 kDefaultFontSize

theorem largest_fitted (inputText : Bytes) (width : ℚ) :
    Descent.Largest (Fits measureText inputText width) 8 20 (fitted measureText inputText width) :=
  Descent.largest_descend (by decide)

theorem updateOutputText_eq :
    ∃ outputText showingCursor,
      box.updateOutputText measureText blinks fonts =
        ({ box with outputText := outputText, showingCursor := showingCursor },
          fonts.put box.font ⟨kDefaultFontSpacing,
            fitted measureText box.inputText box.getTransformedBounds.width⟩) := by
  unfold updateOutputText fitted
  simp only [Fonts.setFontSize, Fonts.setFontSpacing, Fonts.put_put, Fonts.put_objects_self]
  exact ⟨_, _, rfl⟩

/-- Neither larger than under the mouse nor smaller than away from it. -/
structure ScaleInRange (box : TextBox) : Prop where
  low : 1 ≤ box.scale
  high : box.scale ≤ kScaleHover

theorem animate_eq : box.animate = { box with scale := box.animate.scale } := by
  unfold animate
  split <;> rfl

/-- The scale moves towards one of the ends of its range. -/
theorem ScaleInRange.animate {box : TextBox} (h : box.ScaleInRange) :
    box.animate.ScaleInRange := by
  obtain ⟨hlow, hhigh⟩ := h
  unfold TextBox.animate
  split
  · unfold kScaleHover at hhigh
    constructor
    · dsimp only [kScaleSpeed, kScaleHover]
      split <;> linarith
    · dsimp only [kScaleSpeed, kScaleHover]
      split <;> linarith
  · exact ⟨hlow, hhigh⟩

theorem update_eq :
    ∃ outputText showingCursor,
      box.update measureText mouse backspace blinks fonts chars =
        (animate { box with
            state := box.stateAfter mouse
            inputText := box.textAfter mouse backspace chars
            outputText := outputText
            showingCursor := showingCursor },
          fonts.put box.font ⟨kDefaultFontSpacing,
            fitted measureText (box.textAfter mouse backspace chars)
              box.getTransformedBounds.width⟩,
          if box.stateAfter mouse = .active then [] else chars) := by
  have hstate : box.updateState mouse = { box with state := box.stateAfter mouse } :=
    updateState_eq mouse box
  have hhandled :
      (if box.stateAfter mouse = .active then
          handleInput chars backspace { box with state := box.stateAfter mouse }
        else ({ box with state := box.stateAfter mouse }, chars)) =
        ({ box with
            state := box.stateAfter mouse
            inputText := box.textAfter mouse backspace chars },
          if box.stateAfter mouse = .active then [] else chars) := by
    rw [handleInput_eq, textAfter]
    split_ifs <;> rfl
  obtain ⟨outputText, showingCursor, hshown⟩ := updateOutputText_eq measureText blinks fonts
    { box with
      state := box.stateAfter mouse
      inputText := box.textAfter mouse backspace chars }
  refine ⟨outputText, showingCursor, ?_⟩
  unfold update
  simp only [hstate, hhandled, hshown]
  rfl

theorem update_box :
    ∃ outputText showingCursor scale,
      (box.update measureText mouse backspace blinks fonts chars).1 =
        { box with
          state := box.stateAfter mouse
          inputText := box.textAfter mouse backspace chars
          outputText := outputText
          showingCursor := showingCursor
          scale := scale } := by
  obtain ⟨outputText, showingCursor, hupdate⟩ :=
    update_eq measureText mouse backspace blinks fonts chars box
  rw [hupdate, animate_eq]
  exact ⟨outputText, showingCursor, _, rfl⟩

@[simp]
theorem update_state :
    (box.update measureText mouse backspace blinks fonts chars).1.state = box.stateAfter mouse := by
  obtain ⟨outputText, showingCursor, scale, hbox⟩ :=
    update_box measureText mouse backspace blinks fonts chars box
  rw [hbox]

@[simp]
theorem update_inputText :
    (box.update measureText mouse backspace blinks fonts chars).1.inputText =
      box.textAfter mouse backspace chars := by
  obtain ⟨outputText, showingCursor, scale, hbox⟩ :=
    update_box measureText mouse backspace blinks fonts chars box
  rw [hbox]

@[simp]
theorem update_font :
    (box.update measureText mouse backspace blinks fonts chars).1.font = box.font := by
  obtain ⟨outputText, showingCursor, scale, hbox⟩ :=
    update_box measureText mouse backspace blinks fonts chars box
  rw [hbox]

theorem ScaleInRange.update {box : TextBox} (h : box.ScaleInRange) :
    (box.update measureText mouse backspace blinks fonts chars).1.ScaleInRange := by
  obtain ⟨outputText, showingCursor, hupdate⟩ :=
    update_eq measureText mouse backspace blinks fonts chars box
  rw [hupdate]
  exact ScaleInRange.animate ⟨h.low, h.high⟩

/-- The font that the box shares is fitted to the text of the box. -/
theorem update_fonts :
    (box.update measureText mouse backspace blinks fonts chars).2.1 =
      fonts.put box.font ⟨kDefaultFontSpacing,
        fitted measureText (box.textAfter mouse backspace chars)
          box.getTransformedBounds.width⟩ := by
  obtain ⟨outputText, showingCursor, hupdate⟩ :=
    update_eq measureText mouse backspace blinks fonts chars box
  rw [hupdate]

theorem update_queue :
    (box.update measureText mouse backspace blinks fonts chars).2.2 =
      if box.stateAfter mouse = .active then [] else chars := by
  obtain ⟨outputText, showingCursor, hupdate⟩ :=
    update_eq measureText mouse backspace blinks fonts chars box
  rw [hupdate]

end TextBox

end NetPixeld
