import NetPixeld.Client.Focus
import NetPixeld.Client.Process
import NetPixeld.Server.Enrolled
import Mathlib.Data.List.Induction

/-!
# Credentials on their way to the server

What was typed into a box is the fold of the frames in which the box was active. The loop of
`HandleInput` stops one code short of the last printable character, so a tilde does not get into the
box; everything else arrives at the handler of the server as it was typed.
-/

namespace NetPixeld

namespace TextBox

/-- `~`, the last printable character. -/
def tilde : ℕ+ := 126

/-- The frame leaves the text of the box the same with and without its tildes: there are none, or
the backspace takes away the only one. -/
def KeepsTyped (input : FormInput) (box : TextBox) : Prop :=
  box.stateAfter input.mouse = .active →
    tilde ∉ input.chars ∨
      box.inputText = [] ∧ printable 126 input.chars = [126] ∧ input.backspace = true

variable {chars : List ℕ+} {inputText : Bytes}

/-! ## One code more -/

theorem printable_of_notMem (h : tilde ∉ chars) : printable 126 chars = printable 125 chars := by
  unfold printable
  congr 1
  refine List.filter_congr fun key hkey ↦ ?_
  have hne : key.val ≠ 126 := fun heq ↦ h ((show key = tilde from PNat.eq heq) ▸ hkey)
  rw [decide_eq_decide]
  omega

theorem length_printable_lt (h : tilde ∈ chars) :
    (printable 125 chars).length < (printable 126 chars).length := by
  have hfilter : chars.filter (fun key ↦ 32 ≤ key.val ∧ key.val ≤ 125) =
      (chars.filter fun key ↦ 32 ≤ key.val ∧ key.val ≤ 126).filter fun key ↦ key ≠ tilde := by
    rw [List.filter_filter]
    refine List.filter_congr fun key _ ↦ ?_
    have htilde : key = tilde ↔ key.val = 126 := PNat.coe_inj.symm
    rw [← Bool.decide_and, decide_eq_decide, ne_eq, htilde]
    omega
  rw [printable, printable, List.length_map, List.length_map, hfilter,
    List.length_filter_lt_length_iff_exists]
  exact ⟨tilde, List.mem_filter.mpr ⟨h, by decide⟩, by decide⟩

theorem entered_eq_iff (backspace : Bool) :
    entered 125 chars backspace inputText = entered 126 chars backspace inputText ↔
      tilde ∉ chars ∨ inputText = [] ∧ printable 126 chars = [126] ∧ backspace = true := by
  constructor
  · intro h
    by_cases hmem : tilde ∈ chars
    · right
      have hlt := length_printable_lt hmem
      have hlength := congrArg List.length h
      cases backspace with
      | false =>
        simp only [entered, Bool.false_eq_true, if_false, List.length_append] at hlength
        omega
      | true =>
        simp only [entered, if_true, List.length_dropLast, List.length_append] at hlength
        have hempty : inputText.length = 0 := by omega
        obtain ⟨byte, hbyte⟩ :=
          List.length_eq_one_iff.mp (show (printable 126 chars).length = 1 by omega)
        have htilde : 126 ∈ printable 126 chars :=
          List.mem_map.mpr ⟨tilde, List.mem_filter.mpr ⟨hmem, by decide⟩, rfl⟩
        rw [hbyte] at htilde
        rw [hbyte, List.mem_singleton.mp htilde]
        exact ⟨List.length_eq_zero_iff.mp hempty, rfl, rfl⟩
    · exact Or.inl hmem
  · rintro (hnone | ⟨rfl, hprinted, rfl⟩)
    · rw [entered, entered, printable_of_notMem hnone]
    · by_cases hmem : tilde ∈ chars
      · have hlt := length_printable_lt hmem
        rw [hprinted] at hlt
        have hempty : printable 125 chars = [] :=
          List.length_eq_zero_iff.mp (Nat.lt_one_iff.mp hlt)
        rw [entered, entered, hempty, hprinted]
        rfl
      · rw [entered, entered, printable_of_notMem hmem]

/-! ## What is in a box -/

theorem printable_typed {byte : UInt8} (h : byte ∈ printable 125 chars) :
    32 ≤ byte ∧ byte ≤ 125 := by
  obtain ⟨key, hkey, rfl⟩ := List.mem_map.mp h
  have hbounds : 32 ≤ key.val ∧ key.val ≤ 125 := by simpa using (List.mem_filter.mp hkey).2
  rw [UInt8.le_iff_toNat_le, UInt8.le_iff_toNat_le, UInt8.toNat_ofNat']
  have hmod : key.val % 2 ^ 8 = key.val := Nat.mod_eq_of_lt (by omega)
  rw [hmod]
  exact hbounds

theorem entered_typed {backspace : Bool} (h : ∀ byte ∈ inputText, 32 ≤ byte ∧ byte ≤ 125) :
    ∀ byte ∈ entered 125 chars backspace inputText, 32 ≤ byte ∧ byte ≤ 125 := by
  have happend : ∀ byte ∈ inputText ++ printable 125 chars, 32 ≤ byte ∧ byte ≤ 125 := by
    intro byte hbyte
    rcases List.mem_append.mp hbyte with hbefore | hprinted
    · exact h byte hbefore
    · exact printable_typed hprinted
  unfold entered
  split
  · exact fun byte hbyte ↦ happend byte (List.dropLast_subset _ hbyte)
  · exact happend

end TextBox

namespace LoginScene

/-- The frames in which a box is active. -/
def activeFrames (measureText : MeasureText) (box : LoginScene → TextBox) :
    LoginScene → List FormInput → List FormInput
  | _, [] => []
  | scene, input :: frames =>
      let next := scene.updateForm measureText input
      (if (box next).state = .active then [input] else []) ++
        activeFrames measureText box next frames

/-- What was typed into a box: the printable characters of every frame in which it was active, less
one for a backspace. -/
def typed (measureText : MeasureText) (box : LoginScene → TextBox) (scene : LoginScene)
    (frames : List FormInput) : Bytes :=
  (activeFrames measureText box scene frames).foldl
    (fun inputText input ↦ TextBox.entered 126 input.chars input.backspace inputText) []

/-- In every frame of the form the scene has what was typed, which can be serialized, and a click on
Login brings it to the handler of the server. -/
structure Delivered (lib : JsonLib) (measureText : MeasureText) (scene : LoginScene)
    (frames : List FormInput) : Prop where
  username : ∀ shown, shown <+: frames →
    (scene.after measureText shown).username = scene.typed measureText usernameTextbox shown
  pass : ∀ shown, shown <+: frames →
    (scene.after measureText shown).pass = scene.typed measureText passTextbox shown
  valid : ∀ shown, shown <+: frames → Utf8.Valid (scene.after measureText shown).username ∧
    Utf8.Valid (scene.after measureText shown).pass
  serializes : ∀ shown, shown <+: frames →
    ∃ serialized, (Protocol.loginRequest (scene.after measureText shown).username
      (scene.after measureText shown).pass).serialize lib = .ok serialized
  sent : ∀ shown input ctx, shown ++ [input] <+: frames →
    (scene.after measureText shown).clicks input = true →
    scene.typed measureText usernameTextbox (shown ++ [input]) ≠ [] →
    scene.typed measureText passTextbox (shown ++ [input]) ≠ [] →
    ctx.net.connected = true → input.failure = none →
      ∃ line, ((scene.after measureText shown).update lib measureText ctx input).2 =
          ({ ctx with net.written := ctx.net.written ++ (line ++ [newline]) }, .returned ()) ∧
        Server.Requests lib line (scene.typed measureText usernameTextbox (shown ++ [input]))
          (scene.typed measureText passTextbox (shown ++ [input]))

/-- No frame of the form loses a tilde. -/
def Unbroken (measureText : MeasureText) (scene : LoginScene) (frames : List FormInput) : Prop :=
  ∀ shown input, shown ++ [input] <+: frames →
    let before := (scene.after measureText shown).reposition input
    before.usernameTextbox.KeepsTyped input ∧ before.passTextbox.KeepsTyped input

variable {measureText : MeasureText} {scene : LoginScene}

theorem activeFrames_concat (box : LoginScene → TextBox) (scene : LoginScene)
    (frames : List FormInput) (input : FormInput) :
    activeFrames measureText box scene (frames ++ [input]) =
      activeFrames measureText box scene frames ++
        if (box (scene.after measureText (frames ++ [input]))).state = .active then [input]
        else [] := by
  induction frames generalizing scene with
  | nil => exact List.append_nil _
  | cons first frames ih =>
    rw [List.cons_append, activeFrames, activeFrames, ih, List.append_assoc]
    rfl

theorem typed_concat (box : LoginScene → TextBox) (scene : LoginScene) (frames : List FormInput)
    (input : FormInput) :
    scene.typed measureText box (frames ++ [input]) =
      if (box (scene.after measureText (frames ++ [input]))).state = .active then
        TextBox.entered 126 input.chars input.backspace (scene.typed measureText box frames)
      else scene.typed measureText box frames := by
  rw [typed, activeFrames_concat, List.foldl_append]
  split
  · rfl
  · rfl

/-! ## Every sequence of frames -/

/-- In every frame the box takes what the frame typed if the mouse left it active. -/
structure TakesInput (measureText : MeasureText) (scene : LoginScene) (box : LoginScene → TextBox) :
    Prop where
  start : (box scene).inputText = []
  kept : ∀ visited input, (box (visited.reposition input)).inputText = (box visited).inputText
  state : ∀ shown input, (box (scene.after measureText (shown ++ [input]))).state =
    (box ((scene.after measureText shown).reposition input)).stateAfter input.mouse
  inputText : ∀ shown input, (box (scene.after measureText (shown ++ [input]))).inputText =
    (box ((scene.after measureText shown).reposition input)).textAfter input.mouse input.backspace
      input.chars

section TakesInput

variable {box : LoginScene → TextBox}

/-- A box has what was typed after every frame exactly when it loses no tilde. -/
theorem TakesInput.typed_iff (h : TakesInput measureText scene box) (frames : List FormInput) :
    (∀ shown, shown <+: frames →
      (box (scene.after measureText shown)).inputText = scene.typed measureText box shown) ↔
    ∀ shown input, shown ++ [input] <+: frames →
      (box ((scene.after measureText shown).reposition input)).KeepsTyped input := by
  constructor
  · intro htyped shown input hprefix hactive
    have hbefore := htyped shown ((List.prefix_append ..).trans hprefix)
    have hafter := htyped _ hprefix
    rw [h.inputText, typed_concat, h.state, TextBox.textAfter, if_pos hactive, if_pos hactive,
      ← hbefore, h.kept] at hafter
    rw [h.kept]
    exact (TextBox.entered_eq_iff _).mp hafter
  · intro hkeeps shown hprefix
    induction shown using List.reverseRecOn with
    | nil => exact h.start
    | append_singleton shown input ih =>
      have hbefore := ih ((List.prefix_append ..).trans hprefix)
      have hkept := hkeeps shown input hprefix
      rw [TextBox.KeepsTyped, h.kept] at hkept
      rw [h.inputText, typed_concat, h.state, TextBox.textAfter, h.kept, ← hbefore]
      split
      · next hactive => exact (TextBox.entered_eq_iff _).mpr (hkept hactive)
      · rfl

/-- The characters in a box are those from the blank to the closing brace. -/
theorem TakesInput.bytes (h : TakesInput measureText scene box) (frames : List FormInput) :
    ∀ byte ∈ (box (scene.after measureText frames)).inputText, 32 ≤ byte ∧ byte ≤ 125 := by
  induction frames using List.reverseRecOn with
  | nil =>
    intro byte hbyte
    rw [LoginScene.after, List.foldl_nil, h.start] at hbyte
    cases hbyte
  | append_singleton frames input ih =>
    rw [h.inputText, TextBox.textAfter, h.kept]
    split
    · exact TextBox.entered_typed ih
    · exact ih

theorem TakesInput.valid (h : TakesInput measureText scene box) (frames : List FormInput) :
    Utf8.Valid (box (scene.after measureText frames)).inputText :=
  Utf8.valid_of_ascii fun byte hbyte ↦ lt_of_le_of_lt (h.bytes frames byte hbyte).2 (by decide)

end TakesInput

variable {screenWidth screenHeight : ℤ}

theorem takesInput_username :
    TakesInput measureText (start screenWidth screenHeight) usernameTextbox where
  start := rfl
  kept _ _ := rfl
  state shown input := by
    rw [after_concat]
    exact updateForm_username_state
  inputText shown input := by
    rw [after_concat]
    exact updateForm_username_inputText

theorem takesInput_pass :
    TakesInput measureText (start screenWidth screenHeight) passTextbox where
  start := rfl
  kept _ _ := rfl
  state shown input := by
    rw [after_concat]
    exact updateForm_pass_state
  inputText shown input := by
    rw [after_concat]
    exact ((formed_start screenWidth screenHeight).after shown).updateForm_pass_inputText

/-- The scene has the texts of its boxes. -/
theorem texts_after (frames : List FormInput) :
    ((start screenWidth screenHeight).after measureText frames).username =
        ((start screenWidth screenHeight).after measureText frames).usernameTextbox.inputText ∧
      ((start screenWidth screenHeight).after measureText frames).pass =
        ((start screenWidth screenHeight).after measureText frames).passTextbox.inputText := by
  cases frames using List.reverseRecOn with
  | nil => exact ⟨rfl, rfl⟩
  | append_singleton frames input =>
    rw [after_concat]
    exact ⟨rfl, rfl⟩

/-- What the application sees of the form in a frame was typed. -/
theorem frameInput_typed (frames : List FormInput) (input : FormInput) :
    (((start screenWidth screenHeight).after measureText frames).frameInput measureText
      input).Typed := by
  have hafter := @after_concat measureText (start screenWidth screenHeight) frames input
  have htexts := @texts_after measureText screenWidth screenHeight (frames ++ [input])
  rw [FrameInput.Typed, frameInput, ← hafter, htexts.1, htexts.2]
  exact ⟨takesInput_username.bytes _, takesInput_pass.bytes _⟩

/-- A frame of the form is a step of the client process. -/
theorem step_frameInput (lib : JsonLib) {app : Application} (halive : app.alive = true)
    (frames : List FormInput) (input : FormInput) :
    let frame := ((start screenWidth screenHeight).after measureText frames).frameInput
      measureText input
    app.step lib (.frame frame) = some (Application.conclude (app.update lib frame)) := by
  intro frame
  rw [Application.step, if_pos halive]
  exact if_pos (frameInput_typed frames input)

/-! ## Delivery -/

/-- A request with the fields of the server's handler. -/
theorem credentials_loginRequest (username pass : Bytes) :
    Server.credentials (Protocol.loginRequest username pass) = .ok (username, pass) := by
  have hne : text "password" ≠ text "id" := by decide
  refine Server.credentials_eq_ok_iff.mpr ⟨_, rfl, ?_, ?_⟩
  · simp only [Items.insertAll, List.foldl_cons, List.foldl_nil, Items.find_insert, if_neg hne,
      if_pos]
  · simp only [Items.insertAll, List.foldl_cons, List.foldl_nil, Items.find_insert, if_pos]

/-- A click with two texts writes a line that the server reads as these texts. -/
theorem onClick_sends {lib : JsonLib} (hlib : lib.Lawful) {ctx : GameContext}
    (hconnected : ctx.net.connected = true) {username pass : Bytes} (husername : username ≠ [])
    (hpass : pass ≠ []) (hvalid : Utf8.Valid username ∧ Utf8.Valid pass) :
    ∃ line, onClick lib ctx username pass none =
        ({ ctx with net.written := ctx.net.written ++ (line ++ [newline]) }, .returned ()) ∧
      Server.Requests lib line username pass := by
  have hwellFormed := Protocol.wellFormed_loginRequest hvalid.1 hvalid.2
  obtain ⟨serialized, hserialized⟩ := Protocol.Message.serialize_ok lib hwellFormed
  obtain ⟨line, rfl, hprintable, hparse⟩ :=
    Protocol.Message.serialize_line hlib hwellFormed hserialized
  refine ⟨line, ?_, Protocol.loginRequest username pass, ?_, rfl,
    credentials_loginRequest username pass⟩
  · rw [onClick, if_pos ⟨husername, hpass⟩, NetworkClient.sendMessage, hserialized]
    simp only [hconnected, if_true]
  · rw [Protocol.readLine, Protocol.stripReturn_of_printable hprintable, hparse]

/-- Whatever happens in the form, it delivers what was typed exactly as long as no tilde is lost. -/
theorem delivered_iff_unbroken {lib : JsonLib} (hlib : lib.Lawful) (measureText : MeasureText)
    (screenWidth screenHeight : ℤ) (frames : List FormInput) :
    Delivered lib measureText (start screenWidth screenHeight) frames ↔
      Unbroken measureText (start screenWidth screenHeight) frames := by
  have husername := (@takesInput_username measureText screenWidth screenHeight).typed_iff frames
  have hpass := (@takesInput_pass measureText screenWidth screenHeight).typed_iff frames
  constructor
  · intro h
    have htexts := @texts_after measureText screenWidth screenHeight
    have hkept := husername.mp fun shown hprefix ↦ (htexts shown).1 ▸ h.username shown hprefix
    have hkept' := hpass.mp fun shown hprefix ↦ (htexts shown).2 ▸ h.pass shown hprefix
    exact fun shown input hprefix ↦ ⟨hkept shown input hprefix, hkept' shown input hprefix⟩
  · intro h
    have htexts := @texts_after measureText screenWidth screenHeight
    have htyped := husername.mpr fun shown input hprefix ↦ (h shown input hprefix).1
    have htyped' := hpass.mpr fun shown input hprefix ↦ (h shown input hprefix).2
    have hvalid : ∀ shown, Utf8.Valid ((start screenWidth screenHeight).after measureText
        shown).username ∧ Utf8.Valid ((start screenWidth screenHeight).after measureText
          shown).pass := by
      intro shown
      rw [(htexts shown).1, (htexts shown).2]
      exact ⟨takesInput_username.valid shown, takesInput_pass.valid shown⟩
    refine ⟨fun shown hprefix ↦ ?_, fun shown hprefix ↦ ?_, fun shown _ ↦ hvalid shown,
      fun shown _ ↦ ?_, fun shown input ctx hprefix hclicks husername' hpass' hconnected
        hfailure ↦ ?_⟩
    · rw [(htexts shown).1]
      exact htyped shown hprefix
    · rw [(htexts shown).2]
      exact htyped' shown hprefix
    · exact Protocol.Message.serialize_ok lib
        (Protocol.wellFormed_loginRequest (hvalid shown).1 (hvalid shown).2)
    · have hvalid' := hvalid (shown ++ [input])
      rw [← htyped _ hprefix, ← (htexts _).1] at husername' ⊢
      rw [← htyped' _ hprefix, ← (htexts _).2] at hpass' ⊢
      rw [after_concat] at husername' hpass' hvalid' ⊢
      rw [update, if_pos hclicks, hfailure]
      exact onClick_sends hlib hconnected husername' hpass' hvalid'

/-- Without a tilde in the frames none is lost. -/
theorem unbroken_of_notMem {frames : List FormInput}
    (h : ∀ input ∈ frames, TextBox.tilde ∉ input.chars) : Unbroken measureText scene frames := by
  intro shown input hprefix
  have hmem : input ∈ frames := hprefix.subset (List.mem_append_right _ (List.mem_singleton_self _))
  exact ⟨fun _ ↦ Or.inl (h input hmem), fun _ ↦ Or.inl (h input hmem)⟩

/-- A frame with a press in a window as it opens. -/
def pressAt (x y : ℚ) (chars : List ℕ+) : FormInput where
  screenWidth := 800
  screenHeight := 450
  mouse := { position := ⟨x, y⟩, pressed := true }
  chars := chars

/-- A press into either box with a character, and one on Login. -/
theorem delivered_iff_unbroken_pressed :
    Delivered JsonLib.reference (fun _ _ _ ↦ ⟨0, 0⟩) (start 800 450)
        [pressAt 400 175 [97], pressAt 400 275 [98], pressAt 400 375 []] ∧
      ((start 800 450).after (fun _ _ _ ↦ ⟨0, 0⟩)
        [pressAt 400 175 [97], pressAt 400 275 [98]]).clicks (pressAt 400 375 []) = true ∧
      (start 800 450).typed (fun _ _ _ ↦ ⟨0, 0⟩) usernameTextbox
        [pressAt 400 175 [97], pressAt 400 275 [98], pressAt 400 375 []] = text "a" ∧
      (start 800 450).typed (fun _ _ _ ↦ ⟨0, 0⟩) passTextbox
        [pressAt 400 175 [97], pressAt 400 275 [98], pressAt 400 375 []] = text "b" := by
  refine ⟨(delivered_iff_unbroken JsonLib.reference_lawful _ 800 450 _).mpr
    (unbroken_of_notMem ?_), by decide +kernel, by decide +kernel, by decide +kernel⟩
  simp [pressAt, TextBox.tilde]

/-- Of `a~` the click on Login sends `a`. -/
theorem not_delivered_tilde :
    ((start 800 450).after (fun _ _ _ ↦ ⟨0, 0⟩)
        [pressAt 400 175 [97, 126], pressAt 400 275 [98]]).clicks (pressAt 400 375 []) = true ∧
      ((start 800 450).after (fun _ _ _ ↦ ⟨0, 0⟩)
        [pressAt 400 175 [97, 126], pressAt 400 275 [98], pressAt 400 375 []]).username =
          text "a" ∧
      (start 800 450).typed (fun _ _ _ ↦ ⟨0, 0⟩) usernameTextbox
        [pressAt 400 175 [97, 126], pressAt 400 275 [98], pressAt 400 375 []] = text "a~" ∧
      ¬Delivered JsonLib.reference (fun _ _ _ ↦ ⟨0, 0⟩) (start 800 450)
        [pressAt 400 175 [97, 126], pressAt 400 275 [98], pressAt 400 375 []] := by
  refine ⟨by decide +kernel, by decide +kernel, by decide +kernel, fun h ↦ ?_⟩
  have husername := h.username _ (List.prefix_refl _)
  exact absurd husername (by decide +kernel)

end LoginScene

end NetPixeld
