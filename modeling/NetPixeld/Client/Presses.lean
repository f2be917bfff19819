import NetPixeld.Client.Button
import Mathlib.Data.List.Nodup

/-!
# Clicks and releases of a button

A click is a press inside the bounds. The memory of the button makes a release out of the end of a
hold exactly when the mouse stayed inside from the press to the end, so every release belongs to a
click of its own, and dragging out of the button or into it makes none.
-/

namespace NetPixeld

open Level

/-- Where the mouse is in every frame, and the level of its left button. -/
structure Pointer where
  positions : ℕ → Vector2
  level : ℕ → Bool

def Pointer.mouse (pointer : Pointer) (frame : ℕ) : Mouse where
  position := pointer.positions frame
  down := pointer.level frame
  pressed := rises pointer.level frame
  released := falls pointer.level frame

namespace Button

/-- The button at the beginning of a frame. -/
def before (button : Button) (pointer : Pointer) : ℕ → Button
  | 0 => button
  | frame + 1 => ((button.before pointer frame).update (pointer.mouse frame)).1

/-- What the update in a frame calls. -/
def calls (button : Button) (pointer : Pointer) (frame : ℕ) : List ButtonCall :=
  ((button.before pointer frame).update (pointer.mouse frame)).2

def Inside (button : Button) (pointer : Pointer) (frame : ℕ) : Prop :=
  checkCollisionPointRec (pointer.positions frame) button.bounds = true

instance (button : Button) (pointer : Pointer) (frame : ℕ) :
    Decidable (button.Inside pointer frame) :=
  inferInstanceAs (Decidable (_ = true))

/-- Clicks and releases belong together. -/
structure Paired (button : Button) (pointer : Pointer) : Prop where
  /-- Every press inside the bounds is one click, and there are no others. -/
  click : ∀ frame, (button.calls pointer frame).count .onClick =
    if rises pointer.level frame = true ∧ button.Inside pointer frame then 1 else 0
  /-- A release is the end of a hold during which the mouse stayed inside. -/
  release : ∀ frame, .onRelease ∈ button.calls pointer frame ↔
    falls pointer.level frame = true ∧ ∃ first, Held pointer.level first frame ∧
      ∀ between, first ≤ between → between ≤ frame → button.Inside pointer between
  releaseOnce : ∀ frame, (button.calls pointer frame).count .onRelease ≤ 1
  /-- Releases have distinct earlier clicks. -/
  matched : ∃ clickOf : ℕ → ℕ,
    (∀ frame, .onRelease ∈ button.calls pointer frame →
      .onClick ∈ button.calls pointer (clickOf frame) ∧ clickOf frame < frame) ∧
    ∀ frame other, .onRelease ∈ button.calls pointer frame →
      .onRelease ∈ button.calls pointer other → clickOf frame = clickOf other → frame = other
  /-- A hold during which the mouse was outside once ends without a release. -/
  dragged : ∀ first last, Held pointer.level first last →
    (∃ between, first ≤ between ∧ between ≤ last ∧ ¬button.Inside pointer between) →
      .onRelease ∉ button.calls pointer last

variable {button : Button} {pointer : Pointer}

/-- The bounds and the callbacks stay. -/
theorem before_fields (button : Button) (pointer : Pointer) (frame : ℕ) :
    ∃ state wasPressed,
      button.before pointer frame = { button with state := state, wasPressed := wasPressed } := by
  induction frame with
  | zero => exact ⟨_, _, rfl⟩
  | succ frame ih =>
    obtain ⟨state, wasPressed, hbefore⟩ := ih
    obtain ⟨state', wasPressed', hnext⟩ :=
      update_fst (pointer.mouse frame) (button.before pointer frame)
    refine ⟨state', wasPressed', ?_⟩
    rw [before, hnext, hbefore]

theorem bounds_before (button : Button) (pointer : Pointer) (frame : ℕ) :
    (button.before pointer frame).bounds = button.bounds := by
  obtain ⟨_, _, hbefore⟩ := button.before_fields pointer frame
  rw [hbefore]

theorem wasPressed_succ (button : Button) (pointer : Pointer) (frame : ℕ) :
    (button.before pointer (frame + 1)).wasPressed = true ↔
      button.Inside pointer frame ∧ (rises pointer.level frame = true ∨
        (button.before pointer frame).wasPressed = true ∧
          (pointer.level frame = true ∨ falls pointer.level frame = false)) := by
  rw [before, update_wasPressed, bounds_before]
  rfl

/-- The memory is only set while the left button is down. -/
theorem previous_of_wasPressed (hinit : button.wasPressed = false) {frame : ℕ}
    (h : (button.before pointer frame).wasPressed = true) :
    previous pointer.level frame = true := by
  induction frame with
  | zero =>
    rw [before, hinit] at h
    cases h
  | succ frame ih =>
    rw [previous]
    obtain ⟨_, hrises | ⟨hmemory, hlevel | hfalls⟩⟩ := (wasPressed_succ ..).mp h
    · exact (Bool.and_eq_true_iff.mp hrises).1
    · exact hlevel
    · simpa [falls, ih hmemory] using hfalls

/-- The memory at the beginning of a frame: the mouse stayed inside since the press. -/
theorem wasPressed_iff_held (hinit : button.wasPressed = false) (frame : ℕ) :
    (button.before pointer frame).wasPressed = true ↔
      ∃ first, Held pointer.level first frame ∧
        ∀ between, first ≤ between → between < frame → button.Inside pointer between := by
  have hmemory : ∀ frame, (button.before pointer (frame + 1)).wasPressed = true ↔
      (button.Inside pointer frame ∧ pointer.level frame = true) ∧
        (rises pointer.level frame = true ∨ (button.before pointer frame).wasPressed = true) := by
    intro frame
    rw [wasPressed_succ]
    constructor
    · rintro ⟨hinside, hrises | ⟨hmemory, hlevel | hfalls⟩⟩
      · exact ⟨⟨hinside, (Bool.and_eq_true_iff.mp hrises).1⟩, Or.inl hrises⟩
      · exact ⟨⟨hinside, hlevel⟩, Or.inr hmemory⟩
      · have hlevel : pointer.level frame = true := by
          simpa [falls, previous_of_wasPressed hinit hmemory] using hfalls
        exact ⟨⟨hinside, hlevel⟩, Or.inr hmemory⟩
    · rintro ⟨⟨hinside, hlevel⟩, hrises | hmemory⟩
      · exact ⟨hinside, Or.inl hrises⟩
      · exact ⟨hinside, Or.inr ⟨hmemory, Or.inl hlevel⟩⟩
  rw [← since_iff_held]
  cases frame with
  | zero =>
    rw [before, hinit]
    refine iff_of_false Bool.false_ne_true ?_
    rintro ⟨frame, hframe, _⟩
    cases hframe
  | succ frame =>
    rw [@memory_iff_since _ _ (fun frame ↦ (button.before pointer frame).wasPressed) hinit hmemory
      frame]
    constructor
    · exact fun h ↦ ⟨frame, rfl, h⟩
    · rintro ⟨other, hother, h⟩
      cases hother
      exact h

theorem calls_onRelease (hrelease : button.onReleaseCallback = true)
    (hinit : button.wasPressed = false) (frame : ℕ) :
    .onRelease ∈ button.calls pointer frame ↔
      falls pointer.level frame = true ∧ ∃ first, Held pointer.level first frame ∧
        ∀ between, first ≤ between → between ≤ frame → button.Inside pointer between := by
  obtain ⟨_, _, hbefore⟩ := button.before_fields pointer frame
  have hcallback : (button.before pointer frame).onReleaseCallback = true := by
    rw [hbefore]
    exact hrelease
  rw [calls, onRelease_mem, bounds_before, wasPressed_iff_held hinit]
  constructor
  · rintro ⟨_, hinside, _, _, ⟨first, hheld, hstayed⟩, hfalls⟩
    refine ⟨hfalls, first, hheld, fun between hafter hbetween ↦ ?_⟩
    rcases Nat.lt_or_eq_of_le hbetween with hlt | rfl
    · exact hstayed between hafter hlt
    · exact hinside
  · rintro ⟨hfalls, first, hheld, hstayed⟩
    have hlow : pointer.level frame = false := by
      simpa using (Bool.and_eq_true_iff.mp hfalls).1
    refine ⟨hcallback, hstayed frame (Nat.le_of_lt hheld.lt) (Nat.le_refl _), ?_, hlow,
      ⟨first, hheld, fun between hafter hlt ↦ hstayed between hafter (Nat.le_of_lt hlt)⟩, hfalls⟩
    simp [Pointer.mouse, rises, hlow]

theorem calls_onClick (hclick : button.onClickCallback = true) (frame : ℕ) :
    (button.calls pointer frame).count .onClick =
      if rises pointer.level frame = true ∧ button.Inside pointer frame then 1 else 0 := by
  obtain ⟨_, _, hbefore⟩ := button.before_fields pointer frame
  rw [calls, count_onClick, bounds_before, hbefore]
  refine if_congr ?_ rfl rfl
  exact and_iff_right hclick

/-- The hold that ended with a release began with a click. -/
theorem exists_click (hclick : button.onClickCallback = true)
    (hrelease : button.onReleaseCallback = true) (hinit : button.wasPressed = false) {frame : ℕ}
    (h : .onRelease ∈ button.calls pointer frame) :
    ∃ first, Held pointer.level first frame ∧ .onClick ∈ button.calls pointer first := by
  obtain ⟨_, first, hheld, hstayed⟩ := (calls_onRelease hrelease hinit frame).mp h
  refine ⟨first, hheld, List.count_pos_iff.mp ?_⟩
  rw [calls_onClick hclick,
    if_pos ⟨hheld.rises, hstayed first (Nat.le_refl _) (Nat.le_of_lt hheld.lt)⟩]
  exact Nat.zero_lt_one

theorem paired_of_set (hclick : button.onClickCallback = true)
    (hrelease : button.onReleaseCallback = true) (hinit : button.wasPressed = false)
    (pointer : Pointer) : button.Paired pointer where
  click := calls_onClick hclick
  release := calls_onRelease hrelease hinit
  releaseOnce frame := List.nodup_iff_count_le_one.mp (update_nodup ..) _
  matched := by
    have hexists : ∀ frame, .onRelease ∈ button.calls pointer frame →
        ∃ first, Held pointer.level first frame ∧ .onClick ∈ button.calls pointer first :=
      fun frame h ↦ exists_click hclick hrelease hinit h
    choose! clickOf hheld hclicked using hexists
    refine ⟨clickOf, fun frame h ↦ ⟨hclicked frame h, (hheld frame h).lt⟩,
      fun frame other hframe hother heq ↦ ?_⟩
    have hfalls := ((calls_onRelease hrelease hinit frame).mp hframe).1
    have hfalls' := ((calls_onRelease hrelease hinit other).mp hother).1
    exact (hheld frame hframe).last_unique (heq ▸ hheld other hother) hfalls hfalls'
  dragged := by
    rintro first last hheld ⟨between, hafter, hbefore, houtside⟩ h
    obtain ⟨_, other, hother, hstayed⟩ := (calls_onRelease hrelease hinit last).mp h
    cases hheld.first_unique hother
    exact houtside (hstayed between hafter hbefore)

/-- Every button whose callbacks are set pairs its clicks and its releases, whatever the mouse
does. -/
theorem paired (bounds : Rectangle) (clickSound onHover : Bool) (pointer : Pointer) :
    Paired (setCallbacks true onHover true { bounds := bounds, clickSound := clickSound })
      pointer :=
  paired_of_set rfl rfl rfl pointer

end Button

end NetPixeld
