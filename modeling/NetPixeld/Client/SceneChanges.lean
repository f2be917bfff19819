import NetPixeld.Client.Application
import Mathlib.Data.List.Induction
import Mathlib.Data.List.Infix

/-!
# Sequences of scene changes

`changeScene` leaves and destroys the current scene before it looks for the factory of the new one.
Every scene object is entered once, and left once before it is destroyed; but a change to an id
without a factory leaves no scene at all, under the id of the one that is gone.
-/

namespace NetPixeld

/-- The number of the object. -/
def Lifetime.serial {ι : Type} : Lifetime ι → ℕ
  | constructed serial _ | entered serial | exited serial | destroyed serial => serial

namespace SceneManager

variable {ι σ : Type}

inductive Call (ι σ : Type) where
  | registerScene (id : ι) (scene : σ)
  | changeScene (id : ι)

/-- What happened to one object. -/
def events (manager : SceneManager ι σ) (serial : ℕ) : List (Lifetime ι) :=
  manager.lifetimes.filter fun event ↦ event.serial = serial

/-- Every object was constructed and entered once, and all but the current one were left once and
destroyed after that. -/
structure Orderly (manager : SceneManager ι σ) : Prop where
  current : ∀ object, manager.current = some object → object.serial < manager.constructed
  lives : ∀ serial < manager.constructed, ∃ id, manager.events serial =
    [.constructed serial id, .entered serial] ++
      if manager.current.map SceneObject.serial = some serial then []
      else [.exited serial, .destroyed serial]
  others : ∀ serial, manager.constructed ≤ serial → manager.events serial = []

/-! ## One change -/

@[simp]
theorem leave_currentID (manager : SceneManager ι σ) :
    manager.leave.currentID = manager.currentID := by
  unfold SceneManager.leave
  split <;> rfl

@[simp]
theorem leave_constructed (manager : SceneManager ι σ) :
    manager.leave.constructed = manager.constructed := by
  unfold SceneManager.leave
  split <;> rfl

/-- Two more events of one object. -/
theorem events_append {before after : SceneManager ι σ} {first second : Lifetime ι}
    (hlog : after.lifetimes = before.lifetimes ++ [first, second])
    (h : first.serial = second.serial) (serial : ℕ) :
    after.events serial =
      before.events serial ++ if second.serial = serial then [first, second] else [] := by
  rw [events, hlog, List.filter_append, ← events]
  split
  · next heq => simp [h, heq]
  · next hne => simp [h, hne]

theorem leave_lifetimes {manager : SceneManager ι σ} {object : SceneObject σ}
    (h : manager.current = some object) :
    manager.leave.lifetimes =
      manager.lifetimes ++ [.exited object.serial, .destroyed object.serial] := by
  rw [SceneManager.leave, h]

theorem Orderly.leave {manager : SceneManager ι σ} (h : manager.Orderly) :
    manager.leave.Orderly := by
  cases hcurrent : manager.current with
  | none =>
    have hsame : manager.leave = manager := by rw [SceneManager.leave, hcurrent]
    rw [hsame]
    exact h
  | some object =>
    have hlt := h.current object hcurrent
    have hevents := events_append (leave_lifetimes hcurrent) rfl
    refine ⟨fun other hother ↦ ?_, fun serial hserial ↦ ?_, fun serial hserial ↦ ?_⟩
    · rw [leave_current] at hother
      cases hother
    · rw [leave_constructed] at hserial
      obtain ⟨id, hlife⟩ := h.lives serial hserial
      refine ⟨id, ?_⟩
      rw [hevents, hlife, hcurrent, leave_current]
      by_cases heq : object.serial = serial
      · subst heq
        simp [Lifetime.serial]
      · simp [Lifetime.serial, heq]
    · rw [leave_constructed] at hserial
      rw [hevents, h.others serial hserial]
      exact if_neg (Nat.ne_of_lt (Nat.lt_of_lt_of_le hlt hserial))

/-- A new object is constructed and entered. -/
theorem Orderly.enter {manager next : SceneManager ι σ} (h : manager.Orderly)
    (hnone : manager.current = none) {id : ι} {scene : σ}
    (hcurrent : next.current = some ⟨manager.constructed, scene⟩)
    (hconstructed : next.constructed = manager.constructed + 1)
    (hlog : next.lifetimes = manager.lifetimes ++
      [.constructed manager.constructed id, .entered manager.constructed]) : next.Orderly := by
  have hevents := events_append hlog rfl
  refine ⟨fun object hobject ↦ ?_, fun serial hserial ↦ ?_, fun serial hserial ↦ ?_⟩
  · rw [hcurrent] at hobject
    cases hobject
    rw [hconstructed]
    exact Nat.lt_succ_self _
  · rw [hconstructed] at hserial
    rw [hevents, hcurrent]
    rcases Nat.lt_succ_iff_lt_or_eq.mp hserial with hlt | rfl
    · obtain ⟨other, hlife⟩ := h.lives serial hlt
      refine ⟨other, ?_⟩
      rw [hlife, hnone]
      simp [Lifetime.serial, Nat.ne_of_gt hlt]
    · refine ⟨id, ?_⟩
      rw [h.others _ (Nat.le_refl _)]
      simp [Lifetime.serial]
  · rw [hconstructed] at hserial
    rw [hevents, h.others serial (Nat.le_of_succ_le hserial)]
    exact if_neg (Nat.ne_of_lt hserial)

theorem Orderly.changeScene {manager : SceneManager ι σ} (h : manager.Orderly) (id : ι) :
    (manager.changeScene id).Orderly := by
  unfold SceneManager.changeScene
  dsimp only
  split
  · exact h.leave
  · exact h.leave.enter manager.leave_current rfl rfl rfl

/-- Under an unknown id the current scene is gone, and the id of it stays. -/
theorem changeScene_unknown {manager : SceneManager ι σ} {id : ι}
    (h : manager.factories id = none) :
    (manager.changeScene id).current = none ∧
      (manager.changeScene id).currentID = manager.currentID := by
  unfold SceneManager.changeScene
  simp only [leave_factories, h]
  exact ⟨manager.leave_current, manager.leave_currentID⟩

/-- Under a registered id its factory has made the current scene. -/
theorem changeScene_known {manager : SceneManager ι σ} {id : ι} {scene : σ}
    (h : manager.factories id = some scene) :
    (manager.changeScene id).current = some ⟨manager.constructed, scene⟩ ∧
      (manager.changeScene id).currentID = id := by
  unfold SceneManager.changeScene
  simp only [leave_factories, h, leave_constructed, and_self]

/-! ## Sequences of calls -/

section Calls

variable [DecidableEq ι]

def perform (manager : SceneManager ι σ) : Call ι σ → SceneManager ι σ
  | .registerScene id scene => manager.registerScene id scene
  | .changeScene id => manager.changeScene id

/-- The manager after some calls; before the first of them there is no scene. -/
def after (first : ι) (calls : List (Call ι σ)) : SceneManager ι σ :=
  calls.foldl perform { currentID := first }

/-- The object is the one that the factory of the id, as it was registered then, made for one of the
calls. -/
def Produced (first : ι) (calls : List (Call ι σ)) (id : ι) (object : SceneObject σ) : Prop :=
  ∃ earlier, earlier ++ [.changeScene id] <+: calls ∧
    (after first earlier).factories id = some object.scene ∧
      object.serial = (after first earlier).constructed

/-- The manager is consistent at every moment of a sequence of calls. -/
structure Consistent (first : ι) (calls : List (Call ι σ)) : Prop where
  /-- Once a scene was entered there is one, from the factory of its id. -/
  shown : ∀ before, before <+: calls →
    (∃ serial, .entered serial ∈ (after first before).lifetimes) →
      ∃ object, (after first before).current = some object ∧
        Produced first before (after first before).currentID object
  orderly : ∀ before, before <+: calls → (after first before).Orderly
  /-- A change to an unknown id changes nothing. -/
  unknown : ∀ before id, before ++ [.changeScene id] <+: calls →
    (after first before).factories id = none →
      (after first (before ++ [.changeScene id])).current = (after first before).current ∧
        (after first (before ++ [.changeScene id])).currentID = (after first before).currentID

/-- Every change is to a registered id, or made when there is no scene. -/
def Registered (first : ι) (calls : List (Call ι σ)) : Prop :=
  ∀ before id, before ++ [.changeScene id] <+: calls →
    (after first before).factories id ≠ none ∨ (after first before).current = none

theorem after_concat (first : ι) (calls : List (Call ι σ)) (call : Call ι σ) :
    after first (calls ++ [call]) = (after first calls).perform call := by
  rw [after, List.foldl_append]
  rfl

theorem orderly_after (first : ι) (calls : List (Call ι σ)) : (after first calls).Orderly := by
  induction calls using List.reverseRecOn with
  | nil => exact ⟨nofun, fun _ hserial ↦ absurd hserial (Nat.not_lt_zero _), fun _ _ ↦ rfl⟩
  | append_singleton calls call ih =>
    rw [after_concat]
    cases call with
    | registerScene id scene => exact ⟨ih.current, ih.lives, ih.others⟩
    | changeScene id => exact ih.changeScene id

theorem Produced.append {first : ι} {calls : List (Call ι σ)} {id : ι} {object : SceneObject σ}
    (h : Produced first calls id object) (call : Call ι σ) :
    Produced first (calls ++ [call]) id object := by
  obtain ⟨earlier, hprefix, hmade⟩ := h
  exact ⟨earlier, hprefix.trans (List.prefix_append ..), hmade⟩

/-- As long as every change is to a registered id, there is a scene once one was entered. -/
theorem shown_of_registered {first : ι} {calls : List (Call ι σ)} (h : Registered first calls)
    {before : List (Call ι σ)} (hbefore : before <+: calls)
    (hentered : ∃ serial, .entered serial ∈ (after first before).lifetimes) :
    ∃ object, (after first before).current = some object ∧
      Produced first before (after first before).currentID object := by
  induction before using List.reverseRecOn with
  | nil =>
    obtain ⟨serial, hserial⟩ := hentered
    cases hserial
  | append_singleton before call ih =>
    have hearlier : before <+: calls := (List.prefix_append ..).trans hbefore
    rw [after_concat] at hentered ⊢
    cases call with
    | registerScene id scene =>
      obtain ⟨object, hcurrent, hproduced⟩ := ih hearlier hentered
      exact ⟨object, hcurrent, hproduced.append _⟩
    | changeScene id =>
      cases hfactory : (after first before).factories id with
      | none =>
        have hnone := (h before id hbefore).resolve_left (not_not.mpr hfactory)
        have hsame : (after first before).perform (.changeScene id) = after first before := by
          simp only [perform, changeScene, leave, hnone, hfactory]
        rw [hsame] at hentered
        obtain ⟨object, hcurrent, _⟩ := ih hearlier hentered
        rw [hnone] at hcurrent
        cases hcurrent
      | some scene =>
        obtain ⟨hcurrent, hid⟩ := changeScene_known hfactory
        refine ⟨_, hcurrent, ?_⟩
        rw [perform, hid]
        exact ⟨before, List.prefix_refl _, hfactory, rfl⟩

/-- Under an arbitrary sequence of calls the manager is consistent at every moment exactly when no
change to an unregistered id takes a current scene away. -/
theorem consistent_iff_registered (first : ι) (calls : List (Call ι σ)) :
    Consistent first calls ↔ Registered first calls := by
  constructor
  · intro h before id hprefix
    by_cases hfactory : (after first before).factories id = none
    · right
      have hgone := (changeScene_unknown hfactory).1
      rw [← (h.unknown before id hprefix hfactory).1, after_concat]
      exact hgone
    · exact Or.inl hfactory
  · intro h
    refine ⟨fun before hbefore ↦ shown_of_registered h hbefore,
      fun before _ ↦ orderly_after first before, fun before id hprefix hfactory ↦ ?_⟩
    obtain ⟨hgone, hid⟩ := changeScene_unknown hfactory
    have hnone := (h before id hprefix).resolve_left (not_not.mpr hfactory)
    rw [after_concat, hnone]
    exact ⟨hgone, hid⟩

/-- A change to the game scene before it is registered takes the login scene away. -/
theorem not_consistent_unregistered :
    ¬Consistent SceneID.login [.registerScene .login (Scene.login [] []), .changeScene .login,
      .changeScene .game] := by
  intro h
  have hunknown := (h.unknown [.registerScene .login (.login [] []), .changeScene .login] .game
    (List.prefix_refl _) rfl).1
  have hshown := congrArg Option.isSome hunknown
  exact absurd hshown (by decide)

end Calls

end SceneManager

end NetPixeld
