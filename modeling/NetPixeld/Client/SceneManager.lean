import Mathlib.Data.Nat.Notation
import Mathlib.Logic.Function.Basic

/-!
# The scene manager

A factory for each registered id, and at most one scene object, which is replaced as a whole. The
objects are numbered in the order of their construction, and what happens to them is logged for the
statements; no code reads either.
-/

namespace NetPixeld

/-- What happens to a scene object. -/
inductive Lifetime (ι : Type) where
  | constructed (serial : ℕ) (id : ι)
  | entered (serial : ℕ)
  | exited (serial : ℕ)
  | destroyed (serial : ℕ)
deriving DecidableEq

/-- A scene object and its number. -/
structure SceneObject (σ : Type) where
  serial : ℕ
  scene : σ

structure SceneManager (ι σ : Type) where
  currentID : ι
  current : Option (SceneObject σ) := none
  /-- The state in which the factory of an id constructs its scene. -/
  factories : ι → Option σ := fun _ ↦ none
  constructed : ℕ := 0
  lifetimes : List (Lifetime ι) := []

namespace SceneManager

variable {ι σ : Type}

def registerScene [DecidableEq ι] (manager : SceneManager ι σ) (id : ι) (scene : σ) :
    SceneManager ι σ :=
  { manager with factories := Function.update manager.factories id (some scene) }

/-- The first half of `changeScene`: the current scene is left and destroyed. -/
def leave (manager : SceneManager ι σ) : SceneManager ι σ :=
  match manager.current with
  | none => manager
  | some object =>
      { manager with
        current := none
        lifetimes := manager.lifetimes ++ [.exited object.serial, .destroyed object.serial] }

/-- `changeScene`: under an unknown id there is no scene afterwards. -/
def changeScene (manager : SceneManager ι σ) (id : ι) : SceneManager ι σ :=
  let left := manager.leave
  match left.factories id with
  | none => left
  | some scene =>
      let serial := left.constructed
      { left with
        currentID := id
        current := some ⟨serial, scene⟩
        constructed := serial + 1
        lifetimes := left.lifetimes ++ [.constructed serial id, .entered serial] }

/-- Replace the state of the current scene. -/
def updateCurrent (manager : SceneManager ι σ) (scene : σ) : SceneManager ι σ :=
  { manager with current := manager.current.map fun object ↦ { object with scene := scene } }

/-- The scene `current()` points to. -/
def scene (manager : SceneManager ι σ) : Option σ := manager.current.map SceneObject.scene

@[simp]
theorem leave_factories (manager : SceneManager ι σ) :
    manager.leave.factories = manager.factories := by
  unfold leave
  split <;> rfl

@[simp]
theorem changeScene_factories (manager : SceneManager ι σ) (id : ι) :
    (manager.changeScene id).factories = manager.factories := by
  unfold changeScene
  dsimp only
  split
  · exact manager.leave_factories
  · exact manager.leave_factories

theorem leave_current (manager : SceneManager ι σ) : manager.leave.current = none := by
  unfold leave
  split
  · next hcurrent => exact hcurrent
  · rfl

/-- Changing to an id makes a fresh object of its factory current. -/
theorem scene_changeScene_eq (manager : SceneManager ι σ) (id : ι) :
    (manager.changeScene id).scene = manager.factories id := by
  unfold changeScene
  dsimp only
  rw [leave_factories]
  cases manager.factories id with
  | some scene => rfl
  | none => exact congrArg (Option.map SceneObject.scene) manager.leave_current

theorem scene_changeScene {manager : SceneManager ι σ} {id : ι} {scene : σ}
    (h : manager.factories id = some scene) : (manager.changeScene id).scene = some scene :=
  (manager.scene_changeScene_eq id).trans h

theorem scene_updateCurrent {manager : SceneManager ι σ} {before : σ}
    (h : manager.scene = some before) (after : σ) :
    (manager.updateCurrent after).scene = some after := by
  obtain ⟨object, hobject, _⟩ := Option.map_eq_some_iff.mp h
  simp [scene, updateCurrent, hobject]

end SceneManager

end NetPixeld
