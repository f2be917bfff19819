import NetPixeld.Foundation.Bytes

/-!
# Exceptions and calls that can fail

A C++ call returns a value, throws, or never comes back because the process ends inside it. The
outcomes are kept apart because a `catch` handles only the second.
-/

namespace NetPixeld

/-- The exceptions the modelled code can meet. The identifiers are those of the JSON library. -/
inductive Exn where
  /-- `json::parse_error`: the text is not a JSON document. -/
  | parseError
  /-- `json::type_error`. -/
  | typeError (id : ℕ)
  /-- `json::out_of_range`. -/
  | outOfRange (id : ℕ)
  /-- `std::runtime_error` with its text. -/
  | runtimeError (what : Bytes)
  /-- `std::filesystem::filesystem_error`. -/
  | filesystemError
  /-- `boost::system::system_error`. -/
  | systemError
deriving DecidableEq

/-- How a call ends. -/
inductive Outcome (α : Type) where
  | returned (value : α)
  | threw (exception : Exn)
  /-- The process was killed inside the call. -/
  | died
  /-- The call dereferenced a null pointer. -/
  | crashed
deriving DecidableEq

namespace Outcome

/-- Convert the returned value. -/
def map {α β : Type} (convert : α → β) : Outcome α → Outcome β
  | returned value => .returned (convert value)
  | threw exception => .threw exception
  | died => .died
  | crashed => .crashed

theorem map_ne_crashed {α β : Type} (convert : α → β) {outcome : Outcome α}
    (h : outcome ≠ .crashed) : outcome.map convert ≠ .crashed := by
  cases outcome with
  | crashed => exact absurd rfl h
  | returned _ | threw _ | died => simp [map]

theorem map_eq_returned {α β : Type} {convert : α → β} {outcome : Outcome α} {result : β} :
    outcome.map convert = .returned result ↔
      ∃ value, outcome = .returned value ∧ convert value = result := by
  cases outcome <;> simp [map]

end Outcome

/-- A call that only computes. -/
def Outcome.ofExcept {α : Type} : Except Exn α → Outcome α
  | .ok value => .returned value
  | .error exception => .threw exception

/-- A sequence of two calls returns exactly when both do. -/
theorem bind_eq_ok {α β : Type} {first : Except Exn α} {next : α → Except Exn β} {result : β} :
    first >>= next = .ok result ↔ ∃ value, first = .ok value ∧ next value = .ok result := by
  cases first with
  | error exception =>
    constructor
    · intro h
      cases h
    · rintro ⟨_, h, _⟩
      cases h
  | ok value =>
    constructor
    · intro h
      exact ⟨value, rfl, h⟩
    · rintro ⟨_, ⟨rfl⟩, h⟩
      exact h

theorem map_eq_ok {α β : Type} {call : Except Exn α} {convert : α → β} {result : β} :
    call.map convert = .ok result ↔ ∃ value, call = .ok value ∧ convert value = result := by
  cases call with
  | error exception => simp [Except.map]
  | ok value => simp [Except.map]

end NetPixeld
