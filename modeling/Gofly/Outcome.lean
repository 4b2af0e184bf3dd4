import Mathlib.Logic.Basic
/-! When a computation that may fail succeeds or fails, by its parts. -/
namespace Gofly.Outcome
variable {x : Except ε α} {g : α → β} {h : ε → δ}

theorem bindOk : x.bind f = .ok b ↔ ∃ a, x = .ok a ∧ f a = .ok b := by cases x <;> simp [Except.bind]

theorem bindError : x.bind f = .error e ↔ x = .error e ∨ ∃ a, x = .ok a ∧ f a = .error e := by
  cases x <;> simp [Except.bind]

theorem mapOk : x.map g = .ok b ↔ ∃ a, x = .ok a ∧ g a = b := by cases x <;> simp [Except.map]

theorem mapError : x.map g = .error e ↔ x = .error e := by cases x <;> simp [Except.map]

theorem mapErrorOk : x.mapError h = .ok a ↔ x = .ok a := by
  cases x with
  | error => exact ⟨nofun,nofun⟩
  | ok =>
    show Except.ok _ = _ ↔ _
    simp

theorem mappedError (fails : x.mapError h = .error d) : ∃ e, h e = d := by
  cases x with
  | error e => exact ⟨e,Except.error.inj fails⟩
  | ok => contradiction

end Gofly.Outcome
