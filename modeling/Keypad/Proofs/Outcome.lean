/-!
# Outcomes of steps that may fail

## Main results

* `bind_eq_ok_iff`, `map_eq_ok_iff`: a sequence of steps succeeds if each of them does
* `bind_eq_error_iff`, `map_eq_error_iff`: it fails if one of them does
-/

namespace Keypad

variable {ε α β γ : Type}

theorem bind_eq_ok_iff {outcome : Except ε α} {next : α → Except ε β} {b : β} :
    outcome.bind next = .ok b ↔ ∃ a, outcome = .ok a ∧ next a = .ok b := by
  cases outcome with
  | error fault => simp [Except.bind]
  | ok a => simp [Except.bind]

theorem map_eq_ok_iff {outcome : Except ε α} {f : α → β} {b : β} :
    outcome.map f = .ok b ↔ ∃ a, outcome = .ok a ∧ f a = b := by
  cases outcome with
  | error fault => simp [Except.map]
  | ok a => simp [Except.map]

/-- A sequence of steps fails at the first step or at a later one. -/
theorem bind_eq_error_iff {outcome : Except ε α} {next : α → Except ε β} {fault : ε} :
    outcome.bind next = .error fault ↔
      outcome = .error fault ∨ ∃ a, outcome = .ok a ∧ next a = .error fault := by
  cases outcome with
  | error cause => simp [Except.bind]
  | ok a => simp [Except.bind]

theorem map_eq_error_iff {outcome : Except ε α} {f : α → β} {fault : ε} :
    outcome.map f = .error fault ↔ outcome = .error fault := by
  cases outcome with
  | error cause => simp [Except.map]
  | ok a => simp [Except.map]

theorem map_map_except (outcome : Except ε α) (f : α → β) (g : β → γ) :
    (outcome.map f).map g = outcome.map fun a => g (f a) := by
  cases outcome <;> rfl

end Keypad
