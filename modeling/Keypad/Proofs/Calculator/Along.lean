import Keypad.Operation

/-!
# Conditions along a run

What an operation keeps only under a condition, a run keeps if the condition holds at each of its
operations.

## Main definitions

* `Calculator.Along`: a condition holds at every operation of a run

## Main results

* `Along.of_step`: a property kept under a condition is kept by a run along which it holds
* `along_iff`: a condition along a run is one at every operation after those before it
-/

namespace Keypad

namespace Calculator

/-- At every operation of a run a condition holds of the calculator there and the operation. -/
def Along (P : Calculator → Operation → Prop) : Calculator → List Operation → Prop
  | _, [] => True
  | c, operation :: rest => P c operation ∧ Along P (c.perform operation) rest

variable {P : Calculator → Operation → Prop} {c : Calculator}

@[simp] theorem along_nil : Along P c [] := trivial

@[simp] theorem along_cons (operation : Operation) (rest : List Operation) :
    Along P c (operation :: rest) ↔ P c operation ∧ Along P (c.perform operation) rest := Iff.rfl

instance decidableAlong [∀ c operation, Decidable (P c operation)] :
    (c : Calculator) → (operations : List Operation) → Decidable (Along P c operations)
  | _, [] => isTrue trivial
  | c, operation :: rest =>
    have := decidableAlong (c.perform operation) rest
    inferInstanceAs (Decidable (P c operation ∧ Along P (c.perform operation) rest))

theorem along_append (first second : List Operation) :
    Along P c (first ++ second) ↔ Along P c first ∧ Along P (c.performAll first) second := by
  induction first generalizing c with
  | nil => simp
  | cons operation rest ih => rw [List.cons_append, along_cons, along_cons, ih, and_assoc]; rfl

/-- A condition along a run holds at each operation, after those before it. -/
theorem along_iff (operations : List Operation) :
    Along P c operations ↔
      ∀ before operation, before ++ [operation] <+: operations →
        P (c.performAll before) operation := by
  constructor
  · rintro h before operation ⟨after, rfl⟩
    rw [List.append_assoc, along_append] at h
    exact h.2.1
  · intro h
    induction operations generalizing c with
    | nil => exact along_nil
    | cons operation rest ih =>
      refine ⟨h [] operation (by simp), ih fun before other hbegins => ?_⟩
      exact h (operation :: before) other (by simpa using hbegins)

/-- **Conditional invariants**: what every operation of a reachable calculator keeps under a
condition, a run keeps along which the condition holds. -/
theorem Along.of_step {I : Calculator → Prop} {operations : List Operation}
    (step : ∀ c operation, Reachable c → P c operation → I c → I (c.perform operation))
    (hreachable : Reachable c) (hc : I c) (h : Along P c operations) :
    I (c.performAll operations) := by
  induction operations generalizing c with
  | nil => exact hc
  | cons operation rest ih =>
    exact ih (hreachable.perform operation) (step c operation hreachable h.1 hc) h.2

end Calculator

end Keypad
