import Keypad.Text.Basic

/-!
# The tape of completed computations

## Main definitions

* `Entry`, `Tape`, `Tape.push`

## Main results

* `push_entries`: a push keeps the newest entries up to the limit
* `pushAll_entries`, `pushAll_entries_of_length_le`: so do any number of pushes
-/

namespace Keypad

/-- One completed computation: what was computed, and the result as it was displayed. -/
structure Entry where
  expression : Text
  result : Text
  deriving DecidableEq, Repr

/-- An entry as one line. -/
def Entry.line (entry : Entry) : Text := entry.expression ++ " = ".toList ++ entry.result

/-- The completed computations, newest first. -/
structure Tape where
  entries : List Entry
  deriving DecidableEq, Repr

namespace Tape

/-- The most entries a push leaves on the tape. -/
def limit : Nat := 50

def empty : Tape := ⟨[]⟩

/-- The tape with one more entry in front; beyond the limit the oldest entries are dropped. -/
def push (tape : Tape) (entry : Entry) : Tape := ⟨entry :: tape.entries.take (limit - 1)⟩

theorem push_entries (tape : Tape) (entry : Entry) :
    (tape.push entry).entries = (entry :: tape.entries).take limit := rfl

theorem length_push_le (tape : Tape) (entry : Entry) :
    (tape.push entry).entries.length ≤ limit := by
  rw [push_entries, List.length_take]
  exact Nat.min_le_left _ _

/-- **The newest entries**: after any pushes the tape holds the newest ones up to the limit. -/
theorem pushAll_entries (tape : Tape) (pushed : List Entry) (h : pushed ≠ []) :
    (pushed.foldl push tape).entries = (pushed.reverse ++ tape.entries).take limit := by
  induction pushed generalizing tape with
  | nil => exact absurd rfl h
  | cons entry rest ih =>
    rw [List.foldl_cons]
    by_cases hr : rest = []
    · subst hr
      rfl
    · rw [ih _ hr, push_entries, List.reverse_cons, List.append_assoc, List.singleton_append,
        List.take_append, List.take_append, List.take_take, Nat.min_eq_left (Nat.sub_le _ _)]

/-- On a tape within the limit no push at all is no exception. -/
theorem pushAll_entries_of_length_le {tape : Tape} (h : tape.entries.length ≤ limit)
    (pushed : List Entry) :
    (pushed.foldl push tape).entries = (pushed.reverse ++ tape.entries).take limit := by
  cases pushed with
  | nil => exact (List.take_of_length_le h).symm
  | cons entry rest => exact pushAll_entries tape _ (List.cons_ne_nil entry rest)

end Tape

end Keypad
