import Keypad.Proofs.Expression.Parentheses

/-!
# What reordering keeps

Tokens are brought into postfix order exactly if their parentheses are balanced, whatever else
they are.  Of such tokens nothing is lost but the parentheses: the numbers keep their order, and
every operator comes out once, for it waits on the stack until it is released.

## Main definitions

* `Token.number?`, `Token.operator?`: the tokens that are kept
* `Waiting.Rearranges`: what tokens over a stack become in postfix order

## Main results

* `rearranges_of_arrange?`: numbers, operators and parentheses over a stack
* `postfixOrder_iff_isBalanced`: when tokens are reordered, and what becomes of them
-/

namespace Keypad

namespace Token

/-! ## What tokens hold -/

/-- The value of a number. -/
def number? : Token → Option Binary64
  | .number x => some x
  | _ => none

/-- The operator of a token that is one. -/
def operator? : Token → Option Operator
  | .operator op => some op
  | _ => none

theorem filterMap_number?_map_operator (ops : List Operator) :
    (ops.map .operator).filterMap number? = [] := by
  induction ops with
  | nil => rfl
  | cons op ops ih => exact ih

theorem filterMap_operator?_map_operator (ops : List Operator) :
    (ops.map .operator).filterMap operator? = ops := by
  induction ops with
  | nil => rfl
  | cons op ops ih => exact congrArg (op :: ·) ih

/-- Tokens are numbers, operators and parentheses. -/
theorem length_eq_count (tokens : List Token) :
    tokens.length = (tokens.filterMap number?).length + (tokens.filterMap operator?).length +
      (tokens.count .opening + tokens.count .closing) := by
  induction tokens with
  | nil => rfl
  | cons token rest ih =>
    cases token <;> simp [List.filterMap_cons, number?, operator?, ih] <;> omega

end Token

namespace Waiting

open Token

/-- The operators that wait on a stack, the top one first. -/
def operators (stack : List Waiting) : List Operator :=
  stack.filterMap fun waiting =>
    match waiting with
    | .operator op => some op
    | .opening => none

/-- What tokens over a stack become in postfix order: the numbers in their order, all operators
of the stack and of the tokens, and no parenthesis. -/
structure Rearranges (stack : List Waiting) (tokens postfixed : List Token) : Prop where
  numbers : postfixed.filterMap number? = tokens.filterMap number?
  operators : (postfixed.filterMap operator?).Perm
    (operators stack ++ tokens.filterMap operator?)
  opening : .opening ∉ postfixed
  closing : .closing ∉ postfixed

variable {stack below : List Waiting} {tokens rest postfixed : List Token} {ops : List Operator}

/-! ## Released operators -/

/-- An operator takes the operators it releases off the stack. -/
theorem exists_release_eq (op : Operator) (stack : List Waiting) :
    ∃ ops, (release op stack).1 = ops.map .operator ∧
      operators stack = ops ++ operators (release op stack).2 := by
  induction stack with
  | nil => exact ⟨[], rfl, rfl⟩
  | cons waiting stack ih =>
    cases waiting with
    | opening => exact ⟨[], rfl, rfl⟩
    | operator top =>
      rw [release]
      split
      · exact ⟨[], rfl, rfl⟩
      · obtain ⟨ops, hreleased, hoperators⟩ := ih
        refine ⟨top :: ops, congrArg (.operator top :: ·) hreleased, ?_⟩
        exact congrArg (top :: ·) hoperators

/-- A closing parenthesis takes the operators it releases off the stack. -/
theorem exists_close?_eq {released : List Token} (h : close? stack = some (released, below)) :
    ∃ ops, released = ops.map .operator ∧ operators stack = ops ++ operators below := by
  induction stack generalizing released with
  | nil => cases h
  | cons waiting stack ih =>
    cases waiting with
    | opening =>
      cases h
      exact ⟨[], rfl, rfl⟩
    | operator op =>
      obtain ⟨⟨before, _⟩, hclose, heq⟩ := Option.map_eq_some_iff.mp h
      cases heq
      obtain ⟨ops, rfl, hoperators⟩ := ih hclose
      exact ⟨op :: ops, rfl, congrArg (op :: ·) hoperators⟩

/-- At the end all operators of the stack are released. -/
theorem eq_of_drain? {released : List Token} (h : drain? stack = some released) :
    released = (operators stack).map .operator := by
  induction stack generalizing released with
  | nil =>
    cases h
    rfl
  | cons waiting stack ih =>
    cases waiting with
    | opening => cases h
    | operator op =>
      obtain ⟨before, hdrain, rfl⟩ := Option.map_eq_some_iff.mp h
      exact congrArg (.operator op :: ·) (ih hdrain)

/-! ## One token after the other -/

theorem rearranges_nil (stack : List Waiting) :
    Rearranges stack [] ((operators stack).map .operator) where
  numbers := filterMap_number?_map_operator _
  operators := by
    rw [filterMap_operator?_map_operator, List.filterMap_nil, List.append_nil]
  opening := by simp
  closing := by simp

/-- Operators released off the stack come first. -/
theorem Rearranges.of_released (h : Rearranges below tokens postfixed)
    (hstack : Waiting.operators stack = ops ++ Waiting.operators below) :
    Rearranges stack tokens (ops.map .operator ++ postfixed) where
  numbers := by
    rw [List.filterMap_append, filterMap_number?_map_operator, List.nil_append, h.numbers]
  operators := by
    rw [List.filterMap_append, filterMap_operator?_map_operator, hstack, List.append_assoc]
    exact h.operators.append_left ops
  opening := by simp [h.opening]
  closing := by simp [h.closing]

/-- An operator waits on the stack. -/
theorem Rearranges.of_operator {op : Operator}
    (h : Rearranges (.operator op :: stack) rest postfixed) :
    Rearranges stack (.operator op :: rest) postfixed where
  numbers := h.numbers
  operators := h.operators.trans List.perm_middle.symm
  opening := h.opening
  closing := h.closing

theorem Rearranges.of_number {x : Binary64} (h : Rearranges stack rest postfixed) :
    Rearranges stack (.number x :: rest) (.number x :: postfixed) where
  numbers := congrArg (x :: ·) h.numbers
  operators := h.operators
  opening := by simp [h.opening]
  closing := by simp [h.closing]

/-- **What reordering keeps**, over the operators that wait on the stack. -/
theorem rearranges_of_arrange? (h : arrange? stack tokens = some postfixed) :
    Rearranges stack tokens postfixed := by
  induction tokens generalizing stack postfixed with
  | nil =>
    obtain rfl := eq_of_drain? h
    exact rearranges_nil stack
  | cons token rest ih =>
    cases token with
    | number x =>
      obtain ⟨later, hrest, rfl⟩ := Option.map_eq_some_iff.mp h
      exact (ih hrest).of_number
    | operator op =>
      obtain ⟨later, hrest, rfl⟩ := Option.map_eq_some_iff.mp h
      -- the operators it releases come out first, and it waits in their place
      obtain ⟨ops, hreleased, hoperators⟩ := exists_release_eq op stack
      rw [hreleased]
      exact (ih hrest).of_operator.of_released hoperators
    | opening =>
      -- a parenthesis on the stack is no operator
      have hrest := ih h
      exact ⟨hrest.numbers, hrest.operators, hrest.opening, hrest.closing⟩
    | closing =>
      rw [arrange?] at h
      cases hclose : close? stack with
      | none =>
        rw [hclose] at h
        cases h
      | some released =>
        obtain ⟨released, below⟩ := released
        rw [hclose] at h
        obtain ⟨later, hrest, rfl⟩ := Option.map_eq_some_iff.mp h
        obtain ⟨ops, rfl, hoperators⟩ := exists_close?_eq hclose
        -- the partner on the stack and the operators above it are gone
        have hbelow := ih hrest
        have hclosed : Rearranges below (.closing :: rest) later :=
          ⟨hbelow.numbers, hbelow.operators, hbelow.opening, hbelow.closing⟩
        exact hclosed.of_released hoperators

end Waiting

theorem postfixOrder_eq_ok_iff {tokens postfixed : List Token} :
    postfixOrder tokens = .ok postfixed ↔ Waiting.arrange? [] tokens = some postfixed := by
  unfold postfixOrder
  cases Waiting.arrange? [] tokens <;> simp

theorem exists_postfixOrder_eq_ok_iff (tokens : List Token) :
    (∃ postfixed, postfixOrder tokens = .ok postfixed) ↔ IsBalanced .opening .closing 0 tokens := by
  have hsome := Waiting.isSome_arrange? [] tokens
  rw [← Token.closes_iff_isBalanced]
  simp only [postfixOrder_eq_ok_iff, ← Option.isSome_iff_exists, hsome]
  rfl

/-- Parentheses that are not balanced make the tokens malformed. -/
theorem postfixOrder_of_not_isBalanced {tokens : List Token}
    (h : ¬ IsBalanced .opening .closing 0 tokens) : postfixOrder tokens = .error .malformed := by
  rw [← exists_postfixOrder_eq_ok_iff] at h
  unfold postfixOrder at h ⊢
  cases harrange : Waiting.arrange? [] tokens with
  | none => rfl
  | some postfixed =>
    rw [harrange] at h
    exact absurd ⟨postfixed, rfl⟩ h

/-- **When tokens are reordered, and what becomes of them.**  Reordering fails exactly on
parentheses that are not balanced.  Otherwise the numbers come out in their order, every operator
comes out once, and the parentheses are gone. -/
theorem postfixOrder_iff_isBalanced (tokens : List Token) :
    ((∃ postfixed, postfixOrder tokens = .ok postfixed) ↔
      IsBalanced .opening .closing 0 tokens) ∧
    (¬ IsBalanced .opening .closing 0 tokens → postfixOrder tokens = .error .malformed) ∧
    ∀ postfixed, postfixOrder tokens = .ok postfixed →
      (.opening ∉ postfixed ∧ .closing ∉ postfixed) ∧
      postfixed.filterMap Token.number? = tokens.filterMap Token.number? ∧
      (postfixed.filterMap Token.operator?).Perm (tokens.filterMap Token.operator?) ∧
      postfixed.length + (tokens.count .opening + tokens.count .closing) = tokens.length := by
  refine ⟨exists_postfixOrder_eq_ok_iff tokens, postfixOrder_of_not_isBalanced,
    fun postfixed hpostfixed => ?_⟩
  have h := Waiting.rearranges_of_arrange? (postfixOrder_eq_ok_iff.mp hpostfixed)
  have hoperators : (postfixed.filterMap Token.operator?).Perm
      (tokens.filterMap Token.operator?) := h.operators
  refine ⟨⟨h.opening, h.closing⟩, h.numbers, hoperators, ?_⟩
  rw [Token.length_eq_count postfixed, Token.length_eq_count tokens, h.numbers,
    hoperators.length_eq, List.count_eq_zero.mpr h.opening, List.count_eq_zero.mpr h.closing,
    Nat.add_zero]

end Keypad
