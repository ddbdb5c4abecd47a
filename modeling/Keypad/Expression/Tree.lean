import Keypad.Expression.Postfix

/-!
# Expression trees

The value of an expression is the value of its tree: the left operand first, then the right one,
then the operator.  Postfix order is the postorder of the tree, so evaluating over a stack is
evaluating the tree.

## Main definitions

* `Tree`, `Tree.value`
* `Tree.postorder`: the tokens of a tree, operands before their operator

## Main results

* `valueOver_postorder`: in front of any tokens, a tree leaves its value on the stack
* `postfixValue_postorder`: a tree in postfix order has the value of the tree
-/

namespace Keypad

/-- An expression apart from how it is written. -/
inductive Tree where
  | leaf (value : Binary64)
  | node (op : Operator) (left right : Tree)
  deriving DecidableEq, Repr

namespace Tree

/-- The value of a tree, or the first fault on the way from left to right. -/
def value : Tree → Except Fault Binary64
  | .leaf x => .ok x
  | .node op left right => do op.apply (← left.value) (← right.value)

/-- The tokens of a tree in postfix order. -/
def postorder : Tree → List Token
  | .leaf x => [.number x]
  | .node op left right => left.postorder ++ (right.postorder ++ [.operator op])

end Tree

/-- **One step for a whole tree**: a tree in front of any tokens leaves its value on the stack, or
stops with its fault. -/
theorem valueOver_postorder (tree : Tree) (stack : List Binary64) (rest : List Token) :
    valueOver stack (tree.postorder ++ rest) =
      tree.value.bind fun x => valueOver (x :: stack) rest := by
  induction tree generalizing stack rest with
  | leaf x =>
    change valueOver stack (.number x :: rest) = valueOver (x :: stack) rest
    simp [valueOver]
  | node op left right ihl ihr =>
    simp only [Tree.postorder, Tree.value, List.append_assoc, List.singleton_append]
    rw [ihl]
    cases hl : left.value with
    | error fault => rfl
    | ok l =>
      change valueOver (l :: stack) (right.postorder ++ .operator op :: rest) = _
      rw [ihr]
      cases hr : right.value with
      | error fault => rfl
      | ok r =>
        -- both operands wait on the stack, the right one on top
        change valueOver (r :: l :: stack) (.operator op :: rest) =
          (op.apply l r).bind fun x => valueOver (x :: stack) rest
        cases ha : op.apply l r with
        | error fault => simp [valueOver, ha, Except.bind]
        | ok x => simp [valueOver, ha, Except.bind]

theorem postfixValue_postorder (tree : Tree) :
    postfixValue tree.postorder = tree.value := by
  have h := valueOver_postorder tree [] []
  rw [List.append_nil] at h
  unfold postfixValue
  rw [h]
  cases tree.value with
  | error fault => rfl
  | ok x => rfl

end Keypad
