import Keypad.Expression.Tree
import Mathlib.Data.List.Forall2

/-!
# What postfix evaluation accepts

Evaluation over a stack succeeds only on the postorder of a tree, and then with its value: each
operand on the stack is the value of a tree whose postorder has been read.  The tree is the only
one with this postorder, since its last token tells where its right operand ends.

## Main results

* `exists_tree_of_valueOver`: the trees on the stack and the remaining tokens are one tree
* `postfixValue_eq_ok_iff`: postfix evaluation succeeds exactly on trees that have a value
* `append_postorder_inj`: what stands before a postorder determines it
* `postfixValue_eq_ok_iff_unique`: postfix evaluation is the evaluation of the one tree
-/

namespace Keypad

/-- Operands on a stack as the values of trees. -/
def HaveValues (trees : List Tree) (stack : List Binary64) : Prop :=
  List.Forall₂ (fun tree x => tree.value = .ok x) trees stack

/-- An operator that can be applied joins two trees on the stack. -/
theorem exists_node_of_operator {trees : List Tree} {stack : List Binary64}
    (hvalues : HaveValues trees stack) {op : Operator} {rest : List Token} {v : Binary64}
    (h : valueOver stack (.operator op :: rest) = .ok v) :
    ∃ rightTree leftTree below x under, trees = rightTree :: leftTree :: below ∧
      HaveValues (.node op leftTree rightTree :: below) (x :: under) ∧
      valueOver (x :: under) rest = .ok v := by
  cases hvalues with
  | nil => simp [valueOver] at h
  | @cons rightTree right _ _ hright hrest =>
    cases hrest with
    | nil => simp [valueOver] at h
    | @cons leftTree left below under hleft hrest =>
      rw [valueOver] at h
      cases happly : op.apply left right with
      | error fault =>
        rw [happly] at h
        cases h
      | ok x =>
        rw [happly] at h
        refine ⟨rightTree, leftTree, below, x, under, rfl, .cons ?_ hrest, h⟩
        rw [Tree.value, hleft, hright]
        exact happly

/-- **The trees on the stack and the remaining tokens are one tree.** -/
theorem exists_tree_of_valueOver {trees : List Tree} {stack : List Binary64}
    (hvalues : HaveValues trees stack) {tokens : List Token} {v : Binary64}
    (h : valueOver stack tokens = .ok v) :
    ∃ tree : Tree, tree.postorder = trees.reverse.flatMap Tree.postorder ++ tokens ∧
      tree.value = .ok v := by
  induction tokens generalizing trees stack with
  | nil =>
    cases hvalues with
    | nil => simp [valueOver] at h
    | cons htree hrest =>
      cases hrest with
      | nil =>
        cases h
        exact ⟨_, by simp, htree⟩
      | cons _ _ => simp [valueOver] at h
  | cons token rest ih =>
    cases token with
    | number x =>
      -- a number is pushed as a leaf
      have hnext : valueOver (x :: stack) rest = .ok v := by
        rw [← h]
        cases stack with
        | nil => rw [valueOver]
        | cons y stack => rw [valueOver]
      have hleaf : HaveValues (.leaf x :: trees) (x :: stack) := .cons rfl hvalues
      obtain ⟨tree, horder, hvalue⟩ := ih hleaf hnext
      refine ⟨tree, ?_, hvalue⟩
      rw [horder]
      simp [Tree.postorder]
    | operator op =>
      -- an operator joins the two trees on top, the topmost one as its right operand
      obtain ⟨rightTree, leftTree, trees, x, stack, rfl, hnode, hnext⟩ :=
        exists_node_of_operator hvalues h
      obtain ⟨tree, horder, hvalue⟩ := ih hnode hnext
      refine ⟨tree, ?_, hvalue⟩
      rw [horder]
      simp [Tree.postorder]
    | opening => simp [valueOver] at h
    | closing => simp [valueOver] at h

/-- Postfix evaluation succeeds exactly on trees that have a value. -/
theorem postfixValue_eq_ok_iff (tokens : List Token) (v : Binary64) :
    postfixValue tokens = .ok v ↔ ∃ tree : Tree, tree.postorder = tokens ∧ tree.value = .ok v := by
  constructor
  · intro h
    exact exists_tree_of_valueOver .nil h
  · rintro ⟨tree, rfl, hvalue⟩
    rw [postfixValue_postorder, hvalue]

/-! ## One tree for each postorder -/

/-- **A postorder can be told from what stands before it**: of the trees that may end a list of
tokens, only one does. -/
theorem append_postorder_inj {tree other : Tree} {before start : List Token}
    (h : before ++ tree.postorder = start ++ other.postorder) :
    before = start ∧ tree = other := by
  -- the last token is the number of a leaf or the operator of a node, and before the operator
  -- stand the right operand and then the left one
  induction tree generalizing other before start with
  | leaf x =>
    cases other with
    | leaf y =>
      obtain ⟨hbefore, hlast⟩ := List.append_inj' h rfl
      cases hlast
      exact ⟨hbefore, rfl⟩
    | node op left right =>
      have h : before ++ [Token.number x] =
          (start ++ left.postorder ++ right.postorder) ++ [.operator op] := by
        simpa [Tree.postorder] using h
      cases List.append_inj_right' h rfl
  | node op left right ihl ihr =>
    have h : (before ++ left.postorder ++ right.postorder) ++ [.operator op] =
        start ++ other.postorder := by
      simpa [Tree.postorder] using h
    cases other with
    | leaf y => cases List.append_inj_right' h rfl
    | node otherOp otherLeft otherRight =>
      have h : (before ++ left.postorder ++ right.postorder) ++ [.operator op] =
          (start ++ otherLeft.postorder ++ otherRight.postorder) ++ [.operator otherOp] := by
        simpa [Tree.postorder] using h
      obtain ⟨hoperands, hlast⟩ := List.append_inj' h rfl
      cases hlast
      obtain ⟨hleft, rfl⟩ := ihr hoperands
      obtain ⟨hbefore, rfl⟩ := ihl hleft
      exact ⟨hbefore, rfl⟩

theorem postorder_injective : Function.Injective Tree.postorder := by
  intro tree other h
  have h : [] ++ tree.postorder = [] ++ other.postorder := h
  exact (append_postorder_inj h).2

/-- **Postfix evaluation is the evaluation of the one tree.**  It succeeds exactly on the postorder
of a tree that has a value, with this value, and no other tree has that postorder; and on the
postorder of any tree it fails or succeeds as the evaluation of the tree does. -/
theorem postfixValue_eq_ok_iff_unique :
    (∀ tokens v, postfixValue tokens = .ok v ↔
      ∃ tree : Tree, tree.postorder = tokens ∧ tree.value = .ok v ∧
        ∀ other : Tree, other.postorder = tokens → other = tree) ∧
    ∀ tree : Tree, postfixValue tree.postorder = tree.value := by
  refine ⟨fun tokens v => ?_, postfixValue_postorder⟩
  rw [postfixValue_eq_ok_iff]
  constructor
  · rintro ⟨tree, rfl, hvalue⟩
    exact ⟨tree, rfl, hvalue, fun other hother => postorder_injective hother⟩
  · rintro ⟨tree, horder, hvalue, -⟩
    exact ⟨tree, horder, hvalue⟩

end Keypad
