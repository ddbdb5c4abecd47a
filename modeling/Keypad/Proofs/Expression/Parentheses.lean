import Keypad.Proofs.Expression.Order
import Mathlib.Data.List.Infix

/-!
# Balanced parentheses

Parentheses are balanced if no initial part of a sequence closes more than it opens and the whole
closes as many as it opens.  Between parentheses nothing else counts, so the characters of a text
are balanced exactly if its tokens are, and the tokens exactly if their parentheses are matched one
by one.

## Main definitions

* `IsBalanced`: parentheses that balance, in tokens or characters

## Main results

* `isBalanced_cons_congr`: sequences with the same parentheses
* `closes_iff_isBalanced`: parentheses that are matched one by one are balanced
* `isBalanced_iff_of_scan`: the parentheses of a text are those of its tokens
-/

namespace Keypad

/-! ## Balanced parentheses -/

theorem forall_prefix_cons_iff {α : Type} {p : List α → Prop} {x : α} {items : List α} :
    (∀ start, start <+: x :: items → p start) ↔
      p [] ∧ ∀ start, start <+: items → p (x :: start) := by
  constructor
  · intro h
    exact ⟨h [] List.nil_prefix, fun start hstart => h _ (List.cons_prefix_cons.mpr ⟨rfl, hstart⟩)⟩
  · rintro ⟨hnil, hcons⟩ start hstart
    rcases List.prefix_cons_iff.mp hstart with rfl | ⟨tail, rfl, htail⟩
    · exact hnil
    · exact hcons tail htail

section Balance

variable {α : Type} [DecidableEq α] {opening closing : α} {depth : Nat} {items : List α}

/-- Parentheses are balanced, with `depth` of them open before the first item: no initial part of
the items closes more than are open, and at their end none is open. -/
def IsBalanced (opening closing : α) (depth : Nat) (items : List α) : Prop :=
  (∀ start, start <+: items → start.count closing ≤ depth + start.count opening) ∧
    items.count closing = depth + items.count opening

theorem isBalanced_nil_iff : IsBalanced opening closing depth [] ↔ depth = 0 := by
  simp [IsBalanced, eq_comm]

theorem isBalanced_opening_iff (hne : opening ≠ closing) :
    IsBalanced opening closing depth (opening :: items) ↔
      IsBalanced opening closing (depth + 1) items := by
  simp only [IsBalanced, forall_prefix_cons_iff, List.count_cons_self, List.count_nil,
    List.count_cons_of_ne hne, Nat.zero_le, true_and, Nat.add_right_comm depth 1, ← Nat.add_assoc]

theorem isBalanced_closing_iff (hne : opening ≠ closing) :
    IsBalanced opening closing (depth + 1) (closing :: items) ↔
      IsBalanced opening closing depth items := by
  simp only [IsBalanced, forall_prefix_cons_iff, List.count_cons_self, List.count_nil,
    List.count_cons_of_ne hne.symm, Nat.zero_le, true_and, Nat.add_right_comm depth 1,
    Nat.add_le_add_iff_right, Nat.add_right_cancel_iff]

theorem not_isBalanced_closing (hne : opening ≠ closing) :
    ¬ IsBalanced opening closing 0 (closing :: items) := by
  intro h
  -- the closing one alone is an initial part
  have := h.1 [closing] (List.cons_prefix_cons.mpr ⟨rfl, List.nil_prefix⟩)
  simp [List.count_cons_of_ne hne.symm] at this

theorem isBalanced_cons_iff_of_ne {x : α} (hopening : x ≠ opening) (hclosing : x ≠ closing) :
    IsBalanced opening closing depth (x :: items) ↔ IsBalanced opening closing depth items := by
  simp only [IsBalanced, forall_prefix_cons_iff, List.count_cons_of_ne hopening,
    List.count_cons_of_ne hclosing, List.count_nil, Nat.zero_le, true_and]

/-! ### Two sequences -/

variable {β : Type} [DecidableEq β] {start finish y : β} {others : List β} {x : α}

/-- Parentheses in front of two sequences that balance alike. -/
theorem isBalanced_cons_congr (hne : opening ≠ closing) (hother : start ≠ finish)
    (hopening : x = opening ↔ y = start) (hclosing : x = closing ↔ y = finish)
    (h : ∀ depth, IsBalanced opening closing depth items ↔ IsBalanced start finish depth others)
    (depth : Nat) :
    IsBalanced opening closing depth (x :: items) ↔
      IsBalanced start finish depth (y :: others) := by
  by_cases hx : x = opening
  · obtain rfl := hopening.mp hx
    subst hx
    rw [isBalanced_opening_iff hne, isBalanced_opening_iff hother, h]
  by_cases hx' : x = closing
  · obtain rfl := hclosing.mp hx'
    subst hx'
    -- with none open, neither sequence goes on
    cases depth with
    | zero => exact iff_of_false (not_isBalanced_closing hne) (not_isBalanced_closing hother)
    | succ depth => rw [isBalanced_closing_iff hne, isBalanced_closing_iff hother, h]
  · rw [isBalanced_cons_iff_of_ne hx hx', h,
      isBalanced_cons_iff_of_ne (fun hy => hx (hopening.mpr hy)) fun hy => hx' (hclosing.mpr hy)]

theorem isBalanced_append_iff_of_notMem {between : List α} (hopening : opening ∉ between)
    (hclosing : closing ∉ between) (depth : Nat) :
    IsBalanced opening closing depth (between ++ items) ↔
      IsBalanced opening closing depth items := by
  induction between with
  | nil => rfl
  | cons x between ih =>
    rw [List.mem_cons, not_or] at hopening hclosing
    rw [List.cons_append, isBalanced_cons_iff_of_ne (Ne.symm hopening.1) (Ne.symm hclosing.1),
      ih hopening.2 hclosing.2]

end Balance

namespace Token

/-- **Parentheses that are matched one by one are balanced.** -/
theorem closes_iff_isBalanced (depth : Nat) (tokens : List Token) :
    closes depth tokens = true ↔ IsBalanced .opening .closing depth tokens := by
  induction tokens generalizing depth with
  | nil => rw [closes, isBalanced_nil_iff, beq_iff_eq]
  | cons token rest ih =>
    cases token with
    | number x => rw [closes, ih, isBalanced_cons_iff_of_ne (by simp) (by simp)]
    | operator op => rw [closes, ih, isBalanced_cons_iff_of_ne (by simp) (by simp)]
    | opening => rw [closes, ih, isBalanced_opening_iff (by simp)]
    | closing =>
      cases depth with
      | zero => exact iff_of_false (by simp [closes]) (not_isBalanced_closing (by simp))
      | succ depth => rw [closes, ih, isBalanced_closing_iff (by simp)]

end Token

/-! ## Parentheses of a text -/

variable {t : Text}

/-- Blanks are no parentheses. -/
theorem isBalanced_withoutBlanks_iff (source : Text) (depth : Nat) :
    IsBalanced '(' ')' depth (withoutBlanks source) ↔ IsBalanced '(' ')' depth source := by
  induction source generalizing depth with
  | nil => rfl
  | cons c source ih =>
    cases hc : Text.isBlank c with
    | true =>
      have hopening : c ≠ '(' := by
        rintro rfl
        exact absurd hc (by decide)
      have hclosing : c ≠ ')' := by
        rintro rfl
        exact absurd hc (by decide)
      rw [withoutBlanks, List.filter_cons_of_neg (by simp [hc]),
        isBalanced_cons_iff_of_ne hopening hclosing]
      exact ih depth
    | false =>
      rw [withoutBlanks, List.filter_cons_of_pos (by simp [hc])]
      exact isBalanced_cons_congr (by decide) (by decide) Iff.rfl Iff.rfl ih depth

/-- **The parentheses of a text are those of its tokens.** -/
theorem isBalanced_iff_of_scan {previous : Option Token} {tokens : List Token}
    (hscan : Token.scan previous t = .ok tokens) (depth : Nat) :
    IsBalanced '(' ')' depth t ↔ IsBalanced .opening .closing depth tokens := by
  induction previous, t using Token.scan_induction generalizing tokens depth with
  | nil previous =>
    rw [Token.scan_nil] at hscan
    cases hscan
    rw [isBalanced_nil_iff, isBalanced_nil_iff]
  | number previous negative run after hrun hexpects ih =>
    obtain ⟨x, later, -, hafter, rfl⟩ :=
      (Token.scan_signText_append_eq_ok_iff hrun hexpects).mp hscan
    -- neither the sign nor the run holds a parenthesis
    have hnone : ∀ paren, isNumeralChar paren = false → paren ≠ '-' →
        paren ∉ signText negative ++ run := by
      intro paren hparen hminus hmem
      rcases List.mem_append.mp hmem with hmem | hmem
      · cases negative with
        | true => exact hminus (by simpa [signText] using hmem)
        | false => simp [signText] at hmem
      · rw [hrun.numeral paren hmem] at hparen
        cases hparen
    rw [← List.append_assoc, isBalanced_append_iff_of_notMem (hnone '(' (by decide) (by decide))
      (hnone ')' (by decide) (by decide)), isBalanced_cons_iff_of_ne (by simp) (by simp)]
    exact ih x hafter depth
  | symbol previous c rest hbegins ih =>
    obtain ⟨token, later, htoken, hrest, rfl⟩ := (Token.scan_cons_eq_ok_iff hbegins).mp hscan
    -- a parenthesis is the token of that parenthesis, and an operator is neither
    have hparens : (c = '(' ↔ token = .opening) ∧ (c = ')' ↔ token = .closing) := by
      rcases Token.ofSymbol_cases htoken with ⟨rfl, rfl⟩ | ⟨rfl, rfl⟩ | ⟨op, rfl, rfl⟩
      · decide
      · decide
      · cases op <;> decide
    exact isBalanced_cons_congr (by decide) (by decide) hparens.1 hparens.2 (ih token hrest) depth

end Keypad
