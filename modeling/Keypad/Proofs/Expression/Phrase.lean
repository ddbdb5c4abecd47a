import Keypad.Expression.Tree
import Keypad.Proofs.Expression.Run

/-!
# Phrases as tokens

A phrase of the grammar, as it is written, is split into its tokens, whatever follows it: a minus
sign after an operand is an operator, and one before a literal belongs to it.

## Main definitions

* `Infix.tokens`, `Infix.tree`: the tokens of a phrase, and the tree it stands for

## Main results

* `scan_text`: a phrase in front of any text is read as its tokens
* `value_tree`: a phrase is worth what its tree is worth
-/

namespace Keypad

namespace Infix

/-- The number that a literal is read as. -/
def literalValue (negative : Bool) (digits : Text) : Binary64 :=
  (Numeral.read? (signText negative ++ digits)).getD .nan

/-- The tokens of a phrase. -/
def tokens : Infix → List Token
  | .literal negative digits => [.number (literalValue negative digits)]
  | .group inner => .opening :: (inner.tokens ++ [.closing])
  | .binary op left right => left.tokens ++ .operator op :: right.tokens

/-- The tree of a phrase: its parentheses are in the shape alone. -/
def tree : Infix → Tree
  | .literal negative digits => .leaf (literalValue negative digits)
  | .group inner => inner.tree
  | .binary op left right => .node op left.tree right.tree

theorem read?_eq_literalValue {digits : Text} (h : isLiteral digits = true) (negative : Bool) :
    Numeral.read? (signText negative ++ digits) = some (literalValue negative digits) := by
  obtain ⟨x, hx⟩ := exists_read?_of_isLiteral h negative
  rw [literalValue, hx, Option.getD_some]

theorem tokens_ne_nil (phrase : Infix) : phrase.tokens ≠ [] := by
  cases phrase <;> simp [tokens]

/-- A phrase is worth what its tree is worth. -/
theorem value_tree {level : Nat} {phrase : Infix} (h : phrase.Fits level) :
    phrase.tree.value = phrase.value := by
  induction phrase generalizing level with
  | literal negative digits =>
    rw [tree, Tree.value, value, read?_eq_literalValue h]
  | group inner ih => exact ih h
  | binary op left right ihl ihr =>
    obtain ⟨-, hleft, hright⟩ := h
    rw [tree, Tree.value, value, ihl hleft, ihr hright]

end Infix

namespace Token

/-- Of the previous token only counts whether a number is expected after it. -/
theorem scan_congr {previous other : Option Token}
    (h : expectsNumber previous = expectsNumber other) (t : Text) :
    scan previous t = scan other t := by
  cases t with
  | nil => rw [scan_nil, scan_nil]
  | cons c rest =>
    have hbegins : beginsNumber previous c rest = beginsNumber other c rest := by
      rw [beginsNumber, beginsNumber, h]
    cases hb : beginsNumber other c rest with
    | true => rw [scan_of_beginsNumber hb, scan_of_beginsNumber (hbegins.trans hb)]
    | false => rw [scan_of_not_beginsNumber hb, scan_of_not_beginsNumber (hbegins.trans hb)]

/-- A character that begins no number is read alone. -/
theorem scan_symbol {previous : Option Token} {c : Char} {rest : Text} {token : Token}
    (hc : isNumeralChar c = false) (hminus : c = '-' → expectsNumber previous = false)
    (htoken : ofSymbol c = .ok token) :
    scan previous (c :: rest) = (scan (some token) rest).map ([token] ++ ·) := by
  have hbegins : beginsNumber previous c rest = false := by
    by_cases h : c = '-'
    · simp [beginsNumber, hc, hminus h]
    · simp [beginsNumber, hc, h]
  rw [scan_of_not_beginsNumber hbegins, htoken]
  rfl

theorem map_append_map (first second : List Token) (outcome : Except Fault (List Token)) :
    (outcome.map (second ++ ·)).map (first ++ ·) = outcome.map ((first ++ second) ++ ·) := by
  rw [map_map_except]
  simp only [List.append_assoc]

/-- **Phrases are read as their tokens.**  Where a number is expected, a phrase in front of a text
that continues no number is split into its tokens, and the text is split as after an operand. -/
theorem scan_text {level : Nat} {phrase : Infix} (h : phrase.Fits level)
    (previous : Option Token) (hprevious : expectsNumber previous = true) (rest : Text)
    (hrest : rest.head?.any isNumeralChar = false) :
    scan previous (phrase.text ++ rest) =
      (scan (some .closing) rest).map (phrase.tokens ++ ·) := by
  induction phrase generalizing level previous rest with
  | literal negative digits =>
    have hne : digits ≠ [] := by
      rintro rfl
      exact absurd h (by simp [Infix.Fits, isLiteral])
    have hrun : IsRunBefore digits rest := ⟨hne, isNumeralChar_of_isLiteral h, hrest⟩
    have hafter : scan (some (.number (Infix.literalValue negative digits))) rest =
        scan (some .closing) rest := scan_congr (by rfl) rest
    rw [Infix.text, List.append_assoc, scan_signText_append hrun fun _ => hprevious,
      Infix.read?_eq_literalValue h negative, ← hafter]
    rfl
  | group inner ih =>
    have hopen : scan previous ('(' :: (inner.text ++ ')' :: rest)) =
        (scan (some .opening) (inner.text ++ ')' :: rest)).map ([.opening] ++ ·) :=
      scan_symbol (by decide) (fun hc => absurd hc (by decide)) rfl
    have hclose : scan (some .closing) (')' :: rest) =
        (scan (some .closing) rest).map ([.closing] ++ ·) :=
      scan_symbol (by decide) (fun hc => absurd hc (by decide)) rfl
    -- the closing parenthesis ends the number before it, if there is one
    have hinner := ih h (some .opening) rfl (')' :: rest) (by rfl)
    rw [hclose, map_append_map inner.tokens [.closing]] at hinner
    rw [Infix.text, List.cons_append, List.append_assoc, List.singleton_append, hopen, hinner]
    exact map_append_map [.opening] (inner.tokens ++ [.closing]) _
  | binary op left right ihl ihr =>
    obtain ⟨-, hleft, hright⟩ := h
    have hsymbol : scan (some .closing) (op.symbol :: (right.text ++ rest)) =
        (scan (some (.operator op)) (right.text ++ rest)).map ([.operator op] ++ ·) :=
      scan_symbol (isNumeralChar_symbol op) (fun _ => rfl) (ofSymbol_symbol op)
    -- a sign after the operator belongs to the right operand, and the operator ends the left one
    have hr := ihr hright (some (.operator op)) rfl rest hrest
    have hl := ihl hleft previous hprevious (op.symbol :: (right.text ++ rest))
      (by simp [isNumeralChar_symbol])
    rw [hsymbol, hr, map_append_map [.operator op] right.tokens] at hl
    rw [Infix.text, List.append_assoc, List.cons_append, hl]
    exact map_append_map left.tokens (.operator op :: right.tokens) _

theorem ofText_text {level : Nat} {phrase : Infix} (h : phrase.Fits level) :
    ofText phrase.text = .ok phrase.tokens := by
  have := scan_text h none rfl [] rfl
  rw [List.append_nil, scan_nil] at this
  rw [ofText, this]
  exact congrArg Except.ok (List.append_nil _)

end Token

end Keypad
