import Keypad.Proofs.Expression.Phrase

/-!
# Postfix order of a phrase

While the tokens of a phrase are reordered, part of its postorder is released at once and the
operators on its right edge wait on the stack.  They bind at least as tightly as the phrase is
asked to, so whatever may follow the phrase releases them all.

## Main definitions

* `Infix.released`, `Infix.held`: what a phrase releases, and the operators it leaves waiting
* `Waiting.Looser`: a stack on which no tight operator waits
* `Token.closes`, `Waiting.openings`: matching parentheses, and those open on a stack

## Main results

* `arrange?_tokens`: a phrase in front of any tokens releases one part and leaves the other
* `postfixOrder_tokens`: a phrase on its own is brought into postorder
* `isSome_arrange?`: reordering fails exactly on parentheses that do not match
-/

namespace Keypad

namespace Infix

/-- The operators of a phrase that still wait after its last token, the top one first. -/
def held : Infix → List Operator
  | .literal _ _ => []
  | .group _ => []
  | .binary op _ right => right.held ++ [op]

/-- The tokens that a phrase has released after its last one. -/
def released : Infix → List Token
  | .literal negative digits => [.number (literalValue negative digits)]
  | .group inner => inner.tree.postorder
  | .binary _ left right => left.tree.postorder ++ right.released

/-- What is released first and what is released later make up the postorder. -/
theorem released_append_held (phrase : Infix) :
    phrase.released ++ phrase.held.map .operator = phrase.tree.postorder := by
  induction phrase with
  | literal negative digits => rfl
  | group inner _ => exact List.append_nil _
  | binary op left right _ ihr =>
    rw [released, held, tree, Tree.postorder, ← ihr]
    simp

/-- The operators bind by their levels in the grammar. -/
theorem precedence_eq_levelOf (op : Operator) : op.precedence = levelOf op := by
  cases op <;> rfl

theorem le_precedence_of_mem_held {level : Nat} {phrase : Infix} (h : phrase.Fits level) :
    ∀ op ∈ phrase.held, level ≤ op.precedence := by
  induction phrase generalizing level with
  | literal negative digits => simp [held]
  | group inner _ => simp [held]
  | binary op left right _ ihr =>
    obtain ⟨hop, -, hright⟩ := h
    intro top htop
    rw [held, List.mem_append, List.mem_singleton] at htop
    rcases htop with htop | rfl
    · have := ihr hright top htop
      omega
    · exact (precedence_eq_levelOf _).symm ▸ hop

end Infix

namespace Waiting

/-! ## A stack under waiting operators -/

/-- No operator on top of the stack binds as tightly as `level`. -/
def Looser (level : Nat) : List Waiting → Prop
  | .operator top :: _ => top.precedence < level
  | _ => True

theorem Looser.of_le {low high : Nat} {stack : List Waiting} (h : Looser low stack)
    (hle : low ≤ high) : Looser high stack := by
  match stack, h with
  | [], _ => trivial
  | .opening :: _, _ => trivial
  | .operator _ :: _, h => exact Nat.lt_of_lt_of_le h hle

theorem release_of_looser {op : Operator} {stack : List Waiting} (h : Looser op.precedence stack) :
    release op stack = ([], stack) := by
  match stack, h with
  | [], _ => rfl
  | .opening :: _, _ => rfl
  | .operator top :: stack, h => exact if_pos h

/-- An operator releases the waiting ones that bind at least as tightly. -/
theorem release_held {op : Operator} {stack : List Waiting} (h : Looser op.precedence stack)
    {held : List Operator} (hheld : ∀ top ∈ held, op.precedence ≤ top.precedence) :
    release op (held.map .operator ++ stack) = (held.map .operator, stack) := by
  induction held with
  | nil => exact release_of_looser h
  | cons top held ih =>
    have htop := Nat.not_lt.mpr (hheld top (by simp))
    have hrest := ih fun other hother => hheld other (by simp [hother])
    rw [List.map_cons, List.cons_append, release, if_neg htop, hrest]
    rfl

theorem close?_held (held : List Operator) (stack : List Waiting) :
    close? (held.map .operator ++ .opening :: stack) = some (held.map .operator, stack) := by
  induction held with
  | nil => rfl
  | cons op held ih =>
    rw [List.map_cons, List.cons_append, close?, ih]
    rfl

theorem drain?_held (held : List Operator) :
    drain? (held.map .operator) = some (held.map .operator) := by
  induction held with
  | nil => rfl
  | cons op held ih =>
    rw [List.map_cons, drain?, ih]
    rfl

theorem map_append_map (first second : List Token) (outcome : Option (List Token)) :
    (outcome.map (second ++ ·)).map (first ++ ·) = outcome.map ((first ++ second) ++ ·) := by
  cases outcome with
  | none => rfl
  | some tokens => exact congrArg some (List.append_assoc _ _ _).symm

/-! ## Reordering a phrase -/

/-- **A phrase over any stack**: below it no operator waits that binds as tightly as the phrase, so
the phrase releases its own tokens only, and leaves its right edge on top of the stack. -/
theorem arrange?_tokens {level : Nat} {phrase : Infix} (h : phrase.Fits level)
    (stack : List Waiting) (hstack : Looser level stack) (rest : List Token) :
    arrange? stack (phrase.tokens ++ rest) =
      (arrange? (phrase.held.map .operator ++ stack) rest).map (phrase.released ++ ·) := by
  induction phrase generalizing level stack rest with
  | literal negative digits => rfl
  | group inner ih =>
    -- nothing waits above the parenthesis but what the inner phrase left, and closing releases it
    have hinner := ih h (.opening :: stack) trivial (.closing :: rest)
    rw [arrange?, close?_held] at hinner
    rw [Infix.tokens, List.cons_append, List.append_assoc, arrange?, List.singleton_append, hinner]
    rw [map_append_map, Infix.released_append_held]
    rfl
  | binary op left right ihl ihr =>
    obtain ⟨hop, hleft, hright⟩ := h
    rw [← Infix.precedence_eq_levelOf] at hop hleft hright
    -- the operator releases all that the left operand left waiting
    have hlow : Looser op.precedence stack := hstack.of_le hop
    have hrelease : release op (left.held.map .operator ++ stack) =
        (left.held.map .operator, stack) :=
      release_held hlow (Infix.le_precedence_of_mem_held hleft)
    -- and the right operand binds more tightly than the operator under it
    have hr := ihr hright (.operator op :: stack) (Nat.lt_succ_self _) rest
    have hl := ihl hleft stack hlow (.operator op :: (right.tokens ++ rest))
    rw [arrange?, hrelease, hr, map_append_map, map_append_map] at hl
    rw [Infix.tokens, List.append_assoc, List.cons_append, hl, Infix.released,
      ← Infix.released_append_held left]
    simp [Infix.held]

end Waiting

/-- **A phrase in postfix order** is its postorder. -/
theorem postfixOrder_tokens {level : Nat} {phrase : Infix} (h : phrase.Fits level) :
    postfixOrder phrase.tokens = .ok phrase.tree.postorder := by
  have harrange := Waiting.arrange?_tokens h [] trivial []
  rw [List.append_nil, List.append_nil, Waiting.arrange?, Waiting.drain?_held, Option.map_some,
    Infix.released_append_held] at harrange
  rw [postfixOrder, harrange]

/-! ## Parentheses that match -/

/-- Whether the parentheses of tokens match, with `depth` more open before the first one. -/
def Token.closes : (depth : Nat) → List Token → Bool
  | depth, [] => depth == 0
  | depth, .opening :: rest => closes (depth + 1) rest
  | 0, .closing :: _ => false
  | depth + 1, .closing :: rest => closes depth rest
  | depth, .number _ :: rest => closes depth rest
  | depth, .operator _ :: rest => closes depth rest

namespace Waiting

/-- The parentheses that are open on a stack. -/
def openings (stack : List Waiting) : Nat := stack.count .opening

theorem openings_operator (op : Operator) (stack : List Waiting) :
    openings (.operator op :: stack) = openings stack :=
  List.count_cons_of_ne (by simp)

theorem openings_opening (stack : List Waiting) :
    openings (.opening :: stack) = openings stack + 1 :=
  List.count_cons_self

/-- Operators are released down to a parenthesis at most. -/
theorem openings_release (op : Operator) (stack : List Waiting) :
    openings (release op stack).2 = openings stack := by
  induction stack with
  | nil => rfl
  | cons waiting stack ih =>
    cases waiting with
    | opening => rfl
    | operator top =>
      rw [release]
      split
      · rfl
      · rw [openings_operator]
        exact ih

/-- A closing parenthesis takes the nearest open one. -/
theorem close?_cases (stack : List Waiting) :
    (close? stack = none ∧ openings stack = 0) ∨
      ∃ released below, close? stack = some (released, below) ∧
        openings stack = openings below + 1 := by
  induction stack with
  | nil => exact Or.inl ⟨rfl, rfl⟩
  | cons waiting stack ih =>
    cases waiting with
    | opening => exact Or.inr ⟨[], stack, rfl, openings_opening stack⟩
    | operator op =>
      rw [close?, openings_operator]
      rcases ih with ⟨hnone, hcount⟩ | ⟨released, below, hsome, hcount⟩
      · exact Or.inl ⟨by rw [hnone]; rfl, hcount⟩
      · exact Or.inr ⟨.operator op :: released, below, by rw [hsome]; rfl, hcount⟩

theorem isSome_drain? (stack : List Waiting) :
    (drain? stack).isSome = (openings stack == 0) := by
  induction stack with
  | nil => rfl
  | cons waiting stack ih =>
    cases waiting with
    | opening =>
      rw [openings_opening]
      rfl
    | operator op => rw [drain?, Option.isSome_map, ih, openings_operator]

/-- **Reordering fails exactly on parentheses that do not match**, counted over those that are
open on the stack. -/
theorem isSome_arrange? (stack : List Waiting) (tokens : List Token) :
    (arrange? stack tokens).isSome = Token.closes (openings stack) tokens := by
  induction tokens generalizing stack with
  | nil => exact isSome_drain? stack
  | cons token rest ih =>
    cases token with
    | number x => rw [arrange?, Option.isSome_map, ih, Token.closes]
    | operator op =>
      rw [arrange?, Option.isSome_map, ih, openings_operator, openings_release, Token.closes]
    | opening => rw [arrange?, ih, openings_opening, Token.closes]
    | closing =>
      rw [arrange?]
      rcases close?_cases stack with ⟨hnone, hcount⟩ | ⟨released, below, hsome, hcount⟩
      · rw [hnone, hcount]
        rfl
      · rw [hsome, hcount, Token.closes, Option.isSome_map, ih]

end Waiting

theorem closes_of_postfixOrder {tokens postfixed : List Token}
    (h : postfixOrder tokens = .ok postfixed) : Token.closes 0 tokens = true := by
  have hsome := Waiting.isSome_arrange? [] tokens
  unfold postfixOrder at h
  cases harrange : Waiting.arrange? [] tokens with
  | none =>
    rw [harrange] at h
    cases h
  | some _ =>
    rw [harrange] at hsome
    exact hsome.symm

end Keypad
