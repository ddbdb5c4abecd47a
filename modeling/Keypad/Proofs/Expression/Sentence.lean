import Keypad.Proofs.Expression.Postorder
import Keypad.Proofs.Expression.Value

/-!
# Which texts are phrases

A text is a phrase of the grammar exactly if it splits into tokens, its parentheses match, and
operands and operators alternate in it.  Evaluation asks for the first two only: of the order of
operands and operators it asks no more than that the postfix tokens be a tree.  So beside the
phrases it accepts texts such as `(2)3+` and `2()`, and among the texts it accepts the phrases
are those that alternate.

## Main definitions

* `Token.alternates`: operands and operators alternate
* `Infix.attach`: one more operator and operand on the right of a phrase
* `Gap`, `Gap.fill`: what stands before an operand inside its parentheses

## Main results

* `isSentence_iff`: the phrases of the grammar by their tokens
* `evaluate_eq_ok_iff`: the texts that have a value
* `accepted_isSentence_iff`: the phrases among the texts that have a value
-/

namespace Keypad

/-- Whether operands and operators alternate; `expecting` says that an operand comes next. -/
def Token.alternates : (expecting : Bool) → List Token → Bool
  | expecting, [] => !expecting
  | true, .number _ :: rest => alternates false rest
  | true, .opening :: rest => alternates true rest
  | true, _ :: _ => false
  | false, .operator _ :: rest => alternates true rest
  | false, .closing :: rest => alternates false rest
  | false, _ :: _ => false

/-- A text that is a phrase of the grammar as it is written. -/
def IsSentence (t : Text) : Prop := ∃ phrase : Infix, phrase.Fits Infix.loosest ∧ phrase.text = t

namespace Infix

/-! ## A phrase alternates -/

theorem alternates_tokens (phrase : Infix) (rest : List Token) :
    Token.alternates true (phrase.tokens ++ rest) = Token.alternates false rest := by
  induction phrase generalizing rest with
  | literal negative digits => rfl
  | group inner ih =>
    rw [tokens, List.cons_append, List.append_assoc, Token.alternates, ih]
    rfl
  | binary op left right ihl ihr =>
    rw [tokens, List.append_assoc, List.cons_append, ihl, Token.alternates, ihr]

theorem closes_tokens (phrase : Infix) (depth : Nat) (rest : List Token) :
    Token.closes depth (phrase.tokens ++ rest) = Token.closes depth rest := by
  induction phrase generalizing depth rest with
  | literal negative digits => rfl
  | group inner ih =>
    rw [tokens, List.cons_append, List.append_assoc, Token.closes, ih]
    rfl
  | binary op left right ihl ihr =>
    rw [tokens, List.append_assoc, List.cons_append, ihl, Token.closes, ihr]

/-! ## A phrase grows on the right -/

/-- A phrase with one more operator and factor: they take the right operand of a looser
operator, or else the whole phrase. -/
def attach (phrase : Infix) (op : Operator) (factor : Infix) : Infix :=
  match phrase with
  | .binary outer left right =>
    if levelOf outer < levelOf op then .binary outer left (.binary op right factor)
    else .binary op (.binary outer left right) factor
  | _ => .binary op phrase factor

theorem text_attach (phrase : Infix) (op : Operator) (factor : Infix) :
    (phrase.attach op factor).text = phrase.text ++ op.symbol :: factor.text := by
  cases phrase with
  | literal negative digits => rfl
  | group inner => rfl
  | binary outer left right =>
    rw [attach]
    split
    · simp [text]
    · rfl

theorem fits_attach {phrase : Infix} (h : phrase.Fits loosest) (op : Operator) {factor : Infix}
    (hfactor : ∀ level, factor.Fits level) : (phrase.attach op factor).Fits loosest := by
  have hop : loosest ≤ levelOf op := by cases op <;> decide
  cases phrase with
  | literal negative digits => exact ⟨hop, h, hfactor _⟩
  | group inner => exact ⟨hop, h, hfactor _⟩
  | binary outer left right =>
    obtain ⟨houter, hleft, hright⟩ := h
    rw [attach]
    split
    · rename_i hlt
      -- there are two levels, so the operator stands just where the right operand has to
      have hnext : levelOf outer + 1 = levelOf op := by
        cases outer <;> cases op <;> simp [levelOf] at hlt ⊢
      exact ⟨houter, hleft, hnext.le, hnext ▸ hright, hfactor _⟩
    · rename_i hge
      exact ⟨hop, ⟨Nat.not_lt.mp hge, hleft, hright⟩, hfactor _⟩

end Infix

/-- What stands before an operand inside its parentheses: nothing, or a phrase and an operator. -/
abbrev Gap := Option (Infix × Operator)

namespace Gap

/-- The text before the operand. -/
def text : Gap → Text
  | none => []
  | some (phrase, op) => phrase.text ++ [op.symbol]

/-- The phrase that an operand completes. -/
def fill : Gap → Infix → Infix
  | none, factor => factor
  | some (phrase, op), factor => phrase.attach op factor

/-- What stands before the operand is a phrase of the grammar. -/
def Fits : Gap → Prop
  | none => True
  | some (phrase, _) => phrase.Fits Infix.loosest

/-- The text before the innermost parenthesis of those that are open, the innermost one first. -/
def outerText : List Gap → Text
  | [] => []
  | gap :: outer => outerText outer ++ gap.text ++ ['(']

theorem text_fill (gap : Gap) (factor : Infix) :
    (gap.fill factor).text = gap.text ++ factor.text := by
  match gap with
  | none => rfl
  | some (phrase, op) => simp [fill, text, Infix.text_attach]

theorem fits_fill {gap : Gap} (h : gap.Fits) {factor : Infix}
    (hfactor : ∀ level, factor.Fits level) : (gap.fill factor).Fits Infix.loosest := by
  match gap, h with
  | none, _ => exact hfactor _
  | some (phrase, op), h => exact Infix.fits_attach h op hfactor

end Gap

namespace Token

/-! ## Tokens that alternate make a phrase -/

/-- A run that is a number is a literal of the grammar. -/
theorem isLiteral_of_read? {run after : Text} {negative : Bool} {x : Binary64}
    (hrun : IsRunBefore run after) (hread : Numeral.read? (signText negative ++ run) = some x) :
    isLiteral run = true := by
  rw [← Numeral.isSome_read?_signText hrun.numeral negative, hread]
  rfl

/-- **Tokens that alternate and whose parentheses match make a phrase.**  The text read so far
consists of what stands before the open parentheses, and after the last of them of a gap where
an operand comes next, or of a phrase where none does; either way the rest completes it. -/
theorem isSentence_of_scan (t : Text) (previous : Option Token) (tokens : List Token)
    (hscan : scan previous t = .ok tokens) (outer : List Gap) (houter : ∀ gap ∈ outer, gap.Fits)
    (hcloses : closes outer.length tokens = true) :
    (∀ gap : Gap, gap.Fits → alternates true tokens = true →
      IsSentence (Gap.outerText outer ++ gap.text ++ t)) ∧
    (∀ phrase : Infix, phrase.Fits Infix.loosest → alternates false tokens = true →
      IsSentence (Gap.outerText outer ++ phrase.text ++ t)) := by
  induction previous, t using scan_induction generalizing tokens outer with
  | nil previous =>
    rw [scan_nil] at hscan
    cases hscan
    refine ⟨fun gap _ halt => absurd halt (by simp [alternates]), fun phrase hphrase _ => ?_⟩
    -- nothing is left to read, so no parenthesis is open
    obtain rfl : outer = [] := by simpa [closes] using hcloses
    exact ⟨phrase, hphrase, by simp [Gap.outerText]⟩
  | number previous negative run after hrun hexpects ih =>
    -- a literal fills the gap
    obtain ⟨x, later, hread, hafter, rfl⟩ := (scan_signText_append_eq_ok_iff hrun hexpects).mp hscan
    have hliteral := isLiteral_of_read? hrun hread
    refine ⟨fun gap hgap halt => ?_, fun _ _ halt => absurd halt (by simp [alternates])⟩
    have hnext := (ih x later hafter outer houter hcloses).2
      (gap.fill (.literal negative run)) (Gap.fits_fill hgap fun _ => hliteral) halt
    rw [Gap.text_fill] at hnext
    simpa [Infix.text] using hnext
  | symbol previous c rest hbegins ih =>
    obtain ⟨token, later, htoken, hafter, rfl⟩ := (scan_cons_eq_ok_iff hbegins).mp hscan
    rcases ofSymbol_cases htoken with ⟨rfl, rfl⟩ | ⟨rfl, rfl⟩ | ⟨op, rfl, rfl⟩
    · -- an opening parenthesis puts the gap outside
      refine ⟨fun gap hgap halt => ?_, fun _ _ halt => absurd halt (by simp [alternates])⟩
      have hfits : ∀ other ∈ gap :: outer, other.Fits := by
        intro other hother
        rcases List.mem_cons.mp hother with rfl | hother
        · exact hgap
        · exact houter other hother
      have hnext := (ih _ later hafter (gap :: outer) hfits hcloses).1 none trivial halt
      simpa [Gap.outerText, Gap.text] using hnext
    · -- a closing one makes the phrase a factor of the gap outside
      refine ⟨fun _ _ halt => absurd halt (by simp [alternates]), fun phrase hphrase halt => ?_⟩
      cases outer with
      | nil => exact absurd hcloses (by simp [closes])
      | cons gap outer =>
        have hgap := houter gap (by simp)
        have hnext := (ih _ later hafter outer
          (fun other hother => houter other (by simp [hother])) hcloses).2
          (gap.fill (.group phrase)) (Gap.fits_fill hgap fun _ => hphrase) halt
        rw [Gap.text_fill] at hnext
        simpa [Gap.outerText, Infix.text] using hnext
    · -- an operator opens the next gap
      refine ⟨fun _ _ halt => absurd halt (by simp [alternates]), fun phrase hphrase halt => ?_⟩
      have hnext := (ih _ later hafter outer houter hcloses).1 (some (phrase, op)) hphrase halt
      simpa [Gap.text] using hnext

end Token

/-- **The phrases of the grammar by their tokens.** -/
theorem isSentence_iff (t : Text) :
    IsSentence t ↔ ∃ tokens, Token.ofText t = .ok tokens ∧
      Token.closes 0 tokens = true ∧ Token.alternates true tokens = true := by
  constructor
  · rintro ⟨phrase, hphrase, rfl⟩
    refine ⟨phrase.tokens, Token.ofText_text hphrase, ?_, ?_⟩
    · have := phrase.closes_tokens 0 []
      rwa [List.append_nil] at this
    · have := phrase.alternates_tokens []
      rwa [List.append_nil] at this
  · rintro ⟨tokens, htokens, hcloses, halternates⟩
    have := (Token.isSentence_of_scan t none tokens htokens [] (by simp) hcloses).1 none trivial
      halternates
    simpa [Gap.outerText, Gap.text] using this

/-! ## What evaluation accepts -/

/-- A text that splits into tokens has the characters of expressions only. -/
theorem Token.isInfixChar_of_scan (t : Text) (previous : Option Token) (tokens : List Token)
    (hscan : scan previous t = .ok tokens) : ∀ c ∈ t, isInfixChar c = true := by
  induction previous, t using scan_induction generalizing tokens with
  | nil previous => simp
  | number previous negative run after hrun hexpects ih =>
    -- the characters of a literal are those of the phrase it is
    obtain ⟨x, later, hread, hafter, -⟩ := (scan_signText_append_eq_ok_iff hrun hexpects).mp hscan
    have hfits : (Infix.literal negative run).Fits Infix.loosest := isLiteral_of_read? hrun hread
    intro d hd
    rw [← List.append_assoc, List.mem_append] at hd
    rcases hd with hd | hd
    · exact List.all_eq_true.mp (Infix.all_isInfixChar_text hfits) d hd
    · exact ih x later hafter d hd
  | symbol previous c rest hbegins ih =>
    obtain ⟨token, later, htoken, hafter, -⟩ := (scan_cons_eq_ok_iff hbegins).mp hscan
    intro d hd
    rcases List.mem_cons.mp hd with rfl | hd
    · rcases ofSymbol_cases htoken with ⟨rfl, -⟩ | ⟨rfl, -⟩ | ⟨op, rfl, -⟩
      · decide
      · decide
      · exact Infix.isInfixChar_symbol op
    · exact ih token later hafter d hd

/-- A text has a value exactly if its tokens can be reordered to a tree with this value. -/
theorem evaluate_eq_ok_iff (source : Text) (v : Binary64) :
    evaluate source = .ok v ↔
      ∃ tokens, ∃ tree : Tree, Token.ofText (withoutBlanks source) = .ok tokens ∧
        postfixOrder tokens = .ok tree.postorder ∧ tree.value = .ok v := by
  rw [evaluate_eq]
  constructor
  · intro h
    obtain ⟨_, -, h⟩ := bind_eq_ok_iff.mp h
    obtain ⟨tokens, htokens, h⟩ := bind_eq_ok_iff.mp h
    by_cases hne : tokens = []
    · rw [if_pos hne] at h
      cases h
    · rw [if_neg hne] at h
      obtain ⟨postfixed, horder, hvalue⟩ := bind_eq_ok_iff.mp h
      obtain ⟨tree, rfl, htree⟩ := (postfixValue_eq_ok_iff postfixed v).mp hvalue
      exact ⟨tokens, tree, htokens, horder, htree⟩
  · rintro ⟨tokens, tree, htokens, horder, hvalue⟩
    have hne : tokens ≠ [] := by
      rintro rfl
      cases tree <;> simp [postfixOrder, Waiting.arrange?, Waiting.drain?, Tree.postorder] at horder
    rw [checkCharacters_of_all (Token.isInfixChar_of_scan _ _ _ htokens), htokens]
    simp only [Except.bind]
    rw [if_neg hne, horder]
    exact (postfixValue_postorder tree).trans hvalue

/-- **The phrases among the texts that have a value.**  A text has a value exactly if its tokens
can be reordered to a tree with this value; and a text that has one is a phrase of the grammar
exactly if operands and operators alternate in it. -/
theorem accepted_isSentence_iff (source : Text) :
    (∀ v, evaluate source = .ok v ↔
      ∃ tokens, ∃ tree : Tree, Token.ofText (withoutBlanks source) = .ok tokens ∧
        postfixOrder tokens = .ok tree.postorder ∧ tree.value = .ok v) ∧
    ((∃ v, evaluate source = .ok v) →
      (IsSentence (withoutBlanks source) ↔
        ∃ tokens, Token.ofText (withoutBlanks source) = .ok tokens ∧
          Token.alternates true tokens = true)) := by
  refine ⟨evaluate_eq_ok_iff source, fun ⟨v, hv⟩ => ?_⟩
  obtain ⟨tokens, tree, htokens, horder, -⟩ := (evaluate_eq_ok_iff source v).mp hv
  rw [isSentence_iff]
  constructor
  · rintro ⟨others, hothers, -, halternates⟩
    exact ⟨others, hothers, halternates⟩
  · rintro ⟨others, hothers, halternates⟩
    obtain rfl : tokens = others := Except.ok.inj (htokens.symm.trans hothers)
    exact ⟨tokens, htokens, closes_of_postfixOrder horder, halternates⟩

/-- `(2)3+` has the value five and is no phrase of the grammar. -/
theorem accepted_not_isSentence :
    evaluate "(2)3+".toList = .ok (.ofInt 5) ∧ ¬ IsSentence (withoutBlanks "(2)3+".toList) := by
  refine ⟨by decide +kernel, fun hsentence => ?_⟩
  obtain ⟨tokens, htokens, -, halternates⟩ := (isSentence_iff _).mp hsentence
  have hsplit : Token.ofText (withoutBlanks "(2)3+".toList) =
      .ok [.opening, .number (.ofInt 2), .closing, .number (.ofInt 3), .operator .plus] := by
    decide +kernel
  obtain rfl := Except.ok.inj (htokens.symm.trans hsplit)
  exact absurd halternates (by decide)

end Keypad
