import Keypad.Proofs.Display.Separators
import Keypad.Proofs.Expression.Value
import Keypad.Session

/-!
# Typing an expression on one line

In expression mode a word that is no label of a key is typed character by character.  Each of these
characters has a key, and each key adds its character to the display; but a lone zero is replaced
by what follows, and a second point in a number is dropped.  Where neither happens the display holds
the word as it was typed, and equals evaluates exactly that.

## Main definitions

* `IsTypable`: texts that are typed without loss

## Main results

* `typeCharacter_typing`, `typeWord_of_fresh`: one more character of such a text, and all of it
* `eq_of_ofLabel`, `enterWord_of_all`: no text of expression characters but the sign key and single
  characters is the label of a key, so as a word it is typed
* `respond_typable`: what a session answers to such a text and equals
-/

namespace Keypad

/-! ## Typable texts -/

/-- The characters an operand may begin with on a fresh display. -/
def beginsOperand (c : Char) : Bool := c.isDigit || c == '('

/-- A text that is typed without loss: it begins as an operand does, not with a zero that what
follows it would replace, and no number in it has two points. -/
structure IsTypable (t : Text) : Prop where
  chars : ∀ c ∈ t, isInfixChar c = true
  first : t.head?.any beginsOperand = true
  zero : t.head? = some '0' → t[1]?.any beginsOperand = false
  points : ∀ run, run <:+: t → (∀ c ∈ run, isNumeralChar c = true) → run.count '.' ≤ 1

variable {s t : Text} {ch : Char}

/-- The runs of a text are cut out of it by where they start and how long they are. -/
theorem isTypable_iff (t : Text) : IsTypable t ↔
    t.all isInfixChar = true ∧ t.head?.any beginsOperand = true ∧
      (t.head? = some '0' → t[1]?.any beginsOperand = false) ∧
      ∀ start ≤ t.length, ∀ length ≤ t.length,
        ((t.drop start).take length).all isNumeralChar = true →
          ((t.drop start).take length).count '.' ≤ 1 := by
  constructor
  · intro h
    refine ⟨List.all_eq_true.mpr h.chars, h.first, h.zero, fun start _ length _ hrun => ?_⟩
    have hinfix : (t.drop start).take length <:+: t :=
      (List.take_prefix length _).isInfix.trans (List.drop_suffix start t).isInfix
    exact h.points _ hinfix (List.all_eq_true.mp hrun)
  · rintro ⟨hchars, hfirst, hzero, hpoints⟩
    refine ⟨List.all_eq_true.mp hchars, hfirst, hzero, ?_⟩
    rintro run ⟨before, after, rfl⟩ hrun
    have hcut : ((before ++ run ++ after).drop before.length).take run.length = run := by
      rw [List.append_assoc, List.drop_left, List.take_left]
    have hcount := hpoints before.length (by simp) run.length (by simp; omega)
    rw [hcut] at hcount
    exact hcount (List.all_eq_true.mpr hrun)

instance (t : Text) : Decidable (IsTypable t) := decidable_of_iff' _ (isTypable_iff t)

theorem IsTypable.ne_nil (h : IsTypable t) : t ≠ [] := by
  rintro rfl
  exact absurd h.first (by decide)

/-- What was typed before the last character is typable. -/
theorem IsTypable.of_append (h : IsTypable (s ++ [ch])) (hs : s ≠ []) : IsTypable s := by
  obtain ⟨c, rest, rfl⟩ := List.exists_cons_of_ne_nil hs
  refine ⟨fun d hd => h.chars d (List.mem_append_left _ hd), h.first, fun hzero => ?_, ?_⟩
  · have hnext := h.zero hzero
    cases rest with
    | nil => rfl
    | cons d rest => exact hnext
  · exact fun run hrun => h.points run (hrun.trans (List.prefix_append _ _).isInfix)

theorem IsTypable.separator_notMem (h : IsTypable t) : separator ∉ t :=
  fun hmem => ne_separator_of_isInfixChar (h.chars separator hmem) rfl

/-! ## Keys of single characters -/

theorem utf8Size_of_isInfixChar (h : isInfixChar ch = true) : ch.utf8Size = 1 := by
  rcases isInfixChar_cases h with hdigit | rfl | ⟨op, rfl⟩ | rfl | rfl
  · simpa [Text.byteCount] using Text.byteCount_digit hdigit
  · rfl
  · cases op <;> rfl
  · rfl
  · rfl

/-- In a text of expression characters there are no blanks to trim, no letters to raise, and no
beginning that asks for a mode: a single digit is a digit key, and else the labels are searched. -/
theorem ofLabel_of_all (h : ∀ c ∈ t, isInfixChar c = true) :
    (∀ d, t = [d] → d.isDigit = true → Key.ofLabel t = .ok (.digit d)) ∧
      ((∀ d, t = [d] → d.isDigit = false) → Key.ofLabel t = Key.ofLabel.byLabel t t) := by
  have htrim : Text.trim t = t := Text.trim_of_all fun c hc => isBlank_of_isInfixChar (h c hc)
  have hupper : Text.upper t = t :=
    (List.map_congr_left fun c hc => toUpper_of_isInfixChar (h c hc)).trans t.map_id
  have hmode : Text.dropStart? "MODE:".toList t = none := by
    cases t with
    | nil => rfl
    | cons c rest =>
      refine if_neg ?_
      rintro rfl
      exact absurd (h 'M' List.mem_cons_self) (by decide)
  unfold Key.ofLabel
  dsimp only
  rw [htrim, hupper, hmode]
  constructor
  · rintro d rfl hd
    exact if_pos hd
  · intro hother
    dsimp only
    split
    · rename_i d
      exact if_neg (by simp [hother d rfl])
    · rfl

theorem ofLabel_digit (h : ch.isDigit = true) : Key.ofLabel [ch] = .ok (.digit ch) := by
  have hchars : ∀ c ∈ [ch], isInfixChar c = true := by
    simpa using isInfixChar_of_isDigit h
  exact (ofLabel_of_all hchars).1 ch rfl h

theorem ofLabel_symbol (op : Operator) : Key.ofLabel [op.symbol] = .ok (.operator op) := by
  cases op <;> rfl

/-- Of the texts of expression characters only single ones and the sign key are labels. -/
theorem eq_of_ofLabel (h : ∀ c ∈ t, isInfixChar c = true) {key : Key}
    (hlabel : Key.ofLabel t = .ok key) : (∃ ch, t = [ch]) ∨ t = "+/-".toList := by
  have hlabels : ∀ entry ∈ Key.labelled, entry.1.length = 1 ∨ entry.1 = "+/-".toList ∨
      entry.1.all isInfixChar = false := by decide
  by_cases hdigit : ∃ d, t = [d] ∧ d.isDigit = true
  · obtain ⟨d, rfl, -⟩ := hdigit
    exact Or.inl ⟨d, rfl⟩
  · have hother : ∀ d, t = [d] → d.isDigit = false := fun d ht =>
      Bool.eq_false_iff.mpr fun hd => hdigit ⟨d, ht, hd⟩
    rw [(ofLabel_of_all h).2 hother, Key.ofLabel.byLabel] at hlabel
    split at hlabel
    · rename_i entry hfind
      obtain rfl : entry.1 = t := by simpa using List.find?_some hfind
      rcases hlabels entry (List.mem_of_find?_eq_some hfind) with hsingle | hsign | hforeign
      · exact Or.inl (List.length_eq_one_iff.mp hsingle)
      · exact Or.inr hsign
      · rw [List.all_eq_true.mpr h] at hforeign
        cases hforeign
    · cases hlabel

/-! ## Typing into an expression -/

namespace Calculator

variable {c : Calculator}

theorem buffer_typing (hs : separator ∉ s) : (c.typing s).buffer = s :=
  eraseSeparators_of_notMem hs

theorem extend_typing (hs : separator ∉ s) (t : Text) :
    (c.typing s).extend t = c.typing (s ++ t) := by
  rw [extend, buffer_typing hs]
  rfl

theorem enter_typing (hs : separator ∉ s) (hzero : s ≠ zeroText) (t : Text) :
    (c.typing s).enter t = c.typing (s ++ t) := by
  have hkeeps : ¬ ((c.typing s).fresh || (c.typing s).display == zeroText) = true := by
    simpa [typing] using hzero
  rw [enter, if_neg hkeeps, extend_typing hs]

/-- The number at the end of a text stands there. -/
theorem append_lastNumber (t : Text) : ∃ before, t = before ++ (lastNumber t).reverse := by
  refine ⟨(t.reverse.dropWhile isNumeralChar).reverse, ?_⟩
  rw [lastNumber, ← List.reverse_append, List.takeWhile_append_dropWhile, List.reverse_reverse]

/-- What a point is typed behind ends at a character of one byte. -/
theorem cutsCharacter_of_all (h : ∀ c ∈ s, isInfixChar c = true) : cutsCharacter s = false := by
  unfold cutsCharacter
  split
  · rfl
  · rename_i c rest heq
    have hmem : c ∈ s.reverse.dropWhile isNumeralChar := heq ▸ List.mem_cons_self
    have hc : c ∈ s := List.mem_reverse.mp ((List.dropWhile_suffix _).subset hmem)
    simp [utf8Size_of_isInfixChar (h c hc)]

/-- A point is typed unless the number it would stand in has one. -/
theorem pointInExpression_typing (h : IsTypable (s ++ ['.'])) :
    (c.typing s).pointInExpression = c.typing (s ++ ['.']) := by
  have hchars : ∀ d ∈ s, isInfixChar d = true := fun d hd => h.chars d (List.mem_append_left _ hd)
  have hs : separator ∉ s := fun hmem => ne_separator_of_isInfixChar (hchars separator hmem) rfl
  have hpoint : (lastNumber s).contains '.' = false := by
    -- with the point that is typed, the number at the end would have two
    obtain ⟨before, hbefore⟩ := append_lastNumber s
    have hrun : (lastNumber s).reverse ++ ['.'] <:+: s ++ ['.'] := by
      refine ⟨before, [], ?_⟩
      rw [List.append_nil, ← List.append_assoc, ← hbefore]
    have hnumeral : ∀ d ∈ (lastNumber s).reverse ++ ['.'], isNumeralChar d = true := by
      intro d hd
      rcases List.mem_append.mp hd with hd | hd
      · exact List.mem_takeWhile_imp (List.mem_reverse.mp hd)
      · rw [List.mem_singleton.mp hd]
        rfl
    have hcount := h.points _ hrun hnumeral
    rw [List.count_append, List.count_reverse, List.count_singleton_self] at hcount
    have hnone : '.' ∉ lastNumber s := List.count_eq_zero.mp (by omega)
    simpa using hnone
  rw [pointInExpression, buffer_typing hs, cutsCharacter_of_all hchars, hpoint]
  exact extend_typing hs _

/-- What is typed in the characters of expressions is evaluated as it stands, and the rounded value
is its result. -/
theorem concludeExpression_of_all (hfresh : c.fresh = false)
    (h : ∀ ch ∈ c.buffer, isInfixChar ch = true) :
    c.concludeExpression =
      ((evaluate c.buffer).bind (Binary64.accept c.places)).map (c.complete c.buffer) := by
  have htyping : ¬ c.fresh = true := by
    rw [hfresh]
    exact Bool.false_ne_true
  rw [concludeExpression, if_neg htyping, withoutBlanks_of_all h]
  show (evaluate c.buffer).bind _ = ((evaluate c.buffer).bind _).map _
  cases evaluate c.buffer with
  | error fault => rfl
  | ok value =>
    show (value.accept c.places).bind _ = (value.accept c.places).map _
    cases value.accept c.places <;> rfl

end Calculator

/-! ## Typing a word -/

namespace Session

open Calculator

variable {c : Calculator}

/-- As a word a text of expression characters is typed, also where it is a single character with a
key; the label of the sign key is not. -/
theorem enterWord_of_all (hmode : c.options.mode = .expression)
    (h : ∀ ch ∈ t, isInfixChar ch = true) (hsign : t ≠ "+/-".toList) :
    enterWord c t = typeWord c t := by
  unfold enterWord
  cases hlabel : Key.ofLabel t with
  | error cause =>
    dsimp only
    rw [hmode]
  | ok key =>
    -- the word is a label, so it has one character, whose key is the one that typing presses
    obtain ⟨ch, rfl⟩ := (eq_of_ofLabel h hlabel).resolve_right hsign
    show c.press key = typeCharacter c ch
    rw [typeCharacter, if_pos (h ch List.mem_cons_self), hlabel]

theorem enterWord_of_isTypable (hmode : c.options.mode = .expression) (h : IsTypable t) :
    enterWord c t = typeWord c t := by
  refine enterWord_of_all hmode h.chars ?_
  rintro rfl
  exact absurd h.first (by decide)

section Running

variable (hrunning : c.isStopped = false) (hmode : c.options.mode = .expression)

include hrunning hmode

/-- The first character of a typable text replaces the fresh display. -/
theorem typeCharacter_of_fresh (hfresh : c.fresh = true) (h : beginsOperand ch = true) :
    typeCharacter c ch = c.typing [ch] := by
  have henter : c.enter [ch] = c.typing [ch] := by
    rw [enter, hfresh]
    rfl
  rcases Bool.or_eq_true _ _ ▸ h with hdigit | hopening
  · rw [typeCharacter, if_pos (isInfixChar_of_isDigit hdigit), ofLabel_digit hdigit]
    show c.digit ch = _
    rw [digit, whenRunning_of_running hrunning, hmode, hdigit]
    exact henter
  · obtain rfl : ch = '(' := by simpa using hopening
    show c.parenthesis true = _
    rw [parenthesis, whenRunning_of_running hrunning, hmode]
    exact henter

/-- **One more character**: it is added to what was typed. -/
theorem typeCharacter_typing (h : IsTypable (s ++ [ch])) (hne : s ≠ []) :
    typeCharacter (c.typing s) ch = c.typing (s ++ [ch]) := by
  have hch : isInfixChar ch = true := h.chars ch (by simp)
  have hs : separator ∉ s := (h.of_append hne).separator_notMem
  have hrun : (c.typing s).isStopped = false := hrunning
  have hexpression : (c.typing s).options.mode = .expression := hmode
  -- a lone zero would be replaced by an operand that begins behind it
  have henter : beginsOperand ch = true → (c.typing s).enter [ch] = c.typing (s ++ [ch]) := by
    intro hbegins
    refine enter_typing hs ?_ _
    rintro rfl
    have hreplaced : beginsOperand ch = false := h.zero rfl
    rw [hbegins] at hreplaced
    cases hreplaced
  rcases isInfixChar_cases hch with hdigit | rfl | ⟨op, rfl⟩ | rfl | rfl
  · rw [typeCharacter, if_pos hch, ofLabel_digit hdigit]
    show (c.typing s).digit ch = _
    rw [digit, whenRunning_of_running hrun, hexpression, hdigit]
    exact henter (by simp [beginsOperand, hdigit])
  · show (c.typing s).point = _
    rw [point, whenRunning_of_running hrun, hexpression]
    exact pointInExpression_typing h
  · rw [typeCharacter, if_pos hch, ofLabel_symbol]
    show (c.typing s).operator op = _
    rw [operator, whenRunning_of_running hrun, hexpression]
    exact extend_typing hs _
  · show (c.typing s).parenthesis true = _
    rw [parenthesis, whenRunning_of_running hrun, hexpression]
    exact henter rfl
  · show (c.typing s).parenthesis false = _
    rw [parenthesis, whenRunning_of_running hrun, hexpression]
    exact extend_typing hs _

/-- **A whole text**: typed on a fresh display, it stands there as it is. -/
theorem typeWord_of_fresh (hfresh : c.fresh = true) (h : IsTypable t) :
    typeWord c t = c.typing t := by
  -- what was typed before the last character is typable, so it is on the display
  induction t using List.reverseRecOn with
  | nil => exact absurd rfl h.ne_nil
  | append_singleton s ch ih =>
    unfold typeWord at ih ⊢
    rw [List.foldl_append, List.foldl_cons, List.foldl_nil]
    by_cases hs : s = []
    · subst hs
      have hbegins : beginsOperand ch = true := by simpa using h.first
      exact typeCharacter_of_fresh hrunning hmode hfresh hbegins
    · rw [ih (h.of_append hs)]
      exact typeCharacter_typing hrunning hmode h hs

end Running

/-! ## A line -/

/-- A word ends at the first blank. -/
theorem wordsFrom_append_cons {word : Text} (h : ∀ d ∈ t, Text.isBlank d = false)
    (hne : word ++ t ≠ []) {blank : Char} (hblank : Text.isBlank blank = true) (rest : Text) :
    Text.wordsFrom word (t ++ blank :: rest) = (word.reverse ++ t) :: Text.wordsFrom [] rest := by
  induction t generalizing word with
  | nil =>
    have hword : word.isEmpty = false := by simpa using hne
    rw [List.nil_append, List.append_nil, Text.wordsFrom_cons, if_pos hblank, hword]
    rfl
  | cons d t ih =>
    have hd : ¬ Text.isBlank d = true := by simp [h d List.mem_cons_self]
    rw [List.cons_append, Text.wordsFrom_cons, if_neg hd,
      ih (fun e he => h e (List.mem_cons_of_mem d he)) (by simp)]
    simp

theorem words_append_equals (h : IsTypable t) :
    Text.words (t ++ " =".toList) = [t, ['=']] := by
  have hblanks : ∀ d ∈ t, Text.isBlank d = false := fun d hd =>
    isBlank_of_isInfixChar (h.chars d hd)
  exact wordsFrom_append_cons hblanks (by simpa using h.ne_nil) (by decide) ['=']

/-- Equals evaluates what was typed. -/
theorem equals_typing (options : Options) (hmode : options.mode = .expression)
    (h : IsTypable t) : ((make options).typing t).equals =
      match (evaluate t).bind (Binary64.accept options.precision.toNat) with
      | .ok x =>
        let text := (make options).textOf x
        { make options with display := text, tape := ⟨[⟨t, text⟩]⟩ }
      | .error fault => (make options).stop fault := by
  have hexpression : ((make options).typing t).options.mode = .expression := hmode
  have hsource : ((make options).typing t).buffer = t := buffer_typing h.separator_notMem
  rw [equals_of_expression rfl hexpression,
    concludeExpression_of_all rfl (by rw [hsource]; exact h.chars), hsource]
  show orStop _ (((evaluate t).bind (Binary64.accept options.precision.toNat)).map _) = _
  cases (evaluate t).bind (Binary64.accept options.precision.toNat) with
  | ok x => rfl
  | error fault => rfl

/-- **Typing an expression and equals evaluates exactly what was typed.**  The answer is one line.
If the expression has a value that can be shown, the line is that value as it is written, and the
expression stands on the tape with it; else the line is the message of the fault, and the tape is
empty. -/
theorem respond_typable (options : Options) (hmode : options.mode = .expression)
    (h : IsTypable t) : respond (make options) (t ++ " =".toList) =
      match (evaluate t).bind (Binary64.accept options.precision.toNat) with
      | .ok x =>
        let text := (make options).textOf x
        (.print [text], { make options with display := text, tape := ⟨[⟨t, text⟩]⟩ })
      | .error fault => (.print [fault.message], (make options).stop fault) := by
  have htyped : enterWord (make options) t = (make options).typing t :=
    (enterWord_of_isTypable hmode h).trans (typeWord_of_fresh rfl hmode rfl h)
  have hfed : [t, ['=']].foldl enterWord (make options) = ((make options).typing t).equals := by
    rw [List.foldl_cons, htyped]
    rfl
  unfold respond
  rw [words_append_equals h]
  show respond.answer _ [t, ['=']] = _
  rw [respond.answer, hfed, equals_typing options hmode h]
  cases (evaluate t).bind (Binary64.accept options.precision.toNat) with
  | ok x => rfl
  | error fault => rfl

/-- A value with a sign, and a division by a zero that is computed. -/
theorem respond_typable_quotient :
    let options : Options := { Options.standard with mode := .expression }
    let c := make options
    let difference := "2*(3+.5)-10.25".toList
    let quotient := "(1/(2-2))".toList
    options.mode = .expression ∧ IsTypable difference ∧ IsTypable quotient ∧
      respond c (difference ++ " =".toList) =
        (.print ["-3.25".toList],
          { c with display := "-3.25".toList, tape := ⟨[⟨difference, "-3.25".toList⟩]⟩ }) ∧
      respond c (quotient ++ " =".toList) =
        (.print ["Cannot divide by zero".toList], c.stop .divisionByZero) := by
  intro options c difference quotient
  have hdifference : IsTypable difference := by decide +kernel
  have hquotient : IsTypable quotient := by decide +kernel
  refine ⟨rfl, hdifference, hquotient, ?_, ?_⟩
  · refine (respond_typable options rfl hdifference).trans ?_
    decide +kernel
  · refine (respond_typable options rfl hquotient).trans ?_
    decide +kernel

end Session

end Keypad
