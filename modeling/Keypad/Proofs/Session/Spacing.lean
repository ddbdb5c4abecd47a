import Keypad.Proofs.Calculator.TakingBack

/-!
# Words and spaces in a session

A word that is no label of a key does nothing in sequential mode.  In expression mode the characters
of expressions in it are typed, and their keys edit what is displayed and nothing else.  Of the
words in these characters only the sign key has a label that is not typed; any other word is typed,
whether or not it is a label, and so a line of such words is typed as if there were no spaces in it.

## Main results

* `Text.flatten_words`: the words of a text are the text without its blanks
* `exists_keys_typeWord`: typing a word presses the keys of its characters of expressions
* `Calculator.edits_pressAll_of_typesIn`: in an expression these keys only edit what is displayed
* `respond_unlabelled_and_spaced`: words without a label are harmless, and spaces are immaterial
-/

namespace Keypad

variable {t word : Text} {c : Calculator}

/-! ## Words of a text -/

namespace Text

/-- Reading words loses blanks and nothing else. -/
theorem flatten_wordsFrom (word t : Text) :
    (wordsFrom word t).flatten = word.reverse ++ withoutBlanks t := by
  induction t generalizing word with
  | nil =>
    cases word with
    | nil => rfl
    | cons d word => rfl
  | cons ch rest ih =>
    rw [wordsFrom_cons]
    cases hblank : isBlank ch with
    | true =>
      have hdropped : withoutBlanks (ch :: rest) = withoutBlanks rest := by
        simp [withoutBlanks, hblank]
      -- a blank closes the word that is open, if one is
      rw [if_pos rfl, hdropped]
      cases word with
      | nil => exact ih []
      | cons d word => exact congrArg ((d :: word).reverse ++ ·) (ih [])
    | false =>
      have hkept : withoutBlanks (ch :: rest) = ch :: withoutBlanks rest := by
        simp [withoutBlanks, hblank]
      rw [if_neg Bool.false_ne_true, ih, hkept, List.reverse_cons, List.append_assoc,
        List.singleton_append]

/-- **The words of a text** are the text without its blanks. -/
theorem flatten_words (t : Text) : (words t).flatten = withoutBlanks t := flatten_wordsFrom [] t

theorem mem_withoutBlanks_of_mem_words (hword : word ∈ words t) :
    ∀ ch ∈ word, ch ∈ withoutBlanks t := fun _ hch =>
  flatten_words t ▸ List.mem_flatten.mpr ⟨word, hword, hch⟩

/-- A run without blanks is read to its end. -/
theorem wordsFrom_of_no_blanks (h : ∀ ch ∈ t, isBlank ch = false) (hne : word ++ t ≠ []) :
    wordsFrom word t = [word.reverse ++ t] := by
  induction t generalizing word with
  | nil =>
    rw [List.append_nil] at hne ⊢
    cases word with
    | nil => exact absurd rfl hne
    | cons d word => rfl
  | cons ch rest ih =>
    have hch : ¬ isBlank ch = true := by simp [h ch List.mem_cons_self]
    rw [wordsFrom_cons, if_neg hch,
      ih (fun other hother => h other (List.mem_cons_of_mem ch hother)) (by simp)]
    simp

/-- A text without blanks is a word, unless it is empty. -/
theorem words_of_no_blanks (h : ∀ ch ∈ t, isBlank ch = false) :
    words t = [] ∨ words t = [t] := by
  cases t with
  | nil => exact Or.inl rfl
  | cons ch rest => exact Or.inr (wordsFrom_of_no_blanks h (by simp))

end Text

/-! ## Keys that only edit -/

namespace Calculator

/-- In an expression a key that types a character edits what is displayed and nothing else. -/
theorem edits_press_of_typesIn (hmode : c.options.mode = .expression) {key : Key}
    (hkey : key.typesIn .expression = true) : c.Edits (c.press key) := by
  cases key with
  | digit d => exact edits_digit c hkey
  | point => exact edits_point c
  | operator op =>
    show c.Edits (c.operator op)
    unfold operator
    rw [hmode]
    exact whenRunning_cases (edits_self c) (edits_typing c _)
  | openParenthesis => exact edits_parenthesis c true
  | closeParenthesis => exact edits_parenthesis c false
  | _ => cases hkey

theorem edits_pressAll_of_typesIn (hmode : c.options.mode = .expression) {keys : List Key}
    (hkeys : ∀ key ∈ keys, key.typesIn .expression = true) : c.Edits (c.pressAll keys) := by
  induction keys generalizing c with
  | nil => exact edits_self c
  | cons key rest ih =>
    have hedits := edits_press_of_typesIn hmode (hkeys key List.mem_cons_self)
    have hmode' : (c.press key).options.mode = .expression := by
      rw [hedits]
      exact hmode
    exact edits_trans hedits
      (ih hmode' fun other hother => hkeys other (List.mem_cons_of_mem key hother))

end Calculator

namespace Session

open Calculator

/-! ## Typing a word -/

/-- Each character of expressions has a key, which types it there. -/
theorem exists_ofLabel_of_isInfixChar {ch : Char} (h : isInfixChar ch = true) :
    ∃ key, Key.ofLabel [ch] = .ok key ∧ key.typesIn .expression = true := by
  rcases isInfixChar_cases h with hdigit | rfl | ⟨op, rfl⟩ | rfl | rfl
  · exact ⟨.digit ch, ofLabel_digit hdigit, hdigit⟩
  · exact ⟨.point, rfl, rfl⟩
  · exact ⟨.operator op, ofLabel_symbol op, rfl⟩
  · exact ⟨.openParenthesis, rfl, rfl⟩
  · exact ⟨.closeParenthesis, rfl, rfl⟩

/-- **Typing a word** presses the keys of the characters of expressions in it. -/
theorem exists_keys_typeWord (word : Text) : ∃ keys : List Key,
    (word.filter isInfixChar).map (fun ch => Key.ofLabel [ch]) = keys.map .ok ∧
      (∀ key ∈ keys, key.typesIn .expression = true) ∧
      ∀ c, typeWord c word = c.pressAll keys := by
  -- the keys do not depend on the calculator, so neither does the induction
  induction word with
  | nil => exact ⟨[], rfl, nofun, fun c => rfl⟩
  | cons ch rest ih =>
    obtain ⟨keys, hlabels, htypes, htyped⟩ := ih
    cases hch : isInfixChar ch with
    | false =>
      refine ⟨keys, ?_, htypes, fun c => ?_⟩
      · rw [List.filter_cons_of_neg (by simp [hch])]
        exact hlabels
      · have hskipped : typeCharacter c ch = c := if_neg (by simp [hch])
        show typeWord (typeCharacter c ch) rest = _
        rw [hskipped, htyped]
    | true =>
      obtain ⟨key, hlabel, hkey⟩ := exists_ofLabel_of_isInfixChar hch
      refine ⟨key :: keys, ?_, List.forall_mem_cons.mpr ⟨hkey, htypes⟩, fun c => ?_⟩
      · rw [List.filter_cons_of_pos hch, List.map_cons, List.map_cons, hlabels, hlabel]
      · have hpressed : typeCharacter c ch = c.press key := by
          rw [typeCharacter, if_pos hch, hlabel]
        show typeWord (typeCharacter c ch) rest = _
        rw [hpressed, htyped, pressAll_cons]

theorem edits_typeWord (hmode : c.options.mode = .expression) (word : Text) :
    c.Edits (typeWord c word) := by
  obtain ⟨keys, -, htypes, htyped⟩ := exists_keys_typeWord word
  rw [htyped]
  exact edits_pressAll_of_typesIn hmode htypes

/-! ## Words without a label -/

section Unlabelled

variable (hlabel : ∀ key, Key.ofLabel word ≠ .ok key)

include hlabel

theorem enterWord_of_unlabelled :
    enterWord c word =
      match c.options.mode with
      | .sequential => c
      | .expression => typeWord c word := by
  unfold enterWord
  split
  · rename_i key heq
    exact absurd heq (hlabel key)
  · rfl

theorem enterWord_of_sequential (hmode : c.options.mode = .sequential) : enterWord c word = c := by
  rw [enterWord_of_unlabelled hlabel, hmode]

theorem edits_enterWord (hmode : c.options.mode = .expression) : c.Edits (enterWord c word) := by
  rw [enterWord_of_unlabelled hlabel, hmode]
  exact edits_typeWord hmode word

end Unlabelled

/-! ## Lines -/

/-- Words of expression characters other than the sign key are typed one behind another. -/
theorem foldl_enterWord (hmode : c.options.mode = .expression) {words : List Text}
    (hchars : ∀ word ∈ words, ∀ ch ∈ word, isInfixChar ch = true)
    (hsign : "+/-".toList ∉ words) : words.foldl enterWord c = typeWord c words.flatten := by
  induction words generalizing c with
  | nil => rfl
  | cons word rest ih =>
    obtain ⟨hfirst, hothers⟩ := List.forall_mem_cons.mp hchars
    obtain ⟨hword, hrest⟩ := not_or.mp (List.mem_cons.not.mp hsign)
    -- typing keeps the mode, so the words that follow are typed as well
    have hmode' : (typeWord c word).options.mode = .expression := by
      rw [edits_typeWord hmode word]
      exact hmode
    rw [List.foldl_cons, enterWord_of_all hmode hfirst (Ne.symm hword), ih hmode' hothers hrest,
      List.flatten_cons, typeWord, typeWord, typeWord, List.foldl_append]

/-- A line is fed word by word, unless it is a command, which changes nothing. -/
theorem respond_snd (c : Calculator) (line : Text) :
    (respond c line).2 = (Text.words line).foldl enterWord c ∨
      (respond c line).2 = c ∧ ∃ word, Text.words line = [word] ∧
        (Text.sameLetters word "QUIT".toList = true ∨
          Text.sameLetters word "HISTORY".toList = true) := by
  unfold respond
  cases hwords : Text.words line with
  | nil => exact Or.inl rfl
  | cons word rest =>
    cases rest with
    | cons other rest => exact Or.inl rfl
    | nil =>
      dsimp only
      split
      · rename_i hquit
        exact Or.inr ⟨rfl, word, rfl, Or.inl hquit⟩
      split
      · rename_i hhistory
        exact Or.inr ⟨rfl, word, rfl, Or.inr hhistory⟩
      · exact Or.inl rfl

/-- A single word is fed, or changes nothing. -/
theorem respond_word (h : ∀ ch ∈ word, Text.isBlank ch = false) :
    (respond c word).2 = c ∨ (respond c word).2 = enterWord c word := by
  rcases respond_snd c word with hfed | ⟨hkept, -⟩
  · rcases Text.words_of_no_blanks h with hnone | hword
    · rw [hfed, hnone]
      exact Or.inl rfl
    · rw [hfed, hword]
      exact Or.inr rfl
  · exact Or.inl hkept

/-- A line in the characters of expressions, without the sign key, is typed without its blanks. -/
theorem respond_of_all (hmode : c.options.mode = .expression) {line : Text}
    (h : ∀ ch ∈ withoutBlanks line, isInfixChar ch = true)
    (hsign : "+/-".toList ∉ Text.words line) :
    (respond c line).2 = typeWord c (withoutBlanks line) := by
  have hchars : ∀ word ∈ Text.words line, ∀ ch ∈ word, isInfixChar ch = true :=
    fun _ hword ch hch => h ch (Text.mem_withoutBlanks_of_mem_words hword ch hch)
  rcases respond_snd c line with hfed | ⟨-, word, hword, hcommand⟩
  · rw [hfed, foldl_enterWord hmode hchars hsign, Text.flatten_words]
  · -- a command begins with a letter
    have hother : ∀ {first : Char} (rest : Text), isInfixChar first.toUpper = false →
        ¬ Text.sameLetters word (first :: rest) = true := by
      intro first rest hletter
      cases word with
      | nil => exact Bool.false_ne_true
      | cons ch word =>
        have hch := hchars _ (hword ▸ List.mem_singleton_self _) ch List.mem_cons_self
        rw [sameLetters_cons_of_isInfixChar hch hletter]
        exact Bool.false_ne_true
    rcases hcommand with hquit | hhistory
    · exact absurd hquit (hother _ (by decide))
    · exact absurd hhistory (hother _ (by decide))

/-- **Words without a label are harmless, and spaces are immaterial.**  A word without a label, fed
on its own or as a line, does nothing in sequential mode, and in expression mode edits what is
displayed and nothing else.  In expression mode the lines that are the same text of expression
characters without their blanks, and have no sign key among their words, all press the keys of these
characters in order. -/
theorem respond_unlabelled_and_spaced (c : Calculator) :
    (∀ word, (∀ ch ∈ word, Text.isBlank ch = false) → (∀ key, Key.ofLabel word ≠ .ok key) →
      ∀ next, next = enterWord c word ∨ next = (respond c word).2 →
        (c.options.mode = .sequential → next = c) ∧
          (c.options.mode = .expression → c.Edits next)) ∧
      (c.options.mode = .expression → ∀ source, (∀ ch ∈ source, isInfixChar ch = true) →
        ∃ keys : List Key, source.map (fun ch => Key.ofLabel [ch]) = keys.map .ok ∧
          ∀ line, withoutBlanks line = source → "+/-".toList ∉ Text.words line →
            (respond c line).2 = c.pressAll keys) := by
  constructor
  · intro word hblanks hlabel next hnext
    have hcases : next = c ∨ next = enterWord c word := by
      rcases hnext with rfl | rfl
      · exact Or.inr rfl
      · exact respond_word hblanks
    rcases hcases with rfl | rfl
    · exact ⟨fun _ => rfl, fun _ => edits_self _⟩
    · exact ⟨enterWord_of_sequential hlabel, edits_enterWord hlabel⟩
  · intro hmode source hchars
    -- none of the characters is skipped
    obtain ⟨keys, hlabels, -, htyped⟩ := exists_keys_typeWord source
    rw [List.filter_eq_self.mpr hchars] at hlabels
    refine ⟨keys, hlabels, ?_⟩
    rintro line rfl hsign
    rw [respond_of_all hmode hchars hsign, htyped]

/-- Behind a typed zero: a word with the letter of a clearing key in it, and one text spaced in two
ways, once into words that are labels of keys. -/
theorem respond_unlabelled_and_spaced_zero :
    let c := (make { Options.standard with mode := .expression }).pressAll [.digit '0']
    let keys : List Key :=
      [.openParenthesis, .digit '1', .operator .plus, .point, .digit '5', .point, .closeParenthesis]
    c.Edits (respond c "2C(x".toList).2 ∧
      (respond c "(1+.5.)".toList).2 = c.pressAll keys ∧
      (respond c " (\t1 + .5 . )".toList).2 = c.pressAll keys := by
  intro c keys
  obtain ⟨hunlabelled, hspaced⟩ := respond_unlabelled_and_spaced c
  obtain ⟨typed, hlabels, hrespond⟩ := hspaced rfl "(1+.5.)".toList (List.all_eq_true.mp rfl)
  have hkeys : typed = keys := by
    have hnamed : "(1+.5.)".toList.map (fun ch => Key.ofLabel [ch]) = keys.map .ok := by decide
    exact List.map_injective_iff.mpr (fun _ _ => Except.ok.inj) (hlabels.symm.trans hnamed)
  rw [← hkeys]
  have hlabel : ∀ key, Key.ofLabel "2C(x".toList ≠ .ok key := by
    have hunknown : Key.ofLabel "2C(x".toList = .error (.unknownKey "2C(x".toList) := by decide
    intro key
    rw [hunknown]
    exact nofun
  have hblanks : ∀ ch ∈ "2C(x".toList, Text.isBlank ch = false := fun ch hch =>
    Bool.eq_false_iff.mpr (List.any_eq_false.mp rfl ch hch)
  have hedits := (hunlabelled _ hblanks hlabel _ (Or.inr rfl)).2 rfl
  exact ⟨hedits, hrespond _ (by decide) (by decide), hrespond _ (by decide) (by decide)⟩

end Session

end Keypad
