/-!
# Texts

A text is its list of characters: every key edits the display character by character, and every
reader consumes a text from its front.

## Main definitions

* `Text`, `Text.isBlank`, `Text.trim`, `Text.words`
* `Text.upper`, `Text.sameLetters`: comparison and change of ASCII letters only
* `Text.splitAt?`: the parts around the first occurrence of a character

## Main results

* `isBlank_of_isWhitespace`: every ASCII blank is a blank
* `append_of_splitAt?`: splitting loses nothing but the separator
-/

namespace Keypad

/-- A text, character by character. -/
abbrev Text := List Char

namespace Text

/-- The blank characters: those with the White_Space property. -/
def isBlank (c : Char) : Bool :=
  let n := c.toNat
  (9 ≤ n && n ≤ 13) || n == 0x20 || n == 0x85 || n == 0xA0 || n == 0x1680 ||
    (0x2000 ≤ n && n ≤ 0x200A) || n == 0x2028 || n == 0x2029 || n == 0x202F ||
    n == 0x205F || n == 0x3000

/-- The text without blanks at its start. -/
def trimStart (t : Text) : Text := t.dropWhile isBlank

/-- The text without the given characters at its end. -/
def trimEndBy (drop : Char → Bool) (t : Text) : Text := (t.reverse.dropWhile drop).reverse

/-- The text without blanks at either end. -/
def trim (t : Text) : Text := trimEndBy isBlank (trimStart t)

/-- The maximal runs without blanks; `word` is the run being read, last character first. -/
def wordsFrom : (word : Text) → Text → List Text
  | [], [] => []
  | word, [] => [word.reverse]
  | word, c :: rest =>
    if isBlank c then
      if word.isEmpty then wordsFrom [] rest else word.reverse :: wordsFrom [] rest
    else wordsFrom (c :: word) rest

/-- The words of a text: its maximal runs without blanks, in order. -/
def words (t : Text) : List Text := wordsFrom [] t

/-- ASCII letters in upper case, all else unchanged. -/
def upper (t : Text) : Text := t.map Char.toUpper

/-- Equality up to the case of ASCII letters. -/
def sameLetters (s t : Text) : Bool := upper s == upper t

/-- The parts before and after the first occurrence of a character. -/
def splitAt? (mark : Char) : Text → Option (Text × Text)
  | [] => none
  | c :: rest =>
    if c = mark then some ([], rest)
    else (splitAt? mark rest).map fun parts => (c :: parts.1, parts.2)

/-- The text after a given beginning. -/
def dropStart? : (start : Text) → Text → Option Text
  | [], t => some t
  | _ :: _, [] => none
  | s :: start, c :: rest => if s = c then dropStart? start rest else none

/-- The number of bytes of the text in UTF-8. -/
def byteCount : Text → Nat
  | [] => 0
  | c :: rest => c.utf8Size + byteCount rest

/-- The number of ASCII digits in the text. -/
def digitCount (t : Text) : Nat := t.countP Char.isDigit

/-! ## Small laws -/

theorem byteCount_append (s t : Text) : byteCount (s ++ t) = byteCount s + byteCount t := by
  induction s with
  | nil => exact (Nat.zero_add _).symm
  | cons c rest ih => rw [List.cons_append, byteCount, byteCount, ih, Nat.add_assoc]

/-- Reading words one character on. -/
theorem wordsFrom_cons (word : Text) (c : Char) (rest : Text) :
    wordsFrom word (c :: rest) =
      if isBlank c then
        if word.isEmpty then wordsFrom [] rest else word.reverse :: wordsFrom [] rest
      else wordsFrom (c :: word) rest := by
  cases word <;> rfl

/-- Every ASCII blank is a blank. -/
theorem isBlank_of_isWhitespace (c : Char) (h : c.isWhitespace = true) : isBlank c = true := by
  simp only [Char.isWhitespace, Bool.or_eq_true, decide_eq_true_eq] at h
  rcases h with ((h | h) | h) | h <;> subst h <;> decide

theorem append_of_splitAt? (mark : Char) (t before after : Text)
    (h : splitAt? mark t = some (before, after)) :
    t = before ++ mark :: after ∧ mark ∉ before := by
  induction t generalizing before with
  | nil => simp [splitAt?] at h
  | cons c rest ih =>
    unfold splitAt? at h
    split at h
    · rename_i hc
      simp only [Option.some.injEq, Prod.mk.injEq] at h
      obtain ⟨rfl, rfl⟩ := h
      simp [hc]
    · rename_i hc
      obtain ⟨⟨b, a⟩, hs, he⟩ := Option.map_eq_some_iff.1 h
      simp only [Prod.mk.injEq] at he
      obtain ⟨rfl, rfl⟩ := he
      obtain ⟨hrest, hmem⟩ := ih b hs
      refine ⟨by simp [hrest], ?_⟩
      simp only [List.mem_cons, not_or]
      exact ⟨fun e => hc e.symm, hmem⟩

theorem splitAt?_eq_none_iff (mark : Char) (t : Text) : splitAt? mark t = none ↔ mark ∉ t := by
  induction t with
  | nil => simp [splitAt?]
  | cons c rest ih =>
    unfold splitAt?
    by_cases hc : c = mark
    · simp [hc]
    · simp [hc, ih, Ne.symm hc]

end Text

end Keypad
