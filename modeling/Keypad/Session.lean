import Keypad.Key

/-!
# Sessions

A session feeds lines of typed words to one calculator.  A word is a key label; in expression mode
any other word is typed character by character.

## Main definitions

* `Session.Answer`, `Session.respond`

## Main results

* `respond_of_words_nil`: a blank line changes nothing
-/

namespace Keypad

namespace Session

/-- What a line is answered with. -/
inductive Answer where
  /-- Print these lines and go on. -/
  | print (lines : List Text)
  /-- Stop reading. -/
  | quit
  deriving DecidableEq, Repr

/-- Presses the key of one expression character, if it is one. -/
def typeCharacter (c : Calculator) (ch : Char) : Calculator :=
  if isInfixChar ch then
    match Key.ofLabel [ch] with
    | .ok key => c.press key
    | .error _ => c
  else c

/-- Types the expression characters of a word; others are skipped, so that no letter inside a word
is taken for a command key. -/
def typeWord (c : Calculator) (word : Text) : Calculator := word.foldl typeCharacter c

/-- Feeds one word: its key, or in expression mode its characters; else it is skipped. -/
def enterWord (c : Calculator) (word : Text) : Calculator :=
  match Key.ofLabel word with
  | .ok key => c.press key
  | .error _ =>
    match c.options.mode with
    | .sequential => c
    | .expression => typeWord c word

/-- The tape as printed, newest first. -/
def tapeLines (tape : Tape) : List Text :=
  if tape.entries.isEmpty then ["(no history)".toList] else tape.entries.map Entry.line

/-- Feeds a line of words.  The single words `QUIT` and `HISTORY`, in any case, are commands; any
other line is fed word by word and answered with the display. -/
def respond (c : Calculator) (line : Text) : Answer × Calculator :=
  match Text.words line with
  | [] => (.print [], c)
  | [word] =>
    if Text.sameLetters word "QUIT".toList then (.quit, c)
    else if Text.sameLetters word "HISTORY".toList then (.print (tapeLines c.tape), c)
    else answer [word]
  | words => answer words
where
  /-- The calculator after the words, and its display. -/
  answer (words : List Text) : Answer × Calculator :=
    let next := words.foldl enterWord c
    (.print [next.display], next)

theorem respond_of_words_nil {c : Calculator} {line : Text} (h : Text.words line = []) :
    respond c line = (.print [], c) := by
  unfold respond
  rw [h]

end Session

end Keypad
