import Keypad.Proofs.Expression.Run

/-!
# Texts as sequences of lexemes

The scanner cuts a text into lexemes without skipping or repeating anything.  An operator or
parenthesis is a lexeme of one character; a number is a whole run of digits and points, together
with the minus sign directly before it if that sign stands where a number is expected.  Only one
sequence of tokens has such lexemes, so these rules and the text determine what the scanner
answers.

## Main definitions

* `Lexeme`, `Lexeme.spelled`: a token with its part of the text, and the text of several
* `Lexeme.AwaitsNumber`: the places in a text where a number is expected
* `Lexeme.IsPlaced`: what a lexeme looks like between those before and those after it
* `IsSplit`: a text cut into lexemes

## Main results

* `exists_split_of_scan`: what the scanner answers are the tokens of a split
* `scan_of_split`: the tokens of a split are what the scanner answers
* `ofText_isSplit_iff`: both together, with the texts that have no split
-/

namespace Keypad

/-- A token with the part of the text that it is read from. -/
structure Lexeme where
  token : Token
  text : Text
  deriving DecidableEq, Repr

namespace Lexeme

/-- The text that lexemes make up, one after the other. -/
def spelled (lexemes : List Lexeme) : Text := lexemes.flatMap Lexeme.text

/-- The token of the last lexeme. -/
def last? (lexemes : List Lexeme) : Option Token := (lexemes.map Lexeme.token).getLast?

/-- A number is expected behind `start`: at the start of the text, and where one of the lexemes
that is an operator or an opening parenthesis ends. -/
def AwaitsNumber (lexemes : List Lexeme) (start : Text) : Prop :=
  ∃ earlier later, lexemes = earlier ++ later ∧ spelled earlier = start ∧
    (earlier = [] ∨ last? earlier = some .opening ∨ ∃ op, last? earlier = some (.operator op))

/-- What a lexeme looks like between those before and those after it.  A number is read from a
run of digits and points that does not go on behind it, with a sign exactly if a minus sign stands
directly before the run and a number is expected before that sign. -/
def IsPlaced (before : List Lexeme) (lexeme : Lexeme) (after : List Lexeme) : Prop :=
  match lexeme.token with
  | .opening => lexeme.text = ['(']
  | .closing => lexeme.text = [')']
  | .operator op => lexeme.text = [op.symbol]
  | .number x =>
    Numeral.read? lexeme.text = some x ∧
      ∃ negative run, lexeme.text = signText negative ++ run ∧ IsRunBefore run (spelled after) ∧
        (negative = true ↔ ∃ start, AwaitsNumber before start ∧
          spelled before ++ signText negative = start ++ ['-'])

variable {before after done todo : List Lexeme} {lexeme : Lexeme} {token : Token} {c : Char}

@[simp] theorem spelled_nil : spelled [] = [] := rfl

@[simp] theorem spelled_cons (lexeme : Lexeme) (lexemes : List Lexeme) :
    spelled (lexeme :: lexemes) = lexeme.text ++ spelled lexemes := rfl

@[simp] theorem spelled_append (lexemes others : List Lexeme) :
    spelled (lexemes ++ others) = spelled lexemes ++ spelled others :=
  List.flatMap_append

@[simp] theorem last?_concat (lexemes : List Lexeme) (lexeme : Lexeme) :
    last? (lexemes ++ [lexeme]) = some lexeme.token := by
  simp [last?]

theorem expectsNumber_last?_iff (lexemes : List Lexeme) :
    Token.expectsNumber (last? lexemes) = true ↔
      lexemes = [] ∨ last? lexemes = some .opening ∨
        ∃ op, last? lexemes = some (.operator op) := by
  rcases List.eq_nil_or_concat lexemes with rfl | ⟨lexemes, lexeme, rfl⟩
  · exact iff_of_true rfl (Or.inl rfl)
  · rw [List.concat_eq_append, last?_concat]
    cases lexeme.token <;> simp [Token.expectsNumber]

/-! ## Places and the lexemes that end there -/

theorem eq_nil_of_spelled_eq_nil (hne : ∀ lexeme ∈ done, lexeme.text ≠ [])
    (h : spelled done = []) : done = [] := by
  cases done with
  | nil => rfl
  | cons lexeme done =>
    rw [spelled_cons, List.append_eq_nil_iff] at h
    exact absurd h.1 (hne lexeme List.mem_cons_self)

/-- No two places between lexemes have the same text before them. -/
theorem eq_of_spelled_eq {earlier later : List Lexeme}
    (hne : ∀ lexeme ∈ before ++ after, lexeme.text ≠ [])
    (hsplit : before ++ after = earlier ++ later) (h : spelled earlier = spelled before) :
    earlier = before := by
  -- one of the two places is not behind the other, and between them there is no text
  rcases List.append_eq_append_iff.mp hsplit with ⟨middle, rfl, rfl⟩ | ⟨middle, rfl, rfl⟩
  all_goals
    have hmiddle : spelled middle = [] := by simpa using h
    rw [eq_nil_of_spelled_eq_nil (fun lexeme hmem => hne lexeme (by simp [hmem])) hmiddle,
      List.append_nil]

/-- Behind a lexeme a number is expected exactly if the scanner expects one after its token. -/
theorem awaitsNumber_spelled_iff (hne : ∀ lexeme ∈ before ++ after, lexeme.text ≠ []) :
    AwaitsNumber (before ++ after) (spelled before) ↔
      Token.expectsNumber (last? before) = true := by
  rw [expectsNumber_last?_iff]
  constructor
  · rintro ⟨earlier, later, hsplit, hspelled, hlast⟩
    rwa [eq_of_spelled_eq hne hsplit hspelled] at hlast
  · intro hlast
    exact ⟨before, after, rfl, rfl, hlast⟩

theorem awaitsNumber_spelled_self_iff (hne : ∀ lexeme ∈ done, lexeme.text ≠ []) :
    AwaitsNumber done (spelled done) ↔ Token.expectsNumber (last? done) = true := by
  rw [← List.append_nil done] at hne
  have h := awaitsNumber_spelled_iff hne
  rwa [List.append_nil] at h

/-! ## Lexemes of one character -/

theorem isPlaced_of_ofSymbol (h : Token.ofSymbol c = .ok token) :
    IsPlaced before ⟨token, [c]⟩ after := by
  rcases Token.ofSymbol_cases h with ⟨rfl, rfl⟩ | ⟨rfl, rfl⟩ | ⟨op, rfl, rfl⟩
  · rfl
  · rfl
  · rfl

/-- A lexeme in its place is a run with its sign, or a character on its own. -/
theorem IsPlaced.cases (h : IsPlaced before lexeme after) :
    (∃ x negative run, lexeme = ⟨.number x, signText negative ++ run⟩ ∧
      Numeral.read? (signText negative ++ run) = some x ∧ IsRunBefore run (spelled after) ∧
      (negative = true ↔ ∃ start, AwaitsNumber before start ∧
        spelled before ++ signText negative = start ++ ['-'])) ∨
    ∃ c, lexeme.text = [c] ∧ Token.ofSymbol c = .ok lexeme.token := by
  obtain ⟨token, text⟩ := lexeme
  cases token with
  | number x =>
    obtain ⟨hread, negative, run, rfl, hrun, hsign⟩ := h
    exact Or.inl ⟨x, negative, run, rfl, hread, hrun, hsign⟩
  | operator op => exact Or.inr ⟨op.symbol, h, Token.ofSymbol_symbol op⟩
  | opening => exact Or.inr ⟨'(', h, rfl⟩
  | closing => exact Or.inr ⟨')', h, rfl⟩

theorem IsPlaced.text_ne_nil (h : IsPlaced before lexeme after) : lexeme.text ≠ [] := by
  rcases h.cases with ⟨x, negative, run, rfl, -, hrun, -⟩ | ⟨c, htext, -⟩
  · simp [hrun.ne_nil]
  · simp [htext]

end Lexeme

open Lexeme

/-- A text cut into lexemes, each of them as it has to be in its place. -/
structure IsSplit (t : Text) (lexemes : List Lexeme) : Prop where
  spelled_eq : spelled lexemes = t
  placed : ∀ before lexeme after, lexemes = before ++ lexeme :: after →
    IsPlaced before lexeme after

namespace Token

/-! ## From the scanner to lexemes -/

/-- Lexemes behind which the scanner may go on with a text.  If they end with a minus sign and a
number was expected before it, no run comes next: the run would have taken the sign. -/
structure Precedes (done : List Lexeme) (t : Text) : Prop where
  ne_nil : ∀ lexeme ∈ done, lexeme.text ≠ []
  stops : ∀ start, AwaitsNumber done start → spelled done = start ++ ['-'] →
    t.head?.any isNumeralChar = false

variable {done todo : List Lexeme} {c : Char} {run after rest : Text} {negative : Bool}
  {x : Binary64} {token : Token}

theorem precedes_nil (t : Text) : Precedes [] t where
  ne_nil := by simp
  stops := by
    intro start _ hstart
    simp at hstart

theorem text_ne_nil_of_mem_concat {lexeme : Lexeme} (hdone : ∀ other ∈ done, other.text ≠ [])
    (hlexeme : lexeme.text ≠ []) : ∀ other ∈ done ++ [lexeme], other.text ≠ [] := by
  intro other hmem
  rcases List.mem_append.mp hmem with hmem | hmem
  · exact hdone other hmem
  · rwa [List.mem_singleton.mp hmem]

/-- A number does not end with a minus sign. -/
theorem precedes_number (hdone : ∀ lexeme ∈ done, lexeme.text ≠ []) (hrun : IsRunBefore run after) :
    Precedes (done ++ [⟨.number x, signText negative ++ run⟩]) after where
  ne_nil := text_ne_nil_of_mem_concat hdone (by simp [hrun.ne_nil])
  stops := by
    intro start _ hstart
    -- the text ends with the last character of the run
    obtain ⟨run, d, rfl⟩ := (List.eq_nil_or_concat run).resolve_left hrun.ne_nil
    have hd : isNumeralChar d = true := hrun.numeral d (by simp)
    have hlast : (spelled done ++ signText negative ++ run) ++ [d] = start ++ ['-'] := by
      simpa using hstart
    obtain rfl : d = '-' := by simpa using List.append_inj_right' hlast rfl
    exact absurd hd (by decide)

/-- A minus sign that stands alone is followed by no run where a number is expected before it. -/
theorem precedes_symbol (hdone : ∀ lexeme ∈ done, lexeme.text ≠ [])
    (hbegins : beginsNumber (last? done) c rest = false) :
    Precedes (done ++ [⟨token, [c]⟩]) rest where
  ne_nil := text_ne_nil_of_mem_concat hdone (by simp)
  stops := by
    intro start hawaits hstart
    -- the sign would be this character, so the place before it is the end of `done`
    have hlast : spelled done ++ [c] = start ++ ['-'] := by simpa using hstart
    obtain ⟨hspelled, hc⟩ := List.append_inj' hlast rfl
    rw [← hspelled, awaitsNumber_spelled_iff (text_ne_nil_of_mem_concat hdone (by simp))] at hawaits
    exact ((beginsNumber_eq_false_iff _ c rest).mp hbegins).2 (by simpa using hc) hawaits

/-- A run that the scanner takes is in its place, with the sign that it takes. -/
theorem isPlaced_of_run (hdone : Precedes done (signText negative ++ (run ++ spelled todo)))
    (hrun : IsRunBefore run (spelled todo))
    (hexpects : negative = true → expectsNumber (last? done) = true)
    (hread : Numeral.read? (signText negative ++ run) = some x) :
    IsPlaced done ⟨.number x, signText negative ++ run⟩ todo := by
  refine ⟨hread, negative, run, rfl, hrun, ?_⟩
  cases negative with
  | true =>
    have hawaits := (awaitsNumber_spelled_self_iff hdone.ne_nil).mpr (hexpects rfl)
    exact iff_of_true rfl ⟨spelled done, hawaits, rfl⟩
  | false =>
    -- a sign left before the run would have been taken with it
    refine iff_of_false Bool.false_ne_true ?_
    rintro ⟨start, hawaits, hstart⟩
    have hstops := hdone.stops start hawaits (by simpa [signText] using hstart)
    obtain ⟨d, rest, rfl, hd⟩ := hrun.exists_eq_cons
    simp [signText, hd] at hstops

/-- The lexemes behind `done` are in their places if the first one is, and those behind it are. -/
theorem isPlaced_of_cons {first : Lexeme} (hfirst : IsPlaced done first todo)
    (htodo : ∀ before lexeme after, todo = before ++ lexeme :: after →
      IsPlaced (done ++ [first] ++ before) lexeme after)
    (before : List Lexeme) (lexeme : Lexeme) (after : List Lexeme)
    (hsplit : first :: todo = before ++ lexeme :: after) :
    IsPlaced (done ++ before) lexeme after := by
  cases before with
  | nil =>
    obtain ⟨rfl, rfl⟩ := List.cons.inj hsplit
    rwa [List.append_nil]
  | cons other before =>
    obtain ⟨rfl, htail⟩ := List.cons.inj hsplit
    have h := htodo before lexeme after htail
    rwa [List.append_assoc, List.singleton_append] at h

/-- **The scanner splits**: behind lexemes that are done, the tokens of the rest of the text are
those of lexemes that make it up. -/
theorem exists_split_of_scan (done : List Lexeme) {previous : Option Token} {t : Text}
    {tokens : List Token} (hprevious : last? done = previous) (hdone : Precedes done t)
    (hscan : scan previous t = .ok tokens) :
    ∃ todo, todo.map Lexeme.token = tokens ∧ spelled todo = t ∧
      ∀ before lexeme after, todo = before ++ lexeme :: after →
        IsPlaced (done ++ before) lexeme after := by
  induction previous, t using scan_induction generalizing done tokens with
  | nil previous =>
    rw [scan_nil] at hscan
    cases hscan
    exact ⟨[], rfl, rfl, fun before lexeme after h => by simp at h⟩
  | number previous negative run after hrun hexpects ih =>
    subst hprevious
    obtain ⟨x, later, hread, hafter, rfl⟩ := (scan_signText_append_eq_ok_iff hrun hexpects).mp hscan
    obtain ⟨todo, rfl, rfl, htodo⟩ :=
      ih x _ (last?_concat done _) (precedes_number hdone.ne_nil hrun) hafter
    have hfirst := isPlaced_of_run hdone hrun hexpects hread
    exact ⟨⟨.number x, signText negative ++ run⟩ :: todo, rfl, by simp,
      isPlaced_of_cons hfirst htodo⟩
  | symbol previous c rest hbegins ih =>
    subst hprevious
    obtain ⟨token, later, htoken, hrest, rfl⟩ := (scan_cons_eq_ok_iff hbegins).mp hscan
    obtain ⟨todo, rfl, rfl, htodo⟩ :=
      ih token _ (last?_concat done _) (precedes_symbol hdone.ne_nil hbegins) hrest
    exact ⟨⟨token, [c]⟩ :: todo, rfl, rfl, isPlaced_of_cons (isPlaced_of_ofSymbol htoken) htodo⟩

/-! ## From lexemes to the scanner -/

/-- A lexeme that begins with a digit or point has no sign, so there is none that it should
have. -/
theorem spelled_ne_of_isPlaced {before after : List Lexeme} {lexeme : Lexeme}
    (h : IsPlaced before lexeme after) (hhead : lexeme.text.head?.any isNumeralChar = true)
    {start : Text} (hawaits : AwaitsNumber before start) : spelled before ≠ start ++ ['-'] := by
  intro hstart
  rcases h.cases with ⟨x, negative, run, rfl, -, hrun, hsign⟩ | ⟨c, htext, htoken⟩
  · obtain rfl : negative = true := by
      cases negative with
      | true => rfl
      | false => exact hsign.mpr ⟨start, hawaits, by simpa [signText] using hstart⟩
    exact absurd hhead (by simp [signText, isNumeralChar])
  · rw [htext] at hhead
    exact absurd (isNumeralChar_of_ofSymbol htoken) (by simpa using hhead)

/-- No number begins at a character that is a lexeme on its own. -/
theorem beginsNumber_of_isPlaced
    (hplaced : ∀ before lexeme after, done ++ ⟨token, [c]⟩ :: todo = before ++ lexeme :: after →
      IsPlaced before lexeme after)
    (hdone : ∀ lexeme ∈ done, lexeme.text ≠ []) (htoken : ofSymbol c = .ok token) :
    beginsNumber (last? done) c (spelled todo) = false := by
  refine (beginsNumber_eq_false_iff _ _ _).mpr ⟨isNumeralChar_of_ofSymbol htoken, ?_⟩
  rintro rfl hexpects
  cases todo with
  | nil => rfl
  | cons next todo =>
    -- the next lexeme would have to take the minus sign
    have hnext := hplaced (done ++ [⟨token, ['-']⟩]) next todo (by simp)
    have hawaits : AwaitsNumber (done ++ [⟨token, ['-']⟩]) (spelled done) :=
      (awaitsNumber_spelled_iff (text_ne_nil_of_mem_concat hdone (by simp))).mpr hexpects
    obtain ⟨d, text, htext⟩ := List.exists_cons_of_ne_nil hnext.text_ne_nil
    rw [spelled_cons, htext, List.cons_append, List.head?_cons, Option.any_some]
    refine Bool.eq_false_iff.mpr fun hd => ?_
    exact spelled_ne_of_isPlaced hnext (by rw [htext]; simpa using hd) hawaits (by simp)

/-- **A split is what the scanner finds**: behind lexemes that are done, the text of the others is
scanned as their tokens. -/
theorem scan_of_split (done todo : List Lexeme)
    (hplaced : ∀ before lexeme after, done ++ todo = before ++ lexeme :: after →
      IsPlaced before lexeme after) :
    scan (last? done) (spelled todo) = .ok (todo.map Lexeme.token) := by
  induction todo generalizing done with
  | nil => exact scan_nil _
  | cons lexeme todo ih =>
    have hne : ∀ other ∈ done ++ lexeme :: todo, other.text ≠ [] := by
      intro other hmem
      obtain ⟨before, after, hsplit⟩ := List.append_of_mem hmem
      exact (hplaced before other after hsplit).text_ne_nil
    have hrest := ih (done ++ [lexeme]) fun before other after hsplit =>
      hplaced before other after (by simpa using hsplit)
    rw [last?_concat] at hrest
    rcases (hplaced done lexeme todo rfl).cases with
      ⟨x, negative, run, rfl, hread, hrun, hsign⟩ | ⟨c, htext, htoken⟩
    · -- the place before the sign is the end of `done`
      have hexpects : negative = true → expectsNumber (last? done) = true := by
        rintro rfl
        obtain ⟨start, hawaits, hstart⟩ := hsign.mp rfl
        obtain rfl := List.append_cancel_right hstart
        have hdone : ∀ other ∈ done, other.2 ≠ [] := fun other hmem => hne other (by simp [hmem])
        exact (awaitsNumber_spelled_self_iff hdone).mp hawaits
      rw [spelled_cons, List.append_assoc]
      exact (scan_signText_append_eq_ok_iff hrun hexpects).mpr ⟨x, _, hread, hrest, rfl⟩
    · obtain ⟨token, text⟩ := lexeme
      obtain rfl : text = [c] := htext
      have hbegins := beginsNumber_of_isPlaced hplaced
        (fun other hmem => hne other (by simp [hmem])) htoken
      exact (scan_cons_eq_ok_iff hbegins).mpr ⟨token, _, htoken, hrest, rfl⟩

/-- **The tokens of a text.**  A text in the characters of expressions is answered by the tokens
of the lexemes it is made of, and is malformed exactly if one of its runs of digits and points has
no digit or a second point. -/
theorem ofText_isSplit_iff (t : Text) (ht : ∀ c ∈ t, isInfixChar c = true) :
    (∀ tokens, ofText t = .ok tokens ↔
      ∃ lexemes, IsSplit t lexemes ∧ lexemes.map Lexeme.token = tokens) ∧
    ∀ fault, ofText t = .error fault ↔
      fault = .malformed ∧ ∃ run, IsRun t run ∧ IsBroken run := by
  refine ⟨fun tokens => ⟨fun hscan => ?_, ?_⟩, scan_eq_error_iff ht none⟩
  · obtain ⟨lexemes, htokens, hspelled, hplaced⟩ :=
      exists_split_of_scan [] rfl (precedes_nil t) hscan
    exact ⟨lexemes, ⟨hspelled, hplaced⟩, htokens⟩
  · rintro ⟨lexemes, hsplit, rfl⟩
    have hscan := scan_of_split [] lexemes hsplit.placed
    rwa [hsplit.spelled_eq] at hscan

/-- In `-2.--1*(-3)` three minus signs belong to numbers, and one is an operator. -/
theorem ofText_isSplit_iff_signs :
    (∀ c ∈ "-2.--1*(-3)".toList, isInfixChar c = true) ∧
      ∃ lexemes, IsSplit "-2.--1*(-3)".toList lexemes ∧
        lexemes.map Lexeme.token =
          [.number (.ofInt (-2)), .operator .minus, .number (.ofInt (-1)), .operator .times,
            .opening, .number (.ofInt (-3)), .closing] := by
  have ht : ∀ c ∈ "-2.--1*(-3)".toList, isInfixChar c = true :=
    List.all_eq_true.mp (by decide +kernel)
  exact ⟨ht, ((ofText_isSplit_iff _ ht).1 _).mp (by decide +kernel)⟩

end Token

end Keypad
