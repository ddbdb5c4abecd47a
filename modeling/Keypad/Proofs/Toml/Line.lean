import Keypad.Proofs.Decimal.Positional
import Keypad.Toml.Parser

/-!
# Values at the end of a line

Each reader of a number takes the longest run it can, so a number is read whole in front of a line
break, whatever the next line holds.  It is no date and no time of day, since neither a dash nor a
colon follows its digits.  Letters in quotation marks are read up to the second mark.

## Main definitions

* `IsWritten`: a text that is read as a value at the end of a line
* `Denotes`: what a text stands for, whoever reads it

## Main results

* `digitRun?_append`, `wholePart?_append`: the digits before a stop
* `moment?_eq_none`: a number is no date and no time
* `isWritten_real`, `isWritten_integer`, `isWritten_letters`: numbers and words at the end of a line
* `Denotes.isWritten`: a text that denotes a value is read as this value
-/

namespace Keypad

theorem exists_digitsOf_eq_cons (k : Nat) :
    ∃ d rest, digitsOf k = d :: rest ∧ d.isDigit = true := by
  obtain ⟨d, rest, hdigits⟩ : ∃ d rest, digitsOf k = d :: rest :=
    List.exists_cons_of_ne_nil Nat.toDigits_ne_nil
  exact ⟨d, rest, hdigits, isDigit_of_mem_digitsOf (hdigits ▸ List.mem_cons_self)⟩

/-- Nothing that begins with the digits of a positive number begins with zero. -/
theorem digitsOf_append_ne_zero {k : Nat} (hk : 0 < k) {after rest : Text} :
    digitsOf k ++ after ≠ '0' :: rest := by
  obtain ⟨d, digits, hdigits, -⟩ := exists_digitsOf_eq_cons k
  intro heq
  rw [hdigits, List.cons_append] at heq
  rw [(List.cons.inj heq).1] at hdigits
  exact head_digitsOf_ne_zero hk hdigits

namespace Toml

variable {t rest : Text} {stop : Char} {n : DisplayNumber}

/-- Whether a character ends a run of digits. -/
def StopsDigits (c : Char) : Prop := c.isDigit = false ∧ c ≠ '_'

theorem digitRun?_stop (h : StopsDigits stop) (rest : Text) :
    digitRun? Char.isDigit (stop :: rest) = none := by
  unfold digitRun?
  exact if_neg (Bool.not_eq_true _ ▸ h.1)

theorem digitRun?_cons {d next : Char} (hd : d.isDigit = true) (hnext : next ≠ '_') (rest : Text) :
    digitRun? Char.isDigit (d :: next :: rest) =
      match digitRun? Char.isDigit (next :: rest) with
      | some (digits, rest) => some (d :: digits, rest)
      | none => some ([d], next :: rest) := by
  conv_lhs => unfold digitRun?
  rw [if_pos hd]
  split
  · rename_i heq
    exact absurd (List.cons.inj heq).1 hnext
  · rfl

/-- A run of digits is read up to its stop. -/
theorem digitRun?_append (hne : t ≠ []) (h : ∀ c ∈ t, c.isDigit = true) (hstop : StopsDigits stop)
    (rest : Text) :
    digitRun? Char.isDigit (t ++ stop :: rest) = some (t, stop :: rest) := by
  induction t with
  | nil => exact absurd rfl hne
  | cons d t ih =>
    have hd := h d List.mem_cons_self
    cases t with
    | nil =>
      rw [List.cons_append, List.nil_append, digitRun?_cons hd hstop.2, digitRun?_stop hstop]
    | cons e t =>
      -- the run goes on without an underscore between two digits
      have he : e ≠ '_' := by
        rintro rfl
        exact absurd (h '_' (by simp)) (by decide)
      have hrest := ih (List.cons_ne_nil e t) fun c hc => h c (List.mem_cons_of_mem d hc)
      rw [List.cons_append] at hrest
      rw [List.cons_append, List.cons_append, digitRun?_cons hd he, hrest]

/-- The digits of a whole number are read up to their stop. -/
theorem wholePart?_append (k : Nat) (hstop : StopsDigits stop) (rest : Text) :
    wholePart? (digitsOf k ++ stop :: rest) = some (digitsOf k, stop :: rest) := by
  rcases Nat.eq_zero_or_pos k with rfl | hk
  · rfl
  · unfold wholePart?
    split
    · exact absurd ‹_› (digitsOf_append_ne_zero hk)
    · exact digitRun?_append Nat.toDigits_ne_nil (fun c => isDigit_of_mem_digitsOf) hstop rest

theorem stopsDigits_newline : StopsDigits '\n' := ⟨rfl, by decide⟩

theorem stopsDigits_point : StopsDigits '.' := ⟨rfl, by decide⟩

theorem realPart?_append (hne : t ≠ []) (h : ∀ c ∈ t, c.isDigit = true) (rest : Text) :
    realPart? ('.' :: t ++ '\n' :: rest) = some ('.' :: t, '\n' :: rest) := by
  have hfraction : fractionPart? ('.' :: t ++ '\n' :: rest) = some ('.' :: t, '\n' :: rest) := by
    rw [List.cons_append, fractionPart?, digitRun?_append hne h stopsDigits_newline]
    rfl
  unfold realPart?
  rw [hfraction]
  rfl

/-! ## Dates and times -/

/-- Behind some digits of a number stands another character of it, or the end of the line. -/
theorem exists_rest_of_field? {count low high : Nat} {digits after : Text}
    (h : ∀ c ∈ t, isNumeralChar c = true)
    (hfield : field? count low high (t ++ '\n' :: rest) = some (digits, after)) :
    ∃ c after', after = c :: after' ∧ (isNumeralChar c = true ∨ c = '\n') := by
  unfold field? at hfield
  dsimp only at hfield
  split at hfield
  case isFalse => cases hfield
  rename_i hdigits
  obtain ⟨-, rfl⟩ := Prod.mk.inj (Option.some.inj hfield)
  -- a field that reached the line break would have read it as a digit
  have hshort : count ≤ t.length := by
    by_contra hlong
    have hmem : '\n' ∈ (t ++ '\n' :: rest).take count := by
      rw [List.mem_take_iff_getElem]
      exact ⟨t.length, by simp; omega, by simp⟩
    exact absurd (List.all_eq_true.mp hdigits.2.1 '\n' hmem) (by decide)
  rw [List.drop_append_of_le_length hshort]
  cases hdrop : t.drop count with
  | nil => exact ⟨'\n', rest, rfl, Or.inr rfl⟩
  | cons c after' =>
    refine ⟨c, after' ++ '\n' :: rest, rfl, Or.inl (h c ?_)⟩
    exact List.mem_of_mem_drop (hdrop ▸ List.mem_cons_self)

theorem mark?_eq_none {mark c : Char} (hmark : isNumeralChar mark = false) (hline : mark ≠ '\n')
    (h : isNumeralChar c = true ∨ c = '\n') (rest : Text) : mark? mark (c :: rest) = none := by
  refine if_neg ?_
  rintro rfl
  rcases h with h | h
  · rw [hmark] at h
    cases h
  · exact hline h

/-- A sign is no digit of a date or time. -/
theorem field?_minus {count : Nat} (hcount : 0 < count) (low high : Nat) (rest : Text) :
    field? count low high ('-' :: rest) = none := by
  obtain ⟨more, rfl⟩ := Nat.exists_eq_succ_of_ne_zero (Nat.ne_of_gt hcount)
  refine if_neg fun hdigits => ?_
  have hmem : '-' ∈ ('-' :: rest).take (more + 1) := List.mem_cons_self
  exact absurd (List.all_eq_true.mp hdigits.2.1 '-' hmem) (by decide)

/-- **A number is no date and no time**, with or without a sign. -/
theorem moment?_eq_none (h : ∀ c ∈ t, isNumeralChar c = true) (negative : Bool) (rest : Text) :
    moment? (signText negative ++ t ++ '\n' :: rest) = none := by
  cases negative with
  | true =>
    change moment? ('-' :: (t ++ '\n' :: rest)) = none
    rw [moment?, date?, time?, field?_minus (by decide), field?_minus (by decide)]
    rfl
  | false =>
    rw [signText, if_neg Bool.false_ne_true, List.nil_append]
    have hdate : date? (t ++ '\n' :: rest) = none := by
      unfold date?
      cases hyear : field? 4 0 9999 (t ++ '\n' :: rest) with
      | none => rfl
      | some year =>
        obtain ⟨c, after, hafter, hc⟩ := exists_rest_of_field? h hyear
        have hdash : mark? '-' (c :: after) = none :=
          mark?_eq_none (by decide) (by decide) hc after
        simp only [Option.bind_eq_bind, Option.bind_some, hafter, hdash, Option.bind_none]
    have htime : time? (t ++ '\n' :: rest) = none := by
      unfold time?
      cases hhour : field? 2 0 23 (t ++ '\n' :: rest) with
      | none => rfl
      | some hour =>
        obtain ⟨c, after, hafter, hc⟩ := exists_rest_of_field? h hhour
        have hcolon : mark? ':' (c :: after) = none :=
          mark?_eq_none (by decide) (by decide) hc after
        simp only [Option.bind_eq_bind, Option.bind_some, hafter, hcolon, Option.bind_none]
    rw [moment?, hdate, htime]
    rfl

/-! ## Numbers -/

/-- A digit begins neither a sign nor a word. -/
theorem sign_of_isDigit {d : Char} (hd : d.isDigit = true) (rest : Text) :
    sign (d :: rest) = ([], d :: rest) := by
  unfold sign
  split
  · rename_i heq
    exact absurd (List.cons.inj heq).1 (ne_of_kind hd rfl)
  · rename_i heq
    exact absurd (List.cons.inj heq).1 (ne_of_kind hd rfl)
  · rfl

theorem sign_signText {d : Char} (hd : d.isDigit = true) (negative : Bool) (rest : Text) :
    sign (signText negative ++ d :: rest) = (signText negative, d :: rest) := by
  cases negative with
  | true => rfl
  | false => exact sign_of_isDigit hd rest

theorem namedReal?_of_isDigit {d : Char} (hd : d.isDigit = true) (negative : Bool) (rest : Text) :
    namedReal? negative (d :: rest) = none := by
  have hi : 'i' ≠ d := (ne_of_kind hd rfl).symm
  have hn : 'n' ≠ d := (ne_of_kind hd rfl).symm
  simp [namedReal?, Text.dropStart?, hi, hn]

/-- **A real number at the end of a line** is read as its value. -/
theorem real?_text (hreal : n.IsReal) (hfinite : n.value.isFinite = true) (rest : Text) :
    real? (n.text ++ '\n' :: rest) = some (.real n.value, '\n' :: rest) := by
  obtain ⟨k, hwhole⟩ := hreal.whole_eq
  obtain ⟨places, hplaces, hne⟩ := hreal.places_eq
  have hdigits : ∀ c ∈ places, c.isDigit = true := by
    have := n.places_digits
    rwa [hplaces] at this
  have hunsigned : n.unsigned = digitsOf k ++ '.' :: places := by
    rw [DisplayNumber.unsigned, hwhole, hplaces]
  obtain ⟨d, tail, hcons, hd⟩ := n.exists_unsigned_eq_cons
  have hsign : sign (n.text ++ '\n' :: rest) =
      (signText n.negative, n.unsigned ++ '\n' :: rest) := by
    rw [DisplayNumber.text, hcons, List.append_assoc, List.cons_append, sign_signText hd]
  have hnamed : namedReal? (signText n.negative == ['-']) (n.unsigned ++ '\n' :: rest) = none := by
    rw [hcons, List.cons_append, namedReal?_of_isDigit hd]
  have hwholePart : wholePart? (n.unsigned ++ '\n' :: rest) =
      some (digitsOf k, '.' :: places ++ '\n' :: rest) := by
    rw [hunsigned, List.append_assoc]
    exact wholePart?_append k stopsDigits_point _
  have hread : Numeral.read? (signText n.negative ++ digitsOf k ++ '.' :: places) =
      some n.value := by
    rw [List.append_assoc, ← hunsigned]
    exact n.read?_text
  generalize n.value = x at hfinite hread ⊢
  have hbelow : x ≠ .infinite false := by
    rintro rfl
    cases hfinite
  unfold real?
  rw [hsign]
  dsimp only
  rw [hnamed]
  dsimp only
  rw [hwholePart, Option.bind_eq_bind, Option.bind_some]
  dsimp only
  rw [realPart?_append hne hdigits, Option.bind_eq_bind, Option.bind_some]
  dsimp only
  rw [hread, Option.bind_some]
  exact if_neg hbelow

/-- A number without a fraction is no real number. -/
theorem real?_digitsOf (k : Nat) (rest : Text) : real? (digitsOf k ++ '\n' :: rest) = none := by
  obtain ⟨d, tail, hcons, hd⟩ := exists_digitsOf_eq_cons k
  have hsign : sign (digitsOf k ++ '\n' :: rest) = ([], digitsOf k ++ '\n' :: rest) := by
    rw [hcons, List.cons_append, sign_of_isDigit hd]
  have hnamed : namedReal? (([] : Text) == ['-']) (digitsOf k ++ '\n' :: rest) = none := by
    rw [hcons, List.cons_append, namedReal?_of_isDigit hd]
  unfold real?
  rw [hsign]
  dsimp only
  rw [hnamed]
  dsimp only
  rw [wholePart?_append k stopsDigits_newline, Option.bind_eq_bind, Option.bind_some]
  rfl

/-- A whole number is read as an integer, and has no mark of another base. -/
theorem integer?_digitsOf {k : Nat} (hk : k ≤ integerBound) (rest : Text) :
    integer? (digitsOf k ++ '\n' :: rest) = some (.integer k, '\n' :: rest) := by
  rcases Nat.eq_zero_or_pos k with rfl | hpos
  · rfl
  obtain ⟨d, tail, hcons, hd⟩ := exists_digitsOf_eq_cons k
  have hsign : sign (digitsOf k ++ '\n' :: rest) = ([], digitsOf k ++ '\n' :: rest) := by
    rw [hcons, List.cons_append, sign_of_isDigit hd]
  unfold integer?
  split
  iterate 3 exact absurd ‹_› (digitsOf_append_ne_zero hpos)
  rw [hsign]
  dsimp only
  rw [wholePart?_append k stopsDigits_newline, Option.bind_eq_bind, Option.bind_some]
  dsimp only
  rw [wholeOf_digitsOf, if_neg (by decide), if_pos hk]
  rfl

/-! ## Written values -/

/-- Whether a text is read as a value at the end of a line, and begins with no blank. -/
structure IsWritten (t : Text) (v : Value) : Prop where
  skipBlanks_eq : ∀ rest, skipBlanks (t ++ '\n' :: rest) = t ++ '\n' :: rest
  value?_eq : ∀ depth rest, value? (depth + 1) (t ++ '\n' :: rest) = some (v, '\n' :: rest)

/-- Texts that begin with a digit or a minus are read as numbers. -/
theorem value?_of_isDigit {d : Char} (hd : d.isDigit = true) (negative : Bool) (depth : Nat)
    (rest : Text) :
    value? (depth + 1) (signText negative ++ d :: rest) =
      number? (signText negative ++ d :: rest) := by
  cases negative with
  | true => rfl
  | false =>
    change value? (depth + 1) (d :: rest) = number? (d :: rest)
    have hother {c : Char} {after : Text} (heq : d :: rest = c :: after) : c.isDigit = true :=
      (List.cons.inj heq).1 ▸ hd
    have hscalar : value?.scalar? (d :: rest) = number? (d :: rest) := by
      unfold value?.scalar?
      split
      -- no quotation mark and none of the letters that begin a word is a digit
      iterate 6 cases hother ‹_›
      rfl
    unfold value?
    split
    · exact hscalar
    · cases hother ‹_›
    · cases hother ‹_›
    · exact hscalar

theorem skipBlanks_of_isDigit {d : Char} (hd : d.isDigit = true) (negative : Bool) (rest : Text) :
    skipBlanks (signText negative ++ d :: rest) = signText negative ++ d :: rest := by
  cases negative with
  | true => rfl
  | false =>
    have hblank : isBlank d = false := by
      rw [isBlank, beq_false_of_ne (ne_of_kind hd rfl), beq_false_of_ne (ne_of_kind hd rfl)]
      rfl
    exact List.dropWhile_cons_of_neg (by simp [hblank])

/-- **A real number** is written by its digits on both sides of a point. -/
theorem isWritten_real (hreal : n.IsReal) (hfinite : n.value.isFinite = true) :
    IsWritten n.text (.real n.value) := by
  obtain ⟨d, tail, hcons, hd⟩ := n.exists_unsigned_eq_cons
  have htext (rest : Text) : n.text ++ '\n' :: rest =
      signText n.negative ++ d :: (tail ++ '\n' :: rest) := by
    rw [DisplayNumber.text, hcons, List.append_assoc, List.cons_append]
  constructor
  · intro rest
    rw [htext, skipBlanks_of_isDigit hd]
  · intro depth rest
    rw [htext, value?_of_isDigit hd, ← htext, number?,
      DisplayNumber.text, moment?_eq_none n.isNumeralChar_of_mem_unsigned]
    dsimp only
    rw [← DisplayNumber.text, real?_text hreal hfinite]

/-- **A whole number** is written by its digits. -/
theorem isWritten_integer {k : Nat} (hk : k ≤ integerBound) :
    IsWritten (digitsOf k) (.integer k) := by
  obtain ⟨d, tail, hcons, hd⟩ := exists_digitsOf_eq_cons k
  have htext (rest : Text) : digitsOf k ++ '\n' :: rest =
      signText false ++ d :: (tail ++ '\n' :: rest) := by
    rw [hcons]
    rfl
  have hmoment (rest : Text) : moment? (digitsOf k ++ '\n' :: rest) = none :=
    moment?_eq_none (fun c hc => isNumeralChar_of_isDigit (isDigit_of_mem_digitsOf hc)) false rest
  constructor
  · intro rest
    rw [htext, skipBlanks_of_isDigit hd]
  · intro depth rest
    rw [htext, value?_of_isDigit hd, ← htext, number?, hmoment]
    dsimp only
    rw [real?_digitsOf]
    exact integer?_digitsOf hk rest

/-! ## Letters in quotation marks -/

theorem isPlain_of_isSmallLetter {c : Char} (hc : Text.isSmallLetter c = true) :
    isPlain c = true := by
  simp only [Text.isSmallLetter, Bool.and_eq_true, decide_eq_true_eq] at hc
  have hlow : 0x20 ≤ c.toNat := by omega
  have hdelete : c.toNat ≠ 0x7F := by omega
  simp [isPlain, hlow, hdelete]

/-- Letters are read up to the quotation mark behind them. -/
theorem basic?_append (h : ∀ c ∈ t, Text.isSmallLetter c = true) (rest : Text) :
    basic? (t ++ '"' :: rest) = some (t, rest) := by
  induction t with
  | nil => rfl
  | cons c t ih =>
    have hc := h c List.mem_cons_self
    have hquote : c ≠ '"' := ne_of_kind hc (by decide)
    have hbackslash : c ≠ '\\' := ne_of_kind hc (by decide)
    have hrest := ih fun d hd => h d (List.mem_cons_of_mem _ hd)
    -- a letter ends the text no more than it begins an escape
    rw [List.cons_append, basic?]
    · simp [isPlain_of_isSmallLetter hc, hbackslash, hrest]
    · exact hquote
    · exact fun _ _ _ _ _ heq _ => hbackslash heq
    · exact fun _ _ _ _ _ _ _ _ _ heq _ => hbackslash heq
    · exact fun _ _ heq _ => hbackslash heq

theorem quoted?_letters (h : ∀ c ∈ t, Text.isSmallLetter c = true) (rest : Text) :
    quoted? ('"' :: (t ++ '"' :: '\n' :: rest)) = some (t, '\n' :: rest) := by
  have hbasic := basic?_append h ('\n' :: rest)
  cases t with
  | nil => rfl
  | cons c t =>
    have hquote : c ≠ '"' := ne_of_kind (h c List.mem_cons_self) (by decide)
    -- with a letter behind it, the quotation mark is not the first of three
    rw [List.cons_append, quoted?]
    · exact hbasic
    · exact fun _ heq => hquote (List.cons.inj heq).1

/-- **Letters** are written in quotation marks. -/
theorem isWritten_letters (h : ∀ c ∈ t, Text.isSmallLetter c = true) :
    IsWritten ('"' :: t ++ ['"']) (.text t) := by
  refine ⟨fun _ => rfl, fun depth rest => ?_⟩
  rw [List.append_assoc, List.singleton_append, List.cons_append]
  rw [value?, value?.scalar?, quoted?_letters h]
  · rfl
  all_goals exact fun _ heq => absurd (List.cons.inj heq).1 (by decide)

/-! ## What a text denotes -/

/-- Whether a text denotes a real number: it is a decimal with digits on both sides of its point,
to which the number is nearest, or the name of one that is not finite. -/
inductive DenotesReal : Text → Binary64 → Prop where
  | decimal {n : DisplayNumber} (hreal : n.IsReal) (hfinite : n.value.isFinite = true) :
    DenotesReal n.text n.value
  | infinite (negative : Bool) :
    DenotesReal (signText negative ++ "inf".toList) (.infinite negative)
  | nan (negative : Bool) : DenotesReal (signText negative ++ "nan".toList) .nan

/-- Whether a text denotes a value: a real number, a whole one by its digits, a flag by its word,
or small letters in quotation marks. -/
inductive Denotes : Text → Value → Prop where
  | real {t : Text} {x : Binary64} (h : DenotesReal t x) : Denotes t (.real x)
  | integer {n : Nat} (h : n ≤ integerBound) : Denotes (digitsOf n) (.integer n)
  | boolean (flag : Bool) :
    Denotes (if flag then "true".toList else "false".toList) (.boolean flag)
  | text {t : Text} (h : ∀ c ∈ t, Text.isSmallLetter c = true) :
    Denotes ('"' :: t ++ ['"']) (.text t)

theorem DenotesReal.isWritten {x : Binary64} (h : DenotesReal t x) : IsWritten t (.real x) := by
  cases h with
  | decimal hreal hfinite => exact isWritten_real hreal hfinite
  | infinite negative => cases negative <;> exact ⟨fun _ => rfl, fun _ _ => rfl⟩
  | nan negative => cases negative <;> exact ⟨fun _ => rfl, fun _ _ => rfl⟩

/-- **A text that denotes a value** is read as this value. -/
theorem Denotes.isWritten {v : Value} (h : Denotes t v) : IsWritten t v := by
  cases h with
  | real h => exact h.isWritten
  | integer h => exact isWritten_integer h
  | boolean flag => cases flag <;> exact ⟨fun _ => rfl, fun _ _ => rfl⟩
  | text h => exact isWritten_letters h

end Toml

end Keypad
