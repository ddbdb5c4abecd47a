import Keypad.Proofs.Expression.Literal
import Keypad.Proofs.Outcome

/-!
# Runs of digits and points

A run of a text is a part of it that holds digits and points only and that neither of its
neighbours continues.  The scanner takes the runs of a text whole, with the minus sign in front of
one where a number is expected, and every other character on its own.  So a text in the characters
of expressions is split into tokens exactly if each of its runs is a literal.

## Main definitions

* `IsRunBefore`, `IsRun`: a run at the start of a text, and anywhere in it
* `IsBroken`, `HasBrokenRun`: a run without a digit or with a second point, and a text with one

## Main results

* `scan_signText_append`: the scanner takes a run whole
* `scan_induction`: induction along the steps of the scanner
* `scan_signText_append_eq_ok_iff`, `scan_cons_eq_ok_iff`: the steps that succeed
* `scan_eq_error_iff`: the texts that are not split into tokens
-/

namespace Keypad

variable {t run after : Text} {c : Char}

/-- Digits and points, at least one of them, which the text after them does not continue. -/
structure IsRunBefore (run after : Text) : Prop where
  ne_nil : run ≠ []
  numeral : ∀ c ∈ run, isNumeralChar c = true
  stops : after.head?.any isNumeralChar = false

/-- A run of digits and points in a text, as long as it can be on either side. -/
def IsRun (t run : Text) : Prop :=
  ∃ before after, t = before ++ (run ++ after) ∧
    before.getLast?.any isNumeralChar = false ∧ IsRunBefore run after

/-- A run that is no number: it has no digit, or a second point. -/
def IsBroken (run : Text) : Prop := (∀ c ∈ run, c.isDigit = false) ∨ 1 < run.count '.'

/-- Some run of the text is no number. -/
def HasBrokenRun (t : Text) : Prop := ∃ run, IsRun t run ∧ IsBroken run

/-! ## A run at the start of a text -/

theorem stops_takeWhile (t : Text) :
    (t.dropWhile isNumeralChar).head?.any isNumeralChar = false := by
  have := List.head?_dropWhile_not isNumeralChar t
  cases hdrop : (t.dropWhile isNumeralChar).head? with
  | none => rfl
  | some c => simpa [hdrop] using this

theorem isRunBefore_takeWhile (hc : isNumeralChar c = true) (rest : Text) :
    IsRunBefore (c :: rest.takeWhile isNumeralChar) (rest.dropWhile isNumeralChar) where
  ne_nil := List.cons_ne_nil _ _
  numeral := by
    intro d hd
    rcases List.mem_cons.mp hd with rfl | hd
    · exact hc
    · exact List.mem_takeWhile_imp hd
  stops := stops_takeWhile rest

namespace IsRunBefore

theorem exists_eq_cons (h : IsRunBefore run after) :
    ∃ c rest, run = c :: rest ∧ isNumeralChar c = true := by
  obtain ⟨c, rest, rfl⟩ := List.exists_cons_of_ne_nil h.ne_nil
  exact ⟨c, rest, rfl, h.numeral c List.mem_cons_self⟩

theorem takeWhile_eq (h : IsRunBefore run after) :
    (run ++ after).takeWhile isNumeralChar = run := by
  rw [List.takeWhile_append_of_pos h.numeral]
  cases hafter : after with
  | nil => rw [List.takeWhile_nil, List.append_nil]
  | cons d rest =>
    have hd := h.stops
    rw [hafter, List.head?_cons, Option.any_some] at hd
    rw [List.takeWhile_cons_of_neg (Bool.eq_false_iff.mp hd), List.append_nil]

theorem dropWhile_eq (h : IsRunBefore run after) :
    (run ++ after).dropWhile isNumeralChar = after := by
  have hsplit := List.takeWhile_append_dropWhile (p := isNumeralChar) (l := run ++ after)
  rw [h.takeWhile_eq] at hsplit
  exact List.append_cancel_left hsplit

/-- The run at the start of a text is determined by the text. -/
theorem unique (h : IsRunBefore run after) {other beyond : Text} (hother : IsRunBefore other beyond)
    (heq : run ++ after = other ++ beyond) : run = other := by
  rw [← h.takeWhile_eq, heq, hother.takeWhile_eq]

/-- A run is broken exactly if it is no literal of the grammar. -/
theorem isBroken_iff (h : IsRunBefore run after) : IsBroken run ↔ isLiteral run = false := by
  have hall : run.all isNumeralChar = true := List.all_eq_true.mpr h.numeral
  rw [isLiteral_eq, hall, Bool.true_and, IsBroken, Bool.and_eq_false_iff, decide_eq_false_iff_not,
    Nat.not_le, List.any_eq_false, or_comm]
  simp only [Bool.not_eq_true]

end IsRunBefore

/-! ## The runs of a text -/

theorem not_isRun_nil (run : Text) : ¬ IsRun [] run := by
  rintro ⟨before, after, heq, -, hrun⟩
  have hnil := (List.append_eq_nil_iff.mp heq.symm).2
  exact hrun.ne_nil (List.append_eq_nil_iff.mp hnil).1

/-- A character that is neither digit nor point belongs to no run. -/
theorem isRun_cons_iff (hc : isNumeralChar c = false) : IsRun (c :: t) run ↔ IsRun t run := by
  constructor
  · rintro ⟨before, after, heq, hbefore, hrun⟩
    cases before with
    | nil =>
      obtain ⟨d, rest, rfl, hd⟩ := hrun.exists_eq_cons
      obtain ⟨rfl, -⟩ := List.cons.inj heq
      exact absurd hd (Bool.eq_false_iff.mp hc)
    | cons d before =>
      obtain ⟨-, rfl⟩ := List.cons.inj heq
      refine ⟨before, after, rfl, ?_, hrun⟩
      cases before with
      | nil => rfl
      | cons e before => simpa [List.getLast?_cons_cons] using hbefore
  · rintro ⟨before, after, rfl, hbefore, hrun⟩
    refine ⟨c :: before, after, rfl, ?_, hrun⟩
    cases before with
    | nil => simpa using hc
    | cons e before => simpa [List.getLast?_cons_cons] using hbefore

/-- The runs of a text that begins with one are this one and those after it. -/
theorem isRun_append_iff {first : Text} (hfirst : IsRunBefore first after) :
    IsRun (first ++ after) run ↔ run = first ∨ IsRun after run := by
  constructor
  · rintro ⟨before, beyond, heq, hbefore, hrun⟩
    rcases List.append_eq_append_iff.mp heq with ⟨middle, rfl, rfl⟩ | ⟨middle, rfl, hmiddle⟩
    · -- the run begins behind the first one
      refine Or.inr ⟨middle, beyond, rfl, ?_, hrun⟩
      cases middle with
      | nil => rfl
      | cons d middle => simpa [List.getLast?_cons] using hbefore
    · -- the run begins within the first one, so at its start
      rcases List.eq_nil_or_concat before with rfl | ⟨before, d, rfl⟩
      · exact Or.inl (hrun.unique hfirst hmiddle)
      · have hd := hfirst.numeral d (by simp)
        rw [List.concat_eq_append, List.getLast?_concat, Option.any_some, hd] at hbefore
        cases hbefore
  · rintro (rfl | ⟨before, beyond, rfl, hbefore, hrun⟩)
    · exact ⟨[], after, rfl, rfl, hfirst⟩
    · refine ⟨first ++ before, beyond, (List.append_assoc _ _ _).symm, ?_, hrun⟩
      cases before with
      | nil =>
        -- the first run would go on with this one
        obtain ⟨d, rest, rfl, hd⟩ := hrun.exists_eq_cons
        have hstops := hfirst.stops
        rw [List.nil_append, List.cons_append, List.head?_cons, Option.any_some, hd] at hstops
        cases hstops
      | cons d before => simpa [List.getLast?_cons] using hbefore

theorem not_hasBrokenRun_nil : ¬ HasBrokenRun [] :=
  fun ⟨run, hrun, _⟩ => not_isRun_nil run hrun

theorem hasBrokenRun_cons_iff (hc : isNumeralChar c = false) :
    HasBrokenRun (c :: t) ↔ HasBrokenRun t := by
  simp only [HasBrokenRun, isRun_cons_iff hc]

theorem hasBrokenRun_append_iff (hrun : IsRunBefore run after) :
    HasBrokenRun (run ++ after) ↔ IsBroken run ∨ HasBrokenRun after := by
  simp only [HasBrokenRun, isRun_append_iff hrun, or_and_right, exists_or, exists_eq_left]

theorem hasBrokenRun_signText_append_iff (negative : Bool) :
    HasBrokenRun (signText negative ++ t) ↔ HasBrokenRun t := by
  cases negative with
  | false => exact Iff.rfl
  | true => exact hasBrokenRun_cons_iff (by decide)

namespace Token

/-! ## Characters on their own -/

theorem isNumeralChar_symbol (op : Operator) : isNumeralChar op.symbol = false := by
  cases op <;> decide

theorem ofSymbol_symbol (op : Operator) : ofSymbol op.symbol = .ok (.operator op) := by
  cases op <;> rfl

theorem ofSymbol_cases {c : Char} {token : Token} (h : ofSymbol c = .ok token) :
    (c = '(' ∧ token = .opening) ∨ (c = ')' ∧ token = .closing) ∨
      ∃ op, c = op.symbol ∧ token = .operator op := by
  unfold ofSymbol at h
  split at h
  · rename_i hc
    exact Or.inl ⟨hc, (Except.ok.inj h).symm⟩
  split at h
  · rename_i hc
    exact Or.inr (Or.inl ⟨hc, (Except.ok.inj h).symm⟩)
  split at h
  · rename_i op hop
    exact Or.inr (Or.inr ⟨op, (Operator.symbol_of_ofSymbol? hop).symm, (Except.ok.inj h).symm⟩)
  · cases h

theorem isNumeralChar_of_ofSymbol {token : Token} (h : ofSymbol c = .ok token) :
    isNumeralChar c = false := by
  rcases ofSymbol_cases h with ⟨rfl, -⟩ | ⟨rfl, -⟩ | ⟨op, rfl, -⟩
  · decide
  · decide
  · exact isNumeralChar_symbol op

/-- A character of expressions that is neither digit nor point is a token. -/
theorem ofSymbol_of_isInfixChar {c : Char} (hc : isInfixChar c = true)
    (hnumeral : isNumeralChar c = false) : ∃ token, ofSymbol c = .ok token := by
  unfold ofSymbol
  split
  · exact ⟨_, rfl⟩
  split
  · exact ⟨_, rfl⟩
  · rename_i hopening hclosing
    have hop : (Operator.ofSymbol? c).isSome = true := by
      simpa [isInfixChar, hnumeral, hopening, hclosing] using hc
    obtain ⟨op, hop⟩ := Option.isSome_iff_exists.mp hop
    rw [hop]
    exact ⟨_, rfl⟩

/-! ## Steps of the scanner -/

theorem beginsNumber_eq_false_iff (previous : Option Token) (c : Char) (rest : Text) :
    beginsNumber previous c rest = false ↔ isNumeralChar c = false ∧
      (c = '-' → expectsNumber previous = true → rest.head?.any isNumeralChar = false) := by
  rw [beginsNumber, Bool.or_eq_false_iff, Bool.and_eq_false_imp, Bool.and_eq_true, and_imp,
    beq_iff_eq]

/-- Where a run comes next, the scanner takes it whole, with a sign where a number is expected. -/
theorem scan_signText_append {previous : Option Token} {negative : Bool}
    (hrun : IsRunBefore run after) (hexpects : negative = true → expectsNumber previous = true) :
    scan previous (signText negative ++ (run ++ after)) =
      match Numeral.read? (signText negative ++ run) with
      | none => .error .malformed
      | some x => (scan (some (.number x)) after).map (.number x :: ·) := by
  have htake := hrun.takeWhile_eq
  have hdrop := hrun.dropWhile_eq
  obtain ⟨d, rest, rfl, hd⟩ := hrun.exists_eq_cons
  cases negative with
  | true =>
    -- the sign begins the number, and the whole run follows it
    have hbegins : beginsNumber previous '-' (d :: rest ++ after) = true := by
      simp [beginsNumber, hexpects rfl, hd]
    refine (scan_of_beginsNumber hbegins).trans ?_
    rw [htake, hdrop]
    rfl
  | false =>
    -- the first character of the run begins the number
    have hbegins : beginsNumber previous d (rest ++ after) = true := by simp [beginsNumber, hd]
    rw [List.cons_append, List.takeWhile_cons_of_pos hd] at htake
    rw [List.cons_append, List.dropWhile_cons_of_pos hd] at hdrop
    refine (scan_of_beginsNumber hbegins).trans ?_
    rw [htake, hdrop]
    rfl

/-- Where a number begins, a run does, or a sign where one is expected and a run behind it. -/
theorem exists_run_of_beginsNumber {previous : Option Token} {rest : Text}
    (h : beginsNumber previous c rest = true) :
    ∃ negative run after, c :: rest = signText negative ++ (run ++ after) ∧
      IsRunBefore run after ∧ (negative = true → expectsNumber previous = true) := by
  by_cases hc : isNumeralChar c = true
  · refine ⟨false, _, _, ?_, isRunBefore_takeWhile hc rest, fun h => absurd h Bool.false_ne_true⟩
    rw [List.cons_append, List.takeWhile_append_dropWhile]
    rfl
  · have hsign : (c = '-' ∧ expectsNumber previous = true) ∧
        rest.head?.any isNumeralChar = true := by
      simpa [beginsNumber, hc] using h
    obtain ⟨⟨rfl, hexpects⟩, hhead⟩ := hsign
    cases rest with
    | nil => cases hhead
    | cons d rest =>
      refine ⟨true, _, _, ?_, isRunBefore_takeWhile (by simpa using hhead) rest, fun _ => hexpects⟩
      rw [List.cons_append, List.takeWhile_append_dropWhile]
      rfl

/-- **Induction along the scanner**: over the runs of a text, each with the sign in front of it
where a number is expected, and over its other characters. -/
theorem scan_induction {motive : Option Token → Text → Prop}
    (nil : ∀ previous, motive previous [])
    (number : ∀ previous negative run after, IsRunBefore run after →
      (negative = true → expectsNumber previous = true) →
      (∀ x, motive (some (.number x)) after) →
      motive previous (signText negative ++ (run ++ after)))
    (symbol : ∀ previous c rest, beginsNumber previous c rest = false →
      (∀ token, motive (some token) rest) → motive previous (c :: rest))
    (previous : Option Token) (t : Text) : motive previous t := by
  induction hlength : t.length using Nat.strong_induction_on generalizing previous t with
  | _ n ih =>
    subst hlength
    cases t with
    | nil => exact nil previous
    | cons c rest =>
      cases hbegins : beginsNumber previous c rest with
      | true =>
        obtain ⟨negative, run, after, htext, hrun, hexpects⟩ := exists_run_of_beginsNumber hbegins
        -- a run is not empty, so the text behind it is shorter
        have hshorter : after.length < (c :: rest).length := by
          have := List.length_pos_iff.mpr hrun.ne_nil
          rw [htext, List.length_append, List.length_append]
          omega
        rw [htext]
        exact number previous negative run after hrun hexpects fun x => ih _ hshorter _ after rfl
      | false =>
        exact symbol previous c rest hbegins fun token => ih _ (Nat.lt_succ_self _) _ rest rfl

/-- A run that is split into tokens is a number. -/
theorem scan_signText_append_eq_ok_iff {previous : Option Token} {negative : Bool}
    {tokens : List Token} (hrun : IsRunBefore run after)
    (hexpects : negative = true → expectsNumber previous = true) :
    scan previous (signText negative ++ (run ++ after)) = .ok tokens ↔
      ∃ x later, Numeral.read? (signText negative ++ run) = some x ∧
        scan (some (.number x)) after = .ok later ∧ .number x :: later = tokens := by
  rw [scan_signText_append hrun hexpects]
  cases hread : Numeral.read? (signText negative ++ run) with
  | none => simp
  | some x => simp [map_eq_ok_iff]

/-- A character on its own that is split into tokens is one. -/
theorem scan_cons_eq_ok_iff {previous : Option Token} {rest : Text} {tokens : List Token}
    (hbegins : beginsNumber previous c rest = false) :
    scan previous (c :: rest) = .ok tokens ↔
      ∃ token later, ofSymbol c = .ok token ∧ scan (some token) rest = .ok later ∧
        token :: later = tokens := by
  rw [scan_of_not_beginsNumber hbegins]
  cases htoken : ofSymbol c with
  | error fault => simp
  | ok token => simp [map_eq_ok_iff]

/-- No text but the empty one has no tokens. -/
theorem eq_nil_of_scan {previous : Option Token} (h : scan previous t = .ok []) : t = [] := by
  induction previous, t using scan_induction with
  | nil previous => rfl
  | number previous negative run after hrun hexpects _ =>
    obtain ⟨x, later, -, -, hnil⟩ := (scan_signText_append_eq_ok_iff hrun hexpects).mp h
    cases hnil
  | symbol previous c rest hbegins _ =>
    obtain ⟨token, later, -, -, hnil⟩ := (scan_cons_eq_ok_iff hbegins).mp h
    cases hnil

theorem isSome_read?_iff (hrun : IsRunBefore run after) (negative : Bool) :
    (Numeral.read? (signText negative ++ run)).isSome = true ↔ ¬ IsBroken run := by
  rw [Numeral.isSome_read?_signText hrun.numeral, hrun.isBroken_iff, Bool.not_eq_false]

/-- **The texts that are not split into tokens**: in the characters of expressions, those with a
broken run. -/
theorem scan_eq_error_iff (ht : ∀ c ∈ t, isInfixChar c = true) (previous : Option Token)
    (fault : Fault) :
    scan previous t = .error fault ↔ fault = .malformed ∧ HasBrokenRun t := by
  induction previous, t using scan_induction with
  | nil previous =>
    rw [scan_nil]
    constructor
    · intro h
      cases h
    · rintro ⟨-, hbroken⟩
      exact absurd hbroken not_hasBrokenRun_nil
  | number previous negative run after hrun hexpects ih =>
    have hafter : ∀ d ∈ after, isInfixChar d = true := fun d hd => ht d (by simp [hd])
    have hread := isSome_read?_iff hrun negative
    rw [scan_signText_append hrun hexpects, hasBrokenRun_signText_append_iff,
      hasBrokenRun_append_iff hrun]
    cases hvalue : Numeral.read? (signText negative ++ run) with
    | none =>
      have hbroken : IsBroken run := by simpa [hvalue] using hread
      simp [hbroken, eq_comm]
    | some x =>
      have hwhole : ¬ IsBroken run := by simpa [hvalue] using hread
      simp only [map_eq_error_iff, ih x hafter, hwhole, false_or]
  | symbol previous c rest hbegins ih =>
    have hnumeral := ((beginsNumber_eq_false_iff previous c rest).mp hbegins).1
    obtain ⟨token, htoken⟩ := ofSymbol_of_isInfixChar (ht c List.mem_cons_self) hnumeral
    rw [scan_of_not_beginsNumber hbegins, htoken, hasBrokenRun_cons_iff hnumeral]
    exact map_eq_error_iff.trans (ih token fun d hd => ht d (List.mem_cons_of_mem c hd))

end Token

end Keypad
