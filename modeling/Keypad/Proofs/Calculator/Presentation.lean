import Keypad.Proofs.Calculator.DisplayText
import Keypad.Proofs.Calculator.View
import Keypad.Proofs.Expression.Value

/-!
# Grouping is presentation only

Separators come onto the display with results, percentages, tax and numbers from the memory, and
from there onto the tape.  Whatever reads or edits a display takes it as it would without them: a
display with separators is always tidy, so dropping them neither changes its value nor makes it a
lone zero.  Two calculators that are told the same, but for grouping, hence never differ in
anything but separators.

## Main definitions

* `View.ungrouped`: the view that hides separators and whether numbers are grouped
* `Calculator.DiffersInGrouping`: two calculators differ in no more than that

## Main results

* `DisplayText.isTidy`: the displays of running calculators are tidy
* `Reachable.reads_ungrouped`: reachable displays are read as they are without separators
* `differsInGrouping_performAll`: runs that differ in grouping lead to calculators that do
-/

namespace Keypad

open Calculator

/-! ## What is seen without separators -/

/-- Options but for grouping. -/
def Options.ungrouped (options : Options) : Options := { options with grouping := false }

theorem Options.ungrouped_regrouped (options : Options) (grouping : Bool) :
    { options with grouping := grouping }.ungrouped = options.ungrouped := rfl

/-- A change of options but for grouping. -/
def OptionsChange.ungrouped (change : OptionsChange) : OptionsChange :=
  { change with grouping := none }

/-- An operation but for the grouping it configures. -/
def Operation.ungrouped : Operation → Operation
  | .configure change => .configure change.ungrouped
  | other => other

/-- An entry without separators. -/
def Entry.ungrouped (entry : Entry) : Entry :=
  ⟨eraseSeparators entry.expression, eraseSeparators entry.result⟩

/-- A tape whose entries have no separators. -/
def Tape.ungrouped (tape : Tape) : Tape := ⟨tape.entries.map Entry.ungrouped⟩

/-- The view that hides separators, and whether numbers are grouped. -/
def View.ungrouped : View :=
  ⟨eraseSeparators, Options.ungrouped, OptionsChange.ungrouped, Tape.ungrouped⟩

theorem Tape.ungrouped_push (tape : Tape) (entry : Entry) :
    (tape.push entry).ungrouped = tape.ungrouped.push entry.ungrouped := by
  unfold ungrouped push
  rw [List.map_cons, List.map_take]

/-! ## The sign -/

variable {t : Text}

theorem mem_flipSign {c : Char} (h : c ∈ flipSign t) : c = '-' ∨ c ∈ t := by
  unfold flipSign at h
  split at h
  · exact Or.inr (List.mem_cons_of_mem _ h)
  · exact List.mem_cons.mp h

theorem flipSign_signText_append {d : Char} (hd : d ≠ '-') (negative : Bool) (rest : Text) :
    flipSign (signText negative ++ d :: rest) = signText (!negative) ++ d :: rest := by
  cases negative with
  | true => rfl
  | false =>
    show flipSign (d :: rest) = '-' :: d :: rest
    unfold flipSign
    split
    · rename_i heq
      exact absurd (List.cons.inj heq).1 hd
    · rfl

theorem eraseSeparators_signText_append {d : Char} (hd : d ≠ separator) (negative : Bool)
    (rest : Text) : eraseSeparators (signText negative ++ d :: rest) =
      signText negative ++ d :: eraseSeparators rest := by
  rw [eraseSeparators_append, eraseSeparators_cons_of_ne hd]
  cases negative <;> rfl

theorem separator_notMem_flipSign (h : separator ∉ t) : separator ∉ flipSign t :=
  fun hmem => h ((mem_flipSign hmem).resolve_left (by decide))

/-! ## Tidy displays -/

namespace IsTidy

theorem flipSign (h : IsTidy t) : IsTidy (Calculator.flipSign t) := by
  constructor
  · intro c hc
    rcases mem_flipSign hc with rfl | hc
    · decide
    · exact h.blanks c hc
  · -- the digit the separators stand behind stays, only the sign before it is another
    intro hmem
    have hold : separator ∈ t := (mem_flipSign hmem).resolve_left (by decide)
    obtain ⟨negative, d, rest, rfl, hminus, hd, hrest⟩ := h.inside hold
    exact ⟨!negative, d, rest, flipSign_signText_append hminus negative rest, hminus, hd, hrest⟩

/-- Dropping separators and changing the sign commute, since no separator stands before the
sign. -/
theorem eraseSeparators_flipSign (h : IsTidy t) :
    eraseSeparators (Calculator.flipSign t) = Calculator.flipSign (eraseSeparators t) := by
  by_cases hmem : separator ∈ t
  · obtain ⟨negative, d, rest, rfl, hminus, hd, -⟩ := h.inside hmem
    rw [flipSign_signText_append hminus, eraseSeparators_signText_append hd,
      eraseSeparators_signText_append hd, flipSign_signText_append hminus]
  · rw [eraseSeparators_of_notMem hmem]
    exact eraseSeparators_of_notMem (separator_notMem_flipSign hmem)

/-- What is typed behind a tidy text leaves it tidy, as its separators are dropped. -/
theorem eraseSeparators_append (h : IsTidy t) {u : Text}
    (hblanks : ∀ c ∈ u, Text.isBlank c = false) (hu : separator ∉ u) :
    IsTidy (eraseSeparators t ++ u) := by
  refine isTidy_of_notMem ?_ (separator_notMem_append (separator_notMem_eraseSeparators t) hu)
  intro c hc
  rcases List.mem_append.mp hc with hc | hc
  · exact h.blanks c (List.mem_filter.mp hc).1
  · exact hblanks c hc

/-- A tidy text is read through the view without separators. -/
theorem reads_ungrouped (h : IsTidy t) : View.ungrouped.Reads t where
  value := h.readDisplay?_eraseSeparators
  zero := (h.eraseSeparators_eq_singleton_iff '0').trans (and_iff_left (by decide))
  sign := h.eraseSeparators_flipSign

end IsTidy

/-- What is typed has neither blanks nor separators. -/
theorem isTidy_of_isInfixChar (h : ∀ c ∈ t, isInfixChar c = true) : IsTidy t :=
  isTidy_of_notMem (fun c hc => isBlank_of_isInfixChar (h c hc))
    fun hmem => ne_separator_of_isInfixChar (h separator hmem) rfl

theorem isTidy_singleton {c : Char} (h : isInfixChar c = true) : IsTidy [c] :=
  isTidy_of_isInfixChar (by simpa using h)

/-- **The displays of running calculators are tidy**: only written values bring separators, and
whatever is typed behind them drops them. -/
theorem DisplayText.isTidy (h : DisplayText t) : IsTidy t := by
  induction h with
  | zero => exact isTidy_singleton (by decide)
  | zeroPoint => exact isTidy_of_isInfixChar (List.all_eq_true.mp (by decide))
  | digit hd => exact isTidy_singleton (isInfixChar_of_isDigit hd)
  | opening => exact isTidy_singleton (by decide)
  | next _ hch ih =>
    have htyped := isTidy_singleton hch
    exact ih.eraseSeparators_append htyped.blanks
      (by simpa using (ne_separator_of_isInfixChar hch).symm)
  | written style _ => exact isTidy_write style _
  | inserted _ places _ ih =>
    exact ih.eraseSeparators_append (isTidy_write _ _).blanks (separator_notMem_write rfl _)
  | signed _ ih => exact ih.flipSign
  | shortened _ _ ih =>
    -- the separators go with the last character
    refine isTidy_of_notMem (fun c hc => ?_) fun hmem =>
      separator_notMem_eraseSeparators _ (List.mem_of_mem_dropLast hmem)
    exact ih.blanks c (List.mem_filter.mp (List.mem_of_mem_dropLast hc)).1

namespace Calculator

variable {c d : Calculator}

/-- **Every reachable display is read as it is without separators**: that of a running calculator
is tidy, and that of a stopped one is a message, which has none. -/
theorem Reachable.reads_ungrouped (h : Reachable c) : View.ungrouped.Reads c.display := by
  cases halarm : c.alarm with
  | none => exact (h.displayText halarm).isTidy.reads_ungrouped
  | some alarm =>
    obtain ⟨-, -, hdisplay, -, fault, rfl⟩ := h.coherent.stopped_of_alarm alarm halarm
    have hplain : separator ∉ c.display := hdisplay ▸ separator_notMem_message fault
    have herased : eraseSeparators c.display = c.display := eraseSeparators_of_notMem hplain
    refine ⟨congrArg readDisplay? herased, by rw [show View.ungrouped.text _ = _ from herased], ?_⟩
    calc eraseSeparators (flipSign c.display)
        = flipSign c.display := eraseSeparators_of_notMem (separator_notMem_flipSign hplain)
      _ = flipSign (eraseSeparators c.display) := by rw [herased]

end Calculator

/-! ## The view without separators -/

/-- No operation depends on separators, nor on whether numbers are grouped. -/
theorem View.isFaithful_ungrouped : View.ungrouped.IsFaithful where
  taxRate _ := rfl
  precision _ := rfl
  mode _ := rfl
  mode_change _ := rfl
  switch _ _ := rfl
  change _ _ := rfl
  write _ _ _ := eraseSeparators_write _ _
  text_of_notMem _ := eraseSeparators_of_notMem
  eraseSeparators_text := eraseSeparators_eraseSeparators
  push {tape other entry entry'} htape hexpression hresult := by
    have hentry : entry.ungrouped = entry'.ungrouped := congrArg₂ Entry.mk hexpression hresult
    calc (tape.push entry).ungrouped
        = tape.ungrouped.push entry.ungrouped := Tape.ungrouped_push tape entry
      _ = other.ungrouped.push entry'.ungrouped :=
          congrArg₂ Tape.push htape hentry
      _ = (other.push entry').ungrouped := (Tape.ungrouped_push other entry').symm

theorem View.operation_ungrouped : View.ungrouped.operation = Operation.ungrouped := by
  funext operation
  cases operation <;> rfl

namespace Calculator

variable {c d : Calculator}

/-- Two calculators that differ in no more than separators and whether numbers are grouped. -/
structure DiffersInGrouping (c d : Calculator) : Prop where
  accumulator : c.accumulator = d.accumulator
  pending : c.pending = d.pending
  recent : c.recent = d.recent
  fresh : c.fresh = d.fresh
  alarm : c.alarm = d.alarm
  taxRate : c.options.taxRate = d.options.taxRate
  precision : c.options.precision = d.options.precision
  scientific : c.options.scientific = d.options.scientific
  mode : c.options.mode = d.options.mode
  memory : c.memory = d.memory
  display : eraseSeparators c.display = eraseSeparators d.display
  tape : c.tape.entries.map Entry.ungrouped = d.tape.entries.map Entry.ungrouped

theorem differsInGrouping_of_see (h : View.ungrouped.see c = View.ungrouped.see d) :
    DiffersInGrouping c d := by
  obtain ⟨hdisplay, haccumulator, hpending, hrecent, hfresh, halarm, hoptions, hmemory, htape⟩ :=
    Calculator.mk.inj h
  obtain ⟨htaxRate, hprecision, -, hscientific, hmode⟩ := Options.mk.inj hoptions
  exact
    { display := hdisplay
      accumulator := haccumulator
      pending := hpending
      recent := hrecent
      fresh := hfresh
      alarm := halarm
      taxRate := htaxRate
      precision := hprecision
      scientific := hscientific
      mode := hmode
      memory := hmemory
      tape := congrArg Tape.entries htape }

/-- **Grouping is presentation only.**  Two calculators are switched on with options that differ at
most in grouping, and run through operations that differ at most in the grouping they configure.
After any number of these the calculators differ in nothing but separators and grouping. -/
theorem differsInGrouping_performAll {options other : Options}
    (hoptions : options.ungrouped = other.ungrouped) {operations others : List Operation}
    (hoperations : operations.map Operation.ungrouped = others.map Operation.ungrouped) (n : ℕ) :
    DiffersInGrouping ((make options).performAll (operations.take n))
      ((make other).performAll (others.take n)) := by
  have hmade : View.ungrouped.see (make options) = View.ungrouped.see (make other) := by
    show { make options with options := options.ungrouped } =
      { make other with options := other.ungrouped }
    rw [hoptions]
    rfl
  have hsame : (operations.take n).map View.ungrouped.operation =
      (others.take n).map View.ungrouped.operation := by
    rw [View.operation_ungrouped, List.map_take, List.map_take, hoperations]
  exact differsInGrouping_of_see <| View.see_performAll View.isFaithful_ungrouped
    (fun _ => Reachable.reads_ungrouped) (fun _ operation h => h.perform operation) hmade
    (.make options) (.make other) hsame

/-- The product of `1234` and `1000`, once grouped and once not: before the last of the operations,
which configures the grouping in one of the runs only, the displays differ in two separators. -/
theorem differsInGrouping_performAll_product :
    let grouped : Options := { Options.standard with grouping := true }
    let keys := [.digit '1', .digit '2', .digit '3', .digit '4', .operator .times, .digit '1',
      .digit '0', .digit '0', .digit '0', .equals, .changeSign].map Operation.press
    let operations := keys ++ [.configure { scientific := some true }]
    let others := keys ++ [.configure { scientific := some true, grouping := some false }]
    Options.standard.ungrouped = grouped.ungrouped ∧
      operations.map Operation.ungrouped = others.map Operation.ungrouped ∧
      ((make .standard).performAll (operations.take 11)).display = "-1234000".toList ∧
      ((make grouped).performAll (others.take 11)).display = "-1,234,000".toList ∧
      DiffersInGrouping ((make .standard).performAll (operations.take 11))
        ((make grouped).performAll (others.take 11)) := by
  intro grouped keys operations others
  have hoptions : Options.standard.ungrouped = grouped.ungrouped :=
    (Options.ungrouped_regrouped .standard true).symm
  have hoperations : operations.map Operation.ungrouped = others.map Operation.ungrouped := by
    simp only [operations, others, List.map_append]
    rfl
  exact ⟨hoptions, hoperations, by decide +kernel, by decide +kernel,
    differsInGrouping_performAll hoptions hoperations 11⟩

end Calculator

end Keypad
