import Keypad.Proofs.Calculator.Presentation
import Keypad.Proofs.Display.DisplayNumber
import Keypad.Proofs.Session.TypedExpression

/-!
# The characters on the display

A running calculator shows digits, points, operators, parentheses, separators and the letter of an
exponent, and nothing else; a stopped one shows a message.  So every display is in ASCII, and the
point key finds the number it continues.  No display is empty, because without its separators it
begins, behind an optional sign, with a digit or an opening parenthesis: changing the sign keeps
that character, and backspace never drops it.

## Main definitions

* `isDisplayChar`: what a running calculator shows
* `OpensOperand`: a text that begins as an operand does, behind an optional sign

## Main results

* `DisplayText.isDisplayChar`, `DisplayText.opensOperand`: the characters of a display, and the
  first
* `display_performAll`: the display of every run, and the point key there
-/

namespace Keypad

variable {t : Text} {ch : Char}

/-! ## Characters -/

/-- The characters on the display of a running calculator. -/
def isDisplayChar (ch : Char) : Bool := ch.isDigit || ".+-*/(),e".toList.contains ch

theorem isDisplayChar_iff :
    isDisplayChar ch = true ↔ isInfixChar ch = true ∨ ch = separator ∨ ch = 'e' := by
  constructor
  · intro h
    rcases Bool.or_eq_true _ _ ▸ h with hdigit | hother
    · exact Or.inl (isInfixChar_of_isDigit hdigit)
    · have hall : ".+-*/(),e".toList.all fun d =>
          isInfixChar d || d == separator || d == 'e' := by decide
      simpa [or_assoc] using List.all_eq_true.mp hall ch (List.contains_iff_mem.mp hother)
  · rintro (h | rfl | rfl)
    · rcases isInfixChar_cases h with hdigit | rfl | ⟨op, rfl⟩ | rfl | rfl
      · simp [isDisplayChar, hdigit]
      · rfl
      · cases op <;> rfl
      · rfl
      · rfl
    · rfl
    · rfl

theorem isDisplayChar_of_isInfixChar (h : isInfixChar ch = true) : isDisplayChar ch = true :=
  isDisplayChar_iff.mpr (Or.inl h)

/-- Whether a text is in ASCII. -/
def isAscii (t : Text) : Bool := t.all fun c => decide (c.toNat < 128)

theorem isAscii_iff : isAscii t = true ↔ ∀ c ∈ t, c.toNat < 128 := by
  simp [isAscii]

theorem toNat_lt_of_isDisplayChar (h : isDisplayChar ch = true) : ch.toNat < 128 := by
  rcases Bool.or_eq_true _ _ ▸ h with hdigit | hother
  · simp only [Char.isDigit, Bool.and_eq_true, decide_eq_true_eq] at hdigit
    have hle : ch.toNat ≤ 57 := hdigit.2
    omega
  · have hall : isAscii ".+-*/(),e".toList = true := by decide
    exact isAscii_iff.mp hall ch (List.contains_iff_mem.mp hother)

theorem toNat_lt_of_mem_message (fault : Fault) : ∀ c ∈ fault.message, c.toNat < 128 := by
  refine isAscii_iff.mp ?_
  cases fault with
  | invalidCharacter found => exact (by decide : isAscii "Invalid character".toList = true)
  | _ => decide

/-- In ASCII every character has one byte, so a number can be cut off behind any of them. -/
theorem cutsCharacter_of_ascii (h : ∀ c ∈ t, c.toNat < 128) :
    Calculator.cutsCharacter t = false := by
  unfold Calculator.cutsCharacter
  split
  · rfl
  · rename_i c rest heq
    have hmem : c ∈ t.reverse.dropWhile isNumeralChar := heq ▸ List.mem_cons_self
    have hc := h c (List.mem_reverse.mp ((List.dropWhile_suffix _).subset hmem))
    have hsize : c.utf8Size = 1 := Char.utf8Size_eq_one_iff.mpr (Nat.le_of_lt_succ hc)
    simp [hsize]

theorem mem_of_mem_eraseSeparators (h : ch ∈ eraseSeparators t) : ch ∈ t :=
  (List.mem_filter.mp h).1

namespace DisplayText

/-- **The characters of a display**: what is typed, and what is written of finite values. -/
theorem isDisplayChar (h : DisplayText t) : ∀ c ∈ t, Keypad.isDisplayChar c = true := by
  induction h with
  | zero => exact List.all_eq_true.mp (by decide)
  | zeroPoint => exact List.all_eq_true.mp (by decide)
  | digit hd =>
    intro c hc
    rw [List.mem_singleton.mp hc]
    exact isDisplayChar_of_isInfixChar (isInfixChar_of_isDigit hd)
  | opening => exact List.all_eq_true.mp (by decide)
  | next _ hch ih =>
    intro c hc
    rcases List.mem_append.mp hc with hc | hc
    · exact ih c (mem_of_mem_eraseSeparators hc)
    · rw [List.mem_singleton.mp hc]
      exact isDisplayChar_of_isInfixChar hch
  | written style hx => exact fun c hc => isDisplayChar_iff.mpr (isInfixChar_of_mem_write hx hc)
  | inserted _ places hx ih =>
    intro c hc
    rcases List.mem_append.mp hc with hc | hc
    · exact ih c (mem_of_mem_eraseSeparators hc)
    · exact isDisplayChar_iff.mpr (isInfixChar_of_mem_write hx hc)
  | signed _ ih =>
    intro c hc
    rcases mem_flipSign hc with rfl | hc
    · decide
    · exact ih c hc
  | shortened _ _ ih =>
    exact fun c hc => ih c (mem_of_mem_eraseSeparators (List.mem_of_mem_dropLast hc))

end DisplayText

/-! ## The first character -/

/-- A text that begins, behind an optional sign, as an operand does. -/
def OpensOperand (t : Text) : Prop :=
  ∃ negative d rest, t = signText negative ++ d :: rest ∧ beginsOperand d = true

theorem ne_minus_of_beginsOperand (h : beginsOperand ch = true) : ch ≠ '-' := by
  rintro rfl
  cases h

theorem opensOperand_cons (h : beginsOperand ch = true) (rest : Text) :
    OpensOperand (ch :: rest) :=
  ⟨false, ch, rest, rfl, h⟩

namespace OpensOperand

theorem ne_nil (h : OpensOperand t) : t ≠ [] := by
  obtain ⟨negative, d, rest, rfl, -⟩ := h
  simp

theorem append (h : OpensOperand t) (u : Text) : OpensOperand (t ++ u) := by
  obtain ⟨negative, d, rest, rfl, hd⟩ := h
  exact ⟨negative, d, rest ++ u, by simp, hd⟩

theorem flipSign (h : OpensOperand t) : OpensOperand (Calculator.flipSign t) := by
  obtain ⟨negative, d, rest, rfl, hd⟩ := h
  exact ⟨!negative, d, rest, flipSign_signText_append (ne_minus_of_beginsOperand hd) _ _, hd⟩

/-- Backspace drops a character behind the first one of the operand. -/
theorem dropLast (h : OpensOperand t) (hlast : Calculator.isLastCharacter t = false) :
    OpensOperand t.dropLast := by
  obtain ⟨negative, d, rest, rfl, hd⟩ := h
  have hrest : rest ≠ [] := by
    rintro rfl
    cases negative with
    | true => cases hlast
    | false => cases hlast
  refine ⟨negative, d, rest.dropLast, ?_, hd⟩
  rw [List.dropLast_append_of_ne_nil (List.cons_ne_nil _ _), List.dropLast_cons_of_ne_nil hrest]

end OpensOperand

namespace DisplayText

/-- **The first character of a display**, without its separators. -/
theorem opensOperand (h : DisplayText t) : OpensOperand (eraseSeparators t) := by
  induction h with
  | zero => exact opensOperand_cons (by decide) []
  | zeroPoint => exact opensOperand_cons (by decide) ['.']
  | digit hd =>
    have hplain := ne_separator_of_isInfixChar (isInfixChar_of_isDigit hd)
    rw [eraseSeparators_cons_of_ne hplain]
    exact opensOperand_cons (by simp [beginsOperand, hd]) _
  | opening => exact opensOperand_cons (by decide) []
  | next _ _ ih =>
    rw [eraseSeparators_append, eraseSeparators_eraseSeparators]
    exact ih.append _
  | written style hx =>
    obtain ⟨negative, d, rest, hwritten, hd⟩ := exists_eraseSeparators_write_eq style hx
    exact ⟨negative, d, rest, hwritten, by simp [beginsOperand, hd]⟩
  | inserted _ _ _ ih =>
    rw [eraseSeparators_append, eraseSeparators_eraseSeparators]
    exact ih.append _
  | signed ht ih =>
    rw [ht.isTidy.eraseSeparators_flipSign]
    exact ih.flipSign
  | shortened _ hlast ih =>
    rw [eraseSeparators_of_notMem fun hmem =>
      separator_notMem_eraseSeparators _ (List.mem_of_mem_dropLast hmem)]
    exact ih.dropLast hlast

theorem ne_nil (h : DisplayText t) : t ≠ [] := by
  rintro rfl
  exact h.opensOperand.ne_nil rfl

end DisplayText

/-! ## Runs -/

namespace Calculator

variable {c : Calculator}

theorem Reachable.display_ne_nil (h : Reachable c) : c.display ≠ [] := by
  cases halarm : c.alarm with
  | none => exact (h.displayText halarm).ne_nil
  | some alarm =>
    obtain ⟨-, -, hdisplay, -, fault, rfl⟩ := h.coherent.stopped_of_alarm alarm halarm
    rw [hdisplay]
    cases fault <;> exact List.cons_ne_nil _ _

theorem Reachable.toNat_lt_of_mem_display (h : Reachable c) : ∀ ch ∈ c.display, ch.toNat < 128 := by
  cases halarm : c.alarm with
  | none =>
    exact fun ch hch => toNat_lt_of_isDisplayChar ((h.displayText halarm).isDisplayChar ch hch)
  | some alarm =>
    obtain ⟨-, -, hdisplay, -, fault, rfl⟩ := h.coherent.stopped_of_alarm alarm halarm
    rw [hdisplay]
    exact toNat_lt_of_mem_message fault

theorem Reachable.cutsCharacter_buffer (h : Reachable c) : cutsCharacter c.buffer = false :=
  cutsCharacter_of_ascii fun ch hch => h.toNat_lt_of_mem_display ch (mem_of_mem_eraseSeparators hch)

/-- **The display of every run**, whatever operations are performed with any options: it is not
empty, it is in ASCII, and unless the calculator is stopped it is made of digits, points, operators,
parentheses, separators and the letter of an exponent.  So the number at its end can always be cut
off, and the point key is never blocked. -/
theorem display_performAll (options : Options) (operations : List Operation) :
    let c := (make options).performAll operations
    c.display ≠ [] ∧ (∀ ch ∈ c.display, ch.toNat < 128) ∧
      (c.alarm = none → ∀ ch ∈ c.display, isDisplayChar ch = true) ∧
      cutsCharacter c.buffer = false ∧ c.pointBlocked = false := by
  intro c
  have h : Reachable c := (Reachable.make options).performAll operations
  have hcut := h.cutsCharacter_buffer
  refine ⟨h.display_ne_nil, h.toNat_lt_of_mem_display, fun halarm => ?_, hcut, ?_⟩
  · exact (h.displayText halarm).isDisplayChar
  · rw [pointBlocked, hcut, Bool.and_false]

end Calculator

end Keypad
