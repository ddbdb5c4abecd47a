import Keypad.Proofs.Calculator.TypedNumber
import Keypad.Proofs.Display.Characters

/-!
# Separators on the display

Only grouping writes separators, and it puts none before the first digit.  So a written value is
read with its separators as it is without them, and dropping them gives the value as it is written
without grouping.

## Main definitions

* `IsTidy`: a text without blanks whose separators all stand behind its first digit

## Main results

* `eraseSeparators_write`: a value without its separators is the value written without grouping
* `isTidy_write`: written values are tidy
* `IsTidy.readDisplay?_eraseSeparators`, `IsTidy.eraseSeparators_eq_singleton_iff`: a tidy text is
  read, and is a lone zero, as it is without its separators
-/

namespace Keypad

variable {s t : Text}

/-! ## Dropping separators -/

theorem separator_notMem_eraseSeparators (t : Text) : separator ∉ eraseSeparators t := by
  intro hmem
  simpa using (List.mem_filter.mp hmem).2

theorem eraseSeparators_of_notMem (h : separator ∉ t) : eraseSeparators t = t := by
  refine List.filter_eq_self.mpr fun c hc => bne_iff_ne.mpr ?_
  rintro rfl
  exact h hc

@[simp] theorem eraseSeparators_eraseSeparators (t : Text) :
    eraseSeparators (eraseSeparators t) = eraseSeparators t :=
  eraseSeparators_of_notMem (separator_notMem_eraseSeparators t)

theorem contains_eraseSeparators {c : Char} (hc : c ≠ separator) (t : Text) :
    (eraseSeparators t).contains c = t.contains c := by
  rw [Bool.eq_iff_iff]
  simp [eraseSeparators, hc]

theorem separator_notMem_append (hs : separator ∉ s) (ht : separator ∉ t) :
    separator ∉ s ++ t := by
  intro hmem
  rcases List.mem_append.mp hmem with h | h
  · exact hs h
  · exact ht h

theorem separator_notMem_message (fault : Fault) : separator ∉ fault.message := by
  cases fault with
  | invalidCharacter found => exact (by decide : separator ∉ "Invalid character".toList)
  | _ => decide

/-! ## Written values -/

/-- A value in the notation a style asks for, before grouping. -/
def Style.literal (style : Style) (x : Binary64) : Text :=
  dropFractionZeros ((x.roundTo style.places).fixed style.places)

theorem isWrittenChar_of_mem_literal {style : Style} {x : Binary64} :
    ∀ c ∈ style.literal x, isWrittenChar c = true := by
  intro c hc
  exact isWrittenChar_of_mem_dropFractionZeros (fun _ hd => isWrittenChar_of_mem_fixed hd) hc

theorem separator_notMem_of_isWrittenChar (h : ∀ c ∈ t, isWrittenChar c = true) :
    separator ∉ t :=
  fun hmem => ne_separator_of_isWrittenChar (h separator hmem) rfl

/-- A value is written with an exponent, or as a literal that may be grouped. -/
theorem write_cases (style : Style) (x : Binary64) :
    (∀ grouping, { style with grouping := grouping }.write x =
        (x.roundTo style.places).scientific (style.places - 1)) ∨
      ∀ grouping, { style with grouping := grouping }.write x =
        if grouping then groupInteger (style.literal x) else style.literal x := by
  cases hwide : style.scientific && (x.roundTo style.places).isFinite &&
      !(x.roundTo style.places).isZero &&
      decide ((digitCeiling : Int) < (x.roundTo style.places).digitsBeforePoint) with
  | true => exact Or.inl fun grouping => if_pos hwide
  | false =>
    refine Or.inr fun grouping => ?_
    unfold Style.write
    dsimp only
    rw [hwide]
    rfl

/-- **Grouping is presentation**: without its separators a value is written as without grouping. -/
theorem eraseSeparators_write (style : Style) (x : Binary64) :
    eraseSeparators (style.write x) = { style with grouping := false }.write x := by
  rcases write_cases style x with hwide | hliteral
  · have hplain : separator ∉ (x.roundTo style.places).scientific (style.places - 1) :=
      separator_notMem_of_isWrittenChar fun _ hc => isWrittenChar_of_mem_scientific hc
    rw [hwide false, hwide style.grouping]
    exact eraseSeparators_of_notMem hplain
  · have hplain : eraseSeparators (style.literal x) = style.literal x :=
      eraseSeparators_of_notMem (separator_notMem_of_isWrittenChar isWrittenChar_of_mem_literal)
    rw [hliteral false, hliteral style.grouping]
    cases style.grouping with
    | true => exact (eraseSeparators_groupInteger _).trans hplain
    | false => exact hplain

theorem separator_notMem_write {style : Style} (h : style.grouping = false) (x : Binary64) :
    separator ∉ style.write x := by
  have hself : { style with grouping := false } = style := by rw [← h]
  rw [← hself, ← eraseSeparators_write]
  exact separator_notMem_eraseSeparators _

/-! ## Tidy texts -/

/-- A text without blanks whose separators, if there are any, all stand behind its first digit,
and are not all that stands there. -/
structure IsTidy (t : Text) : Prop where
  blanks : ∀ c ∈ t, Text.isBlank c = false
  inside : separator ∈ t → ∃ negative d rest, t = signText negative ++ d :: rest ∧
    d ≠ '-' ∧ d ≠ separator ∧ eraseSeparators rest ≠ []

theorem isTidy_of_notMem (hblanks : ∀ c ∈ t, Text.isBlank c = false) (h : separator ∉ t) :
    IsTidy t :=
  ⟨hblanks, fun hmem => absurd hmem h⟩

/-- The first character of the digits is never behind a separator. -/
theorem groupDigits_cons (length : Nat) (d : Char) (rest : Text) :
    groupDigits length 0 (d :: rest) = d :: groupDigits length 1 rest := by
  rw [groupDigits, if_neg (by simp)]

theorem exists_of_separator_mem_groupUnsigned (ht : separator ∉ t)
    (h : separator ∈ groupInteger.groupUnsigned t) :
    ∃ d ∈ t, ∃ rest, groupInteger.groupUnsigned t = d :: rest ∧ eraseSeparators rest ≠ [] := by
  -- digits that are followed by `after`, a point with its fraction or nothing
  have hdigits : ∀ (whole after : Text), separator ∉ whole → separator ∉ after →
      separator ∈ groupDigits (Text.byteCount whole) 0 whole ++ after →
      ∃ d ∈ whole, ∃ rest, groupDigits (Text.byteCount whole) 0 whole ++ after = d :: rest ∧
        eraseSeparators rest ≠ [] := by
    intro whole after hwhole hafter hmem
    cases whole with
    | nil => exact absurd hmem hafter
    | cons d digits =>
      rw [groupDigits_cons, List.cons_append] at hmem ⊢
      refine ⟨d, List.mem_cons_self, _, rfl, ?_⟩
      rw [eraseSeparators_append, eraseSeparators_groupDigits]
      -- one digit alone is not grouped
      cases digits with
      | nil =>
        rcases List.mem_cons.mp hmem with hd | hmem
        · exact absurd (hd ▸ List.mem_cons_self) hwhole
        · exact absurd hmem hafter
      | cons e digits =>
        have he : e ≠ separator := by
          rintro rfl
          exact hwhole (by simp)
        simp [eraseSeparators_cons_of_ne he]
  unfold groupInteger.groupUnsigned at h ⊢
  split at h
  · rename_i whole places hsplit
    obtain ⟨rfl, -⟩ := Text.append_of_splitAt? _ _ _ _ hsplit
    rw [List.mem_append, not_or] at ht
    obtain ⟨d, hd, hrest⟩ := hdigits whole ('.' :: places) ht.1 ht.2 h
    exact ⟨d, List.mem_append_left _ hd, hrest⟩
  · rename_i hsplit
    have hnil : groupDigits (Text.byteCount t) 0 t ++ [] = groupDigits (Text.byteCount t) 0 t :=
      List.append_nil _
    rw [← hnil] at h ⊢
    exact hdigits t [] ht (by simp) h

theorem isTidy_groupInteger (hblanks : ∀ c ∈ t, Text.isBlank c = false) (ht : separator ∉ t)
    (hminus : '-' ∉ t.tail) : IsTidy (groupInteger t) := by
  constructor
  · intro c hc
    rcases mem_groupInteger hc with hc | rfl
    · exact hblanks c hc
    · decide
  · intro h
    -- a minus sign can only be the first character, and is not part of what is grouped
    unfold groupInteger at h ⊢
    split at h
    · rename_i unsigned
      rw [List.mem_cons, not_or] at ht
      have hmem : separator ∈ groupInteger.groupUnsigned unsigned := by simpa [ht.1] using h
      obtain ⟨d, hd, rest, heq, hrest⟩ := exists_of_separator_mem_groupUnsigned ht.2 hmem
      refine ⟨true, d, rest, congrArg ('-' :: ·) heq, ?_, ?_, hrest⟩
      · rintro rfl
        exact hminus hd
      · rintro rfl
        exact ht.2 hd
    · rename_i hsign
      obtain ⟨d, hd, rest, heq, hrest⟩ := exists_of_separator_mem_groupUnsigned ht h
      refine ⟨false, d, rest, heq, ?_, ?_, hrest⟩
      · rintro rfl
        cases t with
        | nil => cases hd
        | cons e u =>
          rcases List.mem_cons.mp hd with rfl | hd
          · exact hsign u rfl
          · exact hminus hd
      · rintro rfl
        exact ht hd

/-- **Written values are tidy.** -/
theorem isTidy_write (style : Style) (x : Binary64) : IsTidy (style.write x) := by
  rcases write_cases style x with hwide | hliteral
  · have hchars : ∀ c ∈ style.write x, isWrittenChar c = true := by
      intro c hc
      rw [hwide style.grouping] at hc
      exact isWrittenChar_of_mem_scientific hc
    exact isTidy_of_notMem (fun c hc => isBlank_of_isWrittenChar (hchars c hc))
      (separator_notMem_of_isWrittenChar hchars)
  · have hblanks : ∀ c ∈ style.literal x, Text.isBlank c = false := fun c hc =>
      isBlank_of_isWrittenChar (isWrittenChar_of_mem_literal c hc)
    have hplain : separator ∉ style.literal x :=
      separator_notMem_of_isWrittenChar isWrittenChar_of_mem_literal
    rw [show style.write x = _ from hliteral style.grouping]
    cases style.grouping with
    | true =>
      exact isTidy_groupInteger hblanks hplain
        (minus_notMem_tail_dropFractionZeros (minus_notMem_tail_fixed _ _))
    | false => exact isTidy_of_notMem hblanks hplain

namespace IsTidy

theorem readDisplay?_eraseSeparators (h : IsTidy t) :
    readDisplay? (eraseSeparators t) = readDisplay? t := by
  have herased : ∀ c ∈ eraseSeparators t, Text.isBlank c = false := fun c hc =>
    h.blanks c (List.mem_filter.mp hc).1
  rw [readDisplay?, readDisplay?, Text.trim_of_all h.blanks, Text.trim_of_all herased,
    eraseSeparators_eraseSeparators]

/-- A text with separators has two characters besides them, so it is no lone character without
them either. -/
theorem eraseSeparators_eq_singleton_iff (h : IsTidy t) (c : Char) :
    eraseSeparators t = [c] ↔ t = [c] ∧ c ≠ separator := by
  constructor
  · intro heq
    by_cases hmem : separator ∈ t
    · obtain ⟨negative, d, rest, rfl, -, hd, hrest⟩ := h.inside hmem
      have hlength := congrArg List.length heq
      rw [eraseSeparators_append, eraseSeparators_cons_of_ne hd] at hlength
      have hpos : 0 < (eraseSeparators rest).length := List.length_pos_iff.mpr hrest
      simp only [List.length_append, List.length_cons, List.length_nil] at hlength
      omega
    · rw [eraseSeparators_of_notMem hmem] at heq
      refine ⟨heq, ?_⟩
      rintro rfl
      exact hmem (heq ▸ List.mem_singleton.mpr rfl)
  · rintro ⟨rfl, hc⟩
    exact eraseSeparators_of_notMem (by simpa using hc.symm)

end IsTidy

end Keypad
