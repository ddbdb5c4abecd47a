import Keypad.Proofs.Display.InDigits
import Keypad.Proofs.Display.NumberValue

/-!
# Texts that are read within the ceiling

What stands on the display is stored or used as an operand as it is read, without a look at its
size.  An accepted value, written to the places it was accepted at, is read within the ceiling: it
is read back, or it lies in the binade of the cut-off, far below.  The sign of a text does not
matter, and a message is no number.

## Main definitions

* `ReadsWithin`: a text whose value, if it has one, is within the ceiling

## Main results

* `readsWithin_write_of_accept`: accepted values as they are written
* `exists_displayNumber_within_of_accept`: they are numbers within the ceiling
* `map_abs_readDisplay?_signText`: the sign of a text does not matter
-/

namespace Keypad

/-- The value of a text, if it has one, is within the ceiling. -/
def ReadsWithin (t : Text) : Prop := ∀ x, readDisplay? t = some x → x.exceedsCeiling = false

variable {t : Text}

theorem readsWithin_of_none (h : readDisplay? t = none) : ReadsWithin t := by
  intro x hx
  rw [h] at hx
  cases hx

/-- A message is no number. -/
theorem readDisplay?_message (fault : Fault) : readDisplay? fault.message = none := by
  cases fault with
  | invalidCharacter found => exact (by decide : readDisplay? "Invalid character".toList = none)
  | _ => decide

theorem DisplayNumber.readsWithin {n : DisplayNumber} (h : n.value.exceedsCeiling = false) :
    ReadsWithin n.text := by
  intro x hx
  rwa [← n.value_eq_of_readDisplay? hx]

/-! ## Written values -/

namespace Binary64

variable {places : Nat} {v r x : Binary64}

theorem exceedsCeiling_dropZeroSign (h : x.exceedsCeiling = false) :
    x.dropZeroSign.exceedsCeiling = false := by
  unfold dropZeroSign
  split
  · decide
  · exact h

/-- Near the cut-off a value is written as one of at most `2 ^ 39`. -/
theorem magnitude_toPlaces_le {k : Nat} (hk : k < 2 ^ 53) (hx : x.magnitude ≤ k * quantaPerUnit)
    (hfinite : (x.toPlaces places).isFinite = true) :
    (x.toPlaces places).magnitude ≤ k * quantaPerUnit := by
  cases x with
  | nan => cases hfinite
  | infinite negative => cases hfinite
  | finite negative ordinal =>
    have hunits :
        roundEven (magnitudeOf ordinal * 10 ^ places) quantaPerUnit ≤ k * 10 ^ places := by
      refine roundEven_le_of_le quantaPerUnit_pos ?_
      calc magnitudeOf ordinal * 10 ^ places ≤ k * quantaPerUnit * 10 ^ places :=
            Nat.mul_le_mul_right _ hx
        _ = k * 10 ^ places * quantaPerUnit := Nat.mul_right_comm _ _ _
    unfold toPlaces at hfinite ⊢
    rw [magnitude_ofQuotient hfinite]
    refine nearestMagnitude_le (ten_pow_pos places) hk ?_
    calc roundEven (magnitudeOf ordinal * 10 ^ places) quantaPerUnit * quantaPerUnit
        ≤ k * 10 ^ places * quantaPerUnit := Nat.mul_le_mul_right _ hunits
      _ = k * quantaPerUnit * 10 ^ places := Nat.mul_right_comm _ _ _

/-- **What is written of an accepted value is within the ceiling.** -/
theorem exceedsCeiling_written_of_accept (hpos : 1 ≤ places) (h : places ≤ 6)
    (hr : v.accept places = .ok r) :
    ((r.roundTo places).toPlaces places).exceedsCeiling = false := by
  obtain ⟨hrounded, hceiling⟩ := (accept_eq_ok_iff _ _ _).mp hr
  have hfinite : r.isFinite = true := isFinite_of_accept hr
  by_cases hnear : r.IsNearCutoff places
  · have hbound := magnitude_lt_of_isNearCutoff hpos h hceiling hnear
    obtain ⟨hfinite', hend⟩ := roundTo_lt hpos h hfinite hnear.2
    have hwritten := isFinite_toPlaces hpos h hfinite' hend
    have hlow : (r.roundTo places).magnitude ≤ 2 ^ 39 * quantaPerUnit := hend.le.trans hbound
    refine exceedsCeiling_of_le_units hwritten ?_
    refine (magnitude_toPlaces_le (by decide) hlow hwritten).trans ?_
    exact Nat.mul_le_mul_right _ (by decide)
  · obtain ⟨hround, hwrite⟩ := roundTo_eq_self_and_toPlaces_eq_self hpos h hrounded hfinite hnear
    rwa [hround, hwrite]

end Binary64

section Accepted

variable {style : Style} {v r : Binary64} (hpos : 1 ≤ style.places) (h : style.places ≤ 6)
  (hr : v.accept style.places = .ok r)

include hpos h hr

theorem readsWithin_write_of_accept : ReadsWithin (style.write r) := by
  intro x hx
  rw [readDisplay?_write_of_accept hpos h hr] at hx
  rw [← Option.some.inj hx]
  exact Binary64.exceedsCeiling_dropZeroSign
    (Binary64.exceedsCeiling_written_of_accept hpos h hr)

theorem exists_displayNumber_within_of_accept :
    ∃ n : DisplayNumber, eraseSeparators (style.write r) = n.text ∧
      n.value.exceedsCeiling = false := by
  obtain ⟨n, hn⟩ := exists_displayNumber_of_accept hr
  have hread : readDisplay? n.text =
      some ((r.roundTo style.places).toPlaces style.places).dropZeroSign := by
    rw [← hn, (isTidy_write style r).readDisplay?_eraseSeparators,
      readDisplay?_write_of_accept hpos h hr]
  refine ⟨n, hn, ?_⟩
  rw [n.value_eq_of_readDisplay? hread]
  exact Binary64.exceedsCeiling_dropZeroSign
    (Binary64.exceedsCeiling_written_of_accept hpos h hr)

end Accepted

/-! ## The sign of a text -/

namespace Binary64

theorem abs_ofQuotient (negative : Bool) (num den : Nat) :
    (ofQuotient negative num den).abs = (ofQuotient false num den).abs := by
  unfold ofQuotient
  split <;> rfl

theorem exceedsCeiling_abs (x : Binary64) : x.abs.exceedsCeiling = x.exceedsCeiling := by
  cases x <;> rfl

theorem isFinite_abs (x : Binary64) : x.abs.isFinite = x.isFinite := by
  cases x <;> rfl

end Binary64

/-- A text is within the ceiling if it is without its sign. -/
theorem readsWithin_iff_map_abs : ReadsWithin t ↔
    ∀ y, (readDisplay? t).map Binary64.abs = some y → y.exceedsCeiling = false := by
  constructor
  · intro h y hy
    obtain ⟨x, hx, rfl⟩ := Option.map_eq_some_iff.mp hy
    rw [Binary64.exceedsCeiling_abs]
    exact h x hx
  · intro h x hx
    rw [← Binary64.exceedsCeiling_abs]
    exact h x.abs (by rw [hx, Option.map_some])

/-- Without blanks and separators it is the number itself that is read. -/
theorem map_abs_readDisplay?_of_plain (hblanks : ∀ c ∈ t, Text.isBlank c = false)
    (hplain : separator ∉ t) : (readDisplay? t).map Binary64.abs =
      ((Numeral.read? t).map Binary64.abs).filter Binary64.isFinite := by
  rw [readDisplay?, Text.trim_of_all hblanks, eraseSeparators_of_notMem hplain]
  cases Numeral.read? t with
  | none => rfl
  | some x =>
    rw [Option.map_some, Option.filter_some, Option.filter_some, Binary64.isFinite_abs]
    split <;> rfl

theorem abs_toBinary64 (negative : Bool) (coefficient : Nat) (exponent : Int) :
    (Decimal.toBinary64 ⟨negative, coefficient, exponent⟩).abs =
      (Decimal.toBinary64 ⟨false, coefficient, exponent⟩).abs := by
  unfold Decimal.toBinary64
  dsimp only
  split
  · rfl
  split
  · split
    · rfl
    · exact Binary64.abs_ofQuotient _ _ _
  · split
    · rfl
    · exact Binary64.abs_ofQuotient _ _ _

theorem map_abs_decimal? (negative : Bool) (t : Text) :
    (Numeral.decimal? negative t).map (fun d => d.toBinary64.abs) =
      (Numeral.decimal? false t).map fun d => d.toBinary64.abs := by
  unfold Numeral.decimal?
  dsimp only
  split
  · rfl
  · rw [Option.map_map, Option.map_map]
    refine congrArg (Option.map · _) (funext fun e => ?_)
    exact abs_toBinary64 _ _ _

section Signed

variable {d : Char} (hminus : d ≠ '-') (hplus : d ≠ '+')

include hminus hplus

/-- Behind its sign a text has a value that is the same but for the sign. -/
theorem map_abs_read?_signText (negative : Bool) (rest : Text) :
    (Numeral.read? (signText negative ++ d :: rest)).map Binary64.abs =
      (Numeral.read? (d :: rest)).map Binary64.abs := by
  have hsigned := Numeral.splitSign_signText_cons hminus hplus negative rest
  have hunsigned : Numeral.splitSign (d :: rest) = (false, d :: rest) :=
    Numeral.splitSign_signText_cons hminus hplus false rest
  unfold Numeral.read?
  rw [hsigned, hunsigned]
  dsimp only
  split
  · rfl
  split
  · rfl
  · rw [Option.map_map, Option.map_map]
    exact map_abs_decimal? negative (d :: rest)

/-- **The sign of a text does not matter** for the magnitude that is read. -/
theorem map_abs_readDisplay?_signText {rest : Text}
    (hblanks : ∀ c ∈ d :: rest, Text.isBlank c = false) (hplain : separator ∉ d :: rest)
    (negative : Bool) :
    (readDisplay? (signText negative ++ d :: rest)).map Binary64.abs =
      (readDisplay? (d :: rest)).map Binary64.abs := by
  have hsign : ∀ c ∈ signText negative, isInfixChar c = true := fun c =>
    isInfixChar_of_mem_signText
  have hsigned : ∀ c ∈ signText negative ++ d :: rest, Text.isBlank c = false := by
    intro c hc
    rcases List.mem_append.mp hc with hc | hc
    · exact isBlank_of_isInfixChar (hsign c hc)
    · exact hblanks c hc
  have hplain' : separator ∉ signText negative ++ d :: rest :=
    separator_notMem_append (fun hmem => ne_separator_of_isInfixChar (hsign _ hmem) rfl) hplain
  rw [map_abs_readDisplay?_of_plain hsigned hplain', map_abs_readDisplay?_of_plain hblanks hplain,
    map_abs_read?_signText hminus hplus]

end Signed

end Keypad
