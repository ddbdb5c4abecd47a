import Keypad.Key
import Keypad.Proofs.Decimal.Range
import Keypad.Proofs.Expression.Literal

/-!
# Numbers that can be typed

A number of at most twelve digits, at most four of them after the point, and without a redundant
leading zero, is typed by the keys of its characters: none of them is dropped, and the display
then reads as the number.

## Main definitions

* `TypedNumber`, with its `text`, `value` and `keys`

## Main results

* `readDisplay?_text`: the text of a typed number is read as its value
* `pressAll_keys`: its keys put its text on the display, and change nothing else
-/

namespace Keypad

/-- A number as it is typed: digits, possibly a point, and digits after it. -/
structure TypedNumber where
  /-- The digits before the point. -/
  whole : Text
  /-- The digits after the point, if there is one. -/
  places? : Option Text
  whole_ne_nil : whole ≠ []
  whole_digits : ∀ c ∈ whole, c.isDigit = true
  /-- A leading zero stands alone. -/
  whole_of_zero : whole.head? = some '0' → whole = ['0']
  places_digits : ∀ c ∈ places?.getD [], c.isDigit = true
  places_short : (places?.getD []).length ≤ typedPlacesCeiling
  digits_few : whole.length + (places?.getD []).length ≤ digitCeiling

namespace TypedNumber

/-- The characters of a number. -/
def text (n : TypedNumber) : Text :=
  n.whole ++
    match n.places? with
    | none => []
    | some places => '.' :: places

/-- The key that types a character of a number. -/
def keyOf (c : Char) : Key := if c = '.' then .point else .digit c

/-- The keys that type a number. -/
def keys (n : TypedNumber) : List Key := n.text.map keyOf

/-- The value that the display shows when the number has been typed. -/
def value (n : TypedNumber) : Binary64 := (readDisplay? n.text).getD .nan

theorem isNumeralChar_of_mem_text (n : TypedNumber) :
    ∀ c ∈ n.text, isNumeralChar c = true := by
  intro c hc
  rw [text, List.mem_append] at hc
  rcases hc with hc | hc
  · exact isNumeralChar_of_isDigit (n.whole_digits c hc)
  · have hplaces := n.places_digits
    cases hp : n.places? with
    | none =>
      rw [hp] at hc
      cases hc
    | some places =>
      rw [hp] at hc hplaces
      rcases List.mem_cons.mp hc with rfl | hc
      · rfl
      · exact isNumeralChar_of_isDigit (hplaces c hc)

/-- Digits are typed by the digit key. -/
theorem map_keyOf {digits : Text} (h : ∀ d ∈ digits, d.isDigit = true) :
    digits.map keyOf = digits.map .digit := by
  refine List.map_congr_left fun d hd => if_neg ?_
  rintro rfl
  exact absurd (h '.' hd) (by decide)

end TypedNumber

/-! ## Reading what is typed -/

theorem Text.trim_of_all {t : Text} (h : ∀ c ∈ t, isBlank c = false) : trim t = t := by
  have hself : ∀ s : Text, (∀ c ∈ s, isBlank c = false) → s.dropWhile isBlank = s := by
    intro s hs
    cases s with
    | nil => rfl
    | cons c s => exact List.dropWhile_cons_of_neg (by simp [hs c (by simp)])
  rw [trim, trimStart, hself t h, trimEndBy,
    hself t.reverse fun c hc => h c (List.mem_reverse.mp hc), List.reverse_reverse]

theorem eraseSeparators_of_isNumeralChar {t : Text} (h : ∀ c ∈ t, isNumeralChar c = true) :
    eraseSeparators t = t := by
  refine List.filter_eq_self.mpr fun c hc => bne_iff_ne.mpr ?_
  rintro rfl
  exact absurd (h separator hc) (by decide)

theorem readDisplay?_of_isNumeralChar {t : Text} (h : ∀ c ∈ t, isNumeralChar c = true) :
    readDisplay? t =
      ((Numeral.decimal? false t).map Decimal.toBinary64).filter Binary64.isFinite := by
  rw [readDisplay?, Text.trim_of_all fun c hc => isBlank_of_isNumeralChar (h c hc),
    eraseSeparators_of_isNumeralChar h]
  exact congrArg (Option.filter _) (Numeral.read?_signText h false)

namespace TypedNumber

/-- The decimal number that is typed. -/
theorem decimal?_text (n : TypedNumber) :
    Numeral.decimal? false n.text =
      some ⟨false, wholeOf (n.whole ++ n.places?.getD []), -(n.places?.getD []).length⟩ := by
  have hplaces := n.places_digits
  rw [text]
  cases hp : n.places? with
  | none =>
    rw [List.append_nil, Numeral.decimal?_digits n.whole_ne_nil n.whole_digits]
    simp
  | some places =>
    rw [hp] at hplaces
    exact Numeral.decimal?_point (Or.inl n.whole_ne_nil) n.whole_digits hplaces

/-- **What is typed is read**: a typed number is finite. -/
theorem readDisplay?_text (n : TypedNumber) : readDisplay? n.text = some n.value := by
  have hdigits : ∀ c ∈ n.whole ++ n.places?.getD [], c.isDigit = true := by
    intro c hc
    rcases List.mem_append.mp hc with hc | hc
    · exact n.whole_digits c hc
    · exact n.places_digits c hc
  have hsmall : wholeOf (n.whole ++ n.places?.getD []) < 2 ^ 40 := by
    calc wholeOf (n.whole ++ n.places?.getD [])
        < 10 ^ (n.whole ++ n.places?.getD []).length := wholeOf_lt hdigits
      _ ≤ 10 ^ digitCeiling :=
          Nat.pow_le_pow_right (by decide) (by rw [List.length_append]; exact n.digits_few)
      _ ≤ 2 ^ 40 := by decide
  obtain ⟨x, hx⟩ : ∃ x, readDisplay? n.text = some x := by
    rw [readDisplay?_of_isNumeralChar n.isNumeralChar_of_mem_text, n.decimal?_text]
    have hfinite := isFinite_toBinary64
      (d := ⟨false, wholeOf (n.whole ++ n.places?.getD []), -(n.places?.getD []).length⟩)
      (by simp) (by decide) hsmall
    exact ⟨_, by rw [Option.map_some, Option.filter_some, if_pos hfinite]⟩
  rw [value, hx, Option.getD_some]

end TypedNumber

/-! ## Counting what is typed -/

namespace Text

theorem digitCount_of_digits {t : Text} (h : ∀ c ∈ t, c.isDigit = true) :
    digitCount t = t.length :=
  List.countP_eq_length.mpr h

theorem digitCount_append_digit {t : Text} {d : Char} (hd : d.isDigit = true) :
    digitCount (t ++ [d]) = digitCount t + 1 := by
  simp [digitCount, hd]

theorem digitCount_append_point (t : Text) : digitCount (t ++ ['.']) = digitCount t := by
  simp [digitCount]

theorem byteCount_digit {d : Char} (hd : d.isDigit = true) : byteCount [d] = 1 := by
  simp only [Char.isDigit, Bool.and_eq_true, decide_eq_true_eq, ge_iff_le] at hd
  have hsize : d.utf8Size = 1 :=
    Char.utf8Size_eq_one_iff.mpr (UInt32.le_trans hd.2 (by decide))
  simp [byteCount, hsize]

theorem byteCount_of_digits {t : Text} (h : ∀ c ∈ t, c.isDigit = true) :
    byteCount t = t.length := by
  induction t with
  | nil => rfl
  | cons d rest ih =>
    have hd : byteCount [d] = 1 := byteCount_digit (h d (by simp))
    have hrest : byteCount rest = rest.length := ih fun c hc => h c (by simp [hc])
    calc byteCount (d :: rest) = byteCount [d] + byteCount rest := byteCount_append [d] rest
      _ = (d :: rest).length := by rw [hd, hrest, List.length_cons, Nat.add_comm]

theorem splitAt?_append_cons {mark : Char} {before : Text} (h : mark ∉ before) (after : Text) :
    splitAt? mark (before ++ mark :: after) = some (before, after) := by
  induction before with
  | nil => exact if_pos rfl
  | cons c rest ih =>
    rw [List.mem_cons, not_or] at h
    rw [List.cons_append, splitAt?, if_neg (Ne.symm h.1), ih h.2]
    rfl

/-- A mark is found where it first occurs, whatever follows. -/
theorem splitAt?_append {mark : Char} {t before after : Text}
    (h : splitAt? mark t = some (before, after)) (s : Text) :
    splitAt? mark (t ++ s) = some (before, after ++ s) := by
  obtain ⟨rfl, hnone⟩ := append_of_splitAt? _ _ _ _ h
  rw [List.append_assoc, List.cons_append]
  exact splitAt?_append_cons hnone _

theorem placesTyped_append_digit {t : Text} (hpoint : '.' ∈ t) {d : Char}
    (hd : d.isDigit = true) : placesTyped (t ++ [d]) = placesTyped t + 1 := by
  cases hsplit : splitAt? '.' t with
  | none => exact absurd hpoint ((splitAt?_eq_none_iff '.' t).mp hsplit)
  | some parts =>
    obtain ⟨before, after⟩ := parts
    rw [placesTyped, placesTyped, splitAt?_append hsplit, hsplit]
    exact (byteCount_append after [d]).trans (by rw [byteCount_digit hd])

theorem placesTyped_append_point {t : Text} (hpoint : '.' ∉ t) :
    placesTyped (t ++ ['.']) = 0 := by
  rw [placesTyped, splitAt?_append_cons hpoint]
  rfl

end Text

namespace Calculator

/-! ## Typing over an entry -/

variable {c : Calculator}

@[simp] theorem typing_typing (s t : Text) : (c.typing s).typing t = c.typing t := rfl

theorem editable?_typing {t : Text} (h : ∀ d ∈ t, isNumeralChar d = true) :
    (c.typing t).editable? = some t := by
  have he : t.contains 'e' = false := by
    refine Bool.eq_false_iff.mpr fun hmem => ?_
    have := h 'e' (by simpa using hmem)
    exact absurd this (by decide)
  have hbuffer : (c.typing t).buffer = t := eraseSeparators_of_isNumeralChar h
  rw [editable?, hbuffer]
  exact if_neg (by simpa [typing] using he)

section Running

variable (hrunning : c.isStopped = false) (hmode : c.options.mode = .sequential)

include hrunning hmode

/-- The first digit of a fresh number. -/
theorem digit_of_fresh (hfresh : c.fresh = true) {d : Char} (hd : d.isDigit = true) :
    c.digit d = c.typing [d] := by
  have hnone : c.editable? = none := by simp [editable?, hfresh]
  simp [digit, whenRunning_of_running hrunning, hd, hmode, typeDigit, hnone]

/-- A further digit, below both limits. -/
theorem digit_typing {t : Text} (ht : ∀ d ∈ t, isNumeralChar d = true) (hzero : t ≠ zeroText)
    (hcount : Text.digitCount t < digitCeiling)
    (hplaces : '.' ∈ t → Text.placesTyped t < typedPlacesCeiling) {d : Char}
    (hd : d.isDigit = true) : (c.typing t).digit d = c.typing (t ++ [d]) := by
  have hrun : (c.typing t).isStopped = false := hrunning
  have hseq : (c.typing t).options.mode = .sequential := hmode
  have hroom : ¬ (t.contains '.' && decide (typedPlacesCeiling ≤ Text.placesTyped t)) = true := by
    simp only [Bool.and_eq_true, decide_eq_true_eq, not_and, Nat.not_le]
    exact fun hpoint => hplaces (by simpa using hpoint)
  rw [digit, whenRunning_of_running hrun, hd, hseq]
  simp only [Bool.not_true, Bool.false_eq_true, if_false, typeDigit, editable?_typing ht]
  rw [if_neg (Nat.not_le.mpr hcount), if_neg hroom, if_neg hzero, typing_typing]

/-- The point, once. -/
theorem point_typing {t : Text} (ht : ∀ d ∈ t, isNumeralChar d = true) (hpoint : '.' ∉ t) :
    (c.typing t).point = c.typing (t ++ ['.']) := by
  have hrun : (c.typing t).isStopped = false := hrunning
  have hseq : (c.typing t).options.mode = .sequential := hmode
  have hnone : ¬ t.contains '.' = true := by simpa using hpoint
  rw [point, whenRunning_of_running hrun, hseq]
  show (c.typing t).pointInNumber = _
  rw [pointInNumber, editable?_typing ht]
  simp only
  rw [if_neg hnone, typing_typing]

/-- A run of further digits, below both limits to its end. -/
theorem pressAll_digits {t ds : Text} (ht : ∀ d ∈ t, isNumeralChar d = true) (hne : t ≠ [])
    (hds : ∀ d ∈ ds, d.isDigit = true) (hzero : t = zeroText → ds = [])
    (hcount : Text.digitCount t + ds.length ≤ digitCeiling)
    (hplaces : '.' ∈ t → Text.placesTyped t + ds.length ≤ typedPlacesCeiling) :
    (c.typing t).pressAll (ds.map .digit) = c.typing (t ++ ds) := by
  induction ds generalizing t with
  | nil => rw [List.append_nil]; rfl
  | cons d ds ih =>
    have hd := hds d (by simp)
    rw [List.length_cons] at hcount hplaces
    have hfirst : (c.typing t).press (.digit d) = c.typing (t ++ [d]) :=
      digit_typing hrunning hmode ht (fun h => by cases hzero h) (by omega)
        (fun h => by have := hplaces h; omega) hd
    have hnumeral : ∀ e ∈ t ++ [d], isNumeralChar e = true := by
      intro e he
      rcases List.mem_append.mp he with he | he
      · exact ht e he
      · exact isNumeralChar_of_isDigit (List.mem_singleton.mp he ▸ hd)
    -- what was typed is longer than a lone zero, so the next digit does not replace it
    have hlong : t ++ [d] ≠ zeroText := by
      intro h
      have := congrArg List.length h
      simp [zeroText, hne] at this
    have hrest := ih hnumeral (by simp) (fun e he => hds e (by simp [he]))
      (fun h => absurd h hlong)
      (by rw [Text.digitCount_append_digit hd]; omega)
      (fun h => by
        have hpoint : '.' ∈ t := by
          rcases List.mem_append.mp h with h | h
          · exact h
          · exact absurd (List.mem_singleton.mp h ▸ hd) (by decide)
        have := hplaces hpoint
        rw [Text.placesTyped_append_digit hpoint hd]
        omega)
    rw [List.map_cons, pressAll_cons, hfirst, hrest, List.append_assoc, List.singleton_append]

/-- The digits before the point: the first starts the number, the others follow it. -/
theorem pressAll_whole (hfresh : c.fresh = true) (n : TypedNumber) :
    c.pressAll (n.whole.map .digit) = c.typing n.whole := by
  obtain ⟨d, rest, hcons⟩ := List.exists_cons_of_ne_nil n.whole_ne_nil
  have hdigits := n.whole_digits
  have hfew := n.digits_few
  have hlone := n.whole_of_zero
  rw [hcons] at hdigits hfew hlone ⊢
  have hd := hdigits d (by simp)
  have hone : ∀ e ∈ [d], e.isDigit = true := fun e he => List.mem_singleton.mp he ▸ hd
  have hfirst : c.press (.digit d) = c.typing [d] := digit_of_fresh hrunning hmode hfresh hd
  rw [List.map_cons, pressAll_cons, hfirst]
  refine pressAll_digits hrunning hmode (fun e he => isNumeralChar_of_isDigit (hone e he)) (by simp)
    (fun e he => hdigits e (by simp [he])) ?_ ?_ ?_
  · -- a leading zero stands alone, so no digit replaces it
    intro hzero
    obtain rfl : d = '0' := by simpa [zeroText] using hzero
    simpa using hlone rfl
  · rw [Text.digitCount_of_digits hone]
    simp only [List.length_cons, List.length_nil] at hfew ⊢
    omega
  · intro hpoint
    exact absurd (hone '.' hpoint) (by decide)

/-- The point and the digits after it. -/
theorem pressAll_places (n : TypedNumber) {places : Text} (hplaces : n.places? = some places) :
    (c.typing n.whole).pressAll (.point :: places.map .digit) =
      c.typing (n.whole ++ '.' :: places) := by
  have hdigits := n.places_digits
  have hshort := n.places_short
  have hfew := n.digits_few
  rw [hplaces, Option.getD_some] at hdigits hshort hfew
  have hnumeral : ∀ d ∈ n.whole, isNumeralChar d = true :=
    fun d hd => isNumeralChar_of_isDigit (n.whole_digits d hd)
  have hnone : '.' ∉ n.whole := fun hmem => absurd (n.whole_digits '.' hmem) (by decide)
  have hpoint : (c.typing n.whole).press .point = c.typing (n.whole ++ ['.']) :=
    point_typing hrunning hmode hnumeral hnone
  rw [pressAll_cons, hpoint, List.append_cons n.whole '.' places]
  refine pressAll_digits hrunning hmode ?_ (by simp) hdigits ?_ ?_ ?_
  · intro d hd
    rcases List.mem_append.mp hd with hd | hd
    · exact hnumeral d hd
    · rw [List.mem_singleton.mp hd]
      rfl
  · -- with the point there are two characters at least, so this is no lone zero
    intro hzero
    have := congrArg List.length hzero
    simp [zeroText, n.whole_ne_nil] at this
  · rw [Text.digitCount_append_point, Text.digitCount_of_digits n.whole_digits]
    exact hfew
  · intro _
    rw [Text.placesTyped_append_point hnone, Nat.zero_add]
    exact hshort

/-- **A number is typed as it is written**, from a calculator that awaits a fresh number. -/
theorem pressAll_keys (hfresh : c.fresh = true) (n : TypedNumber) :
    c.pressAll n.keys = c.typing n.text := by
  rw [TypedNumber.keys, TypedNumber.text, List.map_append, TypedNumber.map_keyOf n.whole_digits,
    pressAll_append, pressAll_whole hrunning hmode hfresh]
  have hdigits := n.places_digits
  cases hplaces : n.places? with
  | none =>
    rw [List.append_nil]
    rfl
  | some places =>
    rw [hplaces, Option.getD_some] at hdigits
    simp only [List.map_cons]
    rw [TypedNumber.map_keyOf hdigits]
    exact pressAll_places hrunning hmode n hplaces

end Running

end Calculator

end Keypad
