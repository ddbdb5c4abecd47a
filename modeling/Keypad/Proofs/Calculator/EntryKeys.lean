import Keypad.Proofs.Calculator.ChainDisplay

/-!
# Entries within their limits

Digits, the point, the sign, backspace and clearing edit the number that is being typed in a chain.
Both limits are looked at before a digit is added and nowhere else, but no other key adds one: the
entry stays a number of at most twelve digits, four of them behind the point, whatever the order of
the keys and whatever the display showed before the first of them.

## Main definitions

* `Key.editsEntry`: the keys of an entry
* `Calculator.Enters`: what such a key makes of a calculator
* `IsEntry`: a number within both limits

## Main results

* `enters_press`: every key of an entry does one of these things
* `isEntry_pressAll`: along a run of such keys entries stay within the limits, and nothing but the
  display changes
-/

namespace Keypad

/-- The keys that edit the number being typed. -/
def Key.editsEntry : Key → Bool
  | .digit d => d.isDigit
  | .point => true
  | .changeSign => true
  | .backspace => true
  | .clearEntry => true
  | _ => false

/-! ## Counting characters -/

namespace Text

theorem placesTyped_of_notMem {t : Text} (h : '.' ∉ t) : placesTyped t = 0 := by
  rw [placesTyped, (splitAt?_eq_none_iff '.' t).mpr h]

/-- A text has at least the places of what it begins with. -/
theorem placesTyped_le_append (t s : Text) : placesTyped t ≤ placesTyped (t ++ s) := by
  cases hsplit : splitAt? '.' t with
  | none =>
    rw [placesTyped, hsplit]
    exact Nat.zero_le _
  | some parts =>
    obtain ⟨before, after⟩ := parts
    rw [placesTyped, placesTyped, hsplit, splitAt?_append hsplit]
    exact Nat.le.intro (byteCount_append after s).symm

end Text

namespace DisplayNumber

variable (n : DisplayNumber)

theorem placesTyped_text : Text.placesTyped n.text = (n.places?.getD []).length := by
  have hplaces := n.places_digits
  have hbefore : '.' ∉ signText n.negative ++ n.whole := by
    intro hmem
    rcases List.mem_append.mp hmem with hmem | hmem
    · cases hsign : n.negative with
      | true =>
        rw [hsign] at hmem
        exact absurd (List.mem_singleton.mp hmem) (by decide)
      | false =>
        rw [hsign] at hmem
        cases hmem
    · exact absurd (n.whole_digits '.' hmem) (by decide)
  unfold text unsigned
  cases hp : n.places? with
  | none =>
    rw [List.append_nil]
    exact Text.placesTyped_of_notMem hbefore
  | some places =>
    rw [hp, Option.getD_some] at hplaces
    rw [← List.append_assoc, Text.placesTyped, Text.splitAt?_append_cons hbefore]
    exact Text.byteCount_of_digits hplaces

end DisplayNumber

/-- A number within both limits of what can be typed. -/
def IsEntry (t : Text) : Prop :=
  ∃ n : DisplayNumber, t = n.text ∧ n.digits.length ≤ digitCeiling ∧
    (n.places?.getD []).length ≤ typedPlacesCeiling

theorem isEntry_text_iff (n : DisplayNumber) :
    IsEntry n.text ↔
      Text.digitCount n.text ≤ digitCeiling ∧ Text.placesTyped n.text ≤ typedPlacesCeiling := by
  constructor
  · rintro ⟨m, hm, hdigits, hplaces⟩
    rw [hm, m.digitCount_text, m.placesTyped_text]
    exact ⟨hdigits, hplaces⟩
  · rintro ⟨hdigits, hplaces⟩
    rw [n.digitCount_text] at hdigits
    rw [n.placesTyped_text] at hplaces
    exact ⟨n, rfl, hdigits, hplaces⟩

namespace Calculator

/-! ## One key -/

/-- What a key of an entry makes of the display of a chain. -/
inductive Enters (c : Calculator) : Key → Calculator → Prop where
  /-- The key is without effect. -/
  | kept (key : Key) : Enters c key c
  | cleared (key : Key) : Enters c key c.awaiting
  /-- The sign is changed of an entry, or of a result while a fresh number is awaited. -/
  | signed (hzero : c.display ≠ zeroText) :
    Enters c .changeSign { c with display := flipSign c.display }
  /-- A digit begins a fresh number, or replaces a lone zero. -/
  | begun {d : Char} (hd : d.isDigit = true) : Enters c (.digit d) (c.typing [d])
  | begunByPoint : Enters c .point (c.typing "0.".toList)
  | extended {d : Char} (hd : d.isDigit = true) (hfresh : c.fresh = false)
    (hzero : c.display ≠ zeroText) (hdigits : Text.digitCount c.display < digitCeiling)
    (hplaces : '.' ∈ c.display → Text.placesTyped c.display < typedPlacesCeiling) :
    Enters c (.digit d) (c.typing (c.display ++ [d]))
  | pointed (hfresh : c.fresh = false) (hpoint : '.' ∉ c.display) :
    Enters c .point (c.typing (c.display ++ ['.']))
  | shortened (hfresh : c.fresh = false) {t : Text} {last : Char}
    (hdisplay : c.display = t ++ [last]) (hnumber : ∃ n : DisplayNumber, t = n.text) :
    Enters c .backspace (c.typing t)

variable {c next : Calculator}

theorem clearEntry_of_running (hrunning : c.isStopped = false) : c.clearEntry = c.awaiting :=
  if_neg (by simp [hrunning])

/-- The keys of an entry change the display alone. -/
theorem edits_press_of_editsEntry (hrunning : c.isStopped = false) {key : Key}
    (hkey : key.editsEntry = true) : c.Edits (c.press key) := by
  cases key with
  | digit d => exact edits_digit c hkey
  | point => exact edits_point c
  | changeSign => exact edits_changeSign c
  | backspace => exact edits_backspace c
  | clearEntry =>
    show c.Edits c.clearEntry
    rw [clearEntry_of_running hrunning]
    exact edits_awaiting c
  | _ => cases hkey

section Entry

variable (hrunning : c.isStopped = false) (hmode : c.options.mode = .sequential)
  (hentry : c.fresh = false → ∃ n : DisplayNumber, c.display = n.text)

omit hrunning hmode in
include hentry in
theorem buffer_of_entry (hfresh : c.fresh = false) : c.buffer = c.display := by
  obtain ⟨n, hn⟩ := hentry hfresh
  rw [buffer, hn]
  exact eraseSeparators_of_notMem n.separator_notMem_text

omit hrunning hmode in
include hentry in
/-- Only a fresh number cannot be continued. -/
theorem editable?_of_entry : c.editable? = if c.fresh then none else some c.display := by
  cases hfresh : c.fresh with
  | true => simp [editable?, hfresh]
  | false =>
    obtain ⟨n, hn⟩ := hentry hfresh
    have hexponent : 'e' ∉ c.display := by
      rw [hn]
      exact n.exponent_notMem_text
    simp [editable?, hfresh, hexponent, buffer_of_entry hentry hfresh]

include hrunning hmode hentry

theorem enters_digit {d : Char} (hd : d.isDigit = true) : c.Enters (.digit d) (c.digit d) := by
  have hdigit : c.digit d = c.typeDigit d := by
    simp [digit, whenRunning_of_running hrunning, hd, hmode]
  rw [hdigit, typeDigit, editable?_of_entry hentry]
  cases hfresh : c.fresh with
  | true => exact .begun hd
  | false =>
    simp only [Bool.false_eq_true, if_false]
    split
    · exact .kept _
    rename_i hdigits
    split
    · exact .kept _
    rename_i hplaces
    split
    · exact .begun hd
    rename_i hzero
    refine .extended hd hfresh hzero (Nat.not_le.mp hdigits) fun hpoint => ?_
    simpa [hpoint] using hplaces

theorem enters_point : c.Enters .point c.point := by
  unfold point
  rw [whenRunning_of_running hrunning]
  cases hfresh : c.fresh with
  | true => exact .begunByPoint
  | false =>
    rw [hmode]
    simp only [Bool.false_eq_true, if_false, pointInNumber, editable?_of_entry hentry, hfresh]
    split
    · exact .kept _
    · rename_i hpoint
      exact .pointed hfresh (by simpa using hpoint)

omit hmode in
theorem enters_backspace : c.Enters .backspace c.backspace := by
  unfold backspace
  rw [whenRunning_of_running hrunning]
  cases hfresh : c.fresh with
  | true => exact .kept _
  | false =>
    obtain ⟨n, hn⟩ := hentry hfresh
    simp only [Bool.false_eq_true, if_false, buffer_of_entry hentry hfresh]
    split
    · exact .cleared _
    · rename_i hlast
      rw [hn] at hlast
      -- an entry of two characters behind its sign has a last one, and leaves a number without it
      have hlong := n.two_le_length_unsigned (Bool.eq_false_iff.mpr hlast)
      obtain ⟨m, hm, -⟩ := n.exists_text_dropLast hlong
      obtain ⟨init, last, htext⟩ : ∃ init last, n.text = init ++ [last] := by
        refine (List.eq_nil_or_concat' n.text).resolve_left fun hnil => ?_
        rw [DisplayNumber.text, List.append_eq_nil_iff] at hnil
        simp [hnil.2] at hlong
      have hdropped : c.display.dropLast = init := by rw [hn, htext, List.dropLast_concat]
      have hnumber : init = m.text := by rw [hm, htext, List.dropLast_concat]
      have hnext : { c with display := c.display.dropLast } = c.typing init := by
        rw [hdropped, typing, ← hfresh]
      rw [← hfresh, hnext]
      exact .shortened hfresh (hn.trans htext) ⟨m, hnumber⟩

/-- **What the keys of an entry do.** -/
theorem enters_press {key : Key} (hkey : key.editsEntry = true) : c.Enters key (c.press key) := by
  cases key with
  | digit d => exact enters_digit hrunning hmode hentry hkey
  | point => exact enters_point hrunning hmode hentry
  | changeSign =>
    show c.Enters .changeSign c.changeSign
    rw [changeSign, whenRunning_of_running hrunning]
    split
    · exact .kept _
    · rename_i hzero
      exact .signed hzero
  | backspace => exact enters_backspace hrunning hentry
  | clearEntry =>
    show c.Enters .clearEntry c.clearEntry
    rw [clearEntry_of_running hrunning]
    exact .cleared _
  | _ => cases hkey

end Entry

/-! ## Both limits -/

theorem isEntry_digit {d : Char} (hd : d.isDigit = true) : IsEntry [d] :=
  ⟨.ofDigit d hd, rfl, (by decide : 1 ≤ digitCeiling), Nat.zero_le _⟩

theorem isEntry_zeroPoint : IsEntry "0.".toList := by
  obtain ⟨n, hn, -⟩ := DisplayNumber.zero.exists_text_point (by decide)
  have htext : "0.".toList = n.text := hn.symm
  rw [htext, isEntry_text_iff, ← htext]
  decide

/-- **An entry stays within its limits**, or is gone. -/
theorem isEntry_of_enters {key : Key} (h : c.Enters key next)
    (hentry : c.fresh = false → IsEntry c.display) : next.fresh = false → IsEntry next.display := by
  cases h with
  | kept => exact hentry
  | cleared => exact nofun
  | signed _ =>
    intro hfresh
    obtain ⟨n, hn, hdigits, hplaces⟩ := hentry hfresh
    exact ⟨n.flip, by rw [hn, n.flipSign_text], hdigits, hplaces⟩
  | begun hd => exact fun _ => isEntry_digit hd
  | begunByPoint => exact fun _ => isEntry_zeroPoint
  | @extended d hd hfresh _ hdigits hplaces =>
    intro _
    obtain ⟨n, hn, -, -⟩ := hentry hfresh
    obtain ⟨m, hm⟩ := n.exists_text_push hd
    rw [hn] at hdigits hplaces
    show IsEntry (c.display ++ [d])
    rw [hn, ← hm, isEntry_text_iff, hm, Text.digitCount_append_digit hd]
    refine ⟨hdigits, ?_⟩
    by_cases hpoint : '.' ∈ n.text
    · rw [Text.placesTyped_append_digit hpoint hd]
      exact hplaces hpoint
    · have hnone : '.' ∉ n.text ++ [d] := by
        rw [List.mem_append, List.mem_singleton, not_or]
        exact ⟨hpoint, (ne_of_kind hd rfl).symm⟩
      rw [Text.placesTyped_of_notMem hnone]
      exact Nat.zero_le _
  | pointed hfresh hpoint =>
    intro _
    obtain ⟨n, hn, hfew⟩ := hentry hfresh
    rw [hn] at hpoint
    obtain ⟨m, hm, -⟩ := n.exists_text_point hpoint
    show IsEntry (c.display ++ ['.'])
    rw [hn, ← hm, isEntry_text_iff, hm, Text.digitCount_append_point, n.digitCount_text,
      Text.placesTyped_append_point hpoint]
    exact ⟨hfew.1, Nat.zero_le _⟩
  | @shortened hfresh t last hdisplay hnumber =>
    intro _
    obtain ⟨m, hm⟩ := hnumber
    obtain ⟨n, hn, -⟩ := id (hentry hfresh)
    have hlimits := (isEntry_text_iff n).mp (hn ▸ hentry hfresh)
    have htext : n.text = m.text ++ [last] := by rw [← hn, hdisplay, hm]
    rw [htext, Text.digitCount, List.countP_append] at hlimits
    show IsEntry t
    rw [hm, isEntry_text_iff]
    exact ⟨Nat.le_trans (Nat.le_add_right _ _) hlimits.1,
      (Text.placesTyped_le_append _ _).trans hlimits.2⟩

/-! ## Runs -/

/-- A run of such keys edits the display alone, and goes on with the entry there is. -/
theorem edits_pressAll_of_editsEntry (hrunning : c.isStopped = false)
    (hmode : c.options.mode = .sequential) (hentry : c.fresh = false → IsEntry c.display)
    {keys : List Key} (hkeys : ∀ key ∈ keys, key.editsEntry = true) :
    c.Edits (c.pressAll keys) ∧
      ((c.pressAll keys).fresh = false → IsEntry (c.pressAll keys).display) := by
  induction keys generalizing c with
  | nil => exact ⟨edits_self c, hentry⟩
  | cons key rest ih =>
    have hkey := hkeys key (by simp)
    have hedits := edits_press_of_editsEntry hrunning hkey
    have henters := enters_press hrunning hmode
      (fun hfresh => (hentry hfresh).imp fun _ hn => hn.1) hkey
    have hrunning' : (c.press key).isStopped = false := by rw [hedits]; exact hrunning
    have hmode' : (c.press key).options.mode = .sequential := by rw [hedits]; exact hmode
    obtain ⟨hrest, hshown⟩ := ih hrunning' hmode' (isEntry_of_enters henters hentry)
      fun other hother => hkeys other (by simp [hother])
    exact ⟨edits_trans hedits hrest, hshown⟩

/-- **Entries stay within their limits.**  From any running calculator in sequential mode that
awaits a fresh number, whatever its display shows, and along any run of digits, points, signs,
backspaces and clearings: what is being typed is a number of at most twelve digits, at most four of
them behind the point, nothing stops the calculator, and nothing but the display and whether a fresh
number is awaited changes. -/
theorem isEntry_pressAll (hrunning : c.alarm = none) (hmode : c.options.mode = .sequential)
    (hfresh : c.fresh = true) {keys : List Key} (hkeys : ∀ key ∈ keys, key.editsEntry = true) :
    ∀ before, before <+: keys →
      c.Edits (c.pressAll before) ∧ (c.pressAll before).alarm = none ∧
        ((c.pressAll before).fresh = false →
          ∃ n : DisplayNumber, (c.pressAll before).display = n.text ∧
            n.digits.length ≤ digitCeiling ∧
            (n.places?.getD []).length ≤ typedPlacesCeiling) := by
  intro before hbegins
  have hbefore : ∀ key ∈ before, key.editsEntry = true := fun key hkey =>
    hkeys key (hbegins.subset hkey)
  obtain ⟨hedits, hentry⟩ := edits_pressAll_of_editsEntry (isStopped_eq_false hrunning) hmode
    (fun h => absurd (hfresh.symm.trans h) (by decide)) hbefore
  exact ⟨hedits, by rw [hedits]; exact hrunning, hentry⟩

/-- From a grouped result with an operator waiting: more digits than either limit, with the sign
changed, characters taken back and the entry cleared between them. -/
theorem isEntry_pressAll_overfull :
    let c := (make { Options.standard with grouping := true }).pressAll
      [.digit '1', .digit '2', .digit '3', .digit '4', .operator .times, .digit '5',
        .operator .plus]
    let keys : List Key :=
      [.changeSign, .point, .digit '1', .changeSign, .digit '2', .digit '3', .digit '4',
        .digit '5', .backspace, .digit '6', .clearEntry, .backspace] ++
        List.replicate 13 (.digit '7') ++ [.point, .digit '8', .backspace, .backspace, .changeSign]
    c.display = "6,170".toList ∧ c.pending = some .plus ∧
      c.alarm = none ∧ c.options.mode = .sequential ∧ c.fresh = true ∧
      (∀ key ∈ keys, key.editsEntry = true) ∧
      (c.pressAll keys).display = "-77777777777".toList ∧
      ∀ before, before <+: keys →
        c.Edits (c.pressAll before) ∧ (c.pressAll before).alarm = none ∧
          ((c.pressAll before).fresh = false →
            ∃ n : DisplayNumber, (c.pressAll before).display = n.text ∧
              n.digits.length ≤ digitCeiling ∧
              (n.places?.getD []).length ≤ typedPlacesCeiling) := by
  intro c keys
  have hrunning : c.alarm = none := by decide +kernel
  have hmode : c.options.mode = .sequential := by decide +kernel
  have hfresh : c.fresh = true := by decide +kernel
  have hkeys : ∀ key ∈ keys, key.editsEntry = true := by decide
  exact ⟨by decide +kernel, by decide +kernel, hrunning, hmode, hfresh, hkeys, by decide +kernel,
    isEntry_pressAll hrunning hmode hfresh hkeys⟩

end Calculator

end Keypad
