import Keypad.Proofs.Calculator.EntryKeys

/-!
# Canonical entries

The number being typed has no redundant leading zero and is no signed bare zero: a lone zero is
replaced by the digit that follows it, and has no sign to change.  Both rules look at the whole
display for a lone zero, and there is one way around them.  A zero with a point has a sign, and
without the point again it keeps it, so that a backspace on `-0.` leaves `-0`, which the next digit
does not replace.

## Main definitions

* `HasLeadingZero`: a zero in front of another digit
* `IsCanonical`: a number without a redundant leading zero that is no signed bare zero

## Main results

* `isCanonical_of_enters`: every key of an entry keeps it canonical, but for that backspace
* `isCanonical_pressAll_iff`: the runs along which everything displayed is canonical
* `not_isCanonical_pressAll`: one along which it is not
-/

namespace Keypad

/-- A zero that stands in front of another digit, behind the sign if there is one. -/
def HasLeadingZero (t : Text) : Prop :=
  ∃ negative d rest, t = signText negative ++ '0' :: d :: rest ∧ d.isDigit = true

/-- A number whose whole part is a lone zero or begins with another digit, and that is no signed
bare zero. -/
def IsCanonical (t : Text) : Prop :=
  ∃ n : DisplayNumber, t = n.text ∧ (n.whole = ['0'] ∨ n.whole.head? ≠ some '0') ∧
    t ≠ "-0".toList

namespace DisplayNumber

variable (n : DisplayNumber)

/-- What stands behind the sign of a number. -/
theorem unsigned_of_text {negative : Bool} {d : Char} {rest : Text} (hd : d.isDigit = true)
    (h : n.text = signText negative ++ d :: rest) : n.unsigned = d :: rest := by
  obtain ⟨first, tail, hcons, hfirst⟩ := n.exists_unsigned_eq_cons
  rw [text, hcons] at h
  have hsplit := congrArg Numeral.splitSign h
  rw [Numeral.splitSign_signText_cons (ne_of_kind hfirst rfl) (ne_of_kind hfirst rfl),
    Numeral.splitSign_signText_cons (ne_of_kind hd rfl) (ne_of_kind hd rfl)] at hsplit
  exact hcons.trans (Prod.mk.inj hsplit).2

theorem hasLeadingZero_text_iff :
    HasLeadingZero n.text ↔ ¬ (n.whole = ['0'] ∨ n.whole.head? ≠ some '0') := by
  obtain ⟨first, others, hwhole⟩ := List.exists_cons_of_ne_nil n.whole_ne_nil
  rw [hwhole]
  constructor
  · rintro ⟨negative, d, rest, htext, hd⟩
    have hunsigned := n.unsigned_of_text (by decide) htext
    rw [unsigned, hwhole, List.cons_append] at hunsigned
    obtain ⟨hzero, htail⟩ := List.cons.inj hunsigned
    subst hzero
    rintro (hlone | hother)
    · -- behind a lone zero there is a point, or nothing
      rw [(List.cons.inj hlone).2, List.nil_append] at htail
      split at htail
      · cases htail
      · exact absurd hd ((List.cons.inj htail).1 ▸ by decide)
    · exact hother rfl
  · intro h
    rw [not_or, not_not, List.head?_cons] at h
    obtain ⟨hlong, hzero⟩ := h
    obtain rfl : first = '0' := Option.some.inj hzero
    have hne : others ≠ [] := by
      rintro rfl
      exact hlong rfl
    obtain ⟨d, rest, hothers⟩ := List.exists_cons_of_ne_nil hne
    have hd : d.isDigit = true := n.whole_digits d (by simp [hwhole, hothers])
    rw [text, unsigned, hwhole, hothers, List.cons_append, List.cons_append]
    exact ⟨n.negative, d, _, rfl, hd⟩

theorem isCanonical_text_iff :
    IsCanonical n.text ↔ ¬ HasLeadingZero n.text ∧ n.text ≠ "-0".toList := by
  constructor
  · rintro ⟨m, hm, hwhole, hsigned⟩
    refine ⟨fun hzero => ?_, hsigned⟩
    rw [hm, m.hasLeadingZero_text_iff] at hzero
    exact hzero hwhole
  · rintro ⟨hzero, hsigned⟩
    rw [n.hasLeadingZero_text_iff, not_not] at hzero
    exact ⟨n, rfl, hzero, hsigned⟩

theorem text_ne_minus : n.text ≠ ['-'] := by
  obtain ⟨d, rest, hcons, hd⟩ := n.exists_unsigned_eq_cons
  rw [text, hcons]
  cases n.negative with
  | true => simp [signText]
  | false =>
    intro h
    exact absurd hd ((List.cons.inj h).1 ▸ by decide)

end DisplayNumber

/-! ## One character more or less -/

theorem HasLeadingZero.append {t : Text} (h : HasLeadingZero t) (s : Text) :
    HasLeadingZero (t ++ s) := by
  obtain ⟨negative, d, rest, rfl, hd⟩ := h
  exact ⟨negative, d, rest ++ s, by simp, hd⟩

/-- The last character of a text leads to a leading zero only as a digit behind a bare zero. -/
theorem HasLeadingZero.of_concat {t : Text} {last : Char} (h : HasLeadingZero (t ++ [last])) :
    HasLeadingZero t ∨ last.isDigit = true ∧ ∃ negative, t = signText negative ++ ['0'] := by
  obtain ⟨negative, d, rest, htext, hd⟩ := h
  rcases List.eq_nil_or_concat' rest with rfl | ⟨init, other, rfl⟩
  · have hconcat : t ++ [last] = (signText negative ++ ['0']) ++ [d] := by simp [htext]
    obtain ⟨ht, hlast⟩ := List.append_inj' hconcat rfl
    exact Or.inr ⟨(List.cons.inj hlast).1 ▸ hd, negative, ht⟩
  · have hconcat : t ++ [last] = (signText negative ++ '0' :: d :: init) ++ [other] := by
      simp [htext]
    exact Or.inl ⟨negative, d, init, (List.append_inj' hconcat rfl).1, hd⟩

theorem isCanonical_digit {d : Char} (hd : d.isDigit = true) : IsCanonical [d] := by
  refine ⟨.ofDigit d hd, rfl, ?_, nofun⟩
  by_cases hzero : d = '0'
  · exact Or.inl (congrArg ([·]) hzero)
  · exact Or.inr fun h => hzero (Option.some.inj h)

theorem isCanonical_zeroPoint : IsCanonical "0.".toList :=
  ⟨{ DisplayNumber.zero with
      places? := some []
      places_digits := DisplayNumber.isDigit_of_mem_nil },
    rfl, Or.inl rfl, by decide⟩

/-- A canonical number other than a lone zero stays canonical with one more character. -/
theorem isCanonical_concat {n m : DisplayNumber} {last : Char} (hm : m.text = n.text ++ [last])
    (hn : IsCanonical n.text) (hzero : last.isDigit = true → n.text ≠ ['0']) :
    IsCanonical m.text := by
  obtain ⟨hleading, hsigned⟩ := n.isCanonical_text_iff.mp hn
  refine m.isCanonical_text_iff.mpr ⟨fun h => ?_, fun h => ?_⟩
  · rw [hm] at h
    rcases h.of_concat with h | ⟨hdigit, negative, htext⟩
    · exact hleading h
    · cases negative with
      | true => exact hsigned htext
      | false => exact hzero hdigit htext
  · rw [hm] at h
    have hconcat : n.text ++ [last] = ['-'] ++ ['0'] := h
    exact n.text_ne_minus (List.append_inj' hconcat rfl).1

/-- Without its last character a canonical number is canonical, unless it was a zero with a sign and
a point. -/
theorem isCanonical_of_concat {n m : DisplayNumber} {last : Char} (hm : n.text = m.text ++ [last])
    (hn : IsCanonical n.text) (hpoint : n.text ≠ "-0.".toList) : IsCanonical m.text := by
  obtain ⟨hleading, -⟩ := n.isCanonical_text_iff.mp hn
  refine m.isCanonical_text_iff.mpr ⟨fun h => hleading (hm ▸ h.append [last]), fun hzero => ?_⟩
  have htext : n.text = signText true ++ '0' :: [last] := by rw [hm, hzero]; rfl
  -- what follows the zero is no digit, so it is the point
  have hnumeral : isNumeralChar last = true :=
    n.isNumeralChar_of_mem_unsigned last (by simp [n.unsigned_of_text (by decide) htext])
  have hdigit : last.isDigit = false :=
    Bool.eq_false_iff.mpr fun h => hleading ⟨true, last, [], htext, h⟩
  have hlast : last = '.' := by simpa [isNumeralChar, hdigit] using hnumeral
  exact hpoint (by rw [htext, hlast]; rfl)

theorem IsCanonical.flip {n : DisplayNumber} (hn : IsCanonical n.text) (hzero : n.text ≠ ['0']) :
    IsCanonical n.flip.text := by
  obtain ⟨hleading, -⟩ := n.isCanonical_text_iff.mp hn
  refine n.flip.isCanonical_text_iff.mpr ⟨?_, fun h => ?_⟩
  · rw [n.flip.hasLeadingZero_text_iff]
    rw [n.hasLeadingZero_text_iff] at hleading
    exact hleading
  · -- the sign of a signed zero was put in front of a lone zero
    have hback : n.flip.flip = n := by simp [DisplayNumber.flip]
    have htext : n.text = ['0'] := by
      rw [← hback, ← n.flip.flipSign_text, h]
      rfl
    exact hzero htext

namespace Calculator

variable {c next : Calculator}

/-! ## One key -/

/-- **An entry stays canonical**, unless the point of a signed zero is taken back. -/
theorem isCanonical_of_enters {key : Key} (h : c.Enters key next)
    (hpoint : key = .backspace → c.display ≠ "-0.".toList)
    (hentry : c.fresh = false → IsCanonical c.display) :
    next.fresh = false → IsCanonical next.display := by
  cases h with
  | kept => exact hentry
  | cleared => exact nofun
  | signed hzero =>
    intro hfresh
    have hcanonical := hentry hfresh
    obtain ⟨n, hn, -⟩ := id hcanonical
    rw [hn] at hcanonical hzero
    show IsCanonical (flipSign c.display)
    rw [hn, n.flipSign_text]
    exact hcanonical.flip hzero
  | begun hd => exact fun _ => isCanonical_digit hd
  | begunByPoint => exact fun _ => isCanonical_zeroPoint
  | @extended d hd hfresh hzero =>
    intro _
    have hcanonical := hentry hfresh
    obtain ⟨n, hn, -⟩ := id hcanonical
    rw [hn] at hcanonical hzero
    obtain ⟨m, hm⟩ := n.exists_text_push hd
    show IsCanonical (c.display ++ [d])
    rw [hn, ← hm]
    exact isCanonical_concat hm hcanonical fun _ => hzero
  | pointed hfresh hnone =>
    intro _
    have hcanonical := hentry hfresh
    obtain ⟨n, hn, -⟩ := id hcanonical
    rw [hn] at hcanonical hnone
    obtain ⟨m, hm, -⟩ := n.exists_text_point hnone
    show IsCanonical (c.display ++ ['.'])
    rw [hn, ← hm]
    exact isCanonical_concat hm hcanonical (fun hdigit => absurd hdigit (by decide))
  | @shortened hfresh t last hdisplay hnumber =>
    intro _
    have hcanonical := hentry hfresh
    have hleft := hpoint rfl
    obtain ⟨n, hn, -⟩ := id hcanonical
    obtain ⟨m, rfl⟩ := hnumber
    rw [hn] at hcanonical hleft hdisplay
    exact isCanonical_of_concat hdisplay hcanonical hleft

/-- Where a fresh number is awaited, zero is displayed. -/
theorem display_of_enters {key : Key} (h : c.Enters key next)
    (hzero : c.fresh = true → c.display = zeroText) :
    next.fresh = true → next.display = zeroText := by
  cases h with
  | kept => exact hzero
  | cleared => exact fun _ => rfl
  | signed hother => exact fun hfresh => absurd (hzero hfresh) hother
  | begun hd => exact nofun
  | begunByPoint => exact nofun
  | extended => exact nofun
  | pointed => exact nofun
  | shortened => exact nofun

/-- Backspace takes the point of a signed zero and leaves its sign. -/
theorem display_backspace_of_signedZero (hrunning : c.isStopped = false) (hfresh : c.fresh = false)
    (hdisplay : c.display = "-0.".toList) : c.backspace.display = "-0".toList := by
  rw [backspace, whenRunning_of_running hrunning, hfresh, buffer, hdisplay]
  rfl

/-! ## Runs -/

section Run

variable {options : Options} (hmode : options.mode = .sequential) {keys : List Key}
  (hkeys : ∀ key ∈ keys, key.editsEntry = true)

include hmode hkeys

theorem edits_pressAll_make {before : List Key} (h : before <+: keys) :
    (make options).Edits ((make options).pressAll before) ∧
      (((make options).pressAll before).fresh = false →
        IsEntry ((make options).pressAll before).display) := by
  have hrunning : (make options).isStopped = false := rfl
  have hentry : (make options).fresh = false → IsEntry (make options).display := nofun
  exact edits_pressAll_of_editsEntry hrunning hmode hentry fun key hkey =>
    hkeys key (h.subset hkey)

/-- The last key of a run. -/
theorem enters_pressAll_concat {before : List Key} {key : Key} (h : before ++ [key] <+: keys) :
    ((make options).pressAll before).Enters key ((make options).pressAll (before ++ [key])) := by
  have hkey : key.editsEntry = true := hkeys key (h.subset (by simp))
  obtain ⟨hedits, hentry⟩ :=
    edits_pressAll_make hmode hkeys ((List.prefix_append before [key]).trans h)
  rw [pressAll_append]
  refine enters_press ?_ ?_ (fun hfresh => (hentry hfresh).imp fun _ hn => hn.1) hkey
  · rw [hedits]
    rfl
  · rw [hedits]
    exact hmode

theorem display_pressAll_of_fresh {before : List Key} (h : before <+: keys) :
    ((make options).pressAll before).fresh = true →
      ((make options).pressAll before).display = zeroText := by
  induction before using List.reverseRecOn with
  | nil => exact fun _ => rfl
  | append_singleton before key ih =>
    exact display_of_enters (enters_pressAll_concat hmode hkeys h)
      (ih ((List.prefix_append before [key]).trans h))

/-- Along a run that never takes the point of a signed zero everything displayed is canonical. -/
theorem isCanonical_pressAll_of_forall (h : ∀ before, before ++ [.backspace] <+: keys →
      ((make options).pressAll before).display ≠ "-0.".toList)
    {before : List Key} (hbegins : before <+: keys) :
    IsCanonical ((make options).pressAll before).display := by
  induction before using List.reverseRecOn with
  | nil => exact isCanonical_digit (by decide)
  | append_singleton before key ih =>
    have hfirst : before <+: keys := (List.prefix_append before _).trans hbegins
    cases hfresh : ((make options).pressAll (before ++ [key])).fresh with
    | true =>
      rw [display_pressAll_of_fresh hmode hkeys hbegins hfresh]
      exact isCanonical_digit (by decide)
    | false =>
      refine isCanonical_of_enters (enters_pressAll_concat hmode hkeys hbegins) ?_
        (fun _ => ih hfirst) hfresh
      rintro rfl
      exact h before hbegins

/-- **When everything that is typed is canonical.**  Along a run of digits, points, signs,
backspaces and clearings from a calculator just switched on in sequential mode, the display is a
number without a redundant leading zero and no signed bare zero throughout, exactly if backspace is
never pressed on `-0.`. -/
theorem isCanonical_pressAll_iff :
    (∀ before, before <+: keys → IsCanonical ((make options).pressAll before).display) ↔
      ∀ before, before ++ [.backspace] <+: keys →
        ((make options).pressAll before).display ≠ "-0.".toList := by
  refine ⟨fun h before hbegins hdisplay => ?_,
    fun h before => isCanonical_pressAll_of_forall hmode hkeys h⟩
  have hfirst : before <+: keys := (List.prefix_append before _).trans hbegins
  -- a zero with a sign and a point is being typed, so the point is taken back
  have hfresh : ((make options).pressAll before).fresh = false := by
    refine Bool.eq_false_iff.mpr fun hfresh => ?_
    rw [display_pressAll_of_fresh hmode hkeys hfirst hfresh] at hdisplay
    cases hdisplay
  have hrunning : ((make options).pressAll before).isStopped = false := by
    rw [(edits_pressAll_make hmode hkeys hfirst).1]
    rfl
  have hsigned : ((make options).pressAll (before ++ [.backspace])).display = "-0".toList := by
    rw [pressAll_append]
    exact display_backspace_of_signedZero hrunning hfresh hdisplay
  obtain ⟨-, -, -, hne⟩ := h _ hbegins
  exact hne hsigned

end Run

/-- A zero with a point whose sign is changed, with digits behind it that are taken back: the point
itself never is while the zero has a sign. -/
theorem isCanonical_pressAll_iff_kept :
    let keys : List Key :=
      [.digit '0', .digit '0', .point, .changeSign, .digit '5', .backspace, .changeSign, .backspace,
        .digit '7', .changeSign]
    Options.standard.mode = .sequential ∧ (∀ key ∈ keys, key.editsEntry = true) ∧
      ((make Options.standard).pressAll (keys.take 6)).display = "-0.".toList ∧
      ((make Options.standard).pressAll keys).display = "-7".toList ∧
      ∀ before, before <+: keys →
        IsCanonical ((make Options.standard).pressAll before).display := by
  intro keys
  have hmode : Options.standard.mode = .sequential := rfl
  have hkeys : ∀ key ∈ keys, key.editsEntry = true := by decide
  have hkept : ∀ before ∈ keys.inits, before ++ [.backspace] ∈ keys.inits →
      ((make Options.standard).pressAll before).display ≠ "-0.".toList := by decide +kernel
  refine ⟨hmode, hkeys, by decide +kernel, by decide +kernel,
    (isCanonical_pressAll_iff hmode hkeys).mpr fun before hbegins => ?_⟩
  have hfirst : before <+: keys := (List.prefix_append before _).trans hbegins
  exact hkept before ((List.mem_inits _ _).mpr hfirst) ((List.mem_inits _ _).mpr hbegins)

/-- **A signed bare zero and a leading zero.**  The point, the sign and a backspace leave `-0`, and
the next digit makes of it `-05`. -/
theorem not_isCanonical_pressAll :
    let keys : List Key := [.point, .changeSign, .backspace]
    let signed := (make Options.standard).pressAll keys
    Options.standard.mode = .sequential ∧ (∀ key ∈ keys, key.editsEntry = true) ∧
      signed.display = "-0".toList ∧ ¬ IsCanonical signed.display ∧
      (signed.press (.digit '5')).display = "-05".toList ∧
      ¬ IsCanonical (signed.press (.digit '5')).display := by
  intro keys signed
  have hsigned : signed.display = "-0".toList := by decide +kernel
  have hnext : (signed.press (.digit '5')).display = "-05".toList := by decide +kernel
  have hleading : HasLeadingZero "-05".toList := ⟨true, '5', [], rfl, by decide⟩
  refine ⟨rfl, by decide, hsigned, ?_, hnext, ?_⟩
  · rintro ⟨-, -, -, hne⟩
    exact hne hsigned
  · rw [hnext]
    rintro ⟨n, hn, hwhole, -⟩
    rw [hn, n.hasLeadingZero_text_iff] at hleading
    exact hleading hwhole

end Calculator

end Keypad
