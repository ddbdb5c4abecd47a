import Keypad.Proofs.Display.NumberValue

/-!
# Groups of three digits

Grouping goes over the digits from the left and looks at how many of them remain: a separator stands
before every digit, but the first, with which a multiple of three remains.  So the groups are those
that are counted from the right: all of three digits, and in front of them a group of what is left
over, with one digit at least.

## Main definitions

* `DigitGroups`: digits in groups counted from the right, with their `digits` and their `text`

## Main results

* `DigitGroups.exists_digits_eq`: all digits can be so grouped
* `groupDigits_digits`: they are written with a separator between groups
* `groupInteger_text`: how the integer part of a number is grouped, and what grouping leaves alone
-/

namespace Keypad

variable {length index : Nat} {s t : Text}

/-! ## Groups counted from the right -/

/-- Digits in groups counted from the right. -/
structure DigitGroups where
  /-- What is left over in front of the groups of three. -/
  first : Text
  others : List Text
  first_ne_nil : first ≠ []
  first_length : first.length ≤ 3
  others_length : ∀ group ∈ others, group.length = 3

namespace DigitGroups

variable (g : DigitGroups)

/-- The digits of all groups. -/
def digits : Text := g.first ++ g.others.flatten

/-- The groups as they are written, with a separator between any two. -/
def text : Text := [separator].intercalate (g.first :: g.others)

end DigitGroups

/-- A multiple of three digits is grouped without a rest. -/
theorem exists_flatten_eq {n : Nat} (h : t.length = 3 * n) :
    ∃ groups : List Text, groups.flatten = t ∧ ∀ group ∈ groups, group.length = 3 := by
  induction n generalizing t with
  | zero =>
    obtain rfl : t = [] := List.length_eq_zero_iff.mp h
    exact ⟨[], rfl, nofun⟩
  | succ n ih =>
    obtain ⟨groups, hflatten, hlength⟩ := ih (t := t.drop 3) (by rw [List.length_drop]; omega)
    refine ⟨t.take 3 :: groups, ?_, ?_⟩
    · rw [List.flatten_cons, hflatten, List.take_append_drop]
    · intro group hgroup
      rcases List.mem_cons.mp hgroup with rfl | hgroup
      · rw [List.length_take]
        omega
      · exact hlength group hgroup

/-- **All digits can be grouped from the right.** -/
theorem DigitGroups.exists_digits_eq (hne : t ≠ []) : ∃ g : DigitGroups, g.digits = t := by
  have hpos : 0 < t.length := List.length_pos_iff.mpr hne
  -- one to three digits are left over, so that a multiple of three remains
  obtain ⟨groups, hflatten, hlength⟩ :=
    exists_flatten_eq (t := t.drop ((t.length - 1) % 3 + 1)) (n := (t.length - 1) / 3)
      (by rw [List.length_drop]; omega)
  have hfirst : (t.take ((t.length - 1) % 3 + 1)).length = (t.length - 1) % 3 + 1 := by
    rw [List.length_take]
    omega
  refine ⟨⟨t.take ((t.length - 1) % 3 + 1), groups, ?_, by omega, hlength⟩, ?_⟩
  · intro hnil
    rw [hnil] at hfirst
    cases hfirst
  · rw [digits, hflatten, List.take_append_drop]

/-! ## Where separators are put -/

theorem groupDigits_append (length index : Nat) (s t : Text) :
    groupDigits length index (s ++ t) =
      groupDigits length index s ++ groupDigits length (index + s.length) t := by
  induction s generalizing index with
  | nil => rfl
  | cons c s ih =>
    have hnext : index + 1 + s.length = index + (c :: s).length := by simp; omega
    rw [List.cons_append, groupDigits, groupDigits, ih, hnext]
    split <;> rfl

/-- Where no multiple of three digits remains there is no separator. -/
theorem groupDigits_eq_self
    (h : ∀ i < t.length, 0 < index + i → (length - (index + i)) % 3 ≠ 0) :
    groupDigits length index t = t := by
  induction t generalizing index with
  | nil => rfl
  | cons c t ih =>
    have hnone : ¬ (0 < index ∧ (length - index) % 3 = 0) := fun ⟨hpos, hmod⟩ =>
      h 0 (by simp) hpos hmod
    rw [groupDigits, if_neg hnone, ih fun i hi hpos => ?_]
    have hlater := h (i + 1) (by simpa using hi) (by omega)
    rwa [show index + (i + 1) = index + 1 + i by omega] at hlater

/-- The digits that are left over have no separator in front or between them. -/
theorem groupDigits_first {n : Nat} (hfew : t.length ≤ 3) (hlength : length = t.length + 3 * n) :
    groupDigits length 0 t = t :=
  groupDigits_eq_self fun i hi hpos => by omega

/-- A group of three has its separator in front. -/
theorem groupDigits_group {n : Nat} (hpos : 0 < index) (hthree : t.length = 3)
    (hlength : length = index + 3 * (n + 1)) : groupDigits length index t = separator :: t := by
  obtain ⟨c, rest, rfl⟩ := List.exists_cons_of_length_eq_add_one hthree
  have hrest : rest.length = 2 := by simpa using hthree
  have hinside : groupDigits length (index + 1) rest = rest :=
    groupDigits_eq_self fun i hi _ => by omega
  rw [groupDigits, if_pos ⟨hpos, by omega⟩, hinside]

/-- **Groups of three** are written each with its separator in front. -/
theorem groupDigits_flatten {groups : List Text} (h : ∀ group ∈ groups, group.length = 3)
    (hpos : 0 < index) (hlength : length = index + 3 * groups.length) :
    groupDigits length index groups.flatten = groups.flatMap (separator :: ·) := by
  induction groups generalizing index with
  | nil => rfl
  | cons group groups ih =>
    have hgroup : group.length = 3 := h group List.mem_cons_self
    rw [List.length_cons] at hlength
    rw [List.flatten_cons, groupDigits_append, groupDigits_group hpos hgroup hlength,
      ih (fun other hother => h other (List.mem_cons_of_mem group hother)) (by omega) (by omega)]
    rfl

/-! ## Groups as they are written -/

namespace DigitGroups

variable (g : DigitGroups)

theorem text_eq : g.text = g.first ++ g.others.flatMap (separator :: ·) := by
  have hwritten : ∀ (first : Text) (others : List Text),
      [separator].intercalate (first :: others) = first ++ others.flatMap (separator :: ·) := by
    intro first others
    induction others generalizing first with
    | nil => simp [List.intercalate]
    | cons group others ih => rw [List.intercalate_cons_cons, ih]; simp
  exact hwritten _ _

theorem length_digits : g.digits.length = g.first.length + 3 * g.others.length := by
  have hthrees : ∀ groups : List Text, (∀ group ∈ groups, group.length = 3) →
      groups.flatten.length = 3 * groups.length := by
    intro groups h
    induction groups with
    | nil => rfl
    | cons group groups ih =>
      rw [List.flatten_cons, List.length_append, h group List.mem_cons_self,
        ih fun other hother => h other (List.mem_cons_of_mem group hother), List.length_cons]
      omega
  rw [digits, List.length_append, hthrees g.others g.others_length]

/-- **Digits are grouped from the right.** -/
theorem groupDigits_digits : groupDigits g.digits.length 0 g.digits = g.text := by
  have hpos : 0 < g.first.length := List.length_pos_iff.mpr g.first_ne_nil
  rw [length_digits, digits, groupDigits_append, groupDigits_first g.first_length rfl, Nat.zero_add,
    groupDigits_flatten g.others_length hpos rfl, text_eq]

variable {g}

theorem mem_digits_of_mem {group : Text} (hgroup : group ∈ g.first :: g.others) {c : Char}
    (hc : c ∈ group) : c ∈ g.digits := by
  rcases List.mem_cons.mp hgroup with rfl | hgroup
  · exact List.mem_append_left _ hc
  · exact List.mem_append_right _ (List.mem_flatten.mpr ⟨group, hgroup, hc⟩)

section Plain

variable (h : separator ∉ g.digits)

include h

/-- The groups are what stands between separators. -/
theorem splitOn_text : g.text.splitOn separator = g.first :: g.others :=
  List.splitOn_intercalate separator (fun _ hgroup hmem => h (mem_digits_of_mem hgroup hmem))
    (List.cons_ne_nil _ _)

/-- No separator stands in front of the groups. -/
theorem head?_text_ne : g.text.head? ≠ some separator := by
  intro hhead
  rw [text_eq, List.head?_append_of_ne_nil _ g.first_ne_nil] at hhead
  exact h (mem_digits_of_mem List.mem_cons_self (List.mem_of_mem_head? hhead))

/-- No separator stands behind the groups. -/
theorem getLast?_text_ne : g.text.getLast? ≠ some separator := by
  intro hlast
  rw [text_eq] at hlast
  -- the last character is one of the last group
  rcases List.eq_nil_or_concat' g.others with hnil | ⟨init, group, hothers⟩
  · rw [hnil, List.flatMap_nil, List.append_nil] at hlast
    exact h (mem_digits_of_mem List.mem_cons_self (List.mem_of_getLast? hlast))
  · have hgroup : group ∈ g.others := by simp [hothers]
    have hne : group ≠ [] := by
      rintro rfl
      exact absurd (g.others_length [] hgroup) (by decide)
    have hsplit : g.first ++ g.others.flatMap (separator :: ·) =
        g.first ++ init.flatMap (separator :: ·) ++ [separator] ++ group := by
      simp [hothers]
    rw [hsplit, List.getLast?_append_of_ne_nil _ hne] at hlast
    exact h (mem_digits_of_mem (List.mem_cons_of_mem _ hgroup) (List.mem_of_getLast? hlast))

end Plain

end DigitGroups

/-! ## Numbers -/

namespace DisplayNumber

variable (n : DisplayNumber)

/-- The point with the digits behind it, if there is one. -/
def fraction : Text :=
  match n.places? with
  | none => []
  | some places => '.' :: places

theorem isNumeralChar_of_mem_fraction : ∀ c ∈ n.fraction, isNumeralChar c = true :=
  fun c hc => n.isNumeralChar_of_mem_unsigned c (List.mem_append_right _ hc)

theorem separator_notMem_whole : separator ∉ n.whole :=
  fun hmem => absurd (n.whole_digits separator hmem) (by decide)

theorem groupUnsigned_unsigned : groupInteger.groupUnsigned n.unsigned =
    groupDigits n.whole.length 0 n.whole ++ n.fraction := by
  have hpoint : '.' ∉ n.whole := fun hmem => absurd (n.whole_digits '.' hmem) (by decide)
  have hbytes : Text.byteCount n.whole = n.whole.length := Text.byteCount_of_digits n.whole_digits
  unfold groupInteger.groupUnsigned unsigned fraction
  cases n.places? with
  | none =>
    rw [List.append_nil, List.append_nil, (Text.splitAt?_eq_none_iff '.' n.whole).mpr hpoint]
    exact congrArg (groupDigits · 0 n.whole) hbytes
  | some places =>
    rw [Text.splitAt?_append_cons hpoint]
    dsimp only
    rw [hbytes]

/-- Grouping takes the whole part of a number, and leaves its sign and its fraction. -/
theorem groupInteger_text_eq : groupInteger n.text =
    signText n.negative ++ (groupDigits n.whole.length 0 n.whole ++ n.fraction) := by
  rw [← n.groupUnsigned_unsigned, text]
  cases n.negative with
  | true => rfl
  | false =>
    obtain ⟨d, rest, hcons, hd⟩ := n.exists_unsigned_eq_cons
    show groupInteger n.unsigned = groupInteger.groupUnsigned n.unsigned
    unfold groupInteger
    split
    · rename_i hminus
      exact absurd (List.cons.inj (hcons.symm.trans hminus)).1 (ne_of_kind hd rfl)
    · rfl

theorem minus_notMem_tail_text : '-' ∉ n.text.tail := by
  have hunsigned : '-' ∉ n.unsigned := fun hmem =>
    absurd (n.isNumeralChar_of_mem_unsigned '-' hmem) (by decide)
  rw [text]
  cases n.negative with
  | true => exact hunsigned
  | false => exact fun hmem => hunsigned (List.mem_of_mem_tail hmem)

theorem isTidy_groupInteger_text : IsTidy (groupInteger n.text) :=
  isTidy_groupInteger (fun c hc => isBlank_of_isInfixChar (n.isInfixChar_of_mem_text c hc))
    n.separator_notMem_text n.minus_notMem_tail_text

/-- **How a number is grouped.**  Its integer part is split by separators into a first group of one
to three digits and further groups of exactly three.  There is no separator at either end of the
integer part, and so none next to the sign, and none in the fraction.  Without its separators the
text is the number again, and it is read as the number is. -/
theorem groupInteger_text :
    ∃ g : DigitGroups, g.digits = n.whole ∧
      groupInteger n.text = signText n.negative ++ (g.text ++ n.fraction) ∧
      g.text.splitOn separator = g.first :: g.others ∧
      g.text.head? ≠ some separator ∧ g.text.getLast? ≠ some separator ∧
      separator ∉ n.fraction ∧
      eraseSeparators (groupInteger n.text) = n.text ∧
      readDisplay? (groupInteger n.text) = readDisplay? n.text := by
  obtain ⟨g, hdigits⟩ := DigitGroups.exists_digits_eq n.whole_ne_nil
  have hplain : separator ∉ g.digits := hdigits ▸ n.separator_notMem_whole
  have herased : eraseSeparators (groupInteger n.text) = n.text :=
    (eraseSeparators_groupInteger n.text).trans (eraseSeparators_of_notMem n.separator_notMem_text)
  refine ⟨g, hdigits, ?_, DigitGroups.splitOn_text hplain, DigitGroups.head?_text_ne hplain,
    DigitGroups.getLast?_text_ne hplain, ?_, herased, ?_⟩
  · rw [groupInteger_text_eq, ← hdigits, g.groupDigits_digits]
  · exact fun hmem => absurd (n.isNumeralChar_of_mem_fraction separator hmem) (by decide)
  · rw [← n.isTidy_groupInteger_text.readDisplay?_eraseSeparators, herased]

end DisplayNumber

example : groupInteger "-1234567.8910".toList = "-1,234,567.8910".toList := by decide

end Keypad
