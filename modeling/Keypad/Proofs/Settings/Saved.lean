import Keypad.Proofs.Settings.InRange
import Keypad.Proofs.Settings.Library

/-!
# Saving and loading settings

What a lawful library reads of settings that it has written is the layer of these settings: a real
number down to its last bit, a whole number where a real one is expected, and names that are known.
So loading what was saved moves the settings into range and does nothing else.

## Main results

* `ClampsTo.eq_ofNat`, `toNat_precisionOf_ofNat`: whole numbers are moved into range
* `IsInRange.toSettings_layer`: settings in range are what their layer gives
* `load_saved`: saving and loading once, and again
-/

namespace Keypad

open Binary64

/-- A whole number is the nearest to itself. -/
theorem IsNearestUp.eq_of_mul {den n k : Nat} (h : IsNearestUp (k * den) den n) : n = k := by
  obtain ⟨hlow, hhigh⟩ := h.mem (Nat.le_refl _) (Nat.le_refl _)
  omega

/-- A small whole number is moved between whole numbers as a whole number. -/
theorem Binary64.ClampsTo.eq_ofNat {low high n : Nat} {fallback y : Binary64}
    (h : ClampsTo (.ofNat low) (.ofNat high) fallback (some (.ofNat n)) y) (hle : low ≤ high)
    (hhigh : high < 2 ^ 53) (hn : n < 2 ^ 53) : y = .ofNat (min high (max low n)) := by
  have hlow : low < 2 ^ 53 := hle.trans_lt hhigh
  -- a variable for the number, which the case analysis would try to evaluate
  generalize hx : Binary64.ofNat n = x at h
  cases h with
  | notFinite h =>
    rw [← hx, isFinite_ofNat hn] at h
    cases h
  | below _ h =>
    rw [← hx] at h
    have hless : n < low := (quanta_ofNat_lt_iff hn hlow).mp h
    rw [Nat.max_eq_left hless.le, Nat.min_eq_right hle]
  | above _ h =>
    rw [← hx] at h
    have hmore : high < n := (quanta_ofNat_lt_iff hhigh hn).mp h
    rw [Nat.max_eq_right (hle.trans hmore.le), Nat.min_eq_left hmore.le]
  | inside _ hleast hmost =>
    rw [← hx] at hleast hmost ⊢
    have hleast : low ≤ n := Nat.le_of_not_lt fun hless =>
      Int.not_lt.mpr hleast ((quanta_ofNat_lt_iff hn hlow).mpr hless)
    have hmost : n ≤ high := Nat.le_of_not_lt fun hmore =>
      Int.not_lt.mpr hmost ((quanta_ofNat_lt_iff hhigh hn).mpr hmore)
    rw [Nat.max_eq_right hleast, Nat.min_eq_right hmost]

/-- Whole decimal places are moved into range. -/
theorem Layer.toNat_precisionOf_ofNat {n : Nat} (hn : n < 2 ^ 53) :
    (precisionOf (some (.ofNat n))).toNat = min 6 (max 1 n) := by
  obtain ⟨x, hclamps, hnearest⟩ := Settings.Field.isNearestUp_precisionOf (some (.ofNat n))
  have hsmall : min 6 (max 1 n) < 2 ^ 53 := by omega
  rw [hclamps.eq_ofNat (by decide) (by decide) hn, magnitude_ofNat hsmall] at hnearest
  exact hnearest.eq_of_mul

namespace Settings

variable (settings : Settings)

theorem ofLabel_name_theme (theme : Theme) : Theme.ofLabel theme.name = theme := by
  cases theme <;> decide

theorem modeOf_name (mode : Mode) : Layer.modeOf (some mode.name) = mode := by
  rw [Layer.modeOf, Option.map_some, Mode.ofLabel_name]

theorem toNat_precision_layer :
    settings.layer.toSettings.options.precision.toNat =
      min 6 (max 1 settings.options.precision.toNat) := by
  have hbyte : settings.options.precision.toNat < 2 ^ 53 :=
    Nat.lt_trans settings.options.precision.toNat_lt (by decide)
  exact Layer.toNat_precisionOf_ofNat hbyte

theorem clampsTo_taxRate_layer : ClampsTo (.zero false) .one standardTaxRate
    (some settings.options.taxRate) settings.layer.toSettings.options.taxRate :=
  Field.settles_settle .taxRate (some settings.options.taxRate)

variable {settings}

/-- **Settings in range** are what their layer gives. -/
theorem IsInRange.toSettings_layer (h : settings.IsInRange) :
    settings.layer.toSettings = settings := by
  have hrate : settings.layer.toSettings.options.taxRate = settings.options.taxRate := by
    have hclamps := settings.clampsTo_taxRate_layer
    generalize settings.layer.toSettings.options.taxRate = rate at hclamps
    cases hclamps with
    | notFinite hnot =>
      rw [h.finite_taxRate] at hnot
      cases hnot
    | below _ hbelow => exact absurd hbelow (Int.not_lt.mpr h.zero_le_taxRate)
    | above _ habove => exact absurd habove (Int.not_lt.mpr (quanta_one ▸ h.taxRate_le_one))
    | inside => rfl
  refine Field.ext fun field => ?_
  cases field with
  | taxRate => exact hrate
  | precision =>
    refine UInt8.toNat_inj.mp (settings.toNat_precision_layer.trans ?_)
    rw [Nat.max_eq_right h.one_le_precision, Nat.min_eq_right h.precision_le_six]
    rfl
  | grouping => rfl
  | scientific => rfl
  | theme => exact ofLabel_name_theme settings.theme
  | mode => exact modeOf_name settings.options.mode

/-- **Saving and loading**, by a lawful library and without overrides, keeps the flags, the theme
and the mode, and moves the tax rate and the decimal places into range.  Settings in range come
back as they are; so do loaded ones, when they are saved and loaded once more. -/
theorem load_saved {library : Library} (hlawful : library.Lawful) (settings : Settings) :
    ∃ loaded, library.load (library.saved settings) (fun _ => none) = .ok loaded ∧
      loaded.options.grouping = settings.options.grouping ∧
      loaded.options.scientific = settings.options.scientific ∧
      loaded.theme = settings.theme ∧ loaded.options.mode = settings.options.mode ∧
      ClampsTo (.zero false) .one standardTaxRate (some settings.options.taxRate)
        loaded.options.taxRate ∧
      loaded.options.precision.toNat = min 6 (max 1 settings.options.precision.toNat) ∧
      (settings.IsInRange → loaded = settings) ∧
      library.load (library.saved loaded) (fun _ => none) = .ok loaded := by
  refine ⟨_, hlawful.load_saved_eq settings, rfl, rfl, ofLabel_name_theme settings.theme,
    modeOf_name settings.options.mode, settings.clampsTo_taxRate_layer,
    settings.toNat_precision_layer, IsInRange.toSettings_layer, ?_⟩
  rw [hlawful.load_saved_eq, (isInRange_toSettings settings.layer).toSettings_layer]

/-- By the writer and the reader of settings files, a rate and places beyond their range are moved
into it once. -/
theorem load_saved_beyond :
    let settings : Settings := ⟨⟨.ofNat 3, 12, false, true, .expression⟩, .dark⟩
    let inRange : Settings := ⟨⟨.one, 6, false, true, .expression⟩, .dark⟩
    Library.own.Lawful ∧ ofFile (.ofText settings.fileText) (fun _ => none) = .ok inRange ∧
      ofFile (.ofText inRange.fileText) (fun _ => none) = .ok inRange := by
  intro settings inRange
  obtain ⟨loaded, hload, -, -, -, -, -, -, -, hagain⟩ := load_saved Library.lawful_own settings
  have hsettled : settings.layer.toSettings = inRange := by decide +kernel
  obtain rfl : loaded = inRange := by
    have hsame := hload.symm.trans (Library.ofFile_fileText settings)
    exact (Except.ok.inj hsame).trans hsettled
  exact ⟨Library.lawful_own, hload, hagain⟩

end Settings

end Keypad
