import Keypad.Proofs.Display.Places
import Keypad.Proofs.Settings.Field

/-!
# Settings are in range

Whatever a file and an environment hold, the settings that are loaded have a tax rate from zero to
one and from one to six decimal places.  A field comes from its own variable or from its own entry,
and without the variable it is the entry moved into range, or the standard.

## Main definitions

* `Settings.IsInRange`
* `Binary64.ClampsTo`: a number that may be missing, moved into an interval
* `Field.Settles`: what a field comes to

## Main results

* `lt_iff_quanta_lt`: finite values are ordered as their quanta are
* `clampsTo_clamped`, `settles_settle`: what settling does to numbers, and to any field
* `isInRange_toSettings`: settings of any layer are in range
* `ofFile_settles`: files are loaded field by field, into settings in range
-/

namespace Keypad

namespace Binary64

variable {x y low high fallback : Binary64}

theorem exists_eq_finite_of_isFinite (h : x.isFinite = true) :
    ∃ negative ordinal, x = finite negative ordinal := by
  cases x with
  | nan => cases h
  | infinite negative => cases h
  | finite negative ordinal => exact ⟨negative, ordinal, rfl⟩

theorem lt_iff_quanta_lt (hx : x.isFinite = true) (hy : y.isFinite = true) :
    x.lt y = true ↔ x.quanta < y.quanta := by
  obtain ⟨s, m, rfl⟩ := exists_eq_finite_of_isFinite hx
  obtain ⟨t, n, rfl⟩ := exists_eq_finite_of_isFinite hy
  have hlt : magnitudeOf m < magnitudeOf n ↔ m.val < n.val := magnitudeOf_lt_iff
  have hgt : magnitudeOf n < magnitudeOf m ↔ n.val < m.val := magnitudeOf_lt_iff
  have hm : 0 < magnitudeOf m ↔ 0 < m.val := magnitudeOf_lt_iff (m := 0)
  have hn : 0 < magnitudeOf n ↔ 0 < n.val := magnitudeOf_lt_iff (m := 0)
  -- the rank of a value is its ordinal with a sign, and ordinals are ordered as magnitudes
  cases s <;> cases t <;>
    simp only [lt, isNaN, rank, quanta, isNegative, magnitude, Bool.not_false, Bool.true_and,
      decide_eq_true_eq, if_true, if_false, Bool.false_eq_true] <;> omega

/-- What a number that may be missing comes to in an interval: one that is missing or not finite is
replaced, one outside is moved to the nearer end, and one inside stays as it is. -/
inductive ClampsTo (low high fallback : Binary64) : Option Binary64 → Binary64 → Prop
  | missing : ClampsTo low high fallback none fallback
  | notFinite {x : Binary64} (h : x.isFinite = false) : ClampsTo low high fallback (some x) fallback
  | below {x : Binary64} (hfinite : x.isFinite = true) (h : x.quanta < low.quanta) :
      ClampsTo low high fallback (some x) low
  | above {x : Binary64} (hfinite : x.isFinite = true) (h : high.quanta < x.quanta) :
      ClampsTo low high fallback (some x) high
  | inside {x : Binary64} (hfinite : x.isFinite = true) (hlow : low.quanta ≤ x.quanta)
      (hhigh : x.quanta ≤ high.quanta) : ClampsTo low high fallback (some x) x

theorem clampsTo_clamped (hlow : low.isFinite = true) (hhigh : high.isFinite = true)
    (found : Option Binary64) :
    ClampsTo low high fallback found (Layer.clamped low high fallback found) := by
  cases found with
  | none => exact .missing
  | some x =>
    rw [Layer.clamped]
    split
    · rename_i hfinite
      unfold clamp
      simp only [lt_iff_quanta_lt hfinite hlow, lt_iff_quanta_lt hhigh hfinite]
      split
      · exact .below hfinite ‹_›
      · split
        · exact .above hfinite ‹_›
        · exact .inside hfinite (Int.not_lt.mp ‹_›) (Int.not_lt.mp ‹_›)
    · exact .notFinite (Bool.not_eq_true _ ▸ ‹_›)

/-- With the replacement in the interval, all results are. -/
theorem ClampsTo.mem {found : Option Binary64} (h : ClampsTo low high fallback found y)
    (hlow : low.isFinite = true) (hhigh : high.isFinite = true)
    (hfallback : fallback.isFinite = true) (hle : low.quanta ≤ fallback.quanta)
    (hge : fallback.quanta ≤ high.quanta) :
    y.isFinite = true ∧ low.quanta ≤ y.quanta ∧ y.quanta ≤ high.quanta := by
  cases h with
  | missing => exact ⟨hfallback, hle, hge⟩
  | notFinite => exact ⟨hfallback, hle, hge⟩
  | below => exact ⟨hlow, Int.le_refl _, Int.le_trans hle hge⟩
  | above => exact ⟨hhigh, Int.le_trans hle hge, Int.le_refl _⟩
  | inside hfinite hlow hhigh => exact ⟨hfinite, hlow, hhigh⟩

/-- A small whole number is a value. -/
theorem isFinite_ofNat {n : Nat} (h : n < 2 ^ 53) : (ofNat n).isFinite = true := by
  obtain ⟨ordinal, hvalue, -⟩ := exists_ofQuotient_whole h false
  rw [ofNat, hvalue]
  rfl

theorem magnitude_ofNat {n : Nat} (h : n < 2 ^ 53) :
    (ofNat n).magnitude = n * quantaPerUnit := by
  obtain ⟨ordinal, hvalue, hmagnitude⟩ := exists_ofQuotient_whole h false
  rw [ofNat, hvalue]
  exact hmagnitude

theorem quanta_ofNat {n : Nat} (h : n < 2 ^ 53) : (ofNat n).quanta = n * quantaPerUnit := by
  have hsign : (ofNat n).isNegative = false := by
    obtain ⟨ordinal, hvalue, -⟩ := exists_ofQuotient_whole h false
    rw [ofNat, hvalue]
    rfl
  rw [quanta, hsign, if_neg Bool.false_ne_true, magnitude_ofNat h, Nat.cast_mul]

/-- Small whole numbers are ordered as values as they are. -/
theorem quanta_ofNat_lt_iff {m n : Nat} (hm : m < 2 ^ 53) (hn : n < 2 ^ 53) :
    (ofNat m).quanta < (ofNat n).quanta ↔ m < n := by
  rw [quanta_ofNat hm, quanta_ofNat hn]
  exact (Int.mul_lt_mul_right (Int.natCast_pos.mpr quantaPerUnit_pos)).trans Int.ofNat_lt

theorem quanta_one : one.quanta = quantaPerUnit := by decide +kernel

theorem magnitude_eq_quanta (h : 0 ≤ x.quanta) : (x.magnitude : Int) = x.quanta := by
  unfold quanta at h ⊢
  split at h
  · rw [if_pos ‹_›]; omega
  · rw [if_neg ‹_›]

end Binary64

open Binary64

/-- The whole number nearest to a quotient, ties up. -/
def IsNearestUp (num den n : Nat) : Prop :=
  2 * n * den ≤ 2 * num + den ∧ 2 * num < (2 * n + 1) * den

theorem isNearestUp_roundHalfUp (num : Nat) {den : Nat} (hden : 0 < den) :
    IsNearestUp num den (roundHalfUp num den) := by
  have hmod := Nat.div_add_mod (2 * num + den) (2 * den)
  have hlt := Nat.mod_lt (2 * num + den) (Nat.mul_pos Nat.two_pos hden)
  unfold IsNearestUp roundHalfUp
  generalize (2 * num + den) / (2 * den) = n at hmod
  constructor
  · calc 2 * n * den = 2 * den * n := by ring
      _ ≤ 2 * num + den := by omega
  · calc 2 * num < 2 * den * n + den := by omega
      _ = (2 * n + 1) * den := by ring

/-- The nearest whole number lies between whole bounds of the quotient. -/
theorem IsNearestUp.mem {num den n low high : Nat} (h : IsNearestUp num den n)
    (hlow : low * den ≤ num) (hhigh : num ≤ high * den) : low ≤ n ∧ n ≤ high := by
  obtain ⟨hle, hlt⟩ := h
  constructor
  · by_contra hcontra
    -- `low` itself would be nearer
    have hbound : (n + 1) * den ≤ low * den := Nat.mul_le_mul_right den (by omega)
    have hexpand : (2 * n + 1) * den + den = 2 * ((n + 1) * den) := by ring
    omega
  · by_contra hcontra
    have hbound : (high + 1) * den ≤ n * den := Nat.mul_le_mul_right den (by omega)
    have hexpand : 2 * n * den = 2 * (n * den) := by ring
    have hnext : (high + 1) * den = high * den + den := Nat.succ_mul high den
    have hpos : 0 < den := Nat.pos_of_mul_pos_left (Nat.zero_lt_of_lt hlt)
    omega

namespace Settings

/-- Settings in range: the tax rate is a number from zero to one, and there are from one to six
decimal places. -/
structure IsInRange (settings : Settings) : Prop where
  finite_taxRate : settings.options.taxRate.isFinite = true
  zero_le_taxRate : 0 ≤ settings.options.taxRate.quanta
  taxRate_le_one : settings.options.taxRate.quanta ≤ quantaPerUnit
  one_le_precision : 1 ≤ settings.options.precision.toNat
  precision_le_six : settings.options.precision.toNat ≤ 6

namespace Field

/-- What a field comes to from what is found of it: numbers are moved into their range, decimal
places are then rounded, a flag is taken as it is, and a theme or a mode by its name in any case.
What is missing, no number or of no known name is replaced by the standard. -/
def Settles : (field : Field) → Option field.Found → field.Value → Prop
  | taxRate => ClampsTo (.zero false) .one standardTaxRate
  | precision => fun found places => ∃ x, ClampsTo (.ofNat 1) (.ofNat 6) (.ofNat 3) found x ∧
      IsNearestUp x.magnitude quantaPerUnit (UInt8.toNat places)
  | grouping => fun found flag => flag = found.getD true
  | scientific => fun found flag => flag = found.getD false
  | theme => fun found theme =>
      theme = Theme.dark ↔ ∃ t, found = some t ∧ Text.upper t = "DARK".toList
  | mode => fun found mode =>
      mode = Mode.expression ↔ ∃ t, found = some t ∧ Text.lower t ∈ Mode.expression.aliases

/-- Decimal places moved into their range are from one to six units. -/
theorem magnitude_mem_of_clampsTo {found : Option Binary64} {x : Binary64}
    (h : ClampsTo (.ofNat 1) (.ofNat 6) (.ofNat 3) found x) :
    1 * quantaPerUnit ≤ x.magnitude ∧ x.magnitude ≤ 6 * quantaPerUnit := by
  have hone : (Binary64.ofNat 1).quanta = (1 : Nat) * quantaPerUnit := quanta_ofNat (by decide)
  have hthree : (Binary64.ofNat 3).quanta = (3 : Nat) * quantaPerUnit := quanta_ofNat (by decide)
  have hsix : (Binary64.ofNat 6).quanta = (6 : Nat) * quantaPerUnit := quanta_ofNat (by decide)
  obtain ⟨-, hlow, hhigh⟩ := h.mem (isFinite_ofNat (by decide)) (isFinite_ofNat (by decide))
    (isFinite_ofNat (by decide)) (by omega) (by omega)
  have hmagnitude : (x.magnitude : Int) = x.quanta := magnitude_eq_quanta (by omega)
  omega

/-- Rounded decimal places are from one to six, so a byte holds them. -/
theorem isNearestUp_precisionOf (found : Option Binary64) :
    ∃ x, ClampsTo (.ofNat 1) (.ofNat 6) (.ofNat 3) found x ∧
      IsNearestUp x.magnitude quantaPerUnit (Layer.precisionOf found).toNat := by
  have hclamps : ClampsTo (.ofNat 1) (.ofNat 6) (.ofNat 3) found
      (Layer.clamped Layer.leastPlaces Layer.mostPlaces (.ofNat 3) found) :=
    clampsTo_clamped (isFinite_ofNat (by decide)) (isFinite_ofNat (by decide)) found
  refine ⟨_, hclamps, ?_⟩
  obtain ⟨hlow, hhigh⟩ := magnitude_mem_of_clampsTo hclamps
  have hnearest := isNearestUp_roundHalfUp (Binary64.magnitude
    (Layer.clamped Layer.leastPlaces Layer.mostPlaces (.ofNat 3) found)) quantaPerUnit_pos
  -- at most six, the rounded number is the byte it is cast to
  have hsmall := (hnearest.mem hlow hhigh).2
  have hbyte : (Layer.precisionOf found).toNat = roundHalfUp (Binary64.magnitude
      (Layer.clamped Layer.leastPlaces Layer.mostPlaces (.ofNat 3) found)) quantaPerUnit :=
    UInt8.toNat_ofNat_of_lt' (Nat.lt_of_le_of_lt hsmall (by decide))
  rwa [hbyte]

theorem dark_ofLabel_iff {t : Text} :
    Theme.ofLabel t = .dark ↔ Text.upper t = "DARK".toList := by
  have hname : Text.upper Theme.dark.name = "DARK".toList := by decide
  unfold Theme.ofLabel Text.sameLetters
  rw [hname]
  split <;> simp_all

/-- **Settling a field** gives what it should come to, whatever is found. -/
theorem settles_settle (field : Field) (found : Option field.Found) :
    field.Settles found (field.settle found) := by
  cases field with
  | taxRate => exact clampsTo_clamped rfl rfl found
  | precision => exact isNearestUp_precisionOf found
  | grouping => rfl
  | scientific => rfl
  | theme =>
    cases found with
    | none => exact iff_of_false (fun hdark : Theme.light = .dark => nomatch hdark) nofun
    | some t =>
      refine dark_ofLabel_iff.trans ⟨fun hupper => ⟨t, rfl, hupper⟩, ?_⟩
      rintro ⟨_, heq, hupper⟩
      exact Option.some.inj heq ▸ hupper
  | mode => exact Layer.modeOf_eq_expression_iff

end Field

variable {settings : Settings}

/-- Settings whose numbers are settled, from whatever was found, are in range. -/
theorem isInRange_of_settles {rate places : Option Binary64}
    (hrate : Field.taxRate.Settles rate settings.options.taxRate)
    (hplaces : Field.precision.Settles places settings.options.precision) : settings.IsInRange := by
  have hstandard : standardTaxRate.isFinite = true ∧ 0 ≤ standardTaxRate.quanta ∧
      standardTaxRate.quanta ≤ Binary64.one.quanta := by decide +kernel
  obtain ⟨hfinite, hlow, hhigh⟩ :=
    Binary64.ClampsTo.mem hrate rfl rfl hstandard.1 hstandard.2.1 hstandard.2.2
  obtain ⟨x, hclamps, hnearest⟩ := hplaces
  obtain ⟨hxlow, hxhigh⟩ := Field.magnitude_mem_of_clampsTo hclamps
  obtain ⟨hleast, hmost⟩ := hnearest.mem hxlow hxhigh
  exact ⟨hfinite, hlow, quanta_one ▸ hhigh, hleast, hmost⟩

/-- **The settings of any layer are in range.** -/
theorem isInRange_toSettings (layer : Layer) : layer.toSettings.IsInRange :=
  isInRange_of_settles (Field.settles_settle .taxRate layer.taxRate)
    (Field.settles_settle .precision layer.precision)

/-- **Loading settings**: a file that holds a layer is loaded in any environment, into settings in
range.  Each field depends on its own entry and its own variable only, and without the variable it
is what its entry comes to. -/
theorem ofFile_settles {file : SettingsFile} {layer : Layer} (h : Layer.ofFile file = .ok layer)
    (environment : Environment) :
    ∃ settings, ofFile file environment = .ok settings ∧ settings.IsInRange ∧
      ∀ field : Field,
        (∀ file' layer' environment' settings', Layer.ofFile file' = .ok layer' →
          ofFile file' environment' = .ok settings' →
          field.found layer' = field.found layer →
          environment' field.variableName = environment field.variableName →
          field.value settings' = field.value settings) ∧
        (environment field.variableName = none →
          field.Settles (field.found layer) (field.value settings)) := by
  have hload := ofFile_of_layer h environment
  refine ⟨_, hload, isInRange_toSettings _, fun field => ⟨?_, fun hunset => ?_⟩⟩
  · intro file' layer' environment' settings' h' hload' hfound hvariable
    exact value_congr h hload h' hload' hfound hvariable
  · rw [value_of_ofFile h hload, Field.given_of_unset hunset]
    exact Field.settles_settle field _

/-- A rate beyond one and places between two numbers are moved into range, and so are places that
override those of the file. -/
theorem ofFile_settles_beyond :
    let file := SettingsFile.ofText "tax_rate = 2.5\nprecision = 4.5\nmode = \"expr\"\n".toList
    let environment : Environment := fun name =>
      if name = "TALLY_PRECISION" then some " 9.5 ".toList
      else if name = "TALLY_GROUPING" then some "Off".toList else none
    ∃ settings overridden, ofFile file (fun _ => none) = .ok settings ∧
      ofFile file environment = .ok overridden ∧ settings.IsInRange ∧ overridden.IsInRange ∧
      settings.options = ⟨.one, 5, true, false, .expression⟩ ∧
      overridden.options = ⟨.one, 6, false, false, .expression⟩ ∧
      Field.mode.Settles (some "expr".toList) settings.options.mode ∧
      overridden.options.taxRate = settings.options.taxRate := by
  intro file environment
  have hlayer : Layer.ofFile file =
      .ok { taxRate := some (.ofQuotient false (5 * quantaPerUnit) 2)
            precision := some (.ofQuotient false (9 * quantaPerUnit) 2)
            mode := some "expr".toList } :=
    Layer.ofFile_ofText (by decide +kernel)
  obtain ⟨settings, hload, hrange, hfields⟩ := ofFile_settles hlayer (fun _ => none)
  obtain ⟨overridden, hload', hrange', -⟩ := ofFile_settles hlayer environment
  have hrate := (hfields .taxRate).1 file _ environment overridden hlayer hload' rfl rfl
  refine ⟨settings, overridden, hload, hload', hrange, hrange', ?_, ?_, (hfields .mode).2 rfl,
    hrate⟩
  · rw [ofFile_of_layer hlayer] at hload
    obtain rfl := Except.ok.inj hload
    decide +kernel
  · rw [ofFile_of_layer hlayer] at hload'
    obtain rfl := Except.ok.inj hload'
    decide +kernel

end Settings

end Keypad
