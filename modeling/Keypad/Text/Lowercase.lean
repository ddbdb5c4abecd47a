import Keypad.Text.Basic
import Keypad.Text.CaseTable

/-!
# Lower case

Full lower-casing of a text: every letter by itself, but for a capital sigma, which becomes a
final sigma at the end of a word, and a capital I with a dot, which keeps its dot as a mark.

## Main definitions

* `Text.lower`

## Main results

* `lower_eq_self_of_small`: small ASCII letters stay
-/

namespace Keypad

namespace Unicode

/-- Whether a code point lies in one of the ranges. -/
def inRanges (ranges : List (Nat × Nat)) (n : Nat) : Bool :=
  ranges.any fun range => range.1 ≤ n && n ≤ range.2

/-- The lower case of one letter, itself for all other characters. -/
def lowerLetter (c : Char) : Char :=
  let n := c.toNat
  match lowerRuns.find? fun run =>
      run.1 ≤ n && n ≤ run.2.1 && (n - run.1) % run.2.2.1 == 0 with
  | some run => Char.ofNat ((n : Int) + run.2.2.2).toNat
  | none => c

def isCased (c : Char) : Bool := inRanges casedRanges c.toNat

def isCaseIgnorable (c : Char) : Bool := inRanges caseIgnorableRanges c.toNat

end Unicode

namespace Text

/-- Whether a cased letter comes next, marks and the like aside. -/
def casedNext (t : Text) : Bool :=
  match t.dropWhile Unicode.isCaseIgnorable with
  | [] => false
  | c :: _ => Unicode.isCased c

/-- The lower case of a character between what stands before it, last character first, and what
follows.  A sigma is final if a cased letter stands before it and none follows. -/
def lowerBetween (before : Text) (c : Char) (after : Text) : Text :=
  if c = 'Σ' then if casedNext before && !casedNext after then ['ς'] else ['σ']
  else if c = 'İ' then ['i', '\u0307']
  else [Unicode.lowerLetter c]

/-- The lower case of the rest of a text, after what stands before it in reverse. -/
def lowerAfter (before : Text) : Text → Text
  | [] => []
  | c :: rest => lowerBetween before c rest ++ lowerAfter (c :: before) rest

/-- A text in lower case. -/
def lower (t : Text) : Text := lowerAfter [] t

/-! ## Small letters stay -/

/-- The letters from `a` to `z`. -/
def isSmallLetter (c : Char) : Bool := decide (97 ≤ c.toNat) && decide (c.toNat ≤ 122)

/-- No run of capital letters reaches into the small ASCII letters. -/
theorem lowerRuns_disjoint {run : Nat × Nat × Nat × Int} (h : run ∈ Unicode.lowerRuns) :
    run.2.1 < 97 ∨ 122 < run.1 := by
  -- the table is one closed list, so the kernel looks at every run
  have hall : (Unicode.lowerRuns.all fun run =>
      Nat.blt run.2.1 97 || Nat.blt 122 run.1) = true := by decide +kernel
  simpa [Nat.blt_eq] using List.all_eq_true.1 hall run h

theorem lowerLetter_of_isSmallLetter {c : Char} (h : isSmallLetter c = true) :
    Unicode.lowerLetter c = c := by
  simp only [isSmallLetter, Bool.and_eq_true, decide_eq_true_eq] at h
  have hnone : (Unicode.lowerRuns.find? fun run =>
      decide (run.1 ≤ c.toNat) && decide (c.toNat ≤ run.2.1) &&
        (c.toNat - run.1) % run.2.2.1 == 0) = none := by
    rw [List.find?_eq_none]
    intro run hrun
    have := lowerRuns_disjoint hrun
    simp only [Bool.and_eq_true, decide_eq_true_eq, not_and]
    omega
  unfold Unicode.lowerLetter
  simp only [hnone]

/-- **Small letters stay**: a text of small ASCII letters is its own lower case. -/
theorem lower_eq_self_of_small (t : Text) (h : t.all isSmallLetter = true) : lower t = t := by
  have main : ∀ t before : Text, t.all isSmallLetter = true → lowerAfter before t = t := by
    intro t
    induction t with
    | nil =>
      intro before h
      rfl
    | cons c rest ih =>
      intro before h
      rw [List.all_cons, Bool.and_eq_true] at h
      have hs : c ≠ 'Σ' := by
        rintro rfl
        exact absurd h.1 (by decide)
      have hi : c ≠ 'İ' := by
        rintro rfl
        exact absurd h.1 (by decide)
      simp only [lowerAfter, lowerBetween, if_neg hs, if_neg hi,
        lowerLetter_of_isSmallLetter h.1, List.singleton_append, ih _ h.2]
  exact main t [] h

end Text

end Keypad
