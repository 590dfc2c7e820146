import CMinusFrontEnd.Text.Basic

/-!
# Blanks

The characters that separate lexemes: those with the Unicode property *White_Space*. The
table is the standard's own list of ranges, in code point order. Letters and digits need no
table here, since the language admits ASCII ones only, which is what `Char.isAlpha`,
`Char.isDigit` and `Char.isAlphanum` test. No character is in two of the three classes.
-/

namespace CMinusFrontEnd

/-- The ranges of code points with the property *White_Space*, ends included. -/
def blankRanges : List (Nat × Nat) :=
  [ (0x0009, 0x000D), (0x0020, 0x0020), (0x0085, 0x0085), (0x00A0, 0x00A0), (0x1680, 0x1680),
    (0x2000, 0x200A), (0x2028, 0x2029), (0x202F, 0x202F), (0x205F, 0x205F), (0x3000, 0x3000) ]

/-- Whether a character is a blank. -/
def isBlank (c : Char) : Bool :=
  blankRanges.any fun (low, high) => low ≤ c.toNat && c.toNat ≤ high

theorem isBlank_newline : isBlank '\n' = true := by decide

theorem isBlank_space : isBlank ' ' = true := by decide

-- The property holds of 25 code points.
example : (blankRanges.map fun (low, high) => high + 1 - low).sum = 25 := by decide

/-! ## Letters and digits

What is said of these classes comes from the ranges of their code points. -/

/-- Letters are those of ASCII, in two ranges of codes. -/
theorem isAlpha_iff_toNat {c : Char} :
    c.isAlpha = true ↔ (65 ≤ c.toNat ∧ c.toNat ≤ 90) ∨ (97 ≤ c.toNat ∧ c.toNat ≤ 122) := by
  have hupper : c.isUpper = true ↔ 65 ≤ c.toNat ∧ c.toNat ≤ 90 := decide_eq_true_iff
  have hlower : c.isLower = true ↔ 97 ≤ c.toNat ∧ c.toNat ≤ 122 :=
    (Bool.and_eq_true_iff).trans (and_congr decide_eq_true_iff decide_eq_true_iff)
  rw [← hupper, ← hlower]
  exact Bool.or_eq_true_iff

theorem isAlphanum_iff {c : Char} :
    c.isAlphanum = true ↔ c.isAlpha = true ∨ c.isDigit = true :=
  Bool.or_eq_true_iff

theorem isAlpha_eq_false_of_isDigit {c : Char} (h : c.isDigit = true) : c.isAlpha = false := by
  obtain ⟨-, hhigh⟩ := Char.isDigit_iff_toNat.1 h
  rw [Bool.eq_false_iff]
  intro ha
  have hlow := isAlpha_iff_toNat.1 ha
  simp only [Char.reduceToNat] at hhigh
  omega

theorem isDigit_eq_false_of_isAlpha {c : Char} (h : c.isAlpha = true) : c.isDigit = false := by
  rw [Bool.eq_false_iff]
  intro hd
  rw [isAlpha_eq_false_of_isDigit hd] at h
  cases h

/-- No letter and no digit is a blank. -/
theorem isBlank_eq_false_of_isAlphanum {c : Char} (h : c.isAlphanum = true) :
    isBlank c = false := by
  have hc : 48 ≤ c.toNat ∧ c.toNat ≤ 122 := by
    rcases isAlphanum_iff.1 h with ha | hd
    · have hrange := isAlpha_iff_toNat.1 ha
      omega
    · have hrange := Char.isDigit_iff_toNat.1 hd
      simp only [Char.reduceToNat] at hrange
      omega
  simp only [isBlank, blankRanges, List.any_cons, List.any_nil, Bool.or_false,
    Bool.or_eq_false_iff, Bool.and_eq_false_imp, decide_eq_true_eq, decide_eq_false_iff_not]
  omega

end CMinusFrontEnd
