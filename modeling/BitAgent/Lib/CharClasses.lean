/-
# Lib.CharClasses — letters, digits and case

The questions that a program asks of Go's `unicode` tables. Beyond ASCII they are a parameter; what they say
of ASCII is fixed, and lower-casing a letter or digit gives one. `CharClasses.ascii` knows ASCII only.
-/
import BitAgent.Lib.Words

namespace BitAgent.Lib

open Lib.Words (forall_ascii)

/-- `unicode.IsLetter`, `IsDigit`, `ToLower` and `ToUpper`. -/
structure CharClasses where
  isLetter : Char → Bool
  isDigit : Char → Bool
  toLower : Char → Char
  toUpper : Char → Char
  isLetter_ascii : ∀ c, c.toNat < 128 → isLetter c = c.isAlpha
  isDigit_ascii : ∀ c, c.toNat < 128 → isDigit c = c.isDigit
  toUpper_ascii : ∀ c, c.toNat < 128 → toUpper c = c.toUpper
  toLower_ascii : ∀ c, c.toNat < 128 → toLower c = c.toLower
  /-- A letter in lower case is a letter, and a digit stays one. -/
  word_toLower : ∀ c, (isLetter c || isDigit c) = true → (isLetter (toLower c) || isDigit (toLower c)) = true

theorem toNat_lt_of_isAlpha_or_isDigit {c : Char} (h : (c.isAlpha || c.isDigit) = true) : c.toNat < 128 := by
  have halpha : c.isAlpha = (decide (65 ≤ c.val ∧ c.val ≤ 90) || decide (97 ≤ c.val) && decide (c.val ≤ 122)) := rfl
  rw [halpha, Char.isDigit] at h
  simp only [Bool.or_eq_true, Bool.and_eq_true, decide_eq_true_eq, UInt32.le_iff_toNat_le] at h
  show c.val.toNat < 128
  grind

def CharClasses.ascii : CharClasses where
  isLetter := Char.isAlpha
  isDigit := Char.isDigit
  toLower := Char.toLower
  toUpper := Char.toUpper
  isLetter_ascii _ _ := rfl
  isDigit_ascii _ _ := rfl
  toUpper_ascii _ _ := rfl
  toLower_ascii _ _ := rfl
  word_toLower c h := by
    have hascii := forall_ascii (p := fun c => !(c.isAlpha || c.isDigit) || (c.toLower.isAlpha || c.toLower.isDigit))
      (by decide) (toNat_lt_of_isAlpha_or_isDigit h)
    rwa [h] at hascii

end BitAgent.Lib
