/-
# Lib.Words — finding whole words in a text

A left-to-right scan over texts of any characters: `findWord` is the leftmost match of the pattern `\b(words)\b`,
compared after folding, and returned as it stands in the text.
-/
import Mathlib.Data.List.Basic

namespace BitAgent.Lib.Words

open List

variable {α : Type} [DecidableEq α]

/-! ## The first word between boundaries -/

/-- `\b`: exactly one of the characters on both sides is a word character. -/
def boundary (word : α → Bool) (before after : Option α) : Bool := before.any word != after.any word

/-- The first of the words that stands at the front of a text and ends at a boundary. -/
def wordAt (word : α → Bool) (fold : α → α) (words : List (List α)) (text : List α) : Option (List α) :=
  words.find? fun w => w.isPrefixOf (text.map fold) &&
    boundary word (text.take w.length).getLast? (text.drop w.length).head?

/-- The leftmost match of `\b(words)\b`, as in the text; `before` is the character before it. -/
def findWord (word : α → Bool) (fold : α → α) (words : List (List α)) : Option α → List α → Option (List α)
  | _, [] => none
  | before, c :: text =>
    match (if boundary word before (some c) then wordAt word fold words (c :: text) else none) with
    | some w => some ((c :: text).take w.length)
    | none => findWord word fold words (some c) text

/-! ## Case folding -/

/-- `(?i)`: what a character folds to: upper-case letters, the Kelvin sign and the long s. -/
def foldCase (c : Char) : Char := if c = '\u212a' then 'k' else if c = '\u017f' then 's' else c.toLower

theorem forall_ascii {p : Char → Bool} (h : (List.range 128).all (fun n => p (Char.ofNat n)) = true)
    {c : Char} (hc : c.toNat < 128) : p c = true := by grind [Char.ofNat_toNat]

end BitAgent.Lib.Words
