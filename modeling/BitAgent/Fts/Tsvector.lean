/-
# Fts.Tsvector — text search vectors: their text, and texts added to them

`internal/database/fts/tsvector.go`. `String` writes a vector with lexemes and positions in order, `ParseTsvector`
reads one, and `AddText` numbers the words of a further text. Maps are lists of entries in the order of a `range`
loop, any order; a nil map reads like an empty one. `ReadInt` panics on a number that is no `int`.
-/
import BitAgent.Fts.Tokenizer
import BitAgent.Lib.Prelude
import Mathlib.Data.List.Sort

namespace BitAgent.Fts

open Lib Lib.GoString
open Catalogueguard (trimBy tagWhitespace)

/-! ## Vectors and their text -/

/-- `TsvectorWeight`: the constants of the type. -/
inductive TsvectorWeight where
  | a
  | b
  | c
  | d
  deriving DecidableEq

def TsvectorWeight.toRune : TsvectorWeight → Char
  | .a => 'A'
  | .b => 'B'
  | .c => 'C'
  | .d => 'D'

/-- `map[int]TsvectorWeight`. -/
abbrev Labels := GoMap Int TsvectorWeight
abbrev Tsvector := GoMap GoString Labels

/-- `nonWordChar.MatchString`: a character that is not in `[0-9A-Za-z_]`. -/
def nonWordChar (str : GoString) : Bool := (decode str).any fun c => !(c.isAlphanum || c == '_')

def quoteLexeme (str : GoString) (force : Bool) : GoString :=
  if force || nonWordChar str then 0x27 :: replaceAll 0x27 [0x27, 0x27] str ++ [0x27] else str

namespace Tsvector

def sortedLabels (labels : Labels) : List (Int × TsvectorWeight) :=
  if labels.entries = [] then [(0, .d)] else labels.entries.insertionSort fun l l' => l.1 ≤ l'.1

/-- A label: `%d` and the weight, unless it is `D`. -/
def label (l : Int × TsvectorWeight) : GoString :=
  encode ((toString l.1).toList ++ if l.2 = .d then [] else [l.2.toRune])

def part (entry : GoString × Labels) : GoString :=
  let labels := ((sortedLabels entry.2).filter fun l => decide (l.1 ≠ 0)).map label
  if labels = [] then quoteLexeme entry.1 true
  else quoteLexeme entry.1 true ++ 0x3A :: [0x2C].intercalate labels

def string (v : Tsvector) : GoString := [0x20].intercalate ((v.entries.insertionSort fun e e' => e.1 ≤ e'.1).map part)

end Tsvector

/-! ## Reading -/

/-- How reading ends without a result: a panic, or an error with the runes that were left. -/
inductive Failure where
  | panic
  | error (msg : String) (rest : List Char)

/-- The loop of `readQuotedString`: what was read, what is left, and whether it was closed. -/
def readQuotedLoop (quoteChar : Char) : List Char → List Char → List Char × List Char × Bool
  | str, [] => (str, [], false)
  | str, ch :: rest =>
    if ch = quoteChar then
      match rest with
      | [] => (str, [], true)
      | ch' :: rest' =>
        if ch' = quoteChar then readQuotedLoop quoteChar (str ++ [ch]) rest' else (str, ch' :: rest', true)
    else readQuotedLoop quoteChar (str ++ [ch]) rest

/-- `readQuotedString`: the string, what is left, and the error. -/
def readQuotedString (quoteChar : Char) (runes : List Char) : GoString × List Char × Option String :=
  match runes with
  | [] => ([], [], some "missing opening quote")
  | ch :: rest =>
    if ch = quoteChar then
      let r := readQuotedLoop quoteChar [] rest
      (encode r.1, r.2.1, if r.2.2 then none else some "unexpected EOF")
    else ([], ch :: rest, some "missing opening quote")

def isInt (c : Char) : Bool := decide ('0' ≤ c) && decide (c ≤ '9')

/-- The greatest `int`. -/
def maxInt : Nat := 2 ^ 63 - 1

namespace Unicode

variable (u : Unicode)

/-- `ReadIf(isWeight)` and `unicode.ToUpper`. -/
def weight? (c : Char) : Option TsvectorWeight :=
  let c := u.toUpper c
  if c = 'A' then some .a else if c = 'B' then some .b else if c = 'C' then some .c
  else if c = 'D' then some .d else none

/-- The weight after a position, which is `D` if none is written, and what is left. -/
def readWeight (runes : List Char) : TsvectorWeight × List Char :=
  match runes with
  | [] => (.d, [])
  | ch :: rest =>
    match u.weight? ch with
    | some w => (w, rest)
    | none => (.d, ch :: rest)

theorem readWeight_length (runes : List Char) : (u.readWeight runes).2.length ≤ runes.length := by
  cases runes with
  | nil => exact Nat.le_refl _
  | cons ch rest => grind [readWeight]

variable {runes : List Char}

theorem length_lt_of_afterWeight {tail : List Char} {ch : Char}
    (h : (u.readWeight (runes.dropWhile isInt)).2 = ch :: tail) : tail.length < runes.length := by
  have hweight := u.readWeight_length (runes.dropWhile isInt)
  grind [List.dropWhile_suffix]

def readLabels (runes : List Char) : Except Failure (List (Int × TsvectorWeight) × List Char) :=
  let digits := runes.takeWhile isInt
  let n := Nat.ofDigitChars 10 digits 0
  if digits = [] then .error (.error "missing position" runes)
  else if maxInt < n then .error .panic
  else
    let w := u.readWeight (runes.dropWhile isInt)
    match _ : w.2 with
    | [] => .ok ([((n : Int), w.1)], [])
    | ch :: tail =>
      if ch = ',' then
        match readLabels tail with
        | .error e => .error e
        | .ok (labels, left) => .ok (((n : Int), w.1) :: labels, left)
      else if ch = ' ' then .ok ([((n : Int), w.1)], tail.dropWhile (· = ' '))
      else .error (.error "unexpected character" (ch :: tail))
termination_by runes.length
decreasing_by exact u.length_lt_of_afterWeight ‹_›

def readLexeme (runes : List Char) : Except Failure (GoString × List Char) :=
  let unquoted := runes.takeWhile u.isWordChar
  if unquoted ≠ [] then .ok (encode unquoted, runes.dropWhile u.isWordChar)
  else
    let r := readQuotedString '\'' runes
    match r.2.2 with
    | some msg => .error (.error msg r.2.1)
    | none => if r.1 = [] then .error (.error "empty quoted string" r.2.1) else .ok (r.1, r.2.1)

def readTsvPart (runes : List Char) :
    Except Failure ((GoString × List (Int × TsvectorWeight)) × List Char) := do
  let (lexeme, rest) ← u.readLexeme runes
  match rest with
  | [] => return ((lexeme, []), [])
  | ch :: tail =>
    if ch = ':' then
      let (labels, left) ← u.readLabels tail
      return ((lexeme, labels), left)
    else if ch = ' ' then return ((lexeme, []), tail.dropWhile (· = ' '))
    else .error (.error "unexpected character" rest)

variable {left : List Char}

theorem readLabels_length {labels : List (Int × TsvectorWeight)} (h : u.readLabels runes = .ok (labels, left)) :
    left.length ≤ runes.length := by
  fun_induction readLabels u runes generalizing labels left with
  | case3 => grind
  | case5 =>
    rename_i tail labels' left' hrest hafter ih
    cases h
    exact Nat.le_trans (ih hrest) (Nat.le_of_lt (u.length_lt_of_afterWeight hafter))
  | case6 =>
    rename_i hafter _
    cases h
    exact Nat.le_trans (List.dropWhile_suffix _).length_le (Nat.le_of_lt (u.length_lt_of_afterWeight hafter))
  | _ => cases h

theorem readQuotedLoop_length (quoteChar : Char) (str runes : List Char) :
    (readQuotedLoop quoteChar str runes).2.1.length ≤ runes.length := by
  fun_induction readQuotedLoop quoteChar str runes with
  | case1 => exact Nat.le_refl _
  | case2 => exact Nat.zero_le _
  | case3 str rest ih => exact Nat.le_trans ih (Nat.le_add_right _ 2)
  | case4 => exact Nat.le_succ _
  | case5 str ch rest _ ih => exact Nat.le_succ_of_le ih

theorem readQuotedString_length_le (quoteChar : Char) (runes : List Char) :
    (readQuotedString quoteChar runes).2.1.length ≤ runes.length := by
  cases runes with
  | nil => exact Nat.le_refl _
  | cons ch rest => grind [readQuotedString, readQuotedLoop_length]

theorem readQuotedString_length {quoteChar : Char} (h : (readQuotedString quoteChar runes).2.2 = none) :
    (readQuotedString quoteChar runes).2.1.length < runes.length := by
  cases runes with
  | nil => cases h
  | cons ch rest => grind [readQuotedString, readQuotedLoop_length]

theorem length_dropWhile_lt {p : Char → Bool} {l : List Char} (h : l.takeWhile p ≠ []) :
    (l.dropWhile p).length < l.length := by
  grind [List.length_pos_iff, List.takeWhile_append_dropWhile]

theorem readLexeme_length {lexeme : GoString} (h : u.readLexeme runes = .ok (lexeme, left)) :
    left.length < runes.length := by
  unfold readLexeme at h
  simp only at h
  by_cases hword : runes.takeWhile u.isWordChar = []
  · rw [if_neg (not_not.mpr hword)] at h
    cases herr : (readQuotedString '\'' runes).2.2 with
    | some msg =>
      rw [herr] at h
      cases h
    | none =>
      rw [herr] at h
      simp only at h
      split_ifs at h
      cases h
      exact readQuotedString_length herr
  · rw [if_pos hword] at h
    cases h
    exact length_dropWhile_lt hword

theorem readTsvPart_length {part : GoString × List (Int × TsvectorWeight)}
    (h : u.readTsvPart runes = .ok (part, left)) : left.length < runes.length := by
  obtain ⟨⟨lexeme, rest⟩, hlexeme, h⟩ := accepted_bind_iff.mp h
  have hlen := u.readLexeme_length hlexeme
  cases rest with
  | nil =>
    cases h
    exact hlen
  | cons ch tail =>
    simp only at h
    split_ifs at h
    · obtain ⟨⟨labels, left'⟩, hlabels, h⟩ := accepted_bind_iff.mp h
      cases h
      exact Nat.lt_of_le_of_lt (u.readLabels_length hlabels) (Nat.lt_of_succ_lt hlen)
    · cases h
      grind [List.dropWhile_suffix]

end Unicode

/-- `tsv[word]` is made if it is missing, and gets the labels. -/
def Tsvector.addLabels (tsv : Tsvector) (word : GoString) (labels : List (Int × TsvectorWeight)) : Tsvector :=
  tsv.set word (labels.foldl (fun m l => m.set l.1 l.2) ((tsv.lookup word).getD .empty))

namespace Unicode

variable (u : Unicode)

/-- The loop of `ParseTsvector`. -/
def parseParts (tsv : Tsvector) (runes : List Char) : Except Failure Tsvector :=
  if runes = [] then .ok tsv
  else
    match _ : u.readTsvPart runes with
    | .error e => .error e
    | .ok (part, left) => parseParts (tsv.addLabels part.1 part.2) left
termination_by runes.length
decreasing_by exact u.readTsvPart_length ‹_›

end Unicode

/-- What `ParseTsvector` returns, or that it panics. -/
inductive ParseError where
  | panic
  | error (text : String)
  deriving DecidableEq

def Failure.at (runes : List Char) : Failure → ParseError
  | .panic => .panic
  | .error msg rest => .error s!"error at position {runes.length - rest.length}: {msg}"

def Unicode.parseTsvector (u : Unicode) (str : GoString) : Except ParseError Tsvector :=
  let runes := trimSpace (decode str)
  (u.parseParts .empty runes).mapError (Failure.at runes)

/-! ## Panics -/

/-- A list of labels with a position that is no `int`, after labels that can be read. -/
@[mk_iff] inductive LongLabel (u : Unicode) : List Char → Prop
  | here {runes : List Char} (h : maxInt < Nat.ofDigitChars 10 (runes.takeWhile isInt) 0) : LongLabel u runes
  | next {runes tail : List Char} (hdigits : runes.takeWhile isInt ≠ [])
      (hcomma : (u.readWeight (runes.dropWhile isInt)).2 = ',' :: tail) (h : LongLabel u tail) : LongLabel u runes

/-- A text with such a list, after parts that can be read. -/
@[mk_iff] inductive LongPosition (u : Unicode) : List Char → Prop
  | here {runes tail : List Char} {lexeme : GoString} (hlexeme : u.readLexeme runes = .ok (lexeme, ':' :: tail))
      (h : LongLabel u tail) : LongPosition u runes
  | next {runes left : List Char} {part : GoString × List (Int × TsvectorWeight)}
      (hpart : u.readTsvPart runes = .ok (part, left)) (h : LongPosition u left) : LongPosition u runes

theorem readLabels_panic_iff (u : Unicode) (runes : List Char) :
    u.readLabels runes = .error .panic ↔ LongLabel u runes := by
  fun_induction Unicode.readLabels u runes with
  | case1 runes digits hnone =>
    rw [longLabel_iff, show runes.takeWhile isInt = [] from hnone]
    simp
  | case2 runes digits n hdigits hlong => exact iff_of_true rfl (.here hlong)
  | _ =>
    -- the position is an `int`; the labels go on after a comma
    rw [longLabel_iff]
    grind

theorem readLexeme_ne_panic (u : Unicode) (runes : List Char) : u.readLexeme runes ≠ .error .panic := by
  unfold Unicode.readLexeme
  grind

theorem readTsvPart_panic_iff (u : Unicode) (runes : List Char) : u.readTsvPart runes = .error .panic ↔
      ∃ lexeme tail, u.readLexeme runes = .ok (lexeme, ':' :: tail) ∧ LongLabel u tail := by
  unfold Unicode.readTsvPart
  cases hlexeme : u.readLexeme runes with
  | error e =>
    refine iff_of_false (fun h => ?_) (by simp)
    exact readLexeme_ne_panic u runes (hlexeme.trans (congrArg _ (Except.error.inj h)))
  | ok r =>
    obtain ⟨lexeme, rest⟩ := r
    cases rest with
    | nil => simp [bind, Except.bind, pure, Except.pure]
    | cons ch tail =>
      by_cases hcolon : ch = ':'
      · have hlabels := readLabels_panic_iff u tail
        cases hread : u.readLabels tail <;> simp_all [bind, Except.bind, pure, Except.pure]
      · simp [bind, Except.bind, hcolon, pure, Except.pure]
        split_ifs <;> simp

theorem parseParts_panic_iff (u : Unicode) (tsv : Tsvector) (runes : List Char) :
    u.parseParts tsv runes = .error .panic ↔ LongPosition u runes := by
  fun_induction Unicode.parseParts u tsv runes with
  | case1 =>
    rw [longPosition_iff]
    simp [Unicode.readTsvPart, Unicode.readLexeme, readQuotedString, bind, Except.bind]
  | case2 tsv runes _ e hpart =>
    have hpanic := readTsvPart_panic_iff u runes
    rw [longPosition_iff]
    grind
  | case3 tsv runes _ part left hpart ih =>
    have hpanic := readTsvPart_panic_iff u runes
    rw [longPosition_iff]
    grind

/-- **When `ParseTsvector` panics**: exactly at a position above the greatest `int` with no error before. -/
theorem parseTsvector_panics_iff (u : Unicode) (str : GoString) :
    u.parseTsvector str = .error .panic ↔ LongPosition u (Unicode.trimSpace (decode str)) := by
  rw [← parseParts_panic_iff u .empty, Unicode.parseTsvector]
  cases u.parseParts .empty (Unicode.trimSpace (decode str)) with
  | ok v => simp [Except.mapError]
  | error e => cases e <;> simp [Except.mapError, Failure.at]

theorem parseTsvector_long_position :
    Unicode.ascii.parseTsvector (.ofString "a:9223372036854775808") = .error .panic := by decide +kernel

/-! ## Texts -/

namespace Tsvector

/-- The position after the last one, and one more if there is any. -/
def nextPos (v : Tsvector) : Int :=
  let nextPos := v.entries.foldl (fun n e => e.2.entries.foldl (fun n l => if n ≤ l.1 then l.1 + 1 else n) n) 1
  if 1 < nextPos then nextPos + 1 else nextPos

/-- One lexeme of `AddText`: the vector, and the position of the next. -/
def addLexeme (weight : TsvectorWeight) (vp : Tsvector × Int) (lexeme : GoString) : Tsvector × Int :=
  (vp.1.addLabels lexeme [(vp.2, weight)], vp.2 + 1)

def addText (u : Unicode) (v : Tsvector) (text : GoString) (weight : TsvectorWeight) : Tsvector :=
  ((u.tokenizeFlat text).foldl (addLexeme weight) (v, v.nextPos)).1

end Tsvector

end BitAgent.Fts
