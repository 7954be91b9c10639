/-
# Csamblocklist.Feed — reading a community feed

`fetchFeed` and `parseFeed` of `internal/csamblocklist/feed.go`. A feed should be taken whole or refused, but the
size is checked as the bytes up to one above the limit and as the lines of the scanner, which strips a carriage
return and gives the last line a newline; it fails at a line beyond its buffer of 1024 bytes.
`fetchFeed_correct_iff` says when the answer is right. `strings.TrimSpace` is a parameter.
-/
import Mathlib
import BitAgent.Lib.GoString

namespace BitAgent.Csamblocklist

open Lib List

/-! ## Lines -/

def newline : UInt8 := 0x0A
def carriageReturn : UInt8 := 0x0D

structure Line where
  content : GoString
  terminated : Bool

def linesOf (body : GoString) : List Line :=
  let parts := body.splitOn newline
  parts.dropLast.map (fun part => { content := part, terminated := true }) ++
    (parts.getLast?.filter (· ≠ [])).toList.map fun part => { content := part, terminated := false }

def dropCR (line : GoString) : GoString := if line.getLast? = some carriageReturn then line.dropLast else line

/-- `bufio.ErrTooLong`: the buffer is full before the line ends, unless the end comes with the last bytes. -/
def Line.tooLong (eofWithData : Bool) (l : Line) : Bool :=
  if l.terminated then decide (1024 ≤ l.content.length)
  else decide (1024 < l.content.length) || (decide (l.content.length = 1024) && !eofWithData)

/-! ## The loop -/

/-- `ParseDoubleHashHex` of a trimmed text: 64 lowercase hexadecimal digits. -/
def parseDoubleHashHex (s : GoString) : Option GoString :=
  if s.length = 64 ∧ s.all (fun b => GoString.between 0x30 0x39 b || GoString.between 0x61 0x66 b) then some s
  else none

inductive Entry where
  | blank
  | malformed
  | hash (digits : GoString)
  deriving DecidableEq

variable (trimSpace : GoString → GoString)

/-- The body of the loop, up to the map of what was seen. -/
def entryOf (line : GoString) : Entry :=
  let s := trimSpace line
  let s := if s.contains 0x23 then trimSpace (s.takeWhile (· ≠ 0x23)) else s
  if s = [] then .blank
  else
    match parseDoubleHashHex (trimSpace s) with
    | some digits => .hash digits
    | none => .malformed

inductive FeedError where
  | scanFeed
  | exceedsMaxSize
  deriving DecidableEq

/-- What a line adds to the hashes and the malformed lines. -/
def Entry.addTo (acc : List GoString × Nat) : Entry → List GoString × Nat
  | .blank => acc
  | .malformed => (acc.1, acc.2 + 1)
  | .hash digits => if digits ∈ acc.1 then acc else (acc.1 ++ [digits], acc.2)

/-- The loop of `parseFeed`, with bytes, hashes and malformed lines so far. -/
def parseLines (eofWithData : Bool) (maxBytes : Nat) :
    List Line → Nat → List GoString × Nat → Except FeedError (List GoString × Nat)
  | [], _, acc => .ok acc
  | l :: rest, totalBytes, acc =>
    if l.tooLong eofWithData then .error .scanFeed
    else
      let line := dropCR l.content
      let totalBytes := totalBytes + line.length + 1
      if totalBytes > maxBytes then .error .exceedsMaxSize
      else parseLines eofWithData maxBytes rest totalBytes ((entryOf trimSpace line).addTo acc)

def parseFeed (eofWithData : Bool) (body : GoString) (maxBytes : Nat) : Except FeedError (List GoString × Nat) :=
  parseLines trimSpace eofWithData maxBytes (linesOf body) 0 ([], 0)

def limitOf (feedMaxBytes : Int64) : Nat := if feedMaxBytes ≤ 0 then 64 * 1024 * 1024 else feedMaxBytes.toInt.toNat

/-- `io.LimitReader(body, limit+1)`; the sum wraps around at the largest limit. -/
def limitReader (body : GoString) (limit : Nat) : GoString := if limit + 1 < 2 ^ 63 then body.take (limit + 1) else []

/-- `fetchFeed`, from a response with a body. -/
def fetchFeed (eofWithData : Bool) (feedMaxBytes : Int64) (body : GoString) : Except FeedError (List GoString × Nat) :=
  parseFeed trimSpace eofWithData (limitReader body (limitOf feedMaxBytes)) (limitOf feedMaxBytes)

/-! ## What the loop returns -/

def hashOf (l : Line) : Option GoString :=
  match entryOf trimSpace (dropCR l.content) with
  | .hash digits => some digits
  | _ => none

/-- The bytes that the loop counts. -/
def recount (ls : List Line) : Nat := (ls.map fun l => (dropCR l.content).length + 1).sum

/-- Exactly the distinct hashes of the lines. -/
def DistinctHashes (ls : List Line) (out : List GoString) : Prop :=
  out.Nodup ∧ ∀ h, h ∈ out ↔ ∃ l ∈ ls, hashOf trimSpace l = some h

variable {trimSpace} {eofWithData : Bool} {acc : List GoString × Nat}

theorem addTo_spec {ls : List Line} (hacc : DistinctHashes trimSpace ls acc.1) (l : Line) :
    DistinctHashes trimSpace (ls ++ [l]) ((entryOf trimSpace (dropCR l.content)).addTo acc).1 := by
  have hlast : ∀ h, (∃ x ∈ ls ++ [l], hashOf trimSpace x = some h) ↔ h ∈ acc.1 ∨ hashOf trimSpace l = some h := by
    intro h
    rw [hacc.2]
    grind
  unfold DistinctHashes
  simp only [hlast]
  have hnodup := hacc.1
  unfold hashOf
  cases entryOf trimSpace (dropCR l.content) with
  | blank => simpa [Entry.addTo] using hnodup
  | malformed => simpa [Entry.addTo] using hnodup
  | hash digits =>
    by_cases hmem : digits ∈ acc.1
    · grind [Entry.addTo]
    · grind [Entry.addTo]

/-- Every line fits into the buffer and the count stays within the limit. -/
def Passes (eofWithData : Bool) (maxBytes : Nat) (ls : List Line) : Prop :=
  (∀ l ∈ ls, l.tooLong eofWithData = false) ∧ recount ls ≤ maxBytes

/-- **The loop** ends in all hashes, or in an error if the feed does not pass. -/
theorem parseLines_spec {maxBytes : Nat} {before ls : List Line} (hacc : DistinctHashes trimSpace before acc.1)
    (hbefore : Passes eofWithData maxBytes before) :
    (Passes eofWithData maxBytes (before ++ ls) →
      ∃ acc', parseLines trimSpace eofWithData maxBytes ls (recount before) acc = .ok acc' ∧
        DistinctHashes trimSpace (before ++ ls) acc'.1) ∧
      (¬ Passes eofWithData maxBytes (before ++ ls) →
        ∃ e, parseLines trimSpace eofWithData maxBytes ls (recount before) acc = .error e) := by
  induction ls generalizing before acc with
  | nil =>
    rw [append_nil]
    exact ⟨fun _ => ⟨acc, rfl, hacc⟩, fun h => absurd hbefore h⟩
  | cons l ls ih =>
    have hcount : recount (before ++ [l]) = recount before + (dropCR l.content).length + 1 := by
      simp [recount, Nat.add_assoc]
    have hmore : recount (before ++ l :: ls) = recount (before ++ [l]) + recount ls := by simp [recount, Nat.add_assoc]
    unfold parseLines
    by_cases hlong : l.tooLong eofWithData = true
    · rw [if_pos hlong]
      exact ⟨fun hpass => absurd (hpass.1 l (by simp)) (by simp [hlong]), fun _ => ⟨_, rfl⟩⟩
    rw [if_neg hlong]
    simp only [← hcount]
    by_cases hover : recount (before ++ [l]) > maxBytes
    · rw [if_pos hover]
      exact ⟨fun hpass => absurd hpass.2 (by omega), fun _ => ⟨_, rfl⟩⟩
    rw [if_neg hover, append_cons]
    refine ih (addTo_spec hacc l) ⟨?_, by omega⟩
    grind [Passes]

variable (body : GoString)

theorem parseFeed_spec (maxBytes : Nat) : (Passes eofWithData maxBytes (linesOf body) →
      ∃ acc, parseFeed trimSpace eofWithData body maxBytes = .ok acc ∧ DistinctHashes trimSpace (linesOf body) acc.1) ∧
      (¬ Passes eofWithData maxBytes (linesOf body) → ∃ e, parseFeed trimSpace eofWithData body maxBytes = .error e) :=
  parseLines_spec (show DistinctHashes trimSpace [] _ from ⟨nodup_nil, by simp⟩) ⟨by simp, by simp [recount]⟩

/-! ## The count against the size -/

/-- The lines that end in a carriage return. -/
def returns (body : GoString) : Nat := (linesOf body).countP fun l => decide (l.content.getLast? = some carriageReturn)

/-- One if the last line has no newline. -/
def openEnd (body : GoString) : Nat := if (body.splitOn newline).getLast? = some [] then 0 else 1

theorem length_dropCR (line : GoString) :
    (dropCR line).length + (if line.getLast? = some carriageReturn then 1 else 0) = line.length := by
  grind [dropCR]

theorem recount_returns (ls : List Line) :
    recount ls + ls.countP (fun l => decide (l.content.getLast? = some carriageReturn)) =
      (ls.map fun l => l.content.length + 1).sum := by
  induction ls with
  | nil => rfl
  | cons l ls ih => grind [length_dropCR, recount]

theorem sum_splitOn :
    ((body.splitOn newline).map fun part => part.length + 1).sum = body.length + 1 := by
  induction body with
  | nil => rfl
  | cons b body ih =>
    rw [splitOn_cons_eq_if_modifyHead]
    split_ifs
    · grind
    · obtain ⟨part, rest, hparts⟩ := exists_cons_of_ne_nil (splitOn_ne_nil newline body)
      grind [modifyHead_cons]

/-- **The count is the size, less the carriage returns, and one more for a last line without a newline.** -/
theorem recount_eq : recount (linesOf body) + returns body = body.length + openEnd body := by
  have hsum := sum_splitOn body
  unfold returns
  rw [recount_returns]
  unfold linesOf openEnd
  obtain ⟨parts, last, hparts⟩ : ∃ parts last, body.splitOn newline = parts ++ [last] :=
    ⟨_, _, (dropLast_append_getLast (splitOn_ne_nil newline body)).symm⟩
  rw [hparts] at hsum ⊢
  simp only [map_append, sum_append, map_cons, map_nil, sum_cons, sum_nil] at hsum
  simp only [dropLast_concat, List.getLast?_concat, map_append, map_map, sum_append, Option.some.injEq]
  have hfirst : ((fun l : Line => l.content.length + 1) ∘ fun part => { content := part, terminated := true }) =
      fun part : GoString => part.length + 1 := rfl
  grind

/-! ## When the answer is right -/

/-- The hashes of a body within the limit, and an error for a longer one. -/
def Correct (trimSpace : GoString → GoString) (eofWithData : Bool) (feedMaxBytes : Int64) (body : GoString) : Prop :=
  if body.length ≤ limitOf feedMaxBytes then
    ∃ acc, fetchFeed trimSpace eofWithData feedMaxBytes body = .ok acc ∧ DistinctHashes trimSpace (linesOf body) acc.1
  else ∃ e, fetchFeed trimSpace eofWithData feedMaxBytes body = .error e

/-- Every line fits into the buffer of the scanner. -/
def LinesFit (eofWithData : Bool) (body : GoString) : Prop := ∀ l ∈ linesOf body, l.tooLong eofWithData = false

theorem passes_iff {maxBytes : Nat} {body : GoString} : Passes eofWithData maxBytes (linesOf body) ↔
      LinesFit eofWithData body ∧ body.length + openEnd body ≤ maxBytes + returns body := by
  grind [recount_eq, Passes, LinesFit]

/-- **When a fetched feed is right.** In the count of the loop an open last line is one byte more and each carriage
return one less, so this decides about a body within the limit whose lines fit, and about a longer one. At the largest
`int64` nothing is read. -/
theorem fetchFeed_correct_iff (trimSpace : GoString → GoString) (eofWithData : Bool) (feedMaxBytes : Int64)
    (body : GoString) :
    Correct trimSpace eofWithData feedMaxBytes body ↔
      if body.length ≤ limitOf feedMaxBytes then
        if limitOf feedMaxBytes + 1 < 2 ^ 63 then
          LinesFit eofWithData body ∧ body.length + openEnd body ≤ limitOf feedMaxBytes + returns body
        else ∀ l ∈ linesOf body, hashOf trimSpace l = none
      else
        limitOf feedMaxBytes + 1 < 2 ^ 63 ∧ (¬ LinesFit eofWithData (body.take (limitOf feedMaxBytes + 1)) ∨
            returns (body.take (limitOf feedMaxBytes + 1)) ≤ openEnd (body.take (limitOf feedMaxBytes + 1))) := by
  unfold Correct fetchFeed limitReader
  generalize limitOf feedMaxBytes = limit
  by_cases hsmall : limit + 1 < 2 ^ 63
  · simp only [if_pos hsmall]
    have hspec := @parseFeed_spec trimSpace eofWithData (body.take (limit + 1)) limit
    by_cases hlength : body.length ≤ limit
    · rw [List.take_of_length_le (by omega)] at hspec ⊢
      grind [passes_iff]
    · grind [passes_iff]
  · -- nothing is read
    have hempty : parseFeed trimSpace eofWithData [] limit = .ok ([], 0) := rfl
    simp only [if_neg hsmall, hempty]
    split_ifs with hlength
    · simp [DistinctHashes, Option.eq_none_iff_forall_not_mem]
      grind
    · exact iff_of_false (by simp) fun h => hsmall h.1

def trimBlanks (s : GoString) : GoString := ((s.dropWhile (· = 0x20)).reverse.dropWhile (· = 0x20)).reverse

/-- Three lines with carriage returns, seven bytes over the limit: no hashes, no error. -/
theorem long_feed_cut_silently : (GoString.ofString "#ab\r\n#cd\r\n#ef\r\n").length = 15 ∧
      fetchFeed trimBlanks false 8 (GoString.ofString "#ab\r\n#cd\r\n#ef\r\n") = .ok ([], 0) := by
  decide

end BitAgent.Csamblocklist
