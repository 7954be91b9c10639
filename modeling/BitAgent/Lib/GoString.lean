/-
# Lib.GoString — Go strings: bytes, runes and separators

A Go string is any sequence of bytes. `runes` decodes well-formed UTF-8 (RFC 3629) and is `none` for every other
string, so `validString` is `utf8.ValidString`; `decodeRune` is one step of a `range` loop. `strings.Join` and
`strings.Split` are `List.intercalate` and `List.splitOn`; `hexEncode` and `hexDecode` are those of `encoding/hex`.
-/
import Mathlib.Tactic.Common

namespace BitAgent.Lib

open List

abbrev GoString := List UInt8

namespace GoString

def ofString (s : String) : GoString := s.toList.flatMap String.utf8EncodeChar

/-! ## Runes -/

/-- `lo ≤ b ≤ hi`. -/
def between (lo hi b : UInt8) : Bool := decide (lo ≤ b) && decide (b ≤ hi)

def tail (b : UInt8) : Nat := b.toNat - 0x80
def secondMin (a : UInt8) : UInt8 := if a = 0xE0 then 0xA0 else if a = 0xF0 then 0x90 else 0x80
def secondMax (a : UInt8) : UInt8 := if a = 0xED then 0x9F else if a = 0xF4 then 0x8F else 0xBF

/-- The code point at the front of a string and the bytes after it. -/
def decodeRune : GoString → Option (Nat × GoString)
  | [] => none
  | a :: s =>
    if a < 0x80 then some (a.toNat, s)
    else if between 0xC2 0xDF a then
      match s with
      | b :: s => if between 0x80 0xBF b then some ((a.toNat - 0xC0) * 64 + tail b, s) else none
      | _ => none
    else if between 0xE0 0xEF a then
      match s with
      | b :: c :: s =>
        if between (secondMin a) (secondMax a) b && between 0x80 0xBF c then
          some (((a.toNat - 0xE0) * 64 + tail b) * 64 + tail c, s)
        else none
      | _ => none
    else if between 0xF0 0xF4 a then
      match s with
      | b :: c :: d :: s =>
        if between (secondMin a) (secondMax a) b && between 0x80 0xBF c && between 0x80 0xBF d then
          some ((((a.toNat - 0xF0) * 64 + tail b) * 64 + tail c) * 64 + tail d, s)
        else none
      | _ => none
    else none

/-- The code points of a string of at most `n` bytes. -/
def runesUpTo : Nat → GoString → Option (List Nat)
  | _, [] => some []
  | 0, _ :: _ => none
  | n + 1, a :: s =>
    match decodeRune (a :: s) with
    | none => none
    | some (r, rest) => (runesUpTo n rest).map (r :: ·)

def runes (s : GoString) : Option (List Nat) := runesUpTo s.length s
def validString (s : GoString) : Bool := (runes s).isSome

variable {s : GoString}

theorem decodeRune_consumes {rest : GoString} {r : Nat} (h : decodeRune s = some (r, rest)) :
    ∃ used, s = used ++ rest ∧ ((∃ a : UInt8, used = [a] ∧ r = a.toNat) ∨ ∀ b ∈ used, (0x80 : UInt8) ≤ b) := by
  have hhigh : ∀ {lo hi b : UInt8}, (0x80 : UInt8) ≤ lo → between lo hi b = true →
      (0x80 : UInt8) ≤ b := by grind [between]
  have hsecond : ∀ a : UInt8, (0x80 : UInt8) ≤ secondMin a := by
    intro a
    unfold secondMin
    split_ifs <;> decide
  revert h
  fun_cases decodeRune s with
  | case1 => rintro ⟨⟩
  | case2 a s ha => grind
  | case3 a _ ha b s hb => grind
  | case6 a _ _ ha b c s hbc =>
    intro h
    obtain ⟨-, rfl⟩ := Prod.mk.inj (Option.some.inj h)
    rw [Bool.and_eq_true] at hbc
    refine ⟨[a, b, c], rfl, .inr ?_⟩
    grind
  | case9 a _ _ _ ha b c d s hbcd =>
    intro h
    obtain ⟨-, rfl⟩ := Prod.mk.inj (Option.some.inj h)
    rw [Bool.and_eq_true, Bool.and_eq_true] at hbcd
    refine ⟨[a, b, c, d], rfl, .inr ?_⟩
    grind
  | _ => rintro ⟨⟩

theorem mem_runesUpTo {n : Nat} {rs : List Nat} (h : runesUpTo n s = some rs) {b : UInt8} (hb : b < 0x80)
    (hmem : b ∈ s) : b.toNat ∈ rs := by
  -- along the decoding: the byte is the rune that is decoded now, or in the rest
  fun_induction runesUpTo n s generalizing rs with
  | case1 => cases hmem
  | case2 => cases h
  | case3 => cases h
  | case4 n a s r rest hdec ih => grind [Option.map_eq_some_iff, decodeRune_consumes]

theorem mem_runes {rs : List Nat} (h : runes s = some rs) {b : UInt8} (hb : b < 0x80) (hmem : b ∈ s) : b.toNat ∈ rs :=
  mem_runesUpTo h hb hmem

/-! ## Separators -/

/-- `strings.ReplaceAll` with a text of one character in the place of `old`. -/
def replaceAll {α : Type} [DecidableEq α] (old : α) (new : List α) (s : List α) : List α :=
  s.flatMap fun x => if x = old then new else [x]

variable {α : Type} {parts : List (List α)}

theorem splitOn_intercalate_flatMap [BEq α] [LawfulBEq α] (x : α) (h : parts ≠ []) :
    ([x].intercalate parts).splitOn x = parts.flatMap (List.splitOn x) := by
  induction parts with
  | nil => exact absurd rfl h
  | cons part rest ih =>
    cases rest with
    | nil => simp
    | cons next rest => grind [intercalate_cons_cons, splitOn_append_cons_self]

theorem mem_intercalate {x c : α} (h : c ∈ [x].intercalate parts) :
    c = x ∨ ∃ part ∈ parts, c ∈ part := by
  induction parts with
  | nil => cases h
  | cons part rest ih =>
    cases rest with
    | nil => grind [intercalate_singleton]
    | cons next rest => grind [intercalate_cons_cons]

variable {sep : α}

theorem intercalate_concat (hne : parts ≠ []) (part : List α) :
    [sep].intercalate (parts ++ [part]) = [sep].intercalate parts ++ sep :: part := by
  induction parts with
  | nil => exact absurd rfl hne
  | cons first rest ih =>
    cases rest with
    | nil => simp
    | cons next rest => grind [intercalate_cons_cons]

theorem infix_append_cons_iff {w a b : List α} (hne : w ≠ []) (hw : sep ∉ w) :
    w <:+: a ++ sep :: b ↔ w <:+: a ∨ w <:+: b := by
  constructor
  · rintro ⟨s, t, h⟩
    rw [append_assoc] at h
    rcases append_eq_append_iff.mp h with ⟨a', rfl, hwt⟩ | ⟨s', rfl, hb⟩
    · -- the piece starts left of the separator, so it ends there
      rcases append_eq_append_iff.mp hwt with ⟨c, rfl, -⟩ | ⟨c, rfl, hc⟩
      · exact .inl ⟨s, c, append_assoc _ _ _⟩
      · cases c with
        | nil => grind
        | cons x c => grind
    · cases s' with
      | nil =>
        obtain ⟨x, w, rfl⟩ := exists_cons_of_ne_nil hne
        grind
      | cons x s' => grind
  · rintro (⟨s, t, rfl⟩ | ⟨s, t, rfl⟩)
    · exact ⟨s, t ++ sep :: b, by simp⟩
    · exact ⟨a ++ sep :: s, t, by simp⟩

theorem infix_intercalate_iff {w : List α} (hne : w ≠ []) (hw : sep ∉ w) (parts : List (List α)) :
    w <:+: [sep].intercalate parts ↔ ∃ part ∈ parts, w <:+: part := by
  induction parts with
  | nil =>
    refine ⟨fun h => absurd (infix_nil.mp h) hne, ?_⟩
    rintro ⟨part, hpart, -⟩
    cases hpart
  | cons part parts ih =>
    cases parts with
    | nil => simp
    | cons next parts => grind [intercalate_cons_cons, infix_append_cons_iff]

/-! ## Hexadecimal text -/

def hexChar (n : Nat) : Char := Char.ofNat (if n < 10 then 0x30 + n else 0x61 + (n - 10))

def hexValue (c : Char) : Option Nat :=
  if 0x30 ≤ c.toNat ∧ c.toNat ≤ 0x39 then some (c.toNat - 0x30)
  else if 0x61 ≤ c.toNat ∧ c.toNat ≤ 0x66 then some (c.toNat - 0x61 + 10)
  else if 0x41 ≤ c.toNat ∧ c.toNat ≤ 0x46 then some (c.toNat - 0x41 + 10)
  else none

/-- `hex.EncodeToString`. -/
def hexEncode (s : GoString) : List Char := s.flatMap fun b => [hexChar (b.toNat / 16), hexChar (b.toNat % 16)]

/-- `hex.DecodeString`. -/
def hexDecode : List Char → Option GoString
  | [] => some []
  | [_] => none
  | hi :: lo :: rest => do
      let hi ← hexValue hi
      let lo ← hexValue lo
      let bytes ← hexDecode rest
      return UInt8.ofNat (hi * 16 + lo) :: bytes

theorem hexValue_hexChar : ∀ n < 16, hexValue (hexChar n) = some n := by decide

theorem hexDecode_hexEncode (s : GoString) : hexDecode (hexEncode s) = some s := by
  induction s with
  | nil => rfl
  | cons b s ih =>
    have hb : b.toNat < 256 := b.toNat_lt
    show hexDecode (hexChar (b.toNat / 16) :: hexChar (b.toNat % 16) :: hexEncode s) = _
    grind [hexDecode, hexValue_hexChar, UInt8.ofNat_toNat]

end GoString

end BitAgent.Lib
