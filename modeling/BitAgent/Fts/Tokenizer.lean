/-
# Fts.Tokenizer — from a text to lexemes

`internal/database/fts/tokenizer.go`. A word is a run of letters and digits, lower-cased; a character beyond ASCII is
replaced by its transliteration, and from U+2000 on is a word of its own. Words with nothing between them but
characters that vanish form a phrase. The tables are a parameter (`Unicode`); no lexeme is empty or has a backslash,
whatever they hold (`lexeme_of_mem_tokenize`).
-/
import BitAgent.Catalogueguard.Tags
import BitAgent.Lib.CharClasses
import BitAgent.Lib.Utf8

namespace BitAgent.Fts

open Lib Lib.GoString List
open Lib.Words (forall_ascii)
open Catalogueguard (trimBy tagWhitespace)

/-! ## Characters -/

/-- The character tables: `unicode`, and the sections of `go-unidecode/table`. -/
structure Unicode extends CharClasses where
  tables : Nat → Option (List (List Char))

def Unicode.ascii : Unicode where
  toCharClasses := .ascii
  tables _ := none

namespace Unicode

variable (u : Unicode)

def isWordChar (c : Char) : Bool := u.isLetter c || u.isDigit c
def trimSpace (l : List Char) : List Char := trimBy (fun c => decide (c ∈ tagWhitespace)) l

/-! ## Words and phrases -/

/-- The closure `breakWord`: the phrase after it. The lexeme is empty then. -/
def breakWord (phrase : List GoString) (lexeme : List Char) : List GoString :=
  if lexeme = [] then phrase else phrase ++ [encode lexeme]

def tableEntry (ch : Char) : Option (List Char) := do
  let tb ← u.tables (ch.toNat / 256)
  tb[ch.toNat % 256]?

def readWordChar (phrase : List GoString) (lexeme : List Char) (ch : Char) : List GoString × List Char :=
  let ch := u.toLower ch
  if ch.toNat < 0x7F then (phrase, lexeme ++ [ch])
  else
    let isNonBreakingLang : Bool := decide (0x1FFF < ch.toNat)
    let phrase := if isNonBreakingLang then breakWord phrase lexeme else phrase
    let lexeme := if isNonBreakingLang then [] else lexeme
    match u.tableEntry ch with
    | none => (phrase, lexeme)
    | some subst =>
      let subst := replaceAll '\'' "_sq_".toList subst
      let subst := replaceAll '\\' "_bs_".toList subst
      let subst := trimSpace subst
      let lexeme := lexeme ++ subst
      if isNonBreakingLang || decide (subst = []) || decide (subst.getLast? = some ' ') then
        (breakWord phrase lexeme, [])
      else (phrase, lexeme)

/-- `readPhrase`: the phrase, and the runes that are left. -/
def readPhrase : List GoString → List Char → List Char → List GoString × List Char
  | phrase, lexeme, [] => (breakWord phrase lexeme, [])
  | phrase, lexeme, ch :: rest =>
    if u.isWordChar ch then readPhrase (u.readWordChar phrase lexeme ch).1 (u.readWordChar phrase lexeme ch).2 rest
    else
      let phrase := breakWord phrase lexeme
      if phrase ≠ [] then (phrase, ch :: rest) else readPhrase [] [] rest

variable {phrase : List GoString} {lexeme runes : List Char}

theorem readPhrase_length :
    (u.readPhrase phrase lexeme runes).2.length ≤ runes.length := by
  induction runes generalizing phrase lexeme with
  | nil => exact Nat.le_refl _
  | cons ch rest ih => grind [readPhrase]

theorem readPhrase_length_lt (h : (u.readPhrase [] [] runes).1 ≠ []) :
    (u.readPhrase [] [] runes).2.length < runes.length := by
  cases runes with
  | nil => exact absurd rfl h
  | cons ch rest =>
    simp only [readPhrase]
    split_ifs with _ hne
    · exact Nat.lt_succ_of_le u.readPhrase_length
    · exact absurd rfl hne
    · exact Nat.lt_succ_of_le u.readPhrase_length

/-- The loop of `Tokenize`. -/
def tokenizeRunes (runes : List Char) : List (List GoString) :=
  if _ : (u.readPhrase [] [] runes).1 = [] then []
  else (u.readPhrase [] [] runes).1 :: tokenizeRunes (u.readPhrase [] [] runes).2
termination_by runes.length
decreasing_by exact u.readPhrase_length_lt ‹_›

def tokenize (str : GoString) : List (List GoString) := u.tokenizeRunes (decode str)
def tokenizeFlat (str : GoString) : List GoString := (u.tokenize str).flatten

/-! ## Lexemes -/

/-- A lexeme: not empty, and without a backslash. -/
def Lexeme (word : GoString) : Prop := word ≠ [] ∧ (0x5C : UInt8) ∉ word

/-- The state of `readPhrase`: lexemes, and characters of a lexeme. -/
def Lexemes (phrase : List GoString) (lexeme : List Char) : Prop := (∀ w ∈ phrase, Lexeme w) ∧ '\\' ∉ lexeme

theorem Lexemes.breakWord (h : Lexemes phrase lexeme) :
    ∀ w ∈ Unicode.breakWord phrase lexeme, Lexeme w := by
  unfold Unicode.breakWord
  split_ifs with hempty
  · exact h.1
  · intro w hw
    rcases mem_append.mp hw with hold | hnew
    · exact h.1 w hold
    · rw [mem_singleton.mp hnew]
      refine ⟨fun hnil => hempty (encode_injective hnil), fun hmem => h.2 ?_⟩
      have hchar := mem_of_ascii_mem_encode (by decide) hmem
      exact hchar

theorem not_mem_replaceAll {old : Char} {new l : List Char} (hnew : old ∉ new) : old ∉ replaceAll old new l := by
  grind [replaceAll]

theorem mem_of_mem_trimSpace {c : Char} {l : List Char} (h : c ∈ trimSpace l) : c ∈ l := by
  grind [trimSpace, trimBy, dropWhile_suffix, rdropWhile_prefix]

theorem Lexemes.readWordChar (h : Lexemes phrase lexeme) {ch : Char} (hword : u.isWordChar ch = true) :
    Lexemes (u.readWordChar phrase lexeme ch).1 (u.readWordChar phrase lexeme ch).2 := by
  have hlower : u.isWordChar (u.toLower ch) = true := u.word_toLower ch hword
  simp only [Unicode.readWordChar]
  generalize u.toLower ch = c at hlower ⊢
  by_cases hascii : c.toNat < 0x7F
  · rw [if_pos hascii]
    refine ⟨h.1, fun hmem => ?_⟩
    rcases mem_append.mp hmem with hold | hnew
    · exact h.2 hold
    · -- a backslash is no letter and no digit
      obtain rfl := mem_singleton.mp hnew
      unfold Unicode.isWordChar at hlower
      rw [u.isLetter_ascii _ (by decide), u.isDigit_ascii _ (by decide)] at hlower
      exact absurd hlower (by decide)
  · rw [if_neg hascii]
    have hbroken : Lexemes (if decide (0x1FFF < c.toNat) = true then Unicode.breakWord phrase lexeme else phrase)
        (if decide (0x1FFF < c.toNat) = true then [] else lexeme) := by
      split_ifs
      · exact ⟨h.breakWord, not_mem_nil⟩
      · exact h
    revert hbroken
    generalize (if decide (0x1FFF < c.toNat) = true then Unicode.breakWord phrase lexeme else phrase) = phrase'
    generalize (if decide (0x1FFF < c.toNat) = true then [] else lexeme) = lexeme'
    intro hbroken
    cases u.tableEntry c with
    | none => exact hbroken
    | some subst =>
      have hsubst : Lexemes phrase' (lexeme' ++
          trimSpace (replaceAll '\\' "_bs_".toList (replaceAll '\'' "_sq_".toList subst))) := by
        refine ⟨hbroken.1, fun hmem => ?_⟩
        rcases mem_append.mp hmem with hold | hnew
        · exact hbroken.2 hold
        · exact not_mem_replaceAll (by decide) (mem_of_mem_trimSpace hnew)
      simp only
      split_ifs
      · exact ⟨hsubst.breakWord, not_mem_nil⟩
      · exact hsubst

theorem Lexemes.readPhrase (h : Lexemes phrase lexeme) :
    ∀ w ∈ (u.readPhrase phrase lexeme runes).1, Lexeme w := by
  induction runes generalizing phrase lexeme with
  | nil => exact h.breakWord
  | cons ch rest ih =>
    simp only [Unicode.readPhrase]
    split_ifs with hword hne
    · exact ih (h.readWordChar u hword)
    · exact h.breakWord
    · exact ih ⟨forall_mem_nil _, not_mem_nil⟩

theorem lexeme_of_mem_tokenize {str : GoString} (h : phrase ∈ u.tokenize str) :
    phrase ≠ [] ∧ ∀ w ∈ phrase, Lexeme w := by
  unfold tokenize at h
  generalize decode str = runes at h
  fun_induction tokenizeRunes u runes with
  | case1 => cases h
  | case2 runes hne ih =>
    rcases mem_cons.mp h with rfl | hrest
    · exact ⟨hne, Lexemes.readPhrase u ⟨forall_mem_nil _, not_mem_nil⟩⟩
    · exact ih hrest

theorem lexeme_of_mem_tokenizeFlat {str w : GoString} (h : w ∈ u.tokenizeFlat str) : Lexeme w := by
  obtain ⟨phrase, hphrase, hw⟩ := mem_flatten.mp h
  exact (u.lexeme_of_mem_tokenize hphrase).2 w hw

end Unicode

end BitAgent.Fts
