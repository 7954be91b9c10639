/-
# Namepolicy.Policy — the release name policy

`internal/namepolicy/policy.go`: whether a release is offered, by its hash and name. `Shared` pieces show that Go and
PostgreSQL read every text of `termPattern` as the same expression (`compile_termPattern`). The tables `unicode.Han`
and `unicode.Cyrillic` are parameters: not empty, and beyond ASCII.
-/
import BitAgent.Catalogueguard.Tags
import BitAgent.Lib.GoString
import BitAgent.Lib.Prelude
import BitAgent.Lib.Regex
import Mathlib.Data.List.Dedup

namespace BitAgent.Namepolicy

open Lib Lib.Regex List
open Catalogueguard (tagWhitespace trimSpace)

/-! ## Unicode tables -/

/-- `unicode.Range16` and `unicode.Range32`: every `stride`-th code point from `lo` to `hi`. -/
structure Range where
  lo : Nat
  hi : Nat
  stride : Nat
  ordered : lo ≤ hi
  step : 0 < stride
  beyondAscii : 0x80 ≤ lo
  /-- No surrogates, and nothing above U+10FFFF. -/
  scalar : hi < 0xD800 ∨ 0xDFFF < lo ∧ hi < 0x110000

structure RangeTable where
  r16 : List Range
  r32 : List Range
  nonempty : r16 ++ r32 ≠ []

def RangeTable.ranges (t : RangeTable) : List Range := t.r16 ++ t.r32

def Range.contains (g : Range) (r : Nat) : Bool :=
  decide (g.lo ≤ r) && decide (r ≤ g.hi) && decide ((r - g.lo) % g.stride = 0)

/-- `unicode.Is`. -/
def unicodeIs (t : RangeTable) (r : Char) : Bool := t.ranges.any fun g => g.contains r.toNat

structure RuneRange where
  lo : Nat
  hi : Nat

def scriptRanges (t : RangeTable) : List RuneRange :=
  t.ranges.flatMap fun g =>
    if g.stride = 1 then [⟨g.lo, g.hi⟩]
    else (List.range ((g.hi - g.lo) / g.stride + 1)).map fun i => ⟨g.lo + i * g.stride, g.lo + i * g.stride⟩

/-! ## Patterns -/

/-- `strings.ReplaceAll(text, "-", "\\-")`. -/
def escapeHyphens (text : List Char) : List Char := text.flatMap fun c => if c = '-' then ['\\', '-'] else [c]
def delimiterChars : List Char := tagWhitespace ++ "._-+:/\\()[]\x7b\x7d!,;=?&'\"|#%@".toList
def separatorChars : List Char := tagWhitespace ++ "._-+".toList
def delimiters : List Char := escapeHyphens (quoteMeta delimiterChars)
def separators : List Char := escapeHyphens (quoteMeta separatorChars)

def letterPattern (r : Char) : List Char :=
  if 'a'.toNat ≤ r.toNat ∧ r.toNat ≤ 'z'.toNat then '[' :: [r, Char.ofNat (r.toNat - 'a'.toNat + 'A'.toNat)] ++ [']']
  else quoteMeta [r]

def wordPattern (w : String) : List Char :=
  ('[' :: separators ++ [']'] ++ ['*']).intercalate (w.toList.map letterPattern)

def termPattern (words : List String) : List Char :=
  ('(' :: ['|'].intercalate [['^'], '[' :: delimiters ++ [']']] ++ [')']) ++
    ('(' :: ['|'].intercalate (words.map wordPattern) ++ [')']) ++
    ('(' :: ['|'].intercalate [['$'], '[' :: delimiters ++ [']']] ++ [')'])

/-! ## The specification -/

structure Term where
  name : String
  pattern : List Char
  strong : Bool

/-- `Specification`, without the two version texts. -/
structure Specification where
  whitespace : List Char
  han : List RuneRange
  cyrillic : List RuneRange
  adultTerms : List Term
  minimumDistinctAdultTerms : Nat
  explicitAdultPairs : List (String × String)

/-- The terms: a name, the words of the pattern, and whether the term is strong. -/
def adultWords : List (String × List String × Bool) :=
  [("fetish", ["fetish", "fetishxxx", "fetishporn", "fetishporno"], true)] ++
  ["blowjob", "gangbang", "bukkake", "cumshot"].map (fun w => (w, [w], true)) ++
  [("gaping_anal", ["gapinganal"], true)] ++
  [("porn", ["porn", "p0rn", "pr0n", "fetishporn", "pornxxx"], false)] ++
  [("porno", ["porno", "fetishporno", "pornoxxx"], false)] ++
  [("xxx", ["xxx", "fetishxxx", "pornxxx", "pornoxxx"], false)] ++
  ["hentai", "milf", "anal", "adult", "nsfw", "hardcore"].map (fun w => (w, [w], false)) ++
  [("sex", ["sex", "s3x"], false)]

section Tables

variable (han cyrillic : RangeTable)

def specification : Specification where
  whitespace := tagWhitespace
  han := scriptRanges han
  cyrillic := scriptRanges cyrillic
  adultTerms := adultWords.map fun t => ⟨t.1, termPattern t.2.1, t.2.2⟩
  minimumDistinctAdultTerms := 2
  explicitAdultPairs := [("porn", "xxx"), ("porno", "xxx")]

/-! ## The policy -/

structure ID where
  bytes : GoString
  length : bytes.length = 20
  deriving DecidableEq

def parseID (str : String) : Option ID :=
  let digits := if ['0', 'x'].isPrefixOf str.toList then str.toList.drop 2 else str.toList
  match GoString.hexDecode digits with
  | none => none
  | some bytes => if h : bytes.length = 20 then some ⟨bytes, h⟩ else none

def ID.string (id : ID) : List Char := GoString.hexEncode id.bytes

structure Config where
  enabled : Bool
  excludedInfoHashes : List String := []
  internalCheckToken : String := ""

def Config.validate (c : Config) : Except String Unit := do
  reject (decide (c.excludedInfoHashes.length > 4096)) "name policy: excluded hash list exceeds bound"
  c.excludedInfoHashes.forM fun h => reject (parseID h).isNone "name policy: invalid excluded info hash"
  reject (decide (c.internalCheckToken ≠ "") &&
      (decide (c.internalCheckToken.utf8ByteSize < 32) || decide (c.internalCheckToken.utf8ByteSize > 256)))
    "name policy: internal credential must contain 32..256 bytes"

/-- `Policy`. The keys of the map `excluded` are a list without duplicates. -/
structure Policy where
  enabled : Bool
  excluded : List ID
  excludedHashes : List ID
  terms : List Regex
  strong : List Bool
  termNames : List String
  explicitPairs : List (String × String)

/-- `New`; a pattern that does not compile is a panic. -/
def new (c : Config) : Except String Policy := do
  c.validate
  let excluded := (c.excludedInfoHashes.filterMap parseID).dedup
  let spec := specification han cyrillic
  match spec.adultTerms.mapM fun t => compile .go t.pattern with
  | none => .error "panic: regexp: Compile"
  | some terms => return {
      enabled := c.enabled
      excluded := excluded
      excludedHashes := excluded.mergeSort fun i j => decide (String.ofList i.string ≤ String.ofList j.string)
      terms := terms
      strong := spec.adultTerms.map Term.strong
      termNames := spec.adultTerms.map Term.name
      explicitPairs := spec.explicitAdultPairs }

/-- The `Reason` of a decision of `Evaluate`. -/
inductive Reason
  | disabled
  | allowed
  | ownerHash
  | missingName
  | han
  | cyrillic
  | adultComposite

/-- `Decision`, without its version. -/
structure Decision where
  eligible : Bool
  reason : Reason

def Policy.excludesHash (p : Policy) (h : ID) : Bool := p.enabled && decide (h ∈ p.excluded)

/-- The counters of `Evaluate`: how many terms match, whether a strong one does, and which. -/
structure Tally where
  count : Nat := 0
  strong : Bool := false
  matched : List String := []

def Tally.add (text : List Char) (t : Tally) (term : Regex × Bool × String) : Tally :=
  if term.1.search text then ⟨t.count + 1, t.strong || term.2.1, term.2.2 :: t.matched⟩ else t

def Policy.tally (p : Policy) (name : String) : Tally :=
  (p.terms.zip (p.strong.zip p.termNames)).foldl (Tally.add name.toList) {}

def Policy.evaluate (p : Policy) (h : ID) (name : String) : Decision :=
  if !p.enabled then ⟨true, .disabled⟩
  else if p.excludesHash h then ⟨false, .ownerHash⟩
  else if trimSpace name = [] then ⟨false, .missingName⟩
  else if name.toList.any (unicodeIs han) then ⟨false, .han⟩
  else if name.toList.any (unicodeIs cyrillic) then ⟨false, .cyrillic⟩
  else
    let t := p.tally name
    let explicitPair := p.explicitPairs.any fun pair => decide (pair.1 ∈ t.matched) && decide (pair.2 ∈ t.matched)
    if (decide (t.count ≥ 2) && t.strong) || explicitPair then ⟨false, .adultComposite⟩
    else ⟨true, .allowed⟩

end Tables

/-! ## Patterns under both engines -/

/-- A character in a bracket expression, as `QuoteMeta` and the escaped hyphen leave it. -/
def quoteItem (c : Char) : Item := if special c ∨ c = '-' then .escaped c else .plain c

theorem written_quoteItem (c : Char) : (quoteItem c).Written := by
  rw [quoteItem]
  split_ifs with h
  · rcases h with h | rfl
    · exact punctuation_of_special h
    · exact show punctuation '-' = true by decide
  · rw [not_or, Bool.not_eq_true] at h
    show ordinary c = true
    have hne : ∀ e, special e = true → c ≠ e := fun e he => ne_of_not_special h.1 he
    simp only [ordinary, Bool.and_eq_true, decide_eq_true_eq]
    exact ⟨⟨⟨⟨hne _ rfl, hne _ rfl⟩, hne _ rfl⟩, hne _ rfl⟩, h.2⟩

theorem escapeHyphens_quoteMeta (chars : List Char) :
    escapeHyphens (quoteMeta chars) = (chars.map quoteItem).flatMap Item.text := by
  rw [escapeHyphens, quoteMeta, flatMap_assoc, flatMap_map]
  refine congrArg (List.flatMap · chars) (funext fun c => ?_)
  rw [quoteItem]
  cases hc : special c with
  | true =>
    have hne : c ≠ '-' := by
      rintro rfl
      exact absurd hc (by decide)
    simp [hne, Item.text]
  | false => grind [Item.text]

def only (c : Char) : Char × Char := (c, c)

theorem shared_chars {chars : List Char} (hne : chars ≠ []) :
    Shared ('[' :: escapeHyphens (quoteMeta chars) ++ [']']) [.cls (chars.map only)] := by
  have hitems : ∀ item ∈ chars.map quoteItem, item.Written := by grind [written_quoteItem]
  have h := shared_bracket (chars.map quoteItem) (fun hnil => hne (map_eq_nil_iff.mp hnil)) hitems
  have hspan : ∀ c, (quoteItem c).span = only c := by
    intro c
    rw [quoteItem]
    split_ifs <;> rfl
  rw [escapeHyphens_quoteMeta]
  rw [map_map, show Item.span ∘ quoteItem = only from funext hspan] at h
  exact h

def letterClass (r : Char) : CharClass :=
  if 'a'.toNat ≤ r.toNat ∧ r.toNat ≤ 'z'.toNat then [only r, only (Char.ofNat (r.toNat - 'a'.toNat + 'A'.toNat))]
  else [only r]

theorem shared_letter (r : Char) : Shared (letterPattern r) [.cls (letterClass r)] := by
  rw [letterPattern, letterClass]
  split_ifs with h
  · have hordinary : ordinary r = true ∧ ordinary (Char.ofNat (r.toNat - 'a'.toNat + 'A'.toNat)) = true := by
      have hall : ∀ n < 123, 97 ≤ n →
          ordinary (Char.ofNat n) = true ∧ ordinary (Char.ofNat (n - 'a'.toNat + 'A'.toNat)) = true := by
        decide
      grind [Char.ofNat_toNat]
    refine shared_bracket [.plain r, .plain (Char.ofNat (r.toNat - 'a'.toNat + 'A'.toNat))]
      (cons_ne_nil _ _) fun item hitem => ?_
    rcases mem_cons.mp hitem with rfl | hitem
    · exact hordinary.1
    · rw [mem_singleton.mp hitem]
      exact hordinary.2
  · exact shared_quoteMeta r

def wordFactors (w : String) : List Regex :=
  [Regex.star (.cls (separatorChars.map only))].intercalate (w.toList.map fun r => [.cls (letterClass r)])

theorem shared_word (w : String) : Shared (wordPattern w) (wordFactors w) := by
  have hsep : Shared ('[' :: separators ++ [']'] ++ ['*']) [.star (.cls (separatorChars.map only))] :=
    (shared_chars (by decide)).star rfl
  have h := shared_intercalate hsep (cons_ne_nil _ _)
    (w.toList.map fun r => (letterPattern r, [.cls (letterClass r)])) (by grind [shared_letter])
  rw [map_map, map_map] at h
  exact h

def termRegex (words : List String) : Regex :=
  seq [anyOf [seq [.bol], seq [.cls (delimiterChars.map only)]], anyOf (words.map fun w => seq (wordFactors w)),
    anyOf [seq [.eol], seq [.cls (delimiterChars.map only)]]]

/-- **One pattern, two engines**: both read the term's text as the same expression. -/
theorem compile_termPattern (d : Dialect) {words : List String} (hne : words ≠ []) :
    compile d (termPattern words) = some (termRegex words) := by
  have hdelimiters : Shared ('[' :: delimiters ++ [']']) [.cls (delimiterChars.map only)] := shared_chars (by decide)
  have hfirst := shared_group [(['^'], [.bol]), ('[' :: delimiters ++ [']'], [.cls (delimiterChars.map only)])]
    (cons_ne_nil _ _) (by grind [shared_bol])
  have hlast := shared_group [(['$'], [.eol]), ('[' :: delimiters ++ [']'], [.cls (delimiterChars.map only)])]
    (cons_ne_nil _ _) (by grind [shared_eol])
  have hwords := shared_group (words.map fun w => (wordPattern w, wordFactors w))
    (fun hnil => hne (map_eq_nil_iff.mp hnil)) (by grind [shared_word])
  rw [map_map, map_map] at hwords
  exact ((hfirst.append hwords).append hlast).compile d

end BitAgent.Namepolicy
