/-
# Catalogueguard.Tags — tags and categories that protect a torrent

`internal/catalogueguard/tags.go`: tag families, read after trimming and lower-casing, alone or qualified by a
separator and more text. Tags are compared with ASCII words only, so `toLower` need only know which characters
become ASCII letters: the upper-case ones, the Kelvin sign and the dotted capital I.
-/
import Mathlib.Data.List.DropRight

namespace BitAgent.Catalogueguard

open List

/-! ## Texts -/

/-- The characters of `l` without those of `p` at both ends: `btrim`. -/
def trimBy (p : Char → Bool) (l : List Char) : List Char := (l.dropWhile p).rdropWhile p

def tagWhitespace : List Char :=
  ['\t', '\n', '\x0b', '\x0c', '\r', ' ', '\u0085', '\u00a0', '\u1680', '\u2000', '\u2001',
   '\u2002', '\u2003', '\u2004', '\u2005', '\u2006', '\u2007', '\u2008', '\u2009', '\u200a',
   '\u2028', '\u2029', '\u202f', '\u205f', '\u3000']

def trimSpace (s : String) : List Char := trimBy (fun c => decide (c ∈ tagWhitespace)) s.toList

/-- The SQL function `trim`, which trims the space alone. -/
def sqlTrim (s : String) : List Char := trimBy (fun c => decide (c = ' ')) s.toList

/-- `unicode.ToLower`, exact wherever the result is ASCII. -/
def lowerChar (c : Char) : Char := if c = '\u212a' then 'k' else if c = '\u0130' then 'i' else c.toLower
def toLower (l : List Char) : List Char := l.map lowerChar

theorem trimBy_append {p : Char → Bool} {a x b : List Char} (ha : ∀ c ∈ a, p c = true)
    (hb : ∀ c ∈ b, p c = true) (hhead : ∀ c, x.head? = some c → p c = false)
    (hlast : ∀ c, x.getLast? = some c → p c = false) : trimBy p (a ++ x ++ b) = x := by
  unfold trimBy
  rw [append_assoc, dropWhile_append_of_pos ha]
  cases hx : x with
  | nil =>
    rw [nil_append, dropWhile_eq_nil_iff.mpr hb]
    rfl
  | cons c rest =>
    rw [hx] at hhead hlast
    rw [cons_append, dropWhile_cons_of_neg (by rw [hhead c rfl]; exact Bool.false_ne_true), ← cons_append]
    have hdrop : ∀ b : List Char, (∀ d ∈ b, p d = true) →
        ((c :: rest) ++ b).rdropWhile p = (c :: rest).rdropWhile p := by
      intro b hb
      induction b using List.reverseRecOn with
      | nil => rw [append_nil]
      | append_singleton b d ih => grind [rdropWhile_concat_pos]
    rw [hdrop b hb, rdropWhile_eq_self_iff]
    intro hne
    rw [hlast _ (List.getLast?_eq_some_getLast hne)]
    exact Bool.false_ne_true

theorem trimBy_split (p : Char → Bool) (l : List Char) : ∃ a b, l = a ++ trimBy p l ++ b ∧
    (∀ c ∈ a, p c = true) ∧ ∀ c ∈ b, p c = true := by
  refine ⟨l.takeWhile p, (l.dropWhile p).rtakeWhile p, ?_, ?_, ?_⟩
  · grind [trimBy, rdropWhile_append_rtakeWhile, takeWhile_append_dropWhile]
  · intro c hc
    exact mem_takeWhile_imp hc
  · intro c hc
    exact mem_rtakeWhile_imp hc

theorem trimSpace_eq_sqlTrim {s : String} (hhead : ∀ c, (sqlTrim s).head? = some c → c ∉ tagWhitespace)
    (hlast : ∀ c, (sqlTrim s).getLast? = some c → c ∉ tagWhitespace) : trimSpace s = sqlTrim s := by
  obtain ⟨a, b, hsplit, ha, hb⟩ := trimBy_split (fun c => decide (c = ' ')) s.toList
  have hspace : ∀ c : Char, decide (c = ' ') = true → decide (c ∈ tagWhitespace) = true := by
    intro c hc
    rw [of_decide_eq_true hc]
    decide
  unfold trimSpace
  rw [hsplit]
  refine trimBy_append (fun c hc => hspace c (ha c hc)) (fun c hc => hspace c (hb c hc)) ?_ ?_
  · intro c hc
    exact decide_eq_false (hhead c hc)
  · intro c hc
    exact decide_eq_false (hlast c hc)

/-! ## Tag families -/

def tagSeparators : List Char := [':', '/', '-', '_']

/-- `qualified`: `name` is the word itself, or the word, a separator and anything. -/
def qualified (name word : List Char) : Bool :=
  decide (name = word) || (word.isPrefixOf name && (name[word.length]?).any fun c => decide (c ∈ tagSeparators))

def protectedTag (name : String) (includeWanted : Bool) : Bool :=
  ["manual", "reference", "bitgrab", "wanted"].any fun word =>
    (decide (word ≠ "wanted") || includeWanted) && qualified (toLower (trimSpace name)) word.toList

/-- `PrivacyTag`, which is also what `PrivacyTagSQL` selects. -/
def privacyTag (name : String) : Bool := qualified (toLower (trimSpace name)) "bitgrab".toList

theorem protectedTag_of_privacyTag {name : String} (h : privacyTag name = true)
    (includeWanted : Bool) : protectedTag name includeWanted = true := by
  have hfamily : "bitgrab" ∈ ["manual", "reference", "bitgrab", "wanted"] := by decide
  refine any_eq_true.mpr ⟨"bitgrab", hfamily, ?_⟩
  unfold privacyTag at h
  rw [h]
  rfl

/-- The predicate of `QBPrivacySQL` under the database's `lower`; source and category are trimmed as by
`strings.TrimSpace`. -/
def qbPrivacySQL (lower : List Char → List Char) (source category : String) : Bool :=
  decide (lower (trimSpace source) = "qbittorrent".toList) &&
    decide (lower (trimSpace category) ∈ ["private".toList, "bitgrab".toList])

example : protectedTag " Wanted:arr " true = true ∧ protectedTag " Wanted:arr " false = false := by decide

end BitAgent.Catalogueguard
