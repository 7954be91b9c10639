/-
# Fts.TsvectorText — reading a vector that was written

`String` and `ParseTsvector` put together. Quotes inside a lexeme are doubled, and a label ends before the comma, the
space or the end. The lexer reads runes and writes them anew: a lexeme that is not valid UTF-8 comes back changed,
every other vector as it was (`parseTsvector_string_iff`).
-/
import BitAgent.Fts.Tsvector

namespace BitAgent.Fts

open Lib Lib.GoString
open Catalogueguard (trimBy tagWhitespace trimBy_append)

/-! ## The runes of the text -/

namespace Tsvector

def labelRunes (l : Int × TsvectorWeight) : List Char := (toString l.1).toList ++ if l.2 = .d then [] else [l.2.toRune]

def writtenLabels (labels : Labels) : List (Int × TsvectorWeight) :=
  (sortedLabels labels).filter fun l => decide (l.1 ≠ 0)

def labelsRunes (labels : List (Int × TsvectorWeight)) : List Char :=
  if labels = [] then [] else ':' :: [','].intercalate (labels.map labelRunes)

def partRunes (lexeme : List Char) (labels : List (Int × TsvectorWeight)) : List Char :=
  '\'' :: replaceAll '\'' ['\'', '\''] lexeme ++ '\'' :: labelsRunes labels

theorem decode_part (entry : GoString × Labels) :
    decode (part entry) = partRunes (decode entry.1) (writtenLabels entry.2) := by
  have hlabels : ((writtenLabels entry.2).map label).map decode = (writtenLabels entry.2).map labelRunes := by
    rw [List.map_map]
    refine List.map_congr_left fun l _ => ?_
    exact decode_encode (labelRunes l)
  have hquoted : ∀ t, decode ((0x27 :: replaceAll 0x27 [0x27, 0x27] entry.1 ++ [0x27]) ++ t) =
      '\'' :: replaceAll '\'' ['\'', '\''] (decode entry.1) ++ '\'' :: decode t := by
    intro t
    rw [List.append_assoc, List.cons_append, List.singleton_append, decode_cons_ascii (by decide),
      decode_append_ascii _ (by decide), decode_double_ascii (by decide)]
    rfl
  show decode (if (writtenLabels entry.2).map label = [] then quoteLexeme entry.1 true
    else quoteLexeme entry.1 true ++ 0x3A :: [0x2C].intercalate ((writtenLabels entry.2).map label)) = _
  unfold quoteLexeme partRunes labelsRunes
  rw [Bool.true_or, if_pos rfl]
  by_cases hnone : writtenLabels entry.2 = []
  · rw [hnone, List.map_nil, if_pos rfl, if_pos rfl, ← List.append_nil (0x27 :: _ ++ [0x27]), hquoted]
    rfl
  · rw [if_neg (fun h => hnone (List.map_eq_nil_iff.mp h)), if_neg hnone, hquoted, decode_cons_ascii (by decide),
      decode_intercalate_ascii (by decide), hlabels]
    rfl

def sortedEntries (v : Tsvector) : List (GoString × Labels) := v.entries.insertionSort fun e e' => e.1 ≤ e'.1

theorem decode_string (v : Tsvector) : decode v.string =
    [' '].intercalate (v.sortedEntries.map fun e => partRunes (decode e.1) (writtenLabels e.2)) := by
  unfold string
  rw [decode_intercalate_ascii (by decide), List.map_map]
  refine congrArg _ (List.map_congr_left fun e _ => ?_)
  exact decode_part e

end Tsvector

/-! ## Lexemes and labels are read back -/

theorem readQuotedLoop_doubled (q : Char) (str cs rest : List Char) (hrest : rest.head? ≠ some q) :
    readQuotedLoop q str (replaceAll q [q, q] cs ++ q :: rest) = (str ++ cs, rest, true) := by
  induction cs generalizing str with
  | nil =>
    rw [List.append_nil]
    show readQuotedLoop q str (q :: rest) = _
    cases rest with
    | nil => rw [readQuotedLoop, if_pos rfl]
    | cons c rest => grind [readQuotedLoop]
  | cons c cs ih =>
    by_cases hc : c = q
    · subst hc
      rw [replaceAll_cons_self]
      show readQuotedLoop c str (c :: c :: (replaceAll c [c, c] cs ++ c :: rest)) = _
      grind [readQuotedLoop]
    · have hcons : replaceAll q [q, q] (c :: cs) = c :: replaceAll q [q, q] cs := by grind [replaceAll]
      have hread : ∀ rest, readQuotedLoop q str (c :: rest) = readQuotedLoop q (str ++ [c]) rest := by
        intro rest
        conv_lhs => unfold readQuotedLoop
        exact if_neg hc
      grind

/-- After an entry: nothing, or a space and the next entry. -/
def Follows (tail : List Char) : Prop := tail = [] ∨ ∃ t, tail = ' ' :: t ∧ t.head? ≠ some ' '

theorem takeWhile_append_stop {p : Char → Bool} {l t : List Char} (hl : ∀ c ∈ l, p c = true)
    (ht : ∀ c, t.head? = some c → p c = false) :
    (l ++ t).takeWhile p = l ∧ (l ++ t).dropWhile p = t := by
  have hstop : t.takeWhile p = [] ∧ t.dropWhile p = t := by
    cases t with
    | nil => exact ⟨rfl, rfl⟩
    | cons c t => grind [List.takeWhile_cons, List.dropWhile_cons]
  grind [List.takeWhile_append_of_pos, List.dropWhile_append_of_pos]

theorem dropWhile_space {t : List Char} (h : t.head? ≠ some ' ') : t.dropWhile (· = ' ') = t := by
  cases t with
  | nil => rfl
  | cons c t => grind [List.dropWhile_cons_of_neg]

section
variable (u : Unicode)

theorem readWeight_written (w : TsvectorWeight) {t : List Char} (ht : ∀ c, t.head? = some c → u.weight? c = none) :
    u.readWeight ((if w = .d then [] else [w.toRune]) ++ t) = (w, t) := by
  have hascii : ∀ c : Char, c.toNat < 128 → u.toUpper c = c.toUpper := u.toUpper_ascii
  cases w with
  | d =>
    cases t with
    | nil => rfl
    | cons c t => grind [Unicode.readWeight]
  | a => simp [Unicode.readWeight, Unicode.weight?, TsvectorWeight.toRune, hascii 'A' (by decide)]
  | b => simp [Unicode.readWeight, Unicode.weight?, TsvectorWeight.toRune, hascii 'B' (by decide)]
  | c => simp [Unicode.readWeight, Unicode.weight?, TsvectorWeight.toRune, hascii 'C' (by decide)]

theorem weight?_separator {c : Char} (hc : c = ',' ∨ c = ' ') : u.weight? c = none := by
  rcases hc with rfl | rfl
  · unfold Unicode.weight?
    rw [u.toUpper_ascii _ (by decide)]
    rfl
  · unfold Unicode.weight?
    rw [u.toUpper_ascii _ (by decide)]
    rfl

theorem digits_position {p : Int} (hpos : 0 < p) :
    (∀ c ∈ (toString p).toList, isInt c = true) ∧ (toString p).toList ≠ [] ∧
      ((Nat.ofDigitChars 10 (toString p).toList 0 : Nat) : Int) = p := by
  obtain ⟨n, rfl⟩ := Int.eq_ofNat_of_zero_le (Int.le_of_lt hpos)
  have hdigits : (toString (n : Int)).toList = Nat.toDigits 10 n := by
    show (Nat.repr n).toList = _
    exact String.toList_ofList
  rw [hdigits]
  refine ⟨fun c hc => ?_, Nat.toDigits_ne_nil, ?_⟩
  · have hdigit := Nat.isDigit_of_mem_toDigits (by decide) (by decide) hc
    exact hdigit
  · rw [Nat.ofDigitChars_ten_toDigits]

/-- A position that `int` holds. -/
def Position (p : Int) : Prop := 0 < p ∧ p ≤ maxInt

/-- What `readLabels` makes of the text after a label. -/
def readMoreLabels (l : Int × TsvectorWeight) : List Char → Except Failure (List (Int × TsvectorWeight) × List Char)
  | [] => .ok ([l], [])
  | ch :: tail =>
    if ch = ',' then
      match u.readLabels tail with
      | .error e => .error e
      | .ok (labels, left) => .ok (l :: labels, left)
    else .ok ([l], tail.dropWhile (· = ' '))

theorem readLabels_label {l : Int × TsvectorWeight} (hl : Position l.1) {t : List Char}
    (ht : ∀ c, t.head? = some c → c = ',' ∨ c = ' ') :
    u.readLabels (Tsvector.labelRunes l ++ t) = readMoreLabels u l t := by
  obtain ⟨hdigits, hne, hn⟩ := digits_position hl.1
  -- the digits end before the weight, or before `t`
  have hstop : ∀ c, ((if l.2 = .d then [] else [l.2.toRune]) ++ t).head? = some c → isInt c = false := by
    intro c hc
    split_ifs at hc with hd
    · rcases ht c hc with rfl | rfl <;> rfl
    · cases hc
      cases l.2 <;> rfl
  have hrunes : Tsvector.labelRunes l ++ t =
      (toString l.1).toList ++ ((if l.2 = .d then [] else [l.2.toRune]) ++ t) := List.append_assoc _ _ _
  obtain ⟨htake, hdrop⟩ := takeWhile_append_stop hdigits hstop
  have hweight : u.readWeight ((Tsvector.labelRunes l ++ t).dropWhile isInt) = (l.2, t) := by
    grind [readWeight_written, weight?_separator]
  have hfits : ¬ maxInt < Nat.ofDigitChars 10 (toString l.1).toList 0 := by
    have hmax := hl.2
    omega
  rw [← hrunes] at htake
  rw [Unicode.readLabels]
  generalize u.readWeight _ = w at hweight ⊢
  subst hweight
  simp only [htake, if_neg hne, if_neg hfits, hn]
  cases t with
  | nil => rfl
  | cons c tail =>
    rcases ht c rfl with rfl | rfl
    · rfl
    · rfl

variable {ls : List (Int × TsvectorWeight)}

theorem readLabels_written (hne : ls ≠ []) (hls : ∀ l ∈ ls, Position l.1) {tail : List Char} (htail : Follows tail) :
    u.readLabels ([','].intercalate (ls.map Tsvector.labelRunes) ++ tail) = .ok (ls, tail.tail) := by
  induction ls with
  | nil => exact absurd rfl hne
  | cons l ls ih =>
    cases ls with
    | nil =>
      rw [List.map_singleton, List.intercalate_singleton]
      rcases htail with rfl | ⟨t, rfl, ht⟩
      · exact readLabels_label u (hls l List.mem_cons_self) fun c hc => by cases hc
      · rw [readLabels_label u (hls l List.mem_cons_self) ?_]
        · show Except.ok ([l], t.dropWhile (· = ' ')) = _
          rw [dropWhile_space ht]
          rfl
        · grind
    | cons l' ls => grind [List.intercalate_cons_cons, readLabels_label, readMoreLabels]

theorem readTsvPart_written {cs : List Char} (hcs : cs ≠ []) (hls : ∀ l ∈ ls, Position l.1) {tail : List Char}
    (htail : Follows tail) :
    u.readTsvPart (Tsvector.partRunes cs ls ++ tail) = .ok ((encode cs, ls), tail.tail) := by
  -- no quote follows the closing quote
  have hafter : (Tsvector.labelsRunes ls ++ tail).head? ≠ some '\'' := by
    unfold Tsvector.labelsRunes
    split_ifs
    · rcases htail with rfl | ⟨t, rfl, -⟩
      · rintro ⟨⟩
      · rintro ⟨⟩
    · rintro ⟨⟩
  have hlexeme : u.readLexeme (Tsvector.partRunes cs ls ++ tail) =
      .ok (encode cs, Tsvector.labelsRunes ls ++ tail) := by
    have hquote : u.isWordChar '\'' = false := by
      unfold Unicode.isWordChar
      rw [u.isLetter_ascii _ (by decide), u.isDigit_ascii _ (by decide)]
      rfl
    have hloop := readQuotedLoop_doubled '\'' [] cs (Tsvector.labelsRunes ls ++ tail) hafter
    have hne : encode cs ≠ [] := fun h => hcs (encode_injective h)
    grind [Tsvector.partRunes, Unicode.readLexeme, List.takeWhile_cons, readQuotedString]
  unfold Unicode.readTsvPart
  rw [hlexeme]
  show (match Tsvector.labelsRunes ls ++ tail with
    | [] => _
    | ch :: tail => _) = _
  unfold Tsvector.labelsRunes
  split_ifs with hnone
  · subst hnone
    rcases htail with rfl | ⟨t, rfl, ht⟩
    · rfl
    · show Except.ok ((encode cs, []), t.dropWhile (· = ' ')) = _
      rw [dropWhile_space ht]
      rfl
  · show (u.readLabels ([','].intercalate (ls.map Tsvector.labelRunes) ++ tail) >>= _) = _
    rw [readLabels_written u hnone hls htail]
    rfl

end

/-! ## Vectors are read back -/

def entriesRunes (es : List (GoString × Labels)) : List Char :=
  [' '].intercalate (es.map fun e => Tsvector.partRunes (decode e.1) (Tsvector.writtenLabels e.2))

theorem entriesRunes_cons_cons (e e' : GoString × Labels) (es : List (GoString × Labels)) :
    entriesRunes (e :: e' :: es) =
      Tsvector.partRunes (decode e.1) (Tsvector.writtenLabels e.2) ++ ' ' :: entriesRunes (e' :: es) := by
  simp [entriesRunes, List.intercalate_cons_cons]

theorem entriesRunes_singleton (e : GoString × Labels) :
    entriesRunes [e] = Tsvector.partRunes (decode e.1) (Tsvector.writtenLabels e.2) := by
  simp [entriesRunes, List.intercalate_singleton]

theorem head?_entriesRunes (e : GoString × Labels) (es : List (GoString × Labels)) :
    (entriesRunes (e :: es)).head? = some '\'' := by
  cases es with
  | nil =>
    rw [entriesRunes_singleton]
    rfl
  | cons e' es =>
    rw [entriesRunes_cons_cons]
    rfl

def Writable (e : GoString × Labels) : Prop := e.1 ≠ [] ∧ ∀ l ∈ Tsvector.writtenLabels e.2, Position l.1

variable {es : List (GoString × Labels)}

theorem parseParts_written (u : Unicode) (hes : ∀ e ∈ es, Writable e) (tsv : Tsvector) :
    u.parseParts tsv (entriesRunes es) =
      .ok (es.foldl (fun tsv e => tsv.addLabels (encode (decode e.1)) (Tsvector.writtenLabels e.2)) tsv) := by
  induction es generalizing tsv with
  | nil =>
    rw [Unicode.parseParts]
    rfl
  | cons e es ih =>
    obtain ⟨hlexeme, hlabels⟩ := hes e List.mem_cons_self
    have hcs := decode_ne_nil hlexeme
    have hrest := ih (fun e' he' => hes e' (List.mem_cons_of_mem e he'))
      (tsv.addLabels (encode (decode e.1)) (Tsvector.writtenLabels e.2))
    have hne : entriesRunes (e :: es) ≠ [] := by grind [head?_entriesRunes]
    -- the entry, and what is left of the text after it
    have hpart : u.readTsvPart (entriesRunes (e :: es)) =
        .ok ((encode (decode e.1), Tsvector.writtenLabels e.2), entriesRunes es) := by
      cases es with
      | nil =>
        have h := readTsvPart_written u hcs hlabels (.inl rfl)
        rw [List.append_nil] at h
        rw [entriesRunes_singleton]
        exact h
      | cons e' es =>
        rw [entriesRunes_cons_cons]
        refine readTsvPart_written u hcs hlabels (.inr ⟨_, rfl, ?_⟩)
        rw [head?_entriesRunes]
        rintro ⟨⟩
    grind [Unicode.parseParts]

theorem not_space_of_mem_labelsRunes {ls : List (Int × TsvectorWeight)} (hls : ∀ l ∈ ls, Position l.1) {c : Char}
    (hc : c ∈ Tsvector.labelsRunes ls) : c ∉ tagWhitespace := by
  have hdigit : ∀ c : Char, isInt c = true → c ∉ tagWhitespace := by
    intro c hc hspace
    have hall : tagWhitespace.all (fun c => !isInt c) = true := by decide
    grind
  have hlabel : ∀ l ∈ ls, ∀ c ∈ Tsvector.labelRunes l, c ∉ tagWhitespace := by
    intro l hl c hc
    rcases List.mem_append.mp hc with hpos | hweight
    · exact hdigit c ((digits_position (hls l hl).1).1 c hpos)
    · split_ifs at hweight
      · cases hweight
      · rw [List.mem_singleton.mp hweight]
        cases l.2 <;> decide
  unfold Tsvector.labelsRunes at hc
  split_ifs at hc
  · cases hc
  · rcases List.mem_cons.mp hc with rfl | hc
    · decide
    · rcases mem_intercalate hc with rfl | ⟨part, hpart, hc⟩
      · decide
      · grind

theorem trimSpace_entriesRunes (hes : ∀ e ∈ es, Writable e) :
    Unicode.trimSpace (entriesRunes es) = entriesRunes es := by
  have hlast : ∀ c, (entriesRunes es).getLast? = some c → c ∉ tagWhitespace := by
    induction es with
    | nil => rintro c ⟨⟩
    | cons e es ih =>
      cases es with
      | nil =>
        intro c hc
        rw [entriesRunes_singleton, Tsvector.partRunes, List.getLast?_append_cons] at hc
        rcases List.mem_cons.mp (List.mem_of_getLast? hc) with rfl | hin
        · decide
        · exact not_space_of_mem_labelsRunes (hes e List.mem_cons_self).2 hin
      | cons e' es =>
        intro c hc
        have hne : entriesRunes (e' :: es) ≠ [] := by grind [head?_entriesRunes]
        rw [entriesRunes_cons_cons, List.getLast?_append_cons, List.getLast?_cons_of_ne_nil hne] at hc
        exact ih (fun x hx => hes x (List.mem_cons_of_mem e hx)) c hc
  have hhead : ∀ c, (entriesRunes es).head? = some c → c ∉ tagWhitespace := by
    intro c hc
    cases es with
    | nil => cases hc
    | cons e es =>
      rw [head?_entriesRunes] at hc
      cases hc
      decide
  have htrim := trimBy_append (p := fun c => decide (c ∈ tagWhitespace)) (a := []) (x := entriesRunes es) (b := [])
    (List.forall_mem_nil _) (List.forall_mem_nil _) (fun c hc => decide_eq_false (hhead c hc))
    (fun c hc => decide_eq_false (hlast c hc))
  rw [List.nil_append, List.append_nil] at htrim
  exact htrim

theorem foldl_addLabels {es : List (GoString × List (Int × TsvectorWeight))} (hnodup : (es.map Prod.fst).Nodup)
    (tsv : Tsvector) (hnew : ∀ e ∈ es, tsv.lookup e.1 = none) :
    es.foldl (fun tsv e => tsv.addLabels e.1 e.2) tsv =
      (es.map fun e => (e.1, e.2.foldl (fun m l => m.set l.1 l.2) (GoMap.empty : Labels))).foldl
        (fun m e => m.set e.1 e.2) tsv := by
  induction es generalizing tsv with
  | nil => rfl
  | cons e es ih =>
    rw [List.map_cons, List.nodup_cons] at hnodup
    grind [Tsvector.addLabels, GoMap.lookup_set]

namespace Tsvector

/-- The same entries: every lookup gives the same, at both levels. -/
def Same (v v' : Tsvector) : Prop := ∀ lexeme, (v.lookup lexeme).map GoMap.lookup = (v'.lookup lexeme).map GoMap.lookup

/-- No lexeme is empty, and positions are positive `int`s. -/
def Proper (v : Tsvector) : Prop := ∀ e ∈ v.entries, e.1 ≠ [] ∧ ∀ l ∈ e.2.entries, 0 < l.1 ∧ l.1 ≤ maxInt

theorem mem_writtenLabels {labels : Labels} (h : ∀ l ∈ labels.entries, 0 < l.1 ∧ l.1 ≤ maxInt)
    (l : Int × TsvectorWeight) : l ∈ writtenLabels labels ↔ l ∈ labels.entries := by
  grind [writtenLabels, sortedLabels, List.mem_insertionSort]

theorem lookup_writtenLabels {labels : Labels} (h : ∀ l ∈ labels.entries, 0 < l.1 ∧ l.1 ≤ maxInt) :
    GoMap.lookup ((writtenLabels labels).foldl (fun m l => m.set l.1 l.2) (GoMap.empty : Labels)) = labels.lookup := by
  have hnodup : ((writtenLabels labels).map Prod.fst).Nodup := by
    unfold writtenLabels sortedLabels
    refine (List.filter_sublist.map Prod.fst).nodup ?_
    split_ifs
    · exact List.nodup_singleton _
    · exact ((List.perm_insertionSort _ _).map Prod.fst).nodup_iff.mpr labels.nodup
  funext p
  apply Option.ext
  intro w
  rw [GoMap.lookup_foldl_set hnodup, mem_writtenLabels h, ← GoMap.lookup_eq_some_iff]
  refine ⟨fun hw => ?_, .inl⟩
  rcases hw with hmem | ⟨-, hnone⟩
  · exact hmem
  · cases hnone

theorem nodup_sortedEntries (v : Tsvector) : (v.sortedEntries.map Prod.fst).Nodup :=
  ((List.perm_insertionSort _ _).map Prod.fst).nodup_iff.mpr v.nodup

variable {v : Tsvector}

theorem mem_sortedEntries {e : GoString × Labels} : e ∈ v.sortedEntries ↔ e ∈ v.entries := List.mem_insertionSort _

theorem writable_of_proper (hv : v.Proper) : ∀ e ∈ v.sortedEntries, Writable e := by
  intro e he
  obtain ⟨hlexeme, hlabels⟩ := hv e (mem_sortedEntries.mp he)
  exact ⟨hlexeme, fun l hl => hlabels l ((mem_writtenLabels hlabels l).mp hl)⟩

theorem parseTsvector_string (u : Unicode) (hv : v.Proper) :
    u.parseTsvector v.string = .ok ((v.sortedEntries.map fun e => (encode (decode e.1), writtenLabels e.2)).foldl
      (fun tsv e => tsv.addLabels e.1 e.2) .empty) := by
  have hrunes : decode v.string = entriesRunes v.sortedEntries := decode_string v
  unfold Unicode.parseTsvector
  simp only [hrunes, trimSpace_entriesRunes (writable_of_proper hv), parseParts_written u (writable_of_proper hv),
    List.foldl_map]
  rfl

theorem same_of_valid (hv : v.Proper) (hvalid : ∀ e ∈ v.entries, validString e.1 = true) :
    Same ((v.sortedEntries.map fun e => (encode (decode e.1), writtenLabels e.2)).foldl
      (fun tsv e => tsv.addLabels e.1 e.2) .empty) v := by
  -- the lexemes are written as they were
  have hmap : (v.sortedEntries.map fun e => (encode (decode e.1), writtenLabels e.2)) =
      v.sortedEntries.map fun e => (e.1, writtenLabels e.2) := by
    grind [List.map_congr_left, encode_decode_iff, mem_sortedEntries]
  have hkeys : (v.sortedEntries.map fun e => (e.1, writtenLabels e.2)).map Prod.fst = v.sortedEntries.map Prod.fst := by
    rw [List.map_map]
    rfl
  rw [hmap, foldl_addLabels (by rw [hkeys]; exact v.nodup_sortedEntries) _ (fun _ _ => rfl), List.map_map]
  intro lexeme
  have hnodup : ((v.sortedEntries.map ((fun e : GoString × List (Int × TsvectorWeight) =>
    (e.1, e.2.foldl (fun m l => m.set l.1 l.2) (GoMap.empty : Labels))) ∘
      fun e => (e.1, writtenLabels e.2))).map Prod.fst).Nodup := by
    rw [List.map_map]
    exact v.nodup_sortedEntries
  cases hlookup : v.lookup lexeme with
  | some labels =>
    have hmem := GoMap.lookup_eq_some_iff.mp hlookup
    rw [(GoMap.lookup_foldl_set hnodup _ lexeme _).mpr (.inl (List.mem_map_of_mem (mem_sortedEntries.mpr hmem)))]
    exact congrArg some (lookup_writtenLabels (hv _ hmem).2)
  | none =>
    rw [Option.map_none, Option.map_eq_none_iff, Option.eq_none_iff_forall_ne_some]
    intro m hm
    rcases (GoMap.lookup_foldl_set hnodup _ lexeme m).mp hm with hin | ⟨-, hempty⟩
    · obtain ⟨e, he, heq⟩ := List.mem_map.mp hin
      have hkey : e.1 = lexeme := congrArg Prod.fst heq
      have hsome := GoMap.lookup_eq_some_iff.mpr (mem_sortedEntries.mp he)
      rw [hkey, hlookup] at hsome
      cases hsome
    · cases hempty

theorem lookup_foldl_addLabels {es : List (GoString × List (Int × TsvectorWeight))} {tsv : Tsvector}
    {lexeme : GoString} (h : lexeme ∉ es.map Prod.fst) :
    (es.foldl (fun tsv e => tsv.addLabels e.1 e.2) tsv).lookup lexeme = tsv.lookup lexeme := by
  induction es generalizing tsv with
  | nil => rfl
  | cons e es ih => grind [addLabels, GoMap.lookup_set]

end Tsvector

/-- **Round trip.** A vector with non-empty lexemes, positive positions and weights A to D is read back as the same
vector, if and only if all its lexemes are valid UTF-8. -/
theorem parseTsvector_string_iff (u : Unicode) (v : Tsvector) (hv : v.Proper) :
    (∃ v', u.parseTsvector v.string = .ok v' ∧ v'.Same v) ↔ ∀ e ∈ v.entries, validString e.1 = true := by
  rw [Tsvector.parseTsvector_string u hv]
  constructor
  · rintro ⟨v', heq, hsame⟩ e he
    cases heq
    by_contra hinvalid
    -- the lexeme is not among those that were written anew
    have hfresh : e.1 ∉ (v.sortedEntries.map fun e => (encode (decode e.1), Tsvector.writtenLabels e.2)).map
        Prod.fst := by grind [encode_decode_iff, decode_encode]
    have hlookup := hsame e.1
    rw [Tsvector.lookup_foldl_addLabels hfresh, GoMap.lookup_eq_some_iff.mpr he] at hlookup
    cases hlookup
  · grind [Tsvector.same_of_valid]

def oneLexeme (lexeme : GoString) : Tsvector :=
  ⟨[(lexeme, ⟨[(1, .a)], List.nodup_singleton _⟩)], List.nodup_singleton _⟩

theorem oneLexeme_proper {lexeme : GoString} (h : lexeme ≠ []) : (oneLexeme lexeme).Proper := by
  intro e he
  obtain rfl := List.mem_singleton.mp he
  refine ⟨h, fun l hl => ?_⟩
  obtain rfl := List.mem_singleton.mp hl
  exact ⟨by decide, by decide⟩

theorem parseTsvector_string_quotes : (oneLexeme (.ofString "it's: a 'b'")).Proper ∧
      ∃ v', Unicode.ascii.parseTsvector (oneLexeme (.ofString "it's: a 'b'")).string = .ok v' ∧
        v'.Same (oneLexeme (.ofString "it's: a 'b'")) :=
  have hproper : (oneLexeme (.ofString "it's: a 'b'")).Proper := oneLexeme_proper (by decide)
  ⟨hproper, (parseTsvector_string_iff .ascii _ hproper).mpr fun e he => by
    obtain rfl := List.mem_singleton.mp he
    decide⟩

/-- The byte 0xFF comes back as U+FFFD. -/
theorem invalid_lexeme_changed : (oneLexeme [0xFF]).Proper ∧
      Unicode.ascii.parseTsvector (oneLexeme [0xFF]).string = .ok (oneLexeme [0xEF, 0xBF, 0xBD]) ∧
      ¬ (oneLexeme [0xEF, 0xBF, 0xBD]).Same (oneLexeme [0xFF]) := by
  refine ⟨oneLexeme_proper (by decide), by decide +kernel, fun hsame => ?_⟩
  have hlookup := hsame [0xFF]
  cases hlookup

end BitAgent.Fts
