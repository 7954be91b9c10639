/-
# Fts.Phrase — a quoted phrase finds the texts that contain it

`AddText`, `AppQueryToTsquery` and the tokenizer put together. A vector that texts were added to is a tape (`Holds`):
the words of the texts, with a gap between any two. A quoted phrase matches where its words stand side by side on the
tape, so inside one text (`phrase_matches_iff`). Positions are unbounded here: the limits of a stored `tsvector`
(16383 positions, 256 of one lexeme) are not part of the phrase semantics.
-/
import BitAgent.Fts.Tsquery
import BitAgent.Fts.TsvectorText

namespace BitAgent.Fts

open Lib Lib.GoString List
open Lib.Tsquery (Document TextMatches Reads phraseTokens textMatches_phrase_iff not_textMatches_nil)

/-! ## Positions -/

namespace Tsvector

def document (v : Tsvector) : Document :=
  fun lexeme => {p | ∃ labels w, v.lookup lexeme = some labels ∧ labels.lookup p = some w}

theorem not_mem_document_empty (lexeme : GoString) (p : Int) : p ∉ document .empty lexeme := by
  rintro ⟨labels, w, h, -⟩
  cases h

theorem mem_document_addLabels (v : Tsvector) (lexeme : GoString) (pos : Int) (weight : TsvectorWeight)
    (l : GoString) (p : Int) :
    p ∈ (v.addLabels lexeme [(pos, weight)]).document l ↔ p ∈ v.document l ∨ l = lexeme ∧ p = pos := by
  have hlookup : (v.addLabels lexeme [(pos, weight)]).lookup l =
      if l = lexeme then some (((v.lookup lexeme).getD .empty).set pos weight) else v.lookup l :=
    GoMap.lookup_set v lexeme _ l
  unfold document
  simp only [Set.mem_ofPred_eq, hlookup]
  by_cases hl : l = lexeme
  · subst hl
    simp only [if_true, Option.some.injEq, exists_and_left, exists_eq_left', GoMap.lookup_set, true_and]
    by_cases hp : p = pos
    · simp [hp]
    · simp only [hp, or_false]
      cases v.lookup l with
      | none => simp [GoMap.empty, GoMap.lookup]
      | some labels => simp
  · simp [hl]

theorem mem_document_foldl_addLexeme (weight : TsvectorWeight) (words : List GoString) (v : Tsvector) (pos : Int)
    (l : GoString) (p : Int) :
    p ∈ (words.foldl (addLexeme weight) (v, pos)).1.document l ↔
      p ∈ v.document l ∨ ∃ i : Nat, words[i]? = some l ∧ p = pos + i := by
  induction words generalizing v pos with
  | nil => simp
  | cons word words ih =>
    rw [foldl_cons, addLexeme, ih, mem_document_addLabels, or_assoc]
    refine or_congr_right ?_
    constructor
    · rintro (⟨rfl, rfl⟩ | ⟨i, hi, rfl⟩)
      · exact ⟨0, rfl, by simp⟩
      · exact ⟨i + 1, hi, by push_cast; omega⟩
    · grind

def after (labels : List (Int × TsvectorWeight)) (n : Int) : Int :=
  labels.foldl (fun n l => if n ≤ l.1 then l.1 + 1 else n) n

theorem after_spec (labels : List (Int × TsvectorWeight)) (n : Int) :
    n ≤ after labels n ∧ (∀ l ∈ labels, l.1 < after labels n) ∧
      (after labels n = n ∨ ∃ l ∈ labels, after labels n = l.1 + 1) := by
  induction labels generalizing n with
  | nil => exact ⟨Int.le_refl n, forall_mem_nil _, .inl rfl⟩
  | cons l labels ih =>
    obtain ⟨hle, hall, hreach⟩ := ih (if n ≤ l.1 then l.1 + 1 else n)
    have hcons : after (l :: labels) n = after labels (if n ≤ l.1 then l.1 + 1 else n) := rfl
    rw [← hcons] at hle hall hreach
    have hstep : n ≤ (if n ≤ l.1 then l.1 + 1 else n) ∧ l.1 < (if n ≤ l.1 then l.1 + 1 else n) := by split_ifs <;> omega
    grind

end Tsvector

/-! ## The tape -/

/-- The vector holds the words of a tape from position 1; only the last place is known to be a word. -/
structure Holds (v : Tsvector) (tape : List (Option GoString)) : Prop where
  mem : ∀ l (p : Int), p ∈ v.document l ↔ ∃ i : Nat, tape[i]? = some (some l) ∧ p = i + 1
  last : tape = [] ∨ ∃ l, tape.getLast? = some (some l)

theorem holds_empty : Holds .empty [] where
  mem l p := by grind [Tsvector.not_mem_document_empty]
  last := .inl rfl

variable {v : Tsvector} {tape : List (Option GoString)}

theorem Holds.nextPos (h : Holds v tape) :
    v.nextPos = if tape = [] then 1 else (tape.length : Int) + 2 := by
  have hmem : ∀ l : Int × TsvectorWeight, l ∈ v.entries.flatMap (fun e => e.2.entries) →
      ∃ lexeme, l.1 ∈ v.document lexeme := by
    intro l hl
    obtain ⟨e, he, hl⟩ := mem_flatMap.mp hl
    exact ⟨e.1, e.2, l.2, GoMap.lookup_eq_some_iff.mpr he, GoMap.lookup_eq_some_iff.mpr hl⟩
  have hlabel : ∀ lexeme p, p ∈ v.document lexeme → ∃ l ∈ v.entries.flatMap (fun e => e.2.entries), l.1 = p := by
    rintro lexeme p ⟨labels, w, hlabels, hw⟩
    exact ⟨(p, w), mem_flatMap.mpr ⟨_, GoMap.lookup_eq_some_iff.mp hlabels, GoMap.lookup_eq_some_iff.mp hw⟩, rfl⟩
  have hnext : v.nextPos = (if 1 < Tsvector.after (v.entries.flatMap fun e => e.2.entries) 1
      then Tsvector.after (v.entries.flatMap fun e => e.2.entries) 1 + 1
      else Tsvector.after (v.entries.flatMap fun e => e.2.entries) 1) := by
    unfold Tsvector.nextPos Tsvector.after
    rw [foldl_flatMap]
  obtain ⟨hone, hall, hreach⟩ := Tsvector.after_spec (v.entries.flatMap fun e => e.2.entries) 1
  rw [hnext]
  generalize Tsvector.after (v.entries.flatMap fun e => e.2.entries) 1 = r at hone hall hreach
  rcases h.last with rfl | ⟨lexeme, hlast⟩
  · -- no tape, no position
    have hr : r = 1 := by
      rcases hreach with rfl | ⟨l, hl, -⟩
      · rfl
      · obtain ⟨lexeme, hdoc⟩ := hmem l hl
        obtain ⟨i, hi, -⟩ := (h.mem _ _).mp hdoc
        cases hi
    rw [hr]
    rfl
  · -- the last place of the tape is the last position
    have hne : tape ≠ [] := by
      rintro rfl
      cases hlast
    have hpos := length_pos_iff.mpr hne
    rw [List.getLast?_eq_getElem?] at hlast
    obtain ⟨l, hl, hlen⟩ := hlabel lexeme tape.length ((h.mem _ _).mpr ⟨tape.length - 1, hlast, by omega⟩)
    have hge := hall l hl
    have hle : r ≤ tape.length + 1 := by
      rcases hreach with heq | ⟨l', hl', heq⟩
      · omega
      · obtain ⟨lexeme', hdoc⟩ := hmem l' hl'
        obtain ⟨i, hi, hp⟩ := (h.mem _ _).mp hdoc
        grind
    rw [if_neg hne, if_pos (by omega)]
    omega

def extend (tape : List (Option GoString)) (words : List GoString) : List (Option GoString) :=
  if words = [] then tape else if tape = [] then words.map some else tape ++ none :: words.map some

/-- **Step lemma.** -/
theorem Holds.addText (h : Holds v tape) (u : Unicode) (text : GoString) (weight : TsvectorWeight) :
    Holds (v.addText u text weight) (extend tape (u.tokenizeFlat text)) := by
  generalize hwords : u.tokenizeFlat text = words
  have hdoc : ∀ l p, p ∈ (v.addText u text weight).document l ↔
      p ∈ v.document l ∨ ∃ i : Nat, words[i]? = some l ∧ p = v.nextPos + i := by
    grind [Tsvector.addText, Tsvector.mem_document_foldl_addLexeme]
  have hmap : ∀ (i : Nat) (l : GoString), (words.map some)[i]? = some (some l) ↔ words[i]? = some l := by grind
  unfold extend
  split_ifs with hnone htape
  · refine ⟨fun l p => ?_, h.last⟩
    rw [hdoc, h.mem, hnone]
    simp
  · refine ⟨fun l p => ?_, .inr ?_⟩
    · rw [hdoc, h.mem, h.nextPos, if_pos htape, htape]
      grind
    · grind [List.getLast?_map, List.getLast?_eq_some_getLast]
  · refine ⟨fun l p => ?_, .inr ?_⟩
    · rw [hdoc, h.mem, h.nextPos, if_neg htape]
      constructor
      · rintro (⟨i, hi, rfl⟩ | ⟨i, hi, rfl⟩)
        · grind
        · refine ⟨tape.length + 1 + i, ?_, by push_cast; omega⟩
          grind
      · rintro ⟨i, hi, rfl⟩
        rw [List.getElem?_append] at hi
        split_ifs at hi with hlt
        · exact .inl ⟨i, hi, rfl⟩
        · -- the gap is no word
          obtain ⟨j, hj⟩ : ∃ j, i - tape.length = j := ⟨_, rfl⟩
          rw [hj] at hi
          cases j with
          | zero => cases hi
          | succ j => exact .inr ⟨j, (hmap j l).mp hi, by omega⟩
    · rw [List.getLast?_append_cons, List.getLast?_cons_of_ne_nil (by simpa using hnone), List.getLast?_map,
        List.getLast?_eq_some_getLast hnone]
      exact ⟨_, rfl⟩

def addTexts (u : Unicode) (texts : List (GoString × TsvectorWeight)) : Tsvector :=
  texts.foldl (fun v t => v.addText u t.1 t.2) .empty

def wordLists (u : Unicode) (texts : List (GoString × TsvectorWeight)) : List (List GoString) :=
  (texts.map fun t => u.tokenizeFlat t.1).filter fun words => decide (words ≠ [])

theorem wordLists_concat (u : Unicode) (texts : List (GoString × TsvectorWeight)) (t : GoString × TsvectorWeight) :
    wordLists u (texts ++ [t]) =
      if u.tokenizeFlat t.1 = [] then wordLists u texts else wordLists u texts ++ [u.tokenizeFlat t.1] := by
  grind [wordLists]

def tapeOf (u : Unicode) (texts : List (GoString × TsvectorWeight)) : List (Option GoString) :=
  [none].intercalate ((wordLists u texts).map (List.map some))

variable {u : Unicode}

theorem wordLists_eq_nil {texts : List (GoString × TsvectorWeight)} (h : tapeOf u texts = []) :
    wordLists u texts = [] := by
  have hall : ∀ words ∈ wordLists u texts, words ≠ [] := by
    intro words hwords
    exact of_decide_eq_true (mem_filter.mp hwords).2
  unfold tapeOf at h
  cases hlists : wordLists u texts with
  | nil => rfl
  | cons words rest =>
    rw [hlists] at h
    have hwords := hall words (by rw [hlists]; exact mem_cons_self)
    cases rest with
    | nil => grind [intercalate_singleton, map_eq_nil_iff]
    | cons next rest => grind [intercalate_cons_cons, append_eq_nil_iff]

theorem tapeOf_concat (u : Unicode) (texts : List (GoString × TsvectorWeight)) (t : GoString × TsvectorWeight) :
    tapeOf u (texts ++ [t]) = extend (tapeOf u texts) (u.tokenizeFlat t.1) := by
  unfold extend
  split_ifs with hnone htape
  · unfold tapeOf
    rw [wordLists_concat, if_pos hnone]
  · grind [tapeOf, wordLists_concat, wordLists_eq_nil, intercalate_singleton]
  · have hne : (wordLists u texts).map (List.map some) ≠ [] := by
      intro h
      refine htape ?_
      unfold tapeOf
      rw [h]
      rfl
    grind [tapeOf, wordLists_concat, intercalate_concat]

/-- **Run lemma.** -/
theorem holds_addTexts (u : Unicode) (texts : List (GoString × TsvectorWeight)) :
    Holds (addTexts u texts) (tapeOf u texts) := by
  induction texts using List.reverseRecOn with
  | nil => exact holds_empty
  | append_singleton texts t ih =>
    have hvector : addTexts u (texts ++ [t]) = (addTexts u texts).addText u t.1 t.2 := by
      unfold addTexts
      rw [foldl_append]
      rfl
    rw [hvector, tapeOf_concat]
    exact ih.addText u t.1 t.2

theorem Holds.consecutive_iff (h : Holds v tape) {words : List GoString} (hne : words ≠ []) :
    (∃ start : Int, ∀ (i : Nat) (w : GoString), words[i]? = some w → start + i ∈ v.document w) ↔
      words.map some <:+: tape := by
  rw [infix_iff_getElem?]
  constructor
  · rintro ⟨start, hstart⟩
    obtain ⟨w, ws, rfl⟩ := exists_cons_of_ne_nil hne
    -- the first word gives the place, the others follow it
    obtain ⟨k, -, hk⟩ := (h.mem _ _).mp (hstart 0 w rfl)
    have hplace : ∀ i (hi : i < (w :: ws).length), tape[i + k]? = some (some (w :: ws)[i]) := by
      intro i hi
      obtain ⟨j, hj, hpos⟩ := (h.mem _ _).mp (hstart i _ (List.getElem?_eq_getElem hi))
      grind
    refine ⟨k, ?_, fun i hi => ?_⟩
    · have hlast := (List.getElem?_eq_some_iff.mp (hplace ws.length (Nat.lt_succ_self _))).1
      rw [length_map, length_cons]
      omega
    · grind
  · rintro ⟨k, hlen, hk⟩
    refine ⟨k + 1, fun i w hi => (h.mem _ _).mpr ⟨i + k, ?_, by push_cast; omega⟩⟩
    grind

theorem infix_tapeOf_iff (u : Unicode) (texts : List (GoString × TsvectorWeight)) {words : List GoString}
    (hne : words ≠ []) :
    words.map some <:+: tapeOf u texts ↔ ∃ t ∈ texts, words <:+: u.tokenizeFlat t.1 := by
  have hinj : ∀ l : List GoString, words.map some <:+: l.map some ↔ words <:+: l := by
    intro l
    refine ⟨fun hin => ?_, fun hin => hin.map some⟩
    have hback := hin.filterMap id
    simpa using hback
  unfold tapeOf
  rw [infix_intercalate_iff (by simpa using hne) (by simp)]
  constructor
  · rintro ⟨part, hpart, hin⟩
    obtain ⟨l, hl, rfl⟩ := mem_map.mp hpart
    obtain ⟨t, ht, rfl⟩ := mem_map.mp (mem_filter.mp hl).1
    exact ⟨t, ht, (hinj _).mp hin⟩
  · rintro ⟨t, ht, hin⟩
    refine ⟨_, mem_map_of_mem (mem_filter.mpr ⟨mem_map_of_mem ht, ?_⟩), (hinj _).mpr hin⟩
    grind

/-! ## The query of a quoted phrase -/

theorem readQueryToken_nil (u : Unicode) : u.readQueryToken [] = none := by rw [Unicode.readQueryToken]

theorem readQueryTokens_of_none {runes : List Char} (h : u.readQueryToken runes = none) :
    u.readQueryTokens runes = [] := by grind [Unicode.readQueryTokens]

theorem readQueryTokens_of_some {runes left : List Char} {token : TokenValue}
    (h : u.readQueryToken runes = some (token, left)) :
    u.readQueryTokens runes = token :: u.readQueryTokens left := by grind [Unicode.readQueryTokens]

theorem readQueryTokens_quoted (u : Unicode) {cs : List Char} (hcs : '"' ∉ cs) :
    u.readQueryTokens ('"' :: (cs ++ ['"'])) = if cs = [] then [] else [.quoted (encode cs)] := by
  have hstring : readQuotedString '"' ('"' :: (cs ++ ['"'])) = (encode cs, [], none) := by
    have hloop := readQuotedLoop_doubled '"' [] cs [] (by rintro ⟨⟩)
    grind [replaceAll_of_not_mem, readQuotedString]
  have htoken : u.readQueryToken ('"' :: (cs ++ ['"'])) =
      if encode cs ≠ [] then some (.quoted (encode cs), []) else none := by
    grind [Unicode.readQueryToken, takeWhile_nil]
  split_ifs with hnone
  · subst hnone
    exact readQueryTokens_of_none htoken
  · have hne : encode cs ≠ [] := fun h => hnone (encode_injective h)
    rw [if_pos hne] at htoken
    rw [readQueryTokens_of_some htoken, readQueryTokens_of_none (readQueryToken_nil u)]

theorem appQueryToTsquery_quoted (u : Unicode) {p : GoString} (hp : (0x22 : UInt8) ∉ p) :
    u.appQueryToTsquery (0x22 :: p ++ [0x22]) =
      if u.tokenizeFlat p = [] then [] else phraseExpr (u.tokenizeFlat p) := by
  have hrunes : decode (0x22 :: p ++ [0x22]) = '"' :: (decode p ++ ['"']) := by
    rw [cons_append, decode_cons_ascii (by decide), decode_append_ascii p (by decide)]
    rfl
  -- the words are read from the runes, so writing these anew makes no difference
  have hflat : u.tokenizeFlat (encode (decode p)) = u.tokenizeFlat p := by
    unfold Unicode.tokenizeFlat Unicode.tokenize
    rw [decode_encode]
  have hquote : '"' ∉ decode p := fun h => hp (mem_of_ascii_mem_decode (b := 0x22) (by decide) h)
  unfold Unicode.appQueryToTsquery Unicode.appQueryTokensToTsquery
  rw [hrunes, readQueryTokens_quoted u hquote]
  by_cases hcs : decode p = []
  · have hempty : u.tokenizeFlat p = [] := by
      unfold Unicode.tokenizeFlat Unicode.tokenize
      rw [hcs, Unicode.tokenizeRunes]
      rfl
    rw [if_pos hcs, if_pos hempty, Unicode.queryParts]
    rfl
  · rw [if_neg hcs, Unicode.queryParts.eq_def]
    simp only [Unicode.tokenExpr, hflat]
    by_cases hnone : u.tokenizeFlat p = []
    · simp only [if_pos hnone, Unicode.queryParts]
      rfl
    · grind [addExpr, addOperators, Unicode.queryParts, intercalate_singleton]

theorem reads_phraseExpr {w : GoString} {ws : List GoString} (h : ∀ x ∈ w :: ws, Unicode.Lexeme x) :
    Reads (phraseExpr (w :: ws)) (phraseTokens w ws) := by
  induction ws generalizing w with
  | nil =>
    unfold phraseExpr
    rw [map_singleton, intercalate_singleton]
    exact (spells_quoteLexeme (h w mem_cons_self)).reads
  | cons x ws ih =>
    have hfirst := (spells_quoteLexeme (h w mem_cons_self)).reads
    have hrest := ih fun y hy => h y (mem_cons_of_mem w hy)
    have hreads := hfirst.append ((Tsquery.BinOp.reads .followedBy).append hrest)
    have hsep : GoString.ofString " <-> " = 0x20 :: (Tsquery.BinOp.followedBy.text ++ [0x20]) := by decide
    unfold phraseExpr at hreads ⊢
    simp only [map_cons] at hreads ⊢
    rw [hsep] at hreads ⊢
    rw [intercalate_cons_cons, append_assoc, cons_append, append_assoc, singleton_append]
    exact hreads

/-- **Quoted phrases.** The query for a quoted phrase matches exactly if the phrase has words and they stand side by
side among the words of one of the added texts. -/
theorem phrase_matches_iff (u : Unicode) (texts : List (GoString × TsvectorWeight)) (p : GoString)
    (hp : (0x22 : UInt8) ∉ p) :
    TextMatches (addTexts u texts).document (u.appQueryToTsquery (0x22 :: p ++ [0x22])) ↔
      u.tokenizeFlat p ≠ [] ∧ ∃ t ∈ texts, u.tokenizeFlat p <:+: u.tokenizeFlat t.1 := by
  rw [appQueryToTsquery_quoted u hp]
  cases hwords : u.tokenizeFlat p with
  | nil => grind [not_textMatches_nil]
  | cons w ws =>
    have hne : w :: ws ≠ [] := List.cons_ne_nil w ws
    have hlexemes : ∀ x ∈ w :: ws, Unicode.Lexeme x := by
      intro x hx
      rw [← hwords] at hx
      exact u.lexeme_of_mem_tokenizeFlat hx
    rw [if_neg hne, textMatches_phrase_iff (reads_phraseExpr hlexemes), (holds_addTexts u texts).consecutive_iff hne,
      infix_tapeOf_iff u texts hne]
    exact ⟨fun h => ⟨hne, h⟩, fun h => h.2⟩

def twoTexts : List (GoString × TsvectorWeight) :=
  [(.ofString "The quick brown fox", .a), (.ofString "a quick fox", .d)]

theorem phrase_matches_twoTexts :
    TextMatches (addTexts .ascii twoTexts).document (Unicode.ascii.appQueryToTsquery (.ofString "\"Quick-Fox\"")) := by
  have hquotes : (0x22 : UInt8) ∉ GoString.ofString "Quick-Fox" := by decide
  refine (phrase_matches_iff .ascii twoTexts (.ofString "Quick-Fox") hquotes).mpr ⟨by decide +kernel, ?_⟩
  exact ⟨_, List.mem_cons_of_mem _ List.mem_cons_self, [.ofString "a"], [], by decide +kernel⟩

end BitAgent.Fts
