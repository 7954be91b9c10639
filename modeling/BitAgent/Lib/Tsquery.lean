/-
# Lib.Tsquery — text search queries: their text, their grammar and what they match

  * **Text.** `scan` reads lexemes, plain (`[0-9A-Za-z_]+`) or quoted, with an optional `:*`, the operators `!`, `&`,
    `|`, `<->` and parentheses: less than Postgres accepts, and as Postgres reads it.
  * **Grammar.** `Grammar` is the flat one; `Parses` adds the precedences and gives the query.
  * **Meaning.** `Query.Matches`, over the positions of each lexeme. A phrase operand matches with a right end
    and a width; operands of `&` and `|` inside a phrase are aligned at their left ends.

A phrase of plain lexemes matches at consecutive positions (`textMatches_phrase_iff`).
-/
import Mathlib.Data.List.Induction
import Mathlib.Data.Set.Basic
import BitAgent.Lib.GoString

namespace BitAgent.Lib.Tsquery

open List

/-! ## Text -/

/-- A binary operator: `&`, `|`, `<->`. -/
inductive BinOp where
  | and
  | or
  | followedBy

inductive Token where
  | lexeme (word : GoString) (starred : Bool)
  | not
  | op (o : BinOp)
  | openParens
  | closeParens

inductive Mode where
  | idle
  | word (acc : GoString)
  | quoted (acc : GoString)
  /-- After a backslash in a quoted lexeme. -/
  | escaped (acc : GoString)
  /-- After a quote in a quoted lexeme: the end of it, or the first of two. -/
  | quote (acc : GoString)
  | colon (acc : GoString)
  | less
  | lessDash

/-- `[0-9A-Za-z_]`. -/
def wordByte (b : UInt8) : Bool :=
  (decide (0x30 ≤ b) && decide (b ≤ 0x39)) || (decide (0x41 ≤ b) && decide (b ≤ 0x5A)) ||
    (decide (0x61 ≤ b) && decide (b ≤ 0x7A)) || decide (b = 0x5F)

def idle (b : UInt8) : Option (Mode × List Token) :=
  if b = 0x20 then some (.idle, [])
  else if b = 0x27 then some (.quoted [], [])
  else if wordByte b then some (.word [b], [])
  else if b = 0x21 then some (.idle, [.not])
  else if b = 0x26 then some (.idle, [.op .and])
  else if b = 0x7C then some (.idle, [.op .or])
  else if b = 0x28 then some (.idle, [.openParens])
  else if b = 0x29 then some (.idle, [.closeParens])
  else if b = 0x3C then some (.less, [])
  else none

def after (word : GoString) (b : UInt8) : Option (Mode × List Token) :=
  if word = [] then none
  else if b = 0x3A then some (.colon word, [])
  else (idle b).map fun x => (x.1, .lexeme word false :: x.2)

def step : Mode → UInt8 → Option (Mode × List Token)
  | .idle, b => idle b
  | .word acc, b => if wordByte b then some (.word (acc ++ [b]), []) else after acc b
  | .quoted acc, b =>
    if b = 0x27 then some (.quote acc, [])
    else if b = 0x5C then some (.escaped acc, [])
    else some (.quoted (acc ++ [b]), [])
  | .escaped acc, b => some (.quoted (acc ++ [b]), [])
  | .quote acc, b => if b = 0x27 then some (.quoted (acc ++ [b]), []) else after acc b
  | .colon acc, b => if b = 0x2A then some (.idle, [.lexeme acc true]) else none
  | .less, b => if b = 0x2D then some (.lessDash, []) else none
  | .lessDash, b => if b = 0x3E then some (.idle, [.op .followedBy]) else none

def Mode.finish : Mode → Option (List Token)
  | .idle => some []
  | .word acc => some [.lexeme acc false]
  | .quote acc => if acc = [] then none else some [.lexeme acc false]
  | _ => none

def scanFrom : Mode → GoString → Option (List Token)
  | m, [] => m.finish
  | m, b :: s =>
    match step m b with
    | none => none
    | some (m, ts) => (scanFrom m s).map (ts ++ ·)

def scan (s : GoString) : Option (List Token) := scanFrom .idle s
def quoted (word : GoString) : GoString := 0x27 :: GoString.replaceAll 0x27 [0x27, 0x27] word ++ [0x27]
def Stops (rest : GoString) : Prop := rest = [] ∨ ∃ b s, rest = b :: s ∧ (b = 0x20 ∨ b = 0x29)

/-- `s` is read as `ts`, before the end of the text, a space or a closing parenthesis. -/
def Reads (s : GoString) (ts : List Token) : Prop := ∀ rest, Stops rest → scan (s ++ rest) = (scan rest).map (ts ++ ·)

theorem stops_space (s : GoString) : Stops (0x20 :: s) := .inr ⟨_, _, rfl, .inl rfl⟩

variable {s : GoString} {ts : List Token}

theorem Reads.scan_eq (h : Reads s ts) : scan s = some ts := by
  have hend := h [] (.inl rfl)
  rw [append_nil] at hend
  rw [hend]
  show (some [] : Option (List Token)).map (ts ++ ·) = some ts
  rw [Option.map_some, append_nil]

theorem Reads.append {s' : GoString} {ts' : List Token} (h : Reads s ts) (h' : Reads s' ts') :
    Reads (s ++ 0x20 :: s') (ts ++ ts') := by
  intro rest hrest
  have hspace : scan (0x20 :: (s' ++ rest)) = scan (s' ++ rest) := by
    show (scanFrom .idle (s' ++ rest)).map ([] ++ ·) = scanFrom .idle (s' ++ rest)
    cases scanFrom .idle (s' ++ rest) <;> rfl
  rw [append_assoc, cons_append, h _ (stops_space _), hspace, h' rest hrest, Option.map_map]
  congr 1
  funext us
  exact (append_assoc ts ts' us).symm

theorem Reads.parens (h : Reads s ts) :
    Reads (0x28 :: s ++ [0x29]) (.openParens :: ts ++ [.closeParens]) := by
  intro rest _
  have hopen : ∀ t, scan (0x28 :: t) = (scan t).map ([.openParens] ++ ·) := fun _ => rfl
  have hclose : ∀ t, scan (0x29 :: t) = (scan t).map ([.closeParens] ++ ·) := fun _ => rfl
  rw [append_assoc, cons_append, hopen, singleton_append, h _ (.inr ⟨_, _, rfl, .inr rfl⟩), hclose,
    Option.map_map, Option.map_map]
  congr 1
  funext us
  simp

theorem reads_not : Reads [0x21] [.not] := fun _ _ => rfl

theorem reads_and : Reads [0x26] [.op .and] := fun _ _ => rfl

theorem reads_or : Reads [0x7C] [.op .or] := fun _ _ => rfl

theorem reads_followedBy : Reads [0x3C, 0x2D, 0x3E] [.op .followedBy] := by
  intro rest _
  show ((((scanFrom .idle rest).map ([.op .followedBy] ++ ·)).map ([] ++ ·)).map ([] ++ ·)) = _
  rw [Option.map_map, Option.map_map]
  rfl

/-- A lexeme is complete in mode `m`: it may get a star, or end. -/
def Complete (m : Mode) (word : GoString) : Prop :=
  m.finish = some [.lexeme word false] ∧ ∀ b, wordByte b = false → b ≠ 0x27 → step m b = after word b

variable {word : GoString}

theorem complete_word : Complete (.word word) word := ⟨rfl, fun b hb _ => if_neg (by rw [hb]; exact Bool.false_ne_true)⟩

theorem complete_quote (hne : word ≠ []) : Complete (.quote word) word := ⟨if_neg hne, fun _ _ hb => if_neg hb⟩

theorem scanFrom_complete {m : Mode} (h : Complete m word) (hne : word ≠ []) {rest : GoString} (hrest : Stops rest) :
    scanFrom m rest = (scan rest).map ([.lexeme word false] ++ ·) := by
  rcases hrest with rfl | ⟨b, s, rfl, hb⟩
  · exact h.1
  · have hstep : step m b = (idle b).map fun x => (x.1, Token.lexeme word false :: x.2) := by
      rcases hb with rfl | rfl
      · rw [h.2 _ (by decide) (by decide), after, if_neg hne, if_neg (by decide)]
      · rw [h.2 _ (by decide) (by decide), after, if_neg hne, if_neg (by decide)]
    rw [scanFrom, hstep]
    show _ = (match idle b with
      | none => none
      | some (m, ts) => (scanFrom m s).map (ts ++ ·)).map ([Token.lexeme word false] ++ ·)
    cases idle b with
    | none => rfl
    | some x =>
      rw [Option.map_some, Option.map_map]
      rfl

theorem scanFrom_complete_star {m : Mode} (h : Complete m word) (hne : word ≠ []) (rest : GoString) :
    scanFrom m (0x3A :: 0x2A :: rest) = (scan rest).map ([.lexeme word true] ++ ·) := by
  have hcolon : step m 0x3A = some (.colon word, []) := by
    rw [h.2 _ (by decide) (by decide), after, if_neg hne, if_pos rfl]
  rw [scanFrom, hcolon]
  show ((scanFrom .idle rest).map ([.lexeme word true] ++ ·)).map ([] ++ ·) = _
  rw [Option.map_map]
  rfl

theorem scanFrom_word (hs : ∀ b ∈ s, wordByte b = true) (acc rest : GoString) :
    scanFrom (.word acc) (s ++ rest) = scanFrom (.word (acc ++ s)) rest := by
  induction s generalizing acc with
  | nil => rw [nil_append, append_nil]
  | cons b s ih =>
    have hstep : step (.word acc) b = some (.word (acc ++ [b]), []) := if_pos (hs b mem_cons_self)
    rw [cons_append, scanFrom, hstep]
    simp only [nil_append, Option.map_id']
    rw [ih (fun b' hb' => hs b' (mem_cons_of_mem b hb')), append_assoc, singleton_append]

theorem scanFrom_quoted (hs : (0x5C : UInt8) ∉ s) (acc rest : GoString) :
    scanFrom (.quoted acc) (GoString.replaceAll 0x27 [0x27, 0x27] s ++ 0x27 :: rest) =
      scanFrom (.quote (acc ++ s)) rest := by
  induction s generalizing acc with
  | nil =>
    show (scanFrom (.quote acc) rest).map ([] ++ ·) = _
    grind [Option.map_id']
  | cons b s ih =>
    have htail := ih (fun h => hs (mem_cons_of_mem b h)) (acc ++ [b])
    rw [append_assoc, singleton_append] at htail
    unfold GoString.replaceAll at htail ⊢
    rw [flatMap_cons]
    split_ifs with hquote
    · subst hquote
      show ((scanFrom (.quoted (acc ++ [0x27])) _).map ([] ++ ·)).map ([] ++ ·) = _
      simp only [nil_append, Option.map_id']
      exact htail
    · grind [step, scanFrom, Option.map_id']

/-- How a lexeme may be written: as it is, or in quotes. -/
inductive Spells : GoString → GoString → Prop
  | plain {word : GoString} : word ≠ [] → (∀ b ∈ word, wordByte b = true) → Spells word word
  | quoted {word : GoString} : word ≠ [] → (0x5C : UInt8) ∉ word → Spells (quoted word) word

theorem Spells.complete (h : Spells s word) :
    word ≠ [] ∧ ∃ m, Complete m word ∧ ∀ rest, scan (s ++ rest) = scanFrom m rest := by
  cases h with
  | plain hne hword =>
    refine ⟨hne, _, complete_word, fun rest => ?_⟩
    obtain ⟨b, w, rfl⟩ := exists_cons_of_ne_nil hne
    have hb : wordByte b = true := hword b mem_cons_self
    have hspace : b ≠ 0x20 := by
      rintro rfl
      exact absurd hb (by decide)
    have hquote : b ≠ 0x27 := by
      rintro rfl
      exact absurd hb (by decide)
    grind [step, idle, scan, scanFrom, Option.map_id', scanFrom_word]
  | quoted hne hslash =>
    refine ⟨hne, _, complete_quote hne, fun rest => ?_⟩
    unfold Tsquery.quoted
    rw [cons_append, cons_append, append_assoc, singleton_append]
    show (scanFrom (.quoted []) _).map ([] ++ ·) = _
    grind [scanFrom_quoted, Option.map_id']

theorem Spells.reads (h : Spells s word) : Reads s [.lexeme word false] := by
  obtain ⟨hne, m, hm, hscan⟩ := h.complete
  intro rest hrest
  rw [hscan, scanFrom_complete hm hne hrest]

theorem Spells.reads_star (h : Spells s word) : Reads (s ++ [0x3A, 0x2A]) [.lexeme word true] := by
  obtain ⟨hne, m, hm, hscan⟩ := h.complete
  intro rest _
  grind [scanFrom_complete_star]

/-! ## Grammar -/

inductive Kind where
  | operand
  | query
  deriving DecidableEq

/-- Operands, and queries: operands with binary operators between them. -/
inductive Grammar : Kind → List Token → Prop
  | lexeme (word : GoString) (starred : Bool) : Grammar .operand [.lexeme word starred]
  | not {ts : List Token} : Grammar .operand ts → Grammar .operand (.not :: ts)
  | parens {ts : List Token} : Grammar .query ts → Grammar .operand (.openParens :: ts ++ [.closeParens])
  | single {ts : List Token} : Grammar .operand ts → Grammar .query ts
  | binary {ts us : List Token} (o : BinOp) : Grammar .query ts → Grammar .operand us →
      Grammar .query (ts ++ .op o :: us)

theorem Grammar.append {us : List Token} (o : BinOp) (h : Grammar .query ts) (h' : Grammar .query us) :
    Grammar .query (ts ++ .op o :: us) := by
  generalize hk : Kind.query = k at h'
  induction h' with
  | single hus => exact .binary o h hus
  | binary o' _ hvs ih _ =>
    rw [← cons_append, ← append_assoc]
    exact .binary o' (ih rfl) hvs
  | _ => cases hk

theorem Grammar.negate (h : Grammar .query ts) : Grammar .query (.not :: ts) := by
  generalize hk : Kind.query = k at h
  induction h with
  | single hts => exact .single (.not hts)
  | binary o _ hus ih _ =>
    rw [← cons_append]
    exact .binary o (ih rfl) hus
  | _ => cases hk

def Valid (text : GoString) : Prop := ∃ ts, Reads text ts ∧ Grammar .query ts

def BinOp.text : BinOp → GoString
  | .and => [0x26]
  | .or => [0x7C]
  | .followedBy => [0x3C, 0x2D, 0x3E]

theorem BinOp.reads (o : BinOp) : Reads o.text [.op o] := by
  cases o with
  | and => exact reads_and
  | or => exact reads_or
  | followedBy => exact reads_followedBy

namespace Valid

variable {s s' : GoString}

theorem binary (o : BinOp) (h : Valid s) (h' : Valid s') : Valid (s ++ 0x20 :: (o.text ++ 0x20 :: s')) := by
  obtain ⟨ts, hs, hts⟩ := h
  obtain ⟨us, hs', hus⟩ := h'
  exact ⟨_, hs.append (o.reads.append hs'), hts.append o hus⟩

theorem negate (h : Valid s) : Valid (0x21 :: 0x20 :: s) := by
  obtain ⟨ts, hs, hts⟩ := h
  exact ⟨_, reads_not.append hs, hts.negate⟩

theorem parens (h : Valid s) : Valid (0x28 :: s ++ [0x29]) := by
  obtain ⟨ts, hs, hts⟩ := h
  exact ⟨_, hs.parens, .single (.parens hts)⟩

theorem of_spells (h : Spells s word) : Valid s := ⟨_, h.reads, .single (.lexeme word false)⟩

theorem of_spells_star (h : Spells s word) : Valid (s ++ [0x3A, 0x2A]) := ⟨_, h.reads_star, .single (.lexeme word true)⟩

end Valid

/-! ## Queries -/

inductive Query where
  | lexeme (word : GoString) (starred : Bool)
  | not (q : Query)
  | binary (o : BinOp) (l r : Query)

inductive Level where
  | unary
  | phrase
  | and
  | or

/-- The query of some tokens. Binary operators group to the left. -/
inductive Parses : Level → List Token → Query → Prop
  | lexeme (word : GoString) (starred : Bool) : Parses .unary [.lexeme word starred] (.lexeme word starred)
  | not {ts : List Token} {q : Query} : Parses .unary ts q → Parses .unary (.not :: ts) (.not q)
  | parens {ts : List Token} {q : Query} : Parses .or ts q → Parses .unary (.openParens :: ts ++ [.closeParens]) q
  | phrase {ts : List Token} {q : Query} : Parses .unary ts q → Parses .phrase ts q
  | followedBy {ts us : List Token} {q r : Query} : Parses .phrase ts q → Parses .unary us r →
      Parses .phrase (ts ++ .op .followedBy :: us) (.binary .followedBy q r)
  | conjunct {ts : List Token} {q : Query} : Parses .phrase ts q → Parses .and ts q
  | and {ts us : List Token} {q r : Query} : Parses .and ts q → Parses .phrase us r →
      Parses .and (ts ++ .op .and :: us) (.binary .and q r)
  | disjunct {ts : List Token} {q : Query} : Parses .and ts q → Parses .or ts q
  | or {ts us : List Token} {q r : Query} : Parses .or ts q → Parses .and us r →
      Parses .or (ts ++ .op .or :: us) (.binary .or q r)

def Denotes (text : GoString) (q : Query) : Prop := ∃ ts, scan text = some ts ∧ Parses .or ts q

theorem Parses.snoc {us : List Token} {q r : Query} (h : Parses .or ts q) (o : BinOp) (hus : Parses .unary us r) :
    ∃ q', Parses .or (ts ++ .op o :: us) q' := by
  -- the operand joins the last conjunct, or the last phrase of it
  have hphrase : ∀ {ts q}, Parses .and ts q → ∃ q', Parses .and (ts ++ .op .followedBy :: us) q' := by
    intro ts q h
    cases h with
    | conjunct h => exact ⟨_, .conjunct (.followedBy h hus)⟩
    | and hl hr =>
      rw [append_assoc, cons_append]
      exact ⟨_, .and hl (.followedBy hr hus)⟩
  cases o with
  | or => exact ⟨_, .or h (.conjunct (.phrase hus))⟩
  | and =>
    cases h with
    | disjunct h => exact ⟨_, .disjunct (.and h (.phrase hus))⟩
    | or hl hr =>
      rw [append_assoc, cons_append]
      exact ⟨_, .or hl (.and hr (.phrase hus))⟩
  | followedBy =>
    cases h with
    | disjunct h =>
      obtain ⟨q', h'⟩ := hphrase h
      exact ⟨q', .disjunct h'⟩
    | or hl hr =>
      obtain ⟨q', h'⟩ := hphrase hr
      rw [append_assoc, cons_append]
      exact ⟨_, .or hl h'⟩

def Kind.level : Kind → Level
  | .operand => .unary
  | .query => .or

theorem Grammar.parses {k : Kind} (h : Grammar k ts) : ∃ q, Parses k.level ts q := by
  induction h with
  | lexeme word starred => exact ⟨_, .lexeme word starred⟩
  | not _ ih =>
    obtain ⟨q, hq⟩ := ih
    exact ⟨_, .not hq⟩
  | parens _ ih =>
    obtain ⟨q, hq⟩ := ih
    exact ⟨_, .parens hq⟩
  | single _ ih =>
    obtain ⟨q, hq⟩ := ih
    exact ⟨q, .disjunct (.conjunct (.phrase hq))⟩
  | binary o _ _ ih ih' =>
    obtain ⟨q, hq⟩ := ih
    obtain ⟨r, hr⟩ := ih'
    exact hq.snoc o hr

/-! ## Matches -/

abbrev Document := GoString → Set Int

namespace Query

def width : Query → Int
  | .lexeme _ _ => 0
  | .not q => q.width
  | .binary .followedBy l r => 1 + l.width + r.width
  | .binary _ l r => max l.width r.width

def ends (d : Document) : Query → Set Int
  | .lexeme word starred => {p | ∃ w, (w = word ∨ starred = true ∧ word <+: w) ∧ p ∈ d w}
  | .not q => {p | p ∉ q.ends d}
  | .binary .followedBy l r => {p | p ∈ r.ends d ∧ p - (1 + r.width) ∈ l.ends d}
  | .binary .and l r =>
    {p | p - (max l.width r.width - l.width) ∈ l.ends d ∧ p - (max l.width r.width - r.width) ∈ r.ends d}
  | .binary .or l r =>
    {p | p - (max l.width r.width - l.width) ∈ l.ends d ∨ p - (max l.width r.width - r.width) ∈ r.ends d}

/-- The document matches the query: `@@`. -/
def Matches (d : Document) : Query → Prop
  | .lexeme word starred => ∃ p, p ∈ (Query.lexeme word starred).ends d
  | .not q => ¬ q.Matches d
  | .binary .and l r => l.Matches d ∧ r.Matches d
  | .binary .or l r => l.Matches d ∨ r.Matches d
  | .binary .followedBy l r => ∃ p, p ∈ (Query.binary .followedBy l r).ends d

end Query

def TextMatches (d : Document) (text : GoString) : Prop := ∃ q, Denotes text q ∧ q.Matches d

/-! ## Phrases -/

def phrase (word : GoString) (words : List GoString) : Query :=
  words.foldl (fun q w => .binary .followedBy q (.lexeme w false)) (.lexeme word false)

def phraseTokens (word : GoString) (words : List GoString) : List Token :=
  .lexeme word false :: words.flatMap fun w => [.op .followedBy, .lexeme w false]

theorem phrase_concat (word : GoString) (words : List GoString) (w : GoString) :
    phrase word (words ++ [w]) = .binary .followedBy (phrase word words) (.lexeme w false) := by
  unfold phrase
  rw [foldl_append]
  rfl

theorem phraseTokens_concat (word : GoString) (words : List GoString) (w : GoString) :
    phraseTokens word (words ++ [w]) = phraseTokens word words ++ [.op .followedBy, .lexeme w false] := by
  unfold phraseTokens
  rw [flatMap_append]
  rfl

theorem parses_phrase (word : GoString) (words : List GoString) :
    Parses .phrase (phraseTokens word words) (phrase word words) := by
  induction words using List.reverseRecOn with
  | nil => exact .phrase (.lexeme word false)
  | append_singleton words w ih =>
    rw [phrase_concat, phraseTokens_concat]
    exact .followedBy ih (.lexeme w false)

def Token.Plain : Token → Prop
  | .lexeme _ starred => starred = false
  | .op o => o = .followedBy
  | _ => False

theorem plain_phraseTokens (word : GoString) (words : List GoString) : ∀ t ∈ phraseTokens word words, t.Plain := by
  intro t ht
  rcases mem_cons.mp ht with rfl | ht
  · rfl
  · obtain ⟨w, -, hw⟩ := mem_flatMap.mp ht
    simp only [mem_cons, not_mem_nil, or_false] at hw
    rcases hw with rfl | rfl
    · rfl
    · rfl

theorem Parses.eq_phrase {l : Level} {q : Query} (h : Parses l ts q) (hplain : ∀ t ∈ ts, t.Plain) :
    ∃ word words, ts = phraseTokens word words ∧ q = Tsquery.phrase word words ∧ (l = .unary → words = []) := by
  induction h with
  | lexeme word starred =>
    have hstar : starred = false := hplain _ mem_cons_self
    exact ⟨word, [], by rw [hstar]; rfl, by rw [hstar]; rfl, fun _ => rfl⟩
  | not => exact (hplain .not mem_cons_self).elim
  | parens => exact (hplain .openParens mem_cons_self).elim
  | phrase _ ih => grind
  | followedBy _ _ ih ih' =>
    obtain ⟨word, words, rfl, rfl, -⟩ := ih fun t ht => hplain t (mem_append_left _ ht)
    obtain ⟨w, ws, rfl, rfl, hws⟩ := ih' fun t ht => hplain t (mem_append_right _ (mem_cons_of_mem _ ht))
    rw [hws rfl]
    refine ⟨word, words ++ [w], ?_, ?_, by rintro ⟨⟩⟩
    · rw [phraseTokens_concat]
      rfl
    · rw [phrase_concat]
      rfl
  | conjunct _ ih => grind
  | and => cases hplain (.op .and) (by simp)
  | disjunct _ ih => grind
  | or => cases hplain (.op .or) (by simp)

theorem phraseTokens_injective {word' : GoString} {words words' : List GoString}
    (h : phraseTokens word words = phraseTokens word' words') : word = word' ∧ words = words' := by
  obtain ⟨hfirst, hrest⟩ := List.cons.inj h
  refine ⟨(Token.lexeme.inj hfirst).1, ?_⟩
  clear h hfirst
  induction words generalizing words' with
  | nil =>
    cases words' with
    | nil => rfl
    | cons => cases hrest
  | cons w words ih =>
    cases words' with
    | nil => cases hrest
    | cons w' words' => grind

theorem mem_ends_phrase (d : Document) (word : GoString) (words : List GoString) (p : Int) :
    p ∈ (phrase word words).ends d ↔
      ∀ (i : Nat) (w : GoString), (word :: words)[i]? = some w → p - words.length + i ∈ d w := by
  induction words using List.reverseRecOn generalizing p with
  | nil =>
    constructor
    · rintro ⟨w, hw | ⟨⟨⟩, -⟩, hp⟩ i w' hi
      grind
    · intro h
      exact ⟨word, .inl rfl, by simpa using h 0 word rfl⟩
  | append_singleton words w ih =>
    have hlen : ((words ++ [w]).length : Int) = words.length + 1 := by simp
    rw [phrase_concat, hlen]
    show (p ∈ (Query.lexeme w false).ends d ∧ p - (1 + 0) ∈ (phrase word words).ends d) ↔ _
    rw [ih, ← cons_append]
    constructor
    · rintro ⟨⟨w', hw' | ⟨⟨⟩, -⟩, hp⟩, hfront⟩ i x hi
      rw [List.getElem?_append] at hi
      split_ifs at hi with hlt
      · grind
      · have hlast : i = words.length + 1 := by grind
        grind
    · intro h
      refine ⟨⟨w, .inl rfl, ?_⟩, fun i x hi => ?_⟩
      · have hw := h (words.length + 1) w (by simp)
        grind
      · grind

/-- **Phrases.** A text that reads as a phrase matches where its lexemes stand one after the other. -/
theorem textMatches_phrase_iff {d : Document} {text : GoString} {words : List GoString}
    (h : Reads text (phraseTokens word words)) :
    TextMatches d text ↔ ∃ start : Int, ∀ (i : Nat) (w : GoString), (word :: words)[i]? = some w → start + i ∈ d w := by
  have hmatches : (phrase word words).Matches d ↔ ∃ p, p ∈ (phrase word words).ends d := by
    cases words using List.reverseRecOn with
    | nil => exact Iff.rfl
    | append_singleton words w =>
      rw [phrase_concat]
      exact Iff.rfl
  have hdenotes : ∀ q, Denotes text q ↔ q = phrase word words := by
    intro q
    constructor
    · rintro ⟨ts, hts, hq⟩
      rw [h.scan_eq] at hts
      cases hts
      obtain ⟨word', words', heq, rfl, -⟩ := hq.eq_phrase (plain_phraseTokens word words)
      grind [phraseTokens_injective]
    · rintro rfl
      exact ⟨_, h.scan_eq, .disjunct (.conjunct (parses_phrase word words))⟩
  have htext : TextMatches d text ↔ ∃ p, p ∈ (phrase word words).ends d := by
    rw [← hmatches]
    constructor
    · rintro ⟨q, hq, hmatch⟩
      rwa [(hdenotes q).mp hq] at hmatch
    · intro hmatch
      exact ⟨_, (hdenotes _).mpr rfl, hmatch⟩
  rw [htext]
  constructor
  · rintro ⟨p, hp⟩
    exact ⟨p - words.length, (mem_ends_phrase d word words p).mp hp⟩
  · rintro ⟨start, hstart⟩
    refine ⟨start + words.length, (mem_ends_phrase d word words _).mpr fun i w hi => ?_⟩
    rw [Int.add_sub_cancel]
    exact hstart i w hi

theorem not_textMatches_nil (d : Document) : ¬ TextMatches d [] := by
  rintro ⟨q, ⟨ts, hts, hq⟩, -⟩
  obtain rfl := Option.some.inj (show some [] = some ts from hts)
  -- no rule derives the empty list of tokens
  have hne : ∀ {l : Level} {ts : List Token} {q : Query}, Parses l ts q → ts ≠ [] := by
    intro l ts q h
    induction h with
    | phrase _ ih => exact ih
    | conjunct _ ih => exact ih
    | disjunct _ ih => exact ih
    | _ => simp
  exact hne hq rfl

end BitAgent.Lib.Tsquery
