/-
# Lib.Regex — one pattern text under two regular expression engines

A pattern is read by Go's `regexp` and by PostgreSQL's regular expressions. The readers cover literals, escaped
punctuation, bracket expressions, groups, alternatives, `*` and the anchors; other texts are not read (`none`). Inside
brackets the engines differ, and so do the readers. `Shared` says of a piece that both read it as the same factors
wherever it stands; `Shared.compile` puts the pieces together.
-/
import Mathlib.Data.List.Basic

namespace BitAgent.Lib

open List

/-! ## Regular expressions -/

abbrev CharClass := List (Char × Char)

def CharClass.contains (ranges : CharClass) (c : Char) : Bool :=
  ranges.any fun r => decide (r.1.toNat ≤ c.toNat) && decide (c.toNat ≤ r.2.toNat)

inductive Regex
  | eps
  | cls (ranges : CharClass)
  /-- `^`: the start of the text. -/
  | bol
  /-- `$`: the end of the text. -/
  | eol
  | cat (a b : Regex)
  | alt (a b : Regex)
  | star (a : Regex)

namespace Regex

def seq (rs : List Regex) : Regex := rs.foldr cat eps

def anyOf : List Regex → Regex
  | [] => eps
  | [r] => r
  | r :: rs => alt r (anyOf rs)

def starEnds (ends : List Char → List (List Char)) : Nat → List Char → List (List Char)
  | 0, s => [s]
  | n + 1, s => s :: (ends s).flatMap fun t => if t.length < s.length then starEnds ends n t else []

/-- What may be left of `s` after a match at its start; `n` is the whole text's length. -/
def ends (n : Nat) : Regex → List Char → List (List Char)
  | eps, s => [s]
  | cls _, [] => []
  | cls ranges, c :: s => if ranges.contains c then [s] else []
  | bol, s => if s.length = n then [s] else []
  | eol, s => if s = [] then [s] else []
  | cat a b, s => (ends n a s).flatMap (ends n b)
  | alt a b, s => ends n a s ++ ends n b s
  | star a, s => starEnds (ends n a) s.length s

def search (r : Regex) (text : List Char) : Bool := text.tails.any fun s => !(ends text.length r s).isEmpty

theorem search_cls (ranges : CharClass) (text : List Char) :
    search (seq [cls ranges]) text = text.any ranges.contains := by
  have hends : ∀ n s, (ends n (seq [cls ranges]) s).isEmpty = !(s.head?.any ranges.contains) := by
    intro n s
    cases s with
    | nil => rfl
    | cons c s =>
      show ((ends n (cls ranges) (c :: s)).flatMap (ends n eps)).isEmpty = _
      grind [ends]
  rw [search]
  generalize text.length = n
  induction text with
  | nil => simp [hends]
  | cons c text ih => grind [List.tails]

/-! ## Reading a pattern -/

structure Sym where
  char : Char
  escaped : Bool
  deriving DecidableEq

/-- ASCII punctuation: what stands for itself after a backslash. -/
def punctuation (c : Char) : Bool := decide (c.toNat < 128) && !c.isAlphanum

/-- Backslashes and what they escape. Only escapes of punctuation are read. -/
def unescape : List Char → Option (List Sym)
  | [] => some []
  | c :: rest =>
    if c = '\\' then
      match rest with
      | [] => none
      | e :: rest => if punctuation e then (unescape rest).map (⟨e, true⟩ :: ·) else none
    else (unescape rest).map (⟨c, false⟩ :: ·)

inductive Dialect
  /-- Go's `regexp`. -/
  | go
  | postgres

inductive Token
  | cls (ranges : CharClass)
  | bol
  | eol
  | opening
  | closing
  | bar
  | star

/-- Where one is in a bracket expression: at its start, before an item, after a possible start of a range, or after
that and a hyphen. -/
inductive Pending
  | first
  | fresh
  | char (c : Char)
  | dash (c : Char)
  deriving DecidableEq

structure Bracket where
  ranges : CharClass := []
  pending : Pending := .first

/-- A character that stands for itself, or ends a range. -/
def Bracket.put (b : Bracket) (c : Char) : Option Bracket :=
  match b.pending with
  | .first => some ⟨b.ranges, .char c⟩
  | .fresh => some ⟨b.ranges, .char c⟩
  | .char lo => some ⟨b.ranges ++ [(lo, lo)], .char c⟩
  | .dash lo => if lo.toNat ≤ c.toNat then some ⟨b.ranges ++ [(lo, c)], .fresh⟩ else none

/-- A hyphen. After a range it stands for itself for Go; PostgreSQL rejects it. -/
def Bracket.hyphen (d : Dialect) (b : Bracket) : Option Bracket :=
  match b.pending, d with
  | .char lo, _ => some ⟨b.ranges, .dash lo⟩
  | .fresh, .postgres => none
  | _, _ => b.put '-'

/-- The closing bracket. A hyphen before it stands for itself for Go. -/
def Bracket.close (d : Dialect) (b : Bracket) : Option CharClass :=
  match b.pending, d with
  | .first, _ => none
  | .fresh, _ => some b.ranges
  | .char lo, _ => some (b.ranges ++ [(lo, lo)])
  | .dash lo, .go => some (b.ranges ++ [(lo, lo), ('-', '-')])
  | .dash _, .postgres => none

/-- After an opening bracket inside brackets: the start of a named class or a collating element. -/
def opensElement (d : Dialect) (c : Char) : Bool :=
  match d with
  | .go => decide (c = ':')
  | .postgres => decide (c = ':') || decide (c = '.') || decide (c = '=')

/-- A character inside brackets, before `next`. Negated and named classes are not read. -/
def Bracket.read (d : Dialect) (b : Bracket) (c : Char) (next : Option Sym) : Option Bracket :=
  if c = '[' ∧ (next.any fun s => !s.escaped && opensElement d s.char) then none
  else if c = '^' ∧ b.pending = .first then none
  else if c = '-' then b.hyphen d
  else b.put c

/-- A character outside brackets, before `next`. -/
def token (c : Char) (next : Option Sym) : Option Token :=
  if c = '(' then if next = some ⟨'?', false⟩ then none else some .opening
  else if c = ')' then some .closing
  else if c = '|' then some .bar
  else if c = '*' then some .star
  else if c = '^' then some .bol
  else if c = '$' then some .eol
  else if c = '.' ∨ c = '+' ∨ c = '?' ∨ c = '\x7b' then none
  else some (.cls [(c, c)])

/-- The tokens of a pattern; in a bracket expression, what has been read of it. -/
def lex (d : Dialect) : Option Bracket → List Sym → Option (List Token)
  | none, [] => some []
  | some _, [] => none
  | none, s :: rest =>
    if s.escaped then (lex d none rest).map (.cls [(s.char, s.char)] :: ·)
    else if s.char = '[' then lex d (some {}) rest
    else (token s.char rest.head?).bind fun t => (lex d none rest).map (t :: ·)
  | some b, s :: rest =>
    if s.escaped then (b.put s.char).bind fun b => lex d (some b) rest
    else if s.char = ']' ∧ b.pending ≠ .first then
      (b.close d).bind fun ranges => (lex d none rest).map (.cls ranges :: ·)
    else (b.read d s.char rest.head?).bind fun b => lex d (some b) rest

/-- A group that is being parsed: the alternatives before, and the factors of the current one. -/
structure Frame where
  alternatives : List Regex := []
  factors : List Regex := []

def Frame.push (f : Frame) (r : Regex) : Frame := { f with factors := f.factors ++ [r] }
def Frame.bar (f : Frame) : Frame := ⟨f.alternatives ++ [seq f.factors], []⟩
def Frame.regex (f : Frame) : Regex := anyOf (f.alternatives ++ [seq f.factors])

/-- What a `*` may stand after. -/
def repeatable : Regex → Bool
  | bol => false
  | eol => false
  | star _ => false
  | _ => true

def Frame.star (f : Frame) : Option Frame :=
  match f.factors.getLast? with
  | none => none
  | some r => if repeatable r then some { f with factors := f.factors.dropLast ++ [.star r] } else none

def parse : List Frame → Frame → List Token → Option Regex
  | [], f, [] => some f.regex
  | _ :: _, _, [] => none
  | stack, f, .cls ranges :: ts => parse stack (f.push (.cls ranges)) ts
  | stack, f, .bol :: ts => parse stack (f.push .bol) ts
  | stack, f, .eol :: ts => parse stack (f.push .eol) ts
  | stack, f, .opening :: ts => parse (f :: stack) {} ts
  | [], _, .closing :: _ => none
  | g :: stack, f, .closing :: ts => parse stack (g.push f.regex) ts
  | stack, f, .bar :: ts => parse stack f.bar ts
  | stack, f, .star :: ts => f.star.bind fun f => parse stack f ts

/-- The expression that an engine reads from a pattern. -/
def compile (d : Dialect) (pattern : List Char) : Option Regex :=
  ((unescape pattern).bind (lex d none)).bind (parse [] {})

/-! ## Symbols and tokens -/

def Sym.text (s : Sym) : List Char := if s.escaped then ['\\', s.char] else [s.char]

/-- Only punctuation is escaped, and a backslash always. -/
def Sym.Written (s : Sym) : Prop := if s.escaped then punctuation s.char = true else s.char ≠ '\\'

theorem unescape_text {syms : List Sym} (h : ∀ s ∈ syms, s.Written) : unescape (syms.flatMap Sym.text) = some syms := by
  induction syms with
  | nil => rfl
  | cons s syms ih =>
    have hs := h s mem_cons_self
    have hrest := ih fun t ht => h t (mem_cons_of_mem _ ht)
    obtain ⟨c, escaped⟩ := s
    rw [flatMap_cons]
    cases escaped with
    | true =>
      show unescape ('\\' :: c :: syms.flatMap Sym.text) = _
      rw [unescape.eq_def]
      dsimp only
      rw [if_pos rfl, if_pos (show punctuation c = true from hs), hrest]
      rfl
    | false =>
      show unescape (c :: syms.flatMap Sym.text) = _
      rw [unescape.eq_def]
      dsimp only
      rw [if_neg (show c ≠ '\\' from hs), hrest]
      rfl

/-- Wherever they stand outside brackets, the symbols are these tokens. -/
def Lexes (d : Dialect) (syms : List Sym) (ts : List Token) : Prop :=
  ∀ rest, lex d none (syms ++ rest) = (lex d none rest).map (ts ++ ·)

theorem Lexes.append {d : Dialect} {syms syms' : List Sym} {ts ts' : List Token} (h : Lexes d syms ts)
    (h' : Lexes d syms' ts') : Lexes d (syms ++ syms') (ts ++ ts') := by
  intro rest
  rw [append_assoc, h, h', Option.map_map]
  refine congrArg (Option.map · _) (funext fun us => ?_)
  exact (append_assoc ts ts' us).symm

variable (d : Dialect)

theorem lexes_nil : Lexes d [] [] := by
  intro rest
  exact Option.map_id'.symm

theorem lexes_escaped (c : Char) : Lexes d [⟨c, true⟩] [.cls [(c, c)]] := fun _ => rfl

theorem lexes_plain {c : Char} {t : Token} (hc : c ≠ '[') (ht : ∀ next, token c next = some t) :
    Lexes d [⟨c, false⟩] [t] := by
  intro rest
  grind [lex]

theorem Lexes.group {d : Dialect} {syms : List Sym} {ts : List Token} (h : Lexes d syms ts)
    (hhead : syms.head? ≠ some ⟨'?', false⟩) :
    Lexes d (⟨'(', false⟩ :: syms ++ [⟨')', false⟩]) (.opening :: ts ++ [.closing]) := by
  have hclosing : Lexes d [⟨')', false⟩] [.closing] := lexes_plain d (by decide) fun _ => rfl
  have hopen : ∀ rest, lex d none (⟨'(', false⟩ :: (syms ++ [⟨')', false⟩] ++ rest)) =
      (lex d none (syms ++ [⟨')', false⟩] ++ rest)).map (Token.opening :: ·) := by
    intro rest
    have hnext : (syms ++ [(⟨')', false⟩ : Sym)] ++ rest).head? ≠ some ⟨'?', false⟩ := by
      cases syms with
      | nil => grind
      | cons s syms => exact hhead
    grind [lex, token]
  intro rest
  show lex d none (⟨'(', false⟩ :: (syms ++ [⟨')', false⟩] ++ rest)) = _
  rw [hopen, h.append hclosing, Option.map_map]
  rfl

/-! ## Bracket expressions -/

/-- What both engines read as one range: a character, an escaped character, or a range. -/
inductive Item
  | plain (c : Char)
  | escaped (c : Char)
  | range (lo hi : Char)
  deriving DecidableEq

def Item.syms : Item → List Sym
  | plain c => [⟨c, false⟩]
  | escaped c => [⟨c, true⟩]
  | range lo hi => [⟨lo, false⟩, ⟨'-', false⟩, ⟨hi, false⟩]

def Item.span : Item → Char × Char
  | plain c => (c, c)
  | escaped c => (c, c)
  | range lo hi => (lo, hi)

def ordinary (c : Char) : Bool :=
  decide (c ≠ '\\') && decide (c ≠ '[') && decide (c ≠ ']') && decide (c ≠ '^') && decide (c ≠ '-')

def Item.Written : Item → Prop
  | plain c => ordinary c = true
  | escaped c => punctuation c = true
  | range lo hi => ordinary lo = true ∧ ordinary hi = true ∧ lo.toNat ≤ hi.toNat

def Bracket.settled (b : Bracket) : CharClass :=
  match b.pending with
  | .char c => b.ranges ++ [(c, c)]
  | _ => b.ranges

/-- A range has been read, and no range is open. -/
def Bracket.Between (b : Bracket) : Prop :=
  match b.pending with
  | .first => False
  | .dash _ => False
  | _ => True

/-- A bracket expression at its start, or between two items. -/
def Bracket.Ready (b : Bracket) : Prop := b = {} ∨ b.Between

theorem Bracket.put_of_ready {b : Bracket} (h : b.Ready) (c : Char) : b.put c = some ⟨b.settled, .char c⟩ := by
  obtain ⟨ranges, pending⟩ := b
  cases pending with
  | first => rfl
  | fresh => rfl
  | char lo => rfl
  | dash lo =>
    rcases h with h | h
    · exact absurd (Bracket.mk.inj h).2 nofun
    · exact h.elim

theorem Bracket.close_of_between {b : Bracket} (h : b.Between) : b.close d = some b.settled := by
  obtain ⟨ranges, pending⟩ := b
  cases pending with
  | first => exact h.elim
  | fresh => rfl
  | char lo => rfl
  | dash lo => exact h.elim

theorem lex_ordinary (b : Bracket) {c : Char} (hc : ordinary c = true) (rest : List Sym) :
    lex d (some b) (⟨c, false⟩ :: rest) = (b.put c).bind fun b => lex d (some b) rest := by
  grind [ordinary, lex, Bracket.read]

theorem lex_item {b : Bracket} (hb : b.Ready) {item : Item} (hitem : item.Written) :
    ∃ b' : Bracket, b'.Between ∧ b'.settled = b.settled ++ [item.span] ∧
      ∀ rest, lex d (some b) (item.syms ++ rest) = lex d (some b') rest := by
  have hput := Bracket.put_of_ready hb
  cases item with
  | plain c =>
    refine ⟨⟨b.settled, .char c⟩, trivial, rfl, fun rest => ?_⟩
    show lex d (some b) (⟨c, false⟩ :: rest) = _
    rw [lex_ordinary d b hitem, hput, Option.bind_some]
  | escaped c =>
    refine ⟨⟨b.settled, .char c⟩, trivial, rfl, fun rest => ?_⟩
    show lex d (some b) (⟨c, true⟩ :: rest) = _
    rw [lex, if_pos rfl, hput, Option.bind_some]
  | range lo hi =>
    obtain ⟨hlo, hhi, hle⟩ := hitem
    refine ⟨⟨b.settled ++ [(lo, hi)], .fresh⟩, trivial, rfl, fun rest => ?_⟩
    show lex d (some b) (⟨lo, false⟩ :: ⟨'-', false⟩ :: ⟨hi, false⟩ :: rest) = _
    rw [lex_ordinary d b hlo, hput, Option.bind_some]
    have hdash : lex d (some ⟨b.settled, .char lo⟩) (⟨'-', false⟩ :: ⟨hi, false⟩ :: rest) =
        lex d (some ⟨b.settled, .dash lo⟩) (⟨hi, false⟩ :: rest) := by
      rw [lex, if_neg Bool.false_ne_true, if_neg (by simp), Bracket.read, if_neg (by simp),
        if_neg (by simp), if_pos rfl]
      rfl
    grind [Bracket.put, lex_ordinary]

theorem lex_items {items : List Item} (hitems : ∀ item ∈ items, item.Written) {b : Bracket} (hb : b.Between)
    (rest : List Sym) :
    lex d (some b) (items.flatMap Item.syms ++ ⟨']', false⟩ :: rest) =
      (lex d none rest).map (Token.cls (b.settled ++ items.map Item.span) :: ·) := by
  induction items generalizing b with
  | nil => grind [Bracket.Between, lex, Bracket.close_of_between]
  | cons item items ih =>
    obtain ⟨b', hb', hsettled, hlex⟩ := lex_item d (.inr hb) (hitems item mem_cons_self)
    grind

def bracketSyms (items : List Item) : List Sym := ⟨'[', false⟩ :: items.flatMap Item.syms ++ [⟨']', false⟩]

theorem lexes_bracket {items : List Item} (hne : items ≠ []) (hitems : ∀ item ∈ items, item.Written) :
    Lexes d (bracketSyms items) [.cls (items.map Item.span)] := by
  intro rest
  obtain ⟨item, items, rfl⟩ := exists_cons_of_ne_nil hne
  obtain ⟨b, hb, hsettled, hlex⟩ := lex_item d (.inl rfl) (hitems item mem_cons_self)
  have hopen : lex d none (bracketSyms (item :: items) ++ rest) =
      lex d (some {}) (item.syms ++ (items.flatMap Item.syms ++ ⟨']', false⟩ :: rest)) := by
    grind [bracketSyms, lex]
  rw [hopen, hlex, lex_items d (fun i hi => hitems i (mem_cons_of_mem _ hi)) hb, hsettled]
  rfl

/-! ## Tokens and factors -/

/-- Wherever they stand, the tokens are these factors. -/
def Parses (ts : List Token) (rs : List Regex) : Prop :=
  ∀ stack (f : Frame) rest, parse stack f (ts ++ rest) = parse stack { f with factors := f.factors ++ rs } rest

theorem Parses.append {ts ts' : List Token} {rs rs' : List Regex} (h : Parses ts rs)
    (h' : Parses ts' rs') : Parses (ts ++ ts') (rs ++ rs') := by
  intro stack f rest
  rw [append_assoc, h, h']
  dsimp only
  rw [append_assoc]

theorem parses_nil : Parses [] [] := by
  intro stack f rest
  rw [append_nil]
  rfl

theorem parses_cls (ranges : CharClass) : Parses [.cls ranges] [.cls ranges] := by
  intro stack f rest
  cases stack <;> rfl

theorem parses_bol : Parses [.bol] [.bol] := by
  intro stack f rest
  cases stack <;> rfl

theorem parses_eol : Parses [.eol] [.eol] := by
  intro stack f rest
  cases stack <;> rfl

theorem Parses.star {ts : List Token} {r : Regex} (h : Parses ts [r]) (hr : repeatable r = true) :
    Parses (ts ++ [.star]) [.star r] := by
  intro stack f rest
  have hstar : Frame.star { f with factors := f.factors ++ [r] } =
      some { f with factors := f.factors ++ [.star r] } := by grind [Frame.star]
  rw [append_assoc, h]
  grind [parse]

theorem parse_alternatives {branches : List (List Token × List Regex)} (hne : branches ≠ [])
    (h : ∀ b ∈ branches, Parses b.1 b.2) (stack : List Frame) (g : Frame) (before : List Regex)
    (rest : List Token) :
    parse (g :: stack) ⟨before, []⟩ ([Token.bar].intercalate (branches.map Prod.fst) ++ .closing :: rest) =
      parse stack (g.push (anyOf (before ++ branches.map fun b => seq b.2))) rest := by
  induction branches generalizing before with
  | nil => exact absurd rfl hne
  | cons b branches ih =>
    have hb := h b mem_cons_self
    cases branches with
    | nil =>
      rw [map_singleton, intercalate_singleton, hb, parse]
      rfl
    | cons b' branches =>
      rw [map_cons, map_cons, intercalate_cons_cons, append_assoc, append_assoc, hb]
      show parse (g :: stack) _ (.bar :: _) = _
      rw [parse]
      show parse (g :: stack) ⟨before ++ [seq ([] ++ b.2)], []⟩ _ = _
      rw [nil_append]
      have hrest := ih (cons_ne_nil _ _) (fun c hc => h c (mem_cons_of_mem _ hc)) (before ++ [seq b.2])
      rw [append_assoc] at hrest
      exact hrest

theorem parses_group {branches : List (List Token × List Regex)} (hne : branches ≠ [])
    (h : ∀ b ∈ branches, Parses b.1 b.2) :
    Parses (.opening :: [Token.bar].intercalate (branches.map Prod.fst) ++ [.closing])
      [anyOf (branches.map fun b => seq b.2)] := by
  intro stack f rest
  have hopen : ∀ ts, parse stack f (.opening :: ts) = parse (f :: stack) {} ts := by
    intro ts
    cases stack <;> rfl
  rw [append_assoc]
  show parse stack f (.opening :: ([Token.bar].intercalate (branches.map Prod.fst) ++ .closing :: rest)) = _
  rw [hopen]
  exact parse_alternatives hne h stack f [] rest

/-! ## Pieces in one dialect -/

def Reads (d : Dialect) (syms : List Sym) (rs : List Regex) : Prop := ∃ ts, Lexes d syms ts ∧ Parses ts rs

theorem Reads.append {d : Dialect} {syms syms' : List Sym} {rs rs' : List Regex} (h : Reads d syms rs)
    (h' : Reads d syms' rs') : Reads d (syms ++ syms') (rs ++ rs') := by
  obtain ⟨ts, hlex, hparse⟩ := h
  obtain ⟨ts', hlex', hparse'⟩ := h'
  exact ⟨ts ++ ts', hlex.append hlex', hparse.append hparse'⟩

theorem reads_nil : Reads d [] [] := ⟨[], lexes_nil d, parses_nil⟩

theorem reads_bol : Reads d [⟨'^', false⟩] [.bol] := ⟨_, lexes_plain d (by decide) fun _ => rfl, parses_bol⟩

theorem reads_eol : Reads d [⟨'$', false⟩] [.eol] := ⟨_, lexes_plain d (by decide) fun _ => rfl, parses_eol⟩

theorem reads_escaped (c : Char) : Reads d [⟨c, true⟩] [.cls [(c, c)]] := ⟨_, lexes_escaped d c, parses_cls _⟩

/-- The characters that are special outside brackets: those that `regexp.QuoteMeta` escapes. -/
def special (c : Char) : Bool :=
  decide (c ∈ ['\\', '.', '+', '*', '?', '(', ')', '|', '[', ']', '\x7b', '\x7d', '^', '$'])

theorem reads_literal {c : Char} (hc : special c = false) : Reads d [⟨c, false⟩] [.cls [(c, c)]] := by
  have hne : ∀ e, special e = true → c ≠ e := by grind
  refine ⟨_, lexes_plain d (hne '[' rfl) fun next => ?_, parses_cls _⟩
  rw [token, if_neg (hne '(' rfl), if_neg (hne ')' rfl), if_neg (hne '|' rfl), if_neg (hne '*' rfl),
    if_neg (hne '^' rfl), if_neg (hne '$' rfl), if_neg]
  rintro (h | h | h | h)
  · exact hne '.' rfl h
  · exact hne '+' rfl h
  · exact hne '?' rfl h
  · exact hne '\x7b' rfl h

theorem reads_bracket {items : List Item} (hne : items ≠ []) (hitems : ∀ item ∈ items, item.Written) :
    Reads d (bracketSyms items) [.cls (items.map Item.span)] :=
  ⟨_, lexes_bracket d hne hitems, parses_cls _⟩

theorem Reads.star {d : Dialect} {syms : List Sym} {r : Regex} (h : Reads d syms [r])
    (hr : repeatable r = true) : Reads d (syms ++ [⟨'*', false⟩]) [.star r] := by
  obtain ⟨ts, hlex, hparse⟩ := h
  exact ⟨_, hlex.append (lexes_plain d (by decide) fun _ => rfl), hparse.star hr⟩

theorem exists_branches {d : Dialect} {branches : List (List Sym × List Regex)} (h : ∀ b ∈ branches, Reads d b.1 b.2) :
    ∃ tokens : List (List Token × List Regex),
      Lexes d ([⟨'|', false⟩].intercalate (branches.map Prod.fst)) ([Token.bar].intercalate (tokens.map Prod.fst)) ∧
      (∀ t ∈ tokens, Parses t.1 t.2) ∧ tokens.map Prod.snd = branches.map Prod.snd := by
  induction branches with
  | nil => exact ⟨[], lexes_nil d, nofun, rfl⟩
  | cons b branches ih =>
    obtain ⟨ts, hlex, hparse⟩ := h b mem_cons_self
    obtain ⟨tokens, hlexes, hparses, hsame⟩ := ih fun c hc => h c (mem_cons_of_mem _ hc)
    refine ⟨(ts, b.2) :: tokens, ?_, ?_, ?_⟩
    · cases branches with
      | nil => grind [map_eq_nil_iff, intercalate_singleton]
      | cons b' branches =>
        obtain ⟨t', tokens, rfl⟩ : ∃ t' rest, tokens = t' :: rest := exists_cons_of_ne_nil fun hnil => by
            rw [hnil] at hsame
            exact nomatch hsame
        rw [map_cons, map_cons, intercalate_cons_cons, map_cons, map_cons, intercalate_cons_cons]
        have hbar : Lexes d [⟨'|', false⟩] [.bar] := lexes_plain d (by decide) fun _ => rfl
        exact (hlex.append hbar).append hlexes
    · grind
    · rw [map_cons, map_cons, hsame]

def groupSyms (branches : List (List Sym)) : List Sym :=
  ⟨'(', false⟩ :: [⟨'|', false⟩].intercalate branches ++ [⟨')', false⟩]

theorem reads_group {d : Dialect} {branches : List (List Sym × List Regex)} (hne : branches ≠ [])
    (h : ∀ b ∈ branches, Reads d b.1 b.2)
    (hhead : ([⟨'|', false⟩].intercalate (branches.map Prod.fst)).head? ≠ some (⟨'?', false⟩ : Sym)) :
    Reads d (groupSyms (branches.map Prod.fst)) [anyOf (branches.map fun b => seq b.2)] := by
  obtain ⟨tokens, hlex, hparse, hsame⟩ := exists_branches h
  have htokens : tokens ≠ [] := by grind [map_eq_nil_iff]
  refine ⟨_, hlex.group hhead, ?_⟩
  have hregex : (tokens.map fun t => seq t.2) = branches.map fun b => seq b.2 := by
    have := congrArg (List.map seq) hsame
    rwa [map_map, map_map] at this
  rw [← hregex]
  exact parses_group htokens hparse

theorem reads_intercalate {d : Dialect} {sep : List Sym} {rsep : List Regex} (hsep : Reads d sep rsep)
    {parts : List (List Sym × List Regex)} (h : ∀ p ∈ parts, Reads d p.1 p.2) :
    Reads d (sep.intercalate (parts.map Prod.fst)) (rsep.intercalate (parts.map Prod.snd)) := by
  induction parts with
  | nil => exact reads_nil d
  | cons p parts ih =>
    have hp := h p mem_cons_self
    cases parts with
    | nil => grind [intercalate_singleton]
    | cons q parts =>
      rw [map_cons, map_cons, intercalate_cons_cons, map_cons, map_cons, intercalate_cons_cons]
      exact (hp.append hsep).append (ih fun r hr => h r (mem_cons_of_mem _ hr))

theorem compile_text {d : Dialect} {syms : List Sym} {rs : List Regex} (h : Reads d syms rs)
    (hwritten : ∀ s ∈ syms, s.Written) : compile d (syms.flatMap Sym.text) = some (seq rs) := by
  obtain ⟨ts, hlex, hparse⟩ := h
  have htokens : lex d none syms = some ts := by
    have hall := hlex []
    rw [append_nil] at hall
    rw [hall]
    show some (ts ++ []) = _
    rw [append_nil]
  have hfactors : parse [] {} ts = some (seq rs) := by
    have hall := hparse [] {} []
    rw [append_nil] at hall
    exact hall
  grind [compile, unescape_text]

/-! ## Pieces in both dialects -/

/-- Wherever it stands outside brackets, both engines read the text as these factors. -/
def Shared (text : List Char) (rs : List Regex) : Prop :=
  ∃ syms : List Sym, text = syms.flatMap Sym.text ∧ (∀ s ∈ syms, s.Written) ∧
    -- so that a parenthesis may stand before it
    syms.head? ≠ some ⟨'?', false⟩ ∧ ∀ d, Reads d syms rs

theorem Shared.compile {text : List Char} {rs : List Regex} (h : Shared text rs) (d : Dialect) :
    Regex.compile d text = some (seq rs) := by
  obtain ⟨syms, rfl, hwritten, _, hreads⟩ := h
  exact compile_text (hreads d) hwritten

theorem Shared.append {text text' : List Char} {rs rs' : List Regex} (h : Shared text rs)
    (h' : Shared text' rs') : Shared (text ++ text') (rs ++ rs') := by
  obtain ⟨syms, rfl, hwritten, hhead, hreads⟩ := h
  obtain ⟨syms', rfl, hwritten', hhead', hreads'⟩ := h'
  refine ⟨syms ++ syms', flatMap_append.symm, fun s hs => ?_, ?_, fun d => (hreads d).append (hreads' d)⟩
  · grind
  · cases syms with
    | nil => exact hhead'
    | cons s syms => exact hhead

theorem shared_sym {s : Sym} {rs : List Regex} (hwritten : s.Written) (hhead : s ≠ ⟨'?', false⟩)
    (h : ∀ d, Reads d [s] rs) : Shared s.text rs :=
  ⟨[s], (flatMap_singleton _ _).symm, fun _ ht => mem_singleton.mp ht ▸ hwritten,
    fun heq => hhead (Option.some.inj heq), h⟩

theorem shared_bol : Shared ['^'] [.bol] :=
  shared_sym (s := ⟨'^', false⟩) (show '^' ≠ '\\' by decide) (by decide) reads_bol

theorem shared_eol : Shared ['$'] [.eol] :=
  shared_sym (s := ⟨'$', false⟩) (show '$' ≠ '\\' by decide) (by decide) reads_eol

def quoteMeta (text : List Char) : List Char := text.flatMap fun c => if special c then ['\\', c] else [c]

theorem punctuation_of_special {c : Char} (h : special c = true) : punctuation c = true := by
  have hall : ['\\', '.', '+', '*', '?', '(', ')', '|', '[', ']', '\x7b', '\x7d', '^', '$'].all
      punctuation = true := by decide
  exact all_eq_true.mp hall c (of_decide_eq_true h)

theorem ne_of_not_special {c e : Char} (hc : special c = false) (he : special e = true) : c ≠ e := by
  rintro rfl
  rw [hc] at he
  exact Bool.false_ne_true he

theorem shared_quoteMeta (c : Char) : Shared (quoteMeta [c]) [.cls [(c, c)]] := by
  cases hc : special c with
  | true =>
    have h := shared_sym (s := ⟨c, true⟩) (punctuation_of_special hc)
      (fun heq => nomatch (Sym.mk.inj heq).2) fun d => reads_escaped d c
    simpa [quoteMeta, Sym.text, hc] using h
  | false =>
    have h := shared_sym (s := ⟨c, false⟩) (ne_of_not_special hc rfl)
      (fun heq => ne_of_not_special hc rfl (Sym.mk.inj heq).1) fun d => reads_literal d hc
    simpa [quoteMeta, Sym.text, hc] using h

def Item.text : Item → List Char
  | plain c => [c]
  | escaped c => ['\\', c]
  | range lo hi => [lo, '-', hi]

theorem Item.flatMap_text (item : Item) : item.syms.flatMap Sym.text = item.text := by cases item <;> rfl

theorem Item.written_syms {item : Item} (h : item.Written) : ∀ s ∈ item.syms, s.Written := by
  have hordinary : ∀ {c}, ordinary c = true → c ≠ '\\' := by grind [ordinary]
  intro s hs
  cases item with
  | plain c =>
    rw [mem_singleton.mp hs]
    exact hordinary h
  | escaped c =>
    rw [mem_singleton.mp hs]
    exact h
  | range lo hi =>
    obtain ⟨hlo, hhi, _⟩ := h
    rcases mem_cons.mp hs with rfl | hs
    · exact hordinary hlo
    rcases mem_cons.mp hs with rfl | hs
    · exact show '-' ≠ '\\' by decide
    · rw [mem_singleton.mp hs]
      exact hordinary hhi

theorem shared_bracket (items : List Item) (hne : items ≠ []) (hitems : ∀ item ∈ items, item.Written) :
    Shared ('[' :: items.flatMap Item.text ++ [']']) [.cls (items.map Item.span)] := by
  refine ⟨bracketSyms items, ?_, fun s hs => ?_, ?_, fun d => reads_bracket d hne hitems⟩
  · rw [bracketSyms, flatMap_append, flatMap_cons, flatMap_assoc]
    simp only [Item.flatMap_text]
    rfl
  · rcases mem_append.mp hs with hs | hs
    · rcases mem_cons.mp hs with rfl | hs
      · exact show '[' ≠ '\\' by decide
      · grind [Item.written_syms]
    · rw [mem_singleton.mp hs]
      exact show ']' ≠ '\\' by decide
  · exact fun heq => absurd (Sym.mk.inj (Option.some.inj heq)).1 (by decide)

theorem Shared.star {text : List Char} {r : Regex} (h : Shared text [r]) (hr : repeatable r = true) :
    Shared (text ++ ['*']) [.star r] := by
  obtain ⟨syms, rfl, hwritten, hhead, hreads⟩ := h
  refine ⟨syms ++ [⟨'*', false⟩], ?_, fun s hs => ?_, ?_, fun d => (hreads d).star hr⟩
  · rw [flatMap_append]
    rfl
  · rcases mem_append.mp hs with hs | hs
    · exact hwritten s hs
    · rw [mem_singleton.mp hs]
      exact show '*' ≠ '\\' by decide
  · cases syms with
    | nil => grind
    | cons s syms => exact hhead

theorem exists_parts {parts : List (List Char × List Regex)} (h : ∀ p ∈ parts, Shared p.1 p.2) :
    ∃ syms : List (List Sym × List Regex), parts.map Prod.fst = syms.map (fun p => p.1.flatMap Sym.text) ∧
      parts.map Prod.snd = syms.map Prod.snd ∧
      ∀ p ∈ syms, (∀ s ∈ p.1, s.Written) ∧ p.1.head? ≠ some ⟨'?', false⟩ ∧ ∀ d, Reads d p.1 p.2 := by
  induction parts with
  | nil => exact ⟨[], rfl, rfl, nofun⟩
  | cons p parts ih =>
    obtain ⟨syms, htext, hrest⟩ := h p mem_cons_self
    obtain ⟨others, htexts, hfactors, hothers⟩ := ih fun q hq => h q (mem_cons_of_mem _ hq)
    refine ⟨(syms, p.2) :: others, ?_, ?_, fun q hq => ?_⟩
    · rw [map_cons, map_cons, htexts, htext]
    · rw [map_cons, map_cons, hfactors]
    · grind

theorem flatMap_intercalate {α β : Type} (f : α → List β) (sep : List α) (parts : List (List α)) :
    (sep.intercalate parts).flatMap f = (sep.flatMap f).intercalate (parts.map fun p => p.flatMap f) := by
  induction parts with
  | nil => rfl
  | cons p parts ih =>
    cases parts with
    | nil => grind [intercalate_singleton]
    | cons q parts => grind [intercalate_cons_cons]

theorem mem_of_mem_intercalate {α : Type} {sep : List α} {parts : List (List α)} {x : α}
    (h : x ∈ sep.intercalate parts) : x ∈ sep ∨ ∃ p ∈ parts, x ∈ p := by
  induction parts with
  | nil => exact nomatch h
  | cons p parts ih =>
    cases parts with
    | nil => grind [intercalate_singleton]
    | cons q parts => grind [intercalate_cons_cons]

theorem head?_intercalate_ne {α : Type} {sep : List α} {parts : List (List α)} {x : α}
    (hsep : sep.head? ≠ some x) (hne : sep ≠ []) (hparts : ∀ p ∈ parts, p.head? ≠ some x) :
    (sep.intercalate parts).head? ≠ some x := by
  cases parts with
  | nil => exact nofun
  | cons p parts =>
    have hp := hparts p mem_cons_self
    cases parts with
    | nil =>
      rw [intercalate_singleton]
      exact hp
    | cons q parts =>
      rw [intercalate_cons_cons]
      cases p with
      | cons y p => exact hp
      | nil =>
        cases sep with
        | nil => exact absurd rfl hne
        | cons y sep => exact hsep

theorem shared_intercalate {sep : List Char} {rsep : List Regex} (hsep : Shared sep rsep)
    (hne : sep ≠ []) (parts : List (List Char × List Regex)) (h : ∀ p ∈ parts, Shared p.1 p.2) :
    Shared (sep.intercalate (parts.map Prod.fst)) (rsep.intercalate (parts.map Prod.snd)) := by
  obtain ⟨between, rfl, hwritten, hhead, hreads⟩ := hsep
  obtain ⟨syms, htexts, hfactors, hsyms⟩ := exists_parts h
  refine ⟨between.intercalate (syms.map Prod.fst), ?_, fun s hs => ?_, ?_, fun d => ?_⟩
  · rw [htexts, flatMap_intercalate, map_map]
    rfl
  · rcases mem_of_mem_intercalate hs with hs | ⟨p, hp, hs⟩
    · exact hwritten s hs
    · obtain ⟨q, hq, rfl⟩ := mem_map.mp hp
      exact (hsyms q hq).1 s hs
  · refine head?_intercalate_ne hhead (fun hnil => hne (by rw [hnil]; rfl)) fun p hp => ?_
    grind
  · rw [hfactors]
    exact reads_intercalate (hreads d) fun p hp => (hsyms p hp).2.2 d

theorem shared_group (branches : List (List Char × List Regex)) (hne : branches ≠ [])
    (h : ∀ b ∈ branches, Shared b.1 b.2) :
    Shared ('(' :: ['|'].intercalate (branches.map Prod.fst) ++ [')']) [anyOf (branches.map fun b => seq b.2)] := by
  obtain ⟨syms, htexts, hfactors, hsyms⟩ := exists_parts h
  have hfirst : ([⟨'|', false⟩].intercalate (syms.map Prod.fst)).head? ≠ some (⟨'?', false⟩ : Sym) := by
    refine head?_intercalate_ne (by decide) (cons_ne_nil _ _) fun p hp => ?_
    grind
  have hregex : (branches.map fun b => seq b.2) = syms.map fun p => seq p.2 := by
    have := congrArg (List.map seq) hfactors
    rwa [map_map, map_map] at this
  refine ⟨groupSyms (syms.map Prod.fst), ?_, fun s hs => ?_, ?_, fun d => ?_⟩
  · rw [htexts, groupSyms, flatMap_append, flatMap_cons, flatMap_intercalate, map_map]
    rfl
  · have hplain : ∀ c : Char, c ≠ '\\' → Sym.Written ⟨c, false⟩ := fun _ hc => hc
    rcases mem_append.mp hs with hs | hs
    · rcases mem_cons.mp hs with rfl | hs
      · exact hplain _ (by decide)
      · rcases mem_of_mem_intercalate hs with hs | ⟨p, hp, hs⟩
        · grind
        · obtain ⟨q, hq, rfl⟩ := mem_map.mp hp
          exact (hsyms q hq).1 s hs
    · grind
  · exact fun heq => absurd (Sym.mk.inj (Option.some.inj heq)).1 (by decide)
  · rw [hregex]
    refine reads_group ?_ (fun p hp => (hsyms p hp).2.2 d) hfirst
    rintro rfl
    exact hne (map_eq_nil_iff.mp htexts)

end Regex

end BitAgent.Lib
