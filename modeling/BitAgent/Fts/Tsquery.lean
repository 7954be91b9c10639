/-
# Fts.Tsquery — from a search text to a tsquery

`internal/database/fts/tsquery.go`. A search text is read into tokens and written as a `tsquery`: words and quoted
phrases, with `&` between them unless the user wrote `|` or `.`, `!`, `:*` and groups. Whatever the user types, the
result is empty or a query that Postgres reads (`appQueryToTsquery_valid`). A star is never written behind a group:
after one, the next token is its closing parenthesis.
-/
import BitAgent.Fts.Tsvector
import BitAgent.Lib.Tsquery

namespace BitAgent.Fts

open Lib Lib.GoString List
open Lib.Tsquery (Valid Spells Grammar Parses scan wordByte BinOp)

/-! ## Tokens -/

/-- `Operator`: the constants of the type, and its zero value. -/
inductive Operator where
  | unset
  | and
  | or
  | followedBy
  deriving DecidableEq

/-- `TokenValue`, without the positions, which nothing reads. -/
inductive TokenValue where
  | quoted (value : GoString)
  | openParens
  | closeParens
  | operator (op : Operator)
  | negation
  | phrase (value : GoString)
  | wildcard
  deriving DecidableEq

namespace Unicode

variable (u : Unicode)

theorem length_tail_lt {left : List Char} {n : Nat} (h : left.length ≤ n) (hn : 0 < n) : left.tail.length < n := by
  rw [length_tail]
  omega

def readQueryToken (runes : List Char) : Option (TokenValue × List Char) :=
  match runes with
  | [] => none
  | ch :: rest =>
    if ch = '(' then some (.openParens, rest)
    else if ch = ')' then some (.closeParens, rest)
    else if ch = '&' then some (.operator .and, rest)
    else if ch = '|' then some (.operator .or, rest)
    else if ch = '.' then some (.operator .followedBy, rest)
    else if ch = '!' then some (.negation, rest)
    else if ch = '*' then some (.wildcard, rest)
    else
      -- the error is dropped: a quote that does not close quotes the rest, two quotes quote nothing
      let quoted := readQuotedString '"' (ch :: rest)
      if quoted.1 ≠ [] then some (.quoted quoted.1, quoted.2.1)
      else
        let phrase := quoted.2.1.takeWhile u.isWordChar
        if phrase ≠ [] then some (.phrase (encode phrase), quoted.2.1.dropWhile u.isWordChar)
        else readQueryToken quoted.2.1.tail
termination_by runes.length
decreasing_by exact length_tail_lt (readQuotedString_length_le '"' (ch :: rest)) (Nat.succ_pos _)

theorem readQueryToken_length {runes left : List Char} {token : TokenValue}
    (h : u.readQueryToken runes = some (token, left)) : left.length < runes.length := by
  fun_induction readQueryToken u runes with
  | case1 => cases h
  | case9 ch rest _ _ _ _ _ _ _ quoted hquoted =>
    cases h
    -- a string that is not empty had an opening quote
    have hopen : ch = '"' := by
      by_contra hne
      refine hquoted ?_
      show (readQuotedString '"' (ch :: rest)).1 = []
      rw [readQuotedString, if_neg hne]
    subst hopen
    exact Nat.lt_succ_of_le (readQuotedLoop_length '"' [] rest)
  | case10 ch rest _ _ _ _ _ _ _ quoted _ phrase hphrase =>
    cases h
    exact Nat.lt_of_lt_of_le (length_dropWhile_lt hphrase) (readQuotedString_length_le '"' (ch :: rest))
  | case11 ch rest _ _ _ _ _ _ _ quoted _ phrase _ ih =>
    exact Nat.lt_trans (ih h) (length_tail_lt (readQuotedString_length_le '"' (ch :: rest)) (Nat.succ_pos _))
  | _ =>
    cases h
    exact Nat.lt_succ_self _

/-- The loop of `AppQueryToTsquery`. -/
def readQueryTokens (runes : List Char) : List TokenValue :=
  match _ : u.readQueryToken runes with
  | none => []
  | some (token, left) => token :: readQueryTokens left
termination_by runes.length
decreasing_by exact u.readQueryToken_length ‹_›

end Unicode

/-! ## The query -/

def parensTokens : Nat → List TokenValue → List TokenValue
  | _, [] => []
  | depth, token :: rest =>
    if token = .openParens then token :: parensTokens (depth + 1) rest
    else if token = .closeParens then if depth - 1 = 0 then [] else token :: parensTokens (depth - 1) rest
    else token :: parensTokens depth rest

theorem length_parensTokens (depth : Nat) (tokens : List TokenValue) :
    (parensTokens depth tokens).length ≤ tokens.length := by
  fun_induction parensTokens depth tokens with
  | case1 => exact Nat.le_refl _
  | case3 => exact Nat.zero_le _
  | _ => exact Nat.succ_le_succ ‹_›

def operatorText : Operator → GoString
  | .or => .ofString "|"
  | .followedBy => .ofString "<->"
  | _ => .ofString "&"

/-- The parts in front of an expression that is added. -/
def addOperators (parts : List GoString) (operator : Operator) (negated : Bool) : List GoString :=
  let parts := if parts ≠ [] then parts ++ [operatorText operator] else parts
  if negated then parts ++ [.ofString "!"] else parts

/-- The closure `addExpr`: the parts, and the tokens after expression and star. -/
def addExpr (parts : List GoString) (operator : Operator) (negated : Bool) (expr : GoString)
    (rest : List TokenValue) : List GoString × List TokenValue :=
  let parts := addOperators parts operator negated
  match rest with
  | .wildcard :: rest => (parts ++ [expr ++ .ofString ":*"], rest)
  | _ => (parts ++ [expr], rest)

theorem length_addExpr (parts : List GoString) (operator : Operator) (negated : Bool) (expr : GoString)
    (rest : List TokenValue) : (addExpr parts operator negated expr rest).2.length ≤ rest.length := by
  unfold addExpr
  simp only
  split
  · exact Nat.le_succ _
  · exact Nat.le_refl _

def phraseExpr (words : List GoString) : GoString :=
  (GoString.ofString " <-> ").intercalate (words.map (quoteLexeme · false))

namespace Unicode

variable (u : Unicode)

def tokenExpr (token : TokenValue) : Option GoString :=
  match token with
  | .quoted value => if u.tokenizeFlat value = [] then none else some (phraseExpr (u.tokenizeFlat value))
  | .phrase value =>
    let phrases := ((u.tokenize value).filter fun phrase => decide (phrase ≠ [])).map phraseExpr
    if phrases = [] then none else some ((GoString.ofString " & ").intercalate phrases)
  | _ => none

/-- The loops of `appQueryTokensToTsquery`: the parts at the end. -/
def queryParts (parts : List GoString) (operator : Operator) (negated : Bool) (tokens : List TokenValue) :
    List GoString :=
  match tokens with
  | [] => parts
  | .operator op :: rest => queryParts parts op negated rest
  | .negation :: rest => queryParts parts operator true rest
  | .openParens :: rest =>
    let inner := parensTokens 1 rest
    let after := rest.drop inner.length
    let expr := [0x20].intercalate (queryParts [] .unset false inner)
    if expr ≠ [] then
      let added := addExpr parts operator negated (0x28 :: expr ++ [0x29]) after
      queryParts added.1 .unset false added.2
    else queryParts parts operator negated after
  | token :: rest =>
    match u.tokenExpr token with
    | some expr =>
      let added := addExpr parts operator negated expr rest
      queryParts added.1 .unset false added.2
    | none => queryParts parts operator negated rest
termination_by tokens.length
decreasing_by
  · exact Nat.lt_succ_self _
  · exact Nat.lt_succ_self _
  · exact Nat.lt_succ_of_le (length_parensTokens 1 rest)
  · exact Nat.lt_succ_of_le (Nat.le_trans (length_addExpr _ _ _ _ _) (List.drop_suffix _ _).length_le)
  · exact Nat.lt_succ_of_le (List.drop_suffix _ _).length_le
  · exact Nat.lt_succ_of_le (length_addExpr _ _ _ _ _)
  · exact Nat.lt_succ_self _

def appQueryTokensToTsquery (tokens : List TokenValue) : GoString :=
  [0x20].intercalate (u.queryParts [] .unset false tokens)

def appQueryToTsquery (str : GoString) : GoString := u.appQueryTokensToTsquery (u.readQueryTokens (decode str))

end Unicode

/-! ## Expressions -/

/-- An expression of words: a query, with a star behind it or not. -/
def Starrable (expr : GoString) : Prop := Valid expr ∧ Valid (expr ++ .ofString ":*")

variable {w : GoString}

theorem wordByte_of_not_nonWordChar (h : nonWordChar w = false) : ∀ b ∈ w, wordByte b = true := by
  have hchars : ∀ c ∈ decode w, (c.isAlphanum || c == '_') = true := by
    intro c hc
    have hany := any_eq_false.mp h c hc
    rwa [Bool.not_eq_true, Bool.not_eq_false'] at hany
  have hascii : ∀ c ∈ decode w, c.toNat < 0x80 := by
    intro c hc
    rcases Bool.or_eq_true_iff.mp (hchars c hc) with halnum | hunder
    · exact toNat_lt_of_isAlpha_or_isDigit halnum
    · rw [eq_of_beq hunder]
      decide
  intro b hb
  obtain ⟨hlow, hmem⟩ := mem_decode_of_ascii hascii hb
  have hbyte : ∀ n < 128, ((Char.ofNat n).isAlphanum || Char.ofNat n == '_') = true →
      wordByte (UInt8.ofNat n) = true := by decide
  have hword := hbyte b.toNat hlow (hchars _ hmem)
  rwa [UInt8.ofNat_toNat] at hword

theorem spells_quoteLexeme (hw : Unicode.Lexeme w) : Spells (quoteLexeme w false) w := by
  unfold quoteLexeme
  rw [Bool.false_or]
  split_ifs with hword
  · exact .quoted hw.1 hw.2
  · exact .plain hw.1 (wordByte_of_not_nonWordChar (Bool.eq_false_iff.mpr hword))

theorem starrable_quoteLexeme (hw : Unicode.Lexeme w) : Starrable (quoteLexeme w false) :=
  ⟨.of_spells (spells_quoteLexeme hw), .of_spells_star (spells_quoteLexeme hw)⟩

theorem Starrable.intercalate (o : BinOp) {exprs : List GoString} (hne : exprs ≠ [])
    (h : ∀ e ∈ exprs, Starrable e) : Starrable ((0x20 :: o.text ++ [0x20]).intercalate exprs) := by
  induction exprs with
  | nil => exact absurd rfl hne
  | cons e exprs ih =>
    cases exprs with
    | nil =>
      rw [intercalate_singleton]
      exact h e mem_cons_self
    | cons e' exprs =>
      obtain ⟨hrest, hstar⟩ := ih (cons_ne_nil _ _) fun x hx => h x (mem_cons_of_mem e hx)
      have hfirst := (h e mem_cons_self).1
      rw [intercalate_cons_cons]
      constructor
      · have hvalid := hfirst.binary o hrest
        simpa using hvalid
      · have hvalid := hfirst.binary o hstar
        simpa using hvalid

theorem starrable_phraseExpr {words : List GoString} (hne : words ≠ []) (h : ∀ w ∈ words, Unicode.Lexeme w) :
    Starrable (phraseExpr words) := by
  refine Starrable.intercalate .followedBy (by simpa using hne) fun e he => ?_
  obtain ⟨w, hw, rfl⟩ := mem_map.mp he
  exact starrable_quoteLexeme (h w hw)

variable {expr : GoString}

theorem starrable_tokenExpr (u : Unicode) {token : TokenValue} (h : u.tokenExpr token = some expr) :
    Starrable expr := by
  cases token with
  | quoted value =>
    simp only [Unicode.tokenExpr] at h
    split_ifs at h with hne
    cases h
    exact starrable_phraseExpr hne fun w hw => u.lexeme_of_mem_tokenizeFlat hw
  | phrase value =>
    simp only [Unicode.tokenExpr] at h
    split_ifs at h with hne
    cases h
    refine Starrable.intercalate .and hne fun e he => ?_
    obtain ⟨phrase, hphrase, rfl⟩ := mem_map.mp he
    obtain ⟨hnonempty, hlexemes⟩ := u.lexeme_of_mem_tokenize (mem_filter.mp hphrase).1
    exact starrable_phraseExpr hnonempty hlexemes
  | _ => cases h

/-! ## Every input -/

/-- The parts so far: nothing, or a query. -/
def GoodParts (parts : List GoString) : Prop := parts = [] ∨ Valid ([0x20].intercalate parts)

def Operator.toBinOp : Operator → BinOp
  | .or => .or
  | .followedBy => .followedBy
  | _ => .and

theorem operatorText_eq (op : Operator) : operatorText op = op.toBinOp.text := by cases op <;> rfl

variable {parts : List GoString}

theorem valid_addOperators (hparts : GoodParts parts) (op : Operator) (negated : Bool) (hexpr : Valid expr) :
    Valid ([0x20].intercalate (addOperators parts op negated ++ [expr])) := by
  -- first with the operator alone, for every expression
  have hop : ∀ {e : GoString}, Valid e →
      Valid ([0x20].intercalate ((if parts ≠ [] then parts ++ [operatorText op] else parts) ++ [e])) := by
    intro e he
    rcases hparts with rfl | hvalid
    · rw [if_neg (not_not.mpr rfl), nil_append, intercalate_singleton]
      exact he
    · by_cases hne : parts = []
      · rw [if_neg (not_not.mpr hne), hne, nil_append, intercalate_singleton]
        exact he
      · rw [if_pos hne, intercalate_concat (by simp), intercalate_concat hne, operatorText_eq, append_assoc,
          cons_append]
        exact hvalid.binary op.toBinOp he
  unfold addOperators
  cases negated with
  | false => exact hop hexpr
  | true =>
    have hneg := hop hexpr.negate
    simp only [if_true]
    generalize (if parts ≠ [] then parts ++ [operatorText op] else parts) = front at hneg ⊢
    by_cases hfront : front = []
    · subst hfront
      rw [nil_append, intercalate_singleton] at hneg
      show Valid ([0x20].intercalate [GoString.ofString "!", expr])
      rw [intercalate_cons_cons, intercalate_singleton]
      exact hneg
    · rw [intercalate_concat hfront] at hneg
      rw [intercalate_concat (by simp), intercalate_concat hfront, append_assoc]
      exact hneg

theorem goodParts_addExpr (hparts : GoodParts parts) (op : Operator) (negated : Bool) (hexpr : Valid expr)
    {rest : List TokenValue} (hstar : rest.head? = some .wildcard → Valid (expr ++ .ofString ":*")) :
    GoodParts (addExpr parts op negated expr rest).1 := by
  right
  unfold addExpr
  simp only
  split
  · exact valid_addOperators hparts op negated (hstar rfl)
  · exact valid_addOperators hparts op negated hexpr

theorem head?_drop_parensTokens {depth : Nat} (hdepth : 0 < depth) (tokens : List TokenValue) :
    (tokens.drop (parensTokens depth tokens).length).head? ≠ some .wildcard := by
  fun_induction parensTokens depth tokens with
  | case1 => rintro ⟨⟩
  | case2 depth rest ih => exact ih (Nat.succ_pos depth)
  | case3 => rintro ⟨⟩
  | case4 depth rest hzero _ ih => exact ih (Nat.pos_of_ne_zero hzero)
  | case5 depth token rest _ _ ih => exact ih hdepth

theorem goodParts_queryParts (u : Unicode) (hparts : GoodParts parts) (op : Operator) (negated : Bool)
    (tokens : List TokenValue) : GoodParts (u.queryParts parts op negated tokens) := by
  fun_induction Unicode.queryParts u parts op negated tokens with
  | case1 => exact hparts
  | case2 _ _ _ _ _ ih => exact ih hparts
  | case3 _ _ _ _ ih => exact ih hparts
  | case4 _ _ _ rest inner after expr hne added _ ihinner ih =>
    refine ih (goodParts_addExpr hparts _ _ ?_ fun h => absurd h (head?_drop_parensTokens Nat.one_pos rest))
    rcases ihinner (.inl rfl) with hnone | hvalid
    · exact absurd (congrArg [0x20].intercalate hnone) hne
    · exact hvalid.parens
  | case5 _ _ _ _ _ _ _ _ _ ih => exact ih hparts
  | case6 _ _ _ token rest _ _ _ expr hexpr added ih =>
    obtain ⟨hvalid, hstar⟩ := starrable_tokenExpr u hexpr
    exact ih (goodParts_addExpr hparts _ _ hvalid fun _ => hstar)
  | case7 _ _ _ _ _ _ _ _ _ ih => exact ih hparts

/-- **Every search text** becomes the empty text or a query that Postgres gives a meaning. -/
theorem appQueryToTsquery_valid (u : Unicode) (str : GoString) : u.appQueryToTsquery str = [] ∨
      ∃ tokens q, scan (u.appQueryToTsquery str) = some tokens ∧ Grammar .query tokens ∧ Parses .or tokens q := by
  rcases goodParts_queryParts u (.inl rfl) .unset false (u.readQueryTokens (decode str)) with hnone | hvalid
  · exact .inl (congrArg [0x20].intercalate hnone)
  · right
    obtain ⟨tokens, hreads, hgrammar⟩ := hvalid
    obtain ⟨q, hq⟩ := hgrammar.parses
    exact ⟨tokens, q, hreads.scan_eq, hgrammar, hq⟩

example : Unicode.ascii.appQueryToTsquery (.ofString "\"make me a \" . (sandwich | panini) !cheese mayo*") =
    .ofString "make <-> me <-> a <-> (sandwich | panini) & ! cheese & mayo:*" := by decide +kernel

end BitAgent.Fts
