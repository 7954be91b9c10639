/-
# Lib.Json — JSON texts as `encoding/json` reads them

A JSON value keeps the members of an object in their order and with repetitions, and the text of every value, which
`json.RawMessage` keeps. `parseValue` is the reader behind `Decoder.Decode`; `Decoder.token` walks the same text by
single tokens. Names and texts are decoded as `unquote` does. Errors carry no text: the reader of tokens
distinguishes the end of the input from the rest.
-/
import BitAgent.Lib.GoString

namespace BitAgent.Lib

/-! ## Values -/

/-- A JSON value. The texts of numbers, strings, arrays and objects are kept. -/
inductive Json where
  | null
  | bool (b : Bool)
  | number (text : GoString)
  | string (text value : GoString)
  | array (text : GoString) (items : List Json)
  | object (text : GoString) (members : List (GoString × Json))

namespace Json

def text : Json → GoString
  | null => GoString.ofString "null"
  | bool b => GoString.ofString (if b then "true" else "false")
  | number text => text
  | string text _ => text
  | array text _ => text
  | object text _ => text

def isLeaf : Json → Bool
  | array .. => false
  | object .. => false
  | _ => true

/-- **Induction over values**, with the hypothesis for all items and all members. -/
theorem induct {P : Json → Prop} (hnull : P null) (hbool : ∀ b, P (bool b))
    (hnumber : ∀ text, P (number text)) (hstring : ∀ text value, P (string text value))
    (harray : ∀ text items, (∀ x ∈ items, P x) → P (array text items))
    (hobject : ∀ text members, (∀ m ∈ members, P m.2) → P (object text members)) (v : Json) : P v :=
  @Json.rec P (fun items => ∀ x ∈ items, P x) (fun members => ∀ m ∈ members, P m.2) (fun m => P m.2)
    hnull hbool hnumber hstring harray hobject
    (fun _ h => absurd h List.not_mem_nil)
    (fun _ _ hx hxs => List.forall_mem_cons.mpr ⟨hx, hxs⟩)
    (fun _ h => absurd h List.not_mem_nil)
    (fun _ _ hm hms => List.forall_mem_cons.mpr ⟨hm, hms⟩)
    (fun _ _ h => h) v

end Json

namespace JsonText

/-! ## Strings -/

/-- The bytes that JSON gives a meaning. -/
def quote : UInt8 := 0x22

def backslash : UInt8 := 0x5C
def comma : UInt8 := 0x2C
def colon : UInt8 := 0x3A
def openBracket : UInt8 := 0x5B
def closeBracket : UInt8 := 0x5D
def openBrace : UInt8 := 0x7B
def closeBrace : UInt8 := 0x7D
def isSpace (b : UInt8) : Bool := decide (b = 0x20) || decide (b = 0x09) || decide (b = 0x0A) || decide (b = 0x0D)

def skipSpace (s : GoString) : GoString := s.dropWhile isSpace

def hexDigit (b : UInt8) : Option Nat :=
  if GoString.between 0x30 0x39 b then some (b.toNat - 0x30)
  else if GoString.between 0x61 0x66 b then some (b.toNat - 0x61 + 10)
  else if GoString.between 0x41 0x46 b then some (b.toNat - 0x41 + 10)
  else none

/-- `getu4`: the number of an escape with `u` at the front. -/
def getu4 : GoString → Option Nat
  | a :: u :: b :: c :: d :: e :: _ =>
    if a = backslash ∧ u = 0x75 then do
      let b ← hexDigit b
      let c ← hexDigit c
      let d ← hexDigit d
      let e ← hexDigit e
      return ((b * 16 + c) * 16 + d) * 16 + e
    else none
  | _ => none

/-- `utf8.AppendRune`, for code points up to U+10FFFF. -/
def encodeRune (r : Nat) : GoString :=
  if r < 0x80 then [r.toUInt8]
  else if r < 0x800 then [(0xC0 + r / 64).toUInt8, (0x80 + r % 64).toUInt8]
  else if r < 0x10000 then [(0xE0 + r / 4096).toUInt8, (0x80 + r / 64 % 64).toUInt8, (0x80 + r % 64).toUInt8]
  else
    [(0xF0 + r / 262144).toUInt8, (0x80 + r / 4096 % 64).toUInt8, (0x80 + r / 64 % 64).toUInt8, (0x80 + r % 64).toUInt8]

def replacement : GoString := encodeRune 0xFFFD

/-- `utf16.DecodeRune`: a surrogate pair is one code point, a surrogate alone is U+FFFD. -/
def surrogate (r : Nat) (rest : GoString) : GoString × GoString :=
  match getu4 rest with
  | some r' =>
    if r < 0xDC00 ∧ 0xDC00 ≤ r' ∧ r' < 0xE000 then
      (encodeRune ((r - 0xD800) * 1024 + (r' - 0xDC00) + 0x10000), rest.drop 6)
    else (replacement, rest)
  | none => (replacement, rest)

def unescape (s : GoString) : Option (GoString × GoString) :=
  match s with
  | _ :: e :: rest =>
    if e = quote ∨ e = backslash ∨ e = 0x2F then some ([e], rest)
    else if e = 0x62 then some ([0x08], rest)
    else if e = 0x66 then some ([0x0C], rest)
    else if e = 0x6E then some ([0x0A], rest)
    else if e = 0x72 then some ([0x0D], rest)
    else if e = 0x74 then some ([0x09], rest)
    else if e = 0x75 then
      (getu4 s).map fun r => if 0xD800 ≤ r ∧ r < 0xE000 then surrogate r (s.drop 6) else (encodeRune r, s.drop 6)
    else none
  | _ => none

def unquoteStep (s : GoString) : Option (GoString × GoString) :=
  match s with
  | [] => none
  | c :: rest =>
    if c = backslash then unescape s
    else if c < 0x20 then none
    else if c < 0x80 then some ([c], rest)
    else
      match GoString.decodeRune s with
      | some (r, rest) => some (encodeRune r, rest)
      | none => some (replacement, rest)

/-- A string of at most `n` steps, behind its opening quote: its value and the text after it. -/
def lexStringUpTo : Nat → GoString → Option (GoString × GoString)
  | _, [] => none
  | 0, _ :: _ => none
  | n + 1, c :: s =>
    if c = quote then some ([], s)
    else
      match unquoteStep (c :: s) with
      | none => none
      | some (out, rest) => (lexStringUpTo n rest).map fun r => (out ++ r.1, r.2)

/-- A string, from behind its opening quote. -/
def lexString (s : GoString) : Option (GoString × GoString) := lexStringUpTo s.length s

/-! ## Numbers and words -/

/-- `'0' ≤ b ≤ '9'`. -/
def isDigit (b : UInt8) : Bool := GoString.between 0x30 0x39 b

def lexDigits (s : GoString) : Option (GoString × GoString) :=
  if (s.takeWhile isDigit).isEmpty then none
  else some (s.takeWhile isDigit, s.dropWhile isDigit)

def lexInteger (s : GoString) : Option (GoString × GoString) :=
  match s with
  | 0x30 :: rest => some ([0x30], rest)
  | _ => lexDigits s

def lexSign (allowed : List UInt8) (s : GoString) : GoString × GoString :=
  match s with
  | c :: rest => if c ∈ allowed then ([c], rest) else ([], s)
  | [] => ([], [])

def lexFraction (s : GoString) : Option (GoString × GoString) :=
  match s with
  | 0x2E :: rest => (lexDigits rest).map fun r => (0x2E :: r.1, r.2)
  | _ => some ([], s)

def lexExponent (s : GoString) : Option (GoString × GoString) :=
  match s with
  | c :: rest =>
    if c = 0x65 ∨ c = 0x45 then
      let sign := lexSign [0x2B, 0x2D] rest
      (lexDigits sign.2).map fun r => (c :: sign.1 ++ r.1, r.2)
    else some ([], s)
  | [] => some ([], [])

def lexNumber (s : GoString) : Option (GoString × GoString) := do
  let sign := lexSign [0x2D] s
  let (integer, s) ← lexInteger sign.2
  let (fraction, s) ← lexFraction s
  let (exponent, s) ← lexExponent s
  return (sign.1 ++ integer ++ fraction ++ exponent, s)

def lexScalar (s : GoString) : Option (Json × GoString) :=
  match s with
  | [] => none
  | c :: rest =>
    if c = quote then (lexString rest).map fun r => (.string (s.take (s.length - r.2.length)) r.1, r.2)
    else if (GoString.ofString "null").isPrefixOf s then some (.null, s.drop 4)
    else if (GoString.ofString "true").isPrefixOf s then some (.bool true, s.drop 4)
    else if (GoString.ofString "false").isPrefixOf s then some (.bool false, s.drop 5)
    else (lexNumber s).map fun r => (.number r.1, r.2)

/-! ## Whole values -/

def expect (b : UInt8) : GoString → Option GoString
  | c :: s => if c = b then some s else none
  | [] => none

theorem expect_eq_some {b : UInt8} {s rest : GoString} (h : expect b s = some rest) : s = b :: rest := by
  cases s with
  | nil => cases h
  | cons c s => grind [expect]

mutual

/-- A value and the text after it; the first argument bounds nesting and repetition. -/
def parseValue : Nat → GoString → Option (Json × GoString)
  | 0, _ => none
  | _ + 1, [] => none
  | n + 1, c :: s =>
    if c = openBrace then
      (parseObject n (skipSpace s)).map fun r => (.object ((c :: s).take ((c :: s).length - r.2.length)) r.1, r.2)
    else if c = openBracket then
      (parseArray n (skipSpace s)).map fun r => (.array ((c :: s).take ((c :: s).length - r.2.length)) r.1, r.2)
    else lexScalar (c :: s)

def parseObject : Nat → GoString → Option (List (GoString × Json) × GoString)
  | 0, _ => none
  | n + 1, s =>
    match s with
    | [] => none
    | c :: rest => if c = closeBrace then some ([], rest) else parseMembers n s

def parseMembers : Nat → GoString → Option (List (GoString × Json) × GoString)
  | 0, _ => none
  | _ + 1, [] => none
  | n + 1, c :: s =>
    if c = quote then do
      let (name, s) ← lexString s
      let s ← expect colon (skipSpace s)
      let (v, s) ← parseValue n (skipSpace s)
      match skipSpace s with
      | [] => none
      | c :: s =>
        if c = comma then (parseMembers n (skipSpace s)).map fun r => ((name, v) :: r.1, r.2)
        else if c = closeBrace then some ([(name, v)], s)
        else none
    else none

def parseArray : Nat → GoString → Option (List Json × GoString)
  | 0, _ => none
  | n + 1, s =>
    match s with
    | [] => none
    | c :: rest => if c = closeBracket then some ([], rest) else parseItems n s

def parseItems : Nat → GoString → Option (List Json × GoString)
  | 0, _ => none
  | n + 1, s => do
      let (v, s) ← parseValue n s
      match skipSpace s with
      | [] => none
      | c :: s =>
        if c = comma then (parseItems n (skipSpace s)).map fun r => (v :: r.1, r.2)
        else if c = closeBracket then some ([v], s)
        else none

end

/-- The value at the front of a text. Three steps for each byte are enough: at most three follow before one is
consumed. -/
def parseText (s : GoString) : Option (Json × GoString) := parseValue (3 * s.length) (skipSpace s)

end JsonText

/-! ## Tokens -/

/-- What a token reader expects next. -/
inductive TokenState where
  | topValue
  | arrayStart
  | arrayValue
  | arrayComma
  | objectStart
  | objectKey
  | objectColon
  | objectValue
  | objectComma
  deriving DecidableEq

namespace TokenState

/-- `tokenValueAllowed`. -/
def valueAllowed : TokenState → Bool
  | topValue => true
  | arrayStart => true
  | arrayValue => true
  | objectValue => true
  | _ => false

/-- `tokenValueEnd`. -/
def valueEnd : TokenState → TokenState
  | arrayStart => arrayComma
  | arrayValue => arrayComma
  | objectValue => objectComma
  | st => st

end TokenState

inductive Token where
  | delim (b : UInt8)
  | string (s : GoString)
  | value (v : Json)

/-- The errors of a token reader: `io.EOF`, or a text that is not JSON. -/
inductive TokenError where
  | eof
  | malformed

/-- `json.Decoder` as the reader of tokens: the text before it, and what it expects, now and around each open bracket.
-/
structure Decoder where
  rest : GoString
  state : TokenState
  stack : List TokenState

namespace Decoder

open JsonText

/-- `json.NewDecoder`. -/
def new (text : GoString) : Decoder := ⟨text, .topValue, []⟩

def skipSeparator (d : Decoder) : Decoder :=
  match skipSpace d.rest with
  | [] => d
  | c :: s =>
    if c = colon ∧ d.state = .objectColon then { d with rest := s, state := .objectValue }
    else if c = comma ∧ d.state = .arrayComma then { d with rest := s, state := .arrayValue }
    else if c = comma ∧ d.state = .objectComma then { d with rest := s, state := .objectKey }
    else d

def push (d : Decoder) (rest : GoString) (state : TokenState) : Decoder := ⟨rest, state, d.state :: d.stack⟩
def pop (d : Decoder) (rest : GoString) : Decoder := ⟨rest, (d.stack.headD .topValue).valueEnd, d.stack.tail⟩

/-- `Token` behind the separator. A second separator is not allowed in any state. -/
def tokenHere (d : Decoder) : Except TokenError (Token × Decoder) :=
  match skipSpace d.rest with
  | [] => .error .eof
  | c :: s =>
    if c = openBracket then if d.state.valueAllowed then .ok (.delim c, d.push s .arrayStart) else .error .malformed
    else if c = closeBracket then
      if d.state = .arrayStart ∨ d.state = .arrayComma then .ok (.delim c, d.pop s)
      else .error .malformed
    else if c = openBrace then if d.state.valueAllowed then .ok (.delim c, d.push s .objectStart) else .error .malformed
    else if c = closeBrace then
      if d.state = .objectStart ∨ d.state = .objectComma then .ok (.delim c, d.pop s)
      else .error .malformed
    else if c = quote ∧ (d.state = .objectStart ∨ d.state = .objectKey) then
      match lexString s with
      | none => .error .malformed
      | some (name, rest) => .ok (.string name, { d with rest := rest, state := .objectColon })
    else if d.state.valueAllowed then
      match lexScalar (c :: s) with
      | none => .error .malformed
      | some (.string _ value, rest) => .ok (.string value, { d with rest := rest, state := d.state.valueEnd })
      | some (v, rest) => .ok (.value v, { d with rest := rest, state := d.state.valueEnd })
    else .error .malformed

def token (d : Decoder) : Except TokenError (Token × Decoder) := d.skipSeparator.tokenHere

def more (d : Decoder) : Bool :=
  match skipSpace d.rest with
  | [] => false
  | c :: _ => decide (c ≠ closeBracket) && decide (c ≠ closeBrace)

/-! ## The two readers on one text -/

/-- The reader expects `state` at the text `s`, behind white space and a separator. -/
def At (d : Decoder) (s : GoString) (state : TokenState) (stack : List TokenState) : Prop :=
  ∃ r, d.skipSeparator = ⟨r, state, stack⟩ ∧ skipSpace r = s

variable {rest : GoString} {stack : List TokenState}

theorem at_of_value {state : TokenState} (hstate : state ≠ .objectColon ∧ state ≠ .arrayComma ∧ state ≠ .objectComma) :
    At ⟨rest, state, stack⟩ (skipSpace rest) state stack := by
  obtain ⟨hcolon, harray, hobject⟩ := hstate
  refine ⟨rest, ?_, rfl⟩
  grind [skipSeparator]

theorem at_of_head {s : GoString} {state : TokenState} {b : UInt8} (hrest : skipSpace rest = b :: s)
    (hcolon : b ≠ colon) (hcomma : b ≠ comma) :
    At ⟨rest, state, stack⟩ (b :: s) state stack := by
  refine ⟨rest, ?_, hrest⟩
  unfold skipSeparator
  simp [hrest, hcolon, hcomma]

theorem at_of_separator {s : GoString} (stack : List TokenState) {b : UInt8} {due next : TokenState}
    (hrest : skipSpace rest = b :: s) (hdue : (b = colon ∧ due = .objectColon ∧ next = .objectValue) ∨
      (b = comma ∧ due = .arrayComma ∧ next = .arrayValue) ∨
      (b = comma ∧ due = .objectComma ∧ next = .objectKey)) :
    At ⟨rest, due, stack⟩ (skipSpace s) next stack := by
  refine ⟨s, ?_, rfl⟩
  grind [skipSeparator]

section
variable {d : Decoder} {s rest : GoString} {state : TokenState} {stack : List TokenState}

theorem At.token_openBracket (h : At d (openBracket :: s) state stack) (hallowed : state.valueAllowed = true) :
    d.token = .ok (.delim openBracket, ⟨s, .arrayStart, state :: stack⟩) := by
  obtain ⟨r, hskip, hs⟩ := h
  grind [token, tokenHere, push]

theorem At.token_openBrace (h : At d (openBrace :: s) state stack) (hallowed : state.valueAllowed = true) :
    d.token = .ok (.delim openBrace, ⟨s, .objectStart, state :: stack⟩) := by
  obtain ⟨r, hskip, hs⟩ := h
  grind [token, tokenHere, push, openBrace, openBracket, closeBracket]

theorem At.token_close {b : UInt8} (h : At d (b :: s) state stack)
    (hclose : (b = closeBracket ∧ (state = .arrayStart ∨ state = .arrayComma)) ∨
      (b = closeBrace ∧ (state = .objectStart ∨ state = .objectComma))) :
    d.token = .ok (.delim b, ⟨s, (stack.headD .topValue).valueEnd, stack.tail⟩) := by
  obtain ⟨r, hskip, hs⟩ := h
  grind [token, tokenHere, pop, openBracket, closeBracket, openBrace, closeBrace]

theorem At.token_name {name : GoString} (h : At d (quote :: s) state stack)
    (hstate : state = .objectStart ∨ state = .objectKey) (hname : lexString s = some (name, rest)) :
    d.token = .ok (.string name, ⟨rest, .objectColon, stack⟩) := by
  obtain ⟨r, hskip, hs⟩ := h
  grind [token, tokenHere, quote, openBracket, closeBracket, openBrace, closeBrace]

theorem lexScalar_closing {b : UInt8} (hb : b = closeBracket ∨ b = closeBrace) (s : GoString) :
    lexScalar (b :: s) = none := by
  rcases hb with rfl | rfl
  · rfl
  · rfl

theorem lexScalar_isLeaf {v : Json} (h : lexScalar s = some (v, rest)) : v.isLeaf = true := by
  unfold lexScalar at h
  cases s with
  | nil => cases h
  | cons c s =>
    dsimp only at h
    split_ifs at h
    · obtain ⟨r, -, hv⟩ := Option.map_eq_some_iff.mp h
      cases hv
      rfl
    · cases h
      rfl
    · cases h
      rfl
    · cases h
      rfl
    · obtain ⟨r, -, hv⟩ := Option.map_eq_some_iff.mp h
      cases hv
      rfl

variable {n : Nat} {out : Json × GoString}

theorem parseValue_pos (h : parseValue n s = some out) : 0 < n := by grind [parseValue]

variable {c : UInt8}

theorem parseValue_head (h : parseValue n (c :: s) = some out) : c ≠ closeBracket ∧ c ≠ closeBrace := by
  cases n with
  | zero => simp [parseValue] at h
  | succ n =>
    constructor
    · rintro rfl
      unfold parseValue at h
      rw [if_neg (by decide), if_neg (by decide), lexScalar_closing (.inl rfl)] at h
      cases h
    · rintro rfl
      unfold parseValue at h
      rw [if_neg (by decide), if_neg (by decide), lexScalar_closing (.inr rfl)] at h
      cases h

theorem parseItems_head {out : List Json × GoString} (h : parseItems n (c :: s) = some out) :
    c ≠ closeBracket ∧ c ≠ closeBrace := by
  cases n with
  | zero => simp [parseItems] at h
  | succ n => grind [parseItems, Option.bind_eq_some_iff, parseValue_head]

theorem parseMembers_head {out : List (GoString × Json) × GoString} (h : parseMembers n (c :: s) = some out) :
    c = quote := by
  cases n with
  | zero => simp [parseMembers] at h
  | succ n => grind [parseMembers]

theorem At.token_scalar {v : Json} (h : At d (c :: s) state stack) (hallowed : state.valueAllowed = true)
    (hbracket : c ≠ openBracket) (hbrace : c ≠ openBrace) (hv : lexScalar (c :: s) = some (v, rest)) :
    ∃ t, d.token = .ok (t, ⟨rest, state.valueEnd, stack⟩) ∧ ∀ b, t ≠ .delim b := by
  obtain ⟨r, hskip, hs⟩ := h
  have hclose : c ≠ closeBracket ∧ c ≠ closeBrace := by grind [lexScalar_closing]
  have hname : ¬(c = quote ∧ (state = .objectStart ∨ state = .objectKey)) := by
    rintro ⟨-, rfl | rfl⟩
    · cases hallowed
    · cases hallowed
  unfold token tokenHere
  rw [hskip]
  simp only [hs, hbracket, hbrace, hclose.1, hclose.2, hname, hallowed, hv, if_true, if_false]
  cases v with
  | string => exact ⟨_, rfl, fun b hb => by cases hb⟩
  | _ => exact ⟨_, rfl, fun b hb => by cases hb⟩

theorem tokenHere_eof_iff (d : Decoder) : d.tokenHere = .error .eof ↔ skipSpace d.rest = [] := by grind [tokenHere]

theorem more_of_head (hrest : skipSpace d.rest = c :: s) :
    d.more = (decide (c ≠ closeBracket) && decide (c ≠ closeBrace)) := by
  unfold more
  rw [hrest]

end

end Decoder

end BitAgent.Lib
