/-
# Classifier.FuzzyMatch — the best of the accepted titles

`fuzzyFindBestMatch` of `internal/classifier/util.go` with fuzzy matching on, and `tokenSetRatio` of `fuzzy.go` as an
exact fraction. Titles are normalised as in `internal/titlenorm`; what that calls in other modules is a parameter.
-/
import Mathlib

namespace BitAgent.Classifier

/-- What the normalisers and the matcher call outside of the repository: the tables of `unicode`, the normal forms,
`unidecode`, the word tokens a regular expression finds, and the distance. -/
structure Titles where
  isPunct : Char → Bool
  isSymbol : Char → Bool
  isLetter : Char → Bool
  isDigit : Char → Bool
  isSpace : Char → Bool
  isHan : Char → Bool
  isKana : Char → Bool
  toLower : Char → Char
  nfkc : String → String
  /-- `NFD`, then `NFC`. -/
  nfc : String → String
  unidecode : String → String
  wordTokens : String → List String
  computeDistance : String → String → Nat

/-! ## Normalised titles -/

def kanaDigraph : List (String × String) :=
  [("キャ", "kya"), ("キュ", "kyu"), ("キョ", "kyo"), ("ギャ", "gya"), ("ギュ", "gyu"), ("ギョ", "gyo"), ("シャ", "sha"),
   ("シュ", "shu"), ("ショ", "sho"), ("ジャ", "ja"), ("ジュ", "ju"), ("ジョ", "jo"), ("チャ", "cha"), ("チュ", "chu"),
   ("チョ", "cho"), ("ヂャ", "ja"), ("ヂュ", "ju"), ("ヂョ", "jo"), ("ニャ", "nya"), ("ニュ", "nyu"), ("ニョ", "nyo"),
   ("ヒャ", "hya"), ("ヒュ", "hyu"), ("ヒョ", "hyo"), ("ビャ", "bya"), ("ビュ", "byu"), ("ビョ", "byo"), ("ピャ", "pya"),
   ("ピュ", "pyu"), ("ピョ", "pyo"), ("ミャ", "mya"), ("ミュ", "myu"), ("ミョ", "myo"), ("リャ", "rya"), ("リュ", "ryu"),
   ("リョ", "ryo"), ("シェ", "she"), ("ジェ", "je"), ("チェ", "che"), ("ティ", "ti"), ("トゥ", "tu"), ("ディ", "di"), ("ドゥ", "du"),
   ("ツァ", "tsa"), ("ツィ", "tsi"), ("ツェ", "tse"), ("ツォ", "tso"), ("ファ", "fa"), ("フィ", "fi"), ("フェ", "fe"), ("フォ", "fo"),
   ("フュ", "fyu"), ("ウィ", "wi"), ("ウェ", "we"), ("ウォ", "wo"), ("ヴァ", "va"), ("ヴィ", "vi"), ("ヴェ", "ve"), ("ヴォ", "vo"),
   ("ヴュ", "vyu")]

def kanaMono : List (Char × String) :=
  [('ア', "a"), ('イ', "i"), ('ウ', "u"), ('エ', "e"), ('オ', "o"), ('カ', "ka"), ('キ', "ki"), ('ク', "ku"), ('ケ', "ke"),
   ('コ', "ko"), ('ガ', "ga"), ('ギ', "gi"), ('グ', "gu"), ('ゲ', "ge"), ('ゴ', "go"), ('サ', "sa"), ('シ', "shi"),
   ('ス', "su"), ('セ', "se"), ('ソ', "so"), ('ザ', "za"), ('ジ', "ji"), ('ズ', "zu"), ('ゼ', "ze"), ('ゾ', "zo"),
   ('タ', "ta"), ('チ', "chi"), ('ツ', "tsu"), ('テ', "te"), ('ト', "to"), ('ダ', "da"), ('ヂ', "ji"), ('ヅ', "zu"),
   ('デ', "de"), ('ド', "do"), ('ナ', "na"), ('ニ', "ni"), ('ヌ', "nu"), ('ネ', "ne"), ('ノ', "no"), ('ハ', "ha"),
   ('ヒ', "hi"), ('フ', "fu"), ('ヘ', "he"), ('ホ', "ho"), ('バ', "ba"), ('ビ', "bi"), ('ブ', "bu"), ('ベ', "be"),
   ('ボ', "bo"), ('パ', "pa"), ('ピ', "pi"), ('プ', "pu"), ('ペ', "pe"), ('ポ', "po"), ('マ', "ma"), ('ミ', "mi"),
   ('ム', "mu"), ('メ', "me"), ('モ', "mo"), ('ヤ', "ya"), ('ユ', "yu"), ('ヨ', "yo"), ('ラ', "ra"), ('リ', "ri"),
   ('ル', "ru"), ('レ', "re"), ('ロ', "ro"), ('ワ', "wa"), ('ヰ', "wi"), ('ヱ', "we"), ('ヲ', "o"), ('ン', "n"), ('ヴ', "vu"),
   ('ァ', "a"), ('ィ', "i"), ('ゥ', "u"), ('ェ', "e"), ('ォ', "o"), ('ャ', "ya"), ('ュ', "yu"), ('ョ', "yo"), ('ヵ', "ka"),
   ('ヶ', "ke")]

def isVowel (c : Char) : Bool := ['a', 'i', 'u', 'e', 'o'].contains c

/-- What doubles the first consonant of `rom`: Hepburn has `tch` for `ch`. -/
def gemination (rom : List Char) : List Char :=
  if ['c', 'h'].isPrefixOf rom then ['t'] else rom.head?.toList.filter fun c => c.isLower && !isVowel c

/-- The loop of `KanaToRomaji`. A sokuon doubles the next consonant, a choonpu repeats the last vowel. -/
def romaji (geminate : Bool) (lastVowel : Option Char) : List Char → List Char
  | [] => []
  | [r] =>
    if r = 'ッ' then []
    else if r = 'ー' then lastVowel.toList
    else match kanaMono.lookup r with
      | some rom => emit rom.toList
      | none => [r]
  | r :: next :: rest =>
    if r = 'ッ' then romaji true lastVowel (next :: rest)
    else if r = 'ー' then lastVowel.toList ++ romaji geminate lastVowel (next :: rest)
    else match kanaDigraph.lookup (.ofList [r, next]), kanaMono.lookup r with
      | some rom, _ => emit rom.toList ++ romaji false (vowelOf rom.toList) rest
      | none, some rom => emit rom.toList ++ romaji false (vowelOf rom.toList) (next :: rest)
      | none, none => r :: romaji false none (next :: rest)
where
  emit (rom : List Char) : List Char := (if geminate then gemination rom else []) ++ rom
  vowelOf (rom : List Char) : Option Char := (rom.reverse.find? isVowel).or lastVowel

/-- Hiragana is folded to katakana first. -/
def kanaToRomaji (s : String) : String :=
  .ofList (romaji false none (s.toList.map fun r =>
    if 0x3041 ≤ r.toNat ∧ r.toNat ≤ 0x3096 then .ofNat (r.toNat + 0x60) else r))

def romanArabic : List (String × String) :=
  [("i", "1"), ("ii", "2"), ("iii", "3"), ("iv", "4"), ("v", "5"), ("vi", "6"), ("vii", "7"), ("viii", "8"),
   ("ix", "9"), ("x", "10"), ("xi", "11"), ("xii", "12"), ("xiii", "13"), ("xiv", "14"), ("xv", "15"), ("xvi", "16"),
   ("xvii", "17"), ("xviii", "18"), ("xix", "19"), ("xx", "20")]

def leadingArticles : List String := ["the", "a", "an", "le", "la", "les", "el", "il"]

def isPureRoman (s : String) : Bool := s.toList.all (['i', 'v', 'x', 'l', 'c', 'd', 'm'].contains ·)

section
variable (lib : Titles)

def Titles.fields (s : String) : List String :=
  ((s.toList.splitOnP lib.isSpace).filter (· ≠ [])).map .ofList

/-- An apostrophe joins; other punctuation separates, an ampersand apart. -/
def Titles.foldTitlePunct (s : String) : String :=
  .ofList (s.toList.flatMap fun r =>
    if r ∈ ['\x27', '\u2019', '\u2018', '\x60'] then [] else if r = '&' then [r]
    else if lib.isPunct r || lib.isSymbol r then [' '] else [r])

def Titles.normalizeString (s : String) : String :=
  " ".intercalate ((lib.wordTokens (lib.nfc (s.map lib.toLower))).filter (· ≠ ""))

def Titles.arabic (tok : String) : String :=
  let lower := tok.map lib.toLower
  match romanArabic.lookup lower with
  | some ar => if isPureRoman lower then ar else tok
  | none => tok

/-- The loop over the tokens: after `part` the next token is replaced ahead of its own turn. -/
def Titles.arabicTokens (tok : String) : List String → List String
  | [] => [lib.arabic tok]
  | next :: rest =>
    if tok.map lib.toLower = "part" then tok :: Titles.arabicTokens (lib.arabic next) rest
    else lib.arabic tok :: Titles.arabicTokens next rest

def Titles.normalizeTitleForMatch (s : String) : String :=
  let s := s.replace "&" " and "
  let s := if s.toList.any lib.isKana then kanaToRomaji s else s
  match lib.fields (lib.normalizeString (lib.unidecode s)) with
  | [] => ""
  | [tok] => lib.arabic tok
  | tok :: next :: rest =>
    " ".intercalate (if leadingArticles.contains tok then lib.arabicTokens next rest
      else lib.arabicTokens tok (next :: rest))

def Titles.containsJapaneseScript (s : String) : Bool := s.toList.any fun r => lib.isHan r || lib.isKana r

def Titles.nativeMatchKey (s : String) : String :=
  if !lib.containsJapaneseScript s then ""
  else .ofList (((lib.nfkc s).toList.filter fun r => lib.isLetter r || lib.isDigit r).map lib.toLower)

end

/-- `math.Ceil(0.15 * …)`: below the bound of five, where it matters, the floating-point product rounds up alike. -/
def fuzzyLevThreshold (normQuery : String) : Nat := min 5 ((15 * normQuery.utf8ByteSize + 99) / 100)

/-! ## The best match -/

def firstToken (s : String) : String := .ofList (s.toList.takeWhile (· ≠ ' '))

def Titles.tokenSetRatio (lib : Titles) (a b : String) : ℚ :=
  let aToks := (lib.fields a).dedup
  let bToks := (lib.fields b).dedup
  if aToks.length = 0 ∧ bToks.length = 0 then 1
  else if aToks.length = 0 ∨ bToks.length = 0 then 0
  else
    let intersect := aToks.countP fun tok => bToks.contains tok
    let union := aToks.length + bToks.length - intersect
    intersect / union

variable {T : Type}

/-- A title that was accepted. `item` stands for its index. -/
structure Candidate (T : Type) where
  item : T
  levDist : Nat
  tsr : ℚ
  penalty : Int

def consider (best : Option (Candidate T)) (c : Candidate T) : Option (Candidate T) :=
  match best with
  | none => some c
  | some b =>
    if c.penalty < b.penalty ∨ (c.penalty = b.penalty ∧ c.levDist < b.levDist) ∨
        (c.penalty = b.penalty ∧ c.levDist = b.levDist ∧ c.tsr > b.tsr) then some c
    else some b

/-- The arguments of a search beside the items. -/
structure Search (T : Type) extends Titles where
  target : String
  getCandidates : T → List String
  getYearPenalty : Option (T → Int)

section
variable (q : Search T)

/-- The body of the inner loop, up to the call of `consider`. -/
def Search.assess (item : T) (raw : String) : Option (Candidate T) :=
  let penalty := q.getYearPenalty.elim 0 fun f => f item
  let normTarget := q.normalizeTitleForMatch (q.foldTitlePunct q.target)
  let targetIsJP := q.containsJapaneseScript q.target
  let targetNative := if targetIsJP then q.nativeMatchKey q.target else ""
  if targetNative ≠ "" ∧ q.nativeMatchKey raw = targetNative then
    some { item := item, levDist := 0, tsr := 1, penalty := penalty }
  else
    let normCand := q.normalizeTitleForMatch (q.foldTitlePunct raw)
    if !targetIsJP ∧ firstToken normCand ≠ firstToken normTarget then none
    else
      let levDist := q.computeDistance normTarget normCand
      let tsr := q.tokenSetRatio normTarget normCand
      if levDist ≤ fuzzyLevThreshold normTarget ∨ tsr ≥ 9 / 10 then
        some { item := item, levDist := levDist, tsr := tsr, penalty := penalty }
      else none

def fuzzyFindBestMatch (items : List T) : Option T :=
  (items.foldl (fun best item =>
    (q.getCandidates item).foldl (fun best raw => ((q.assess item raw).map (consider best)).getD best) best) none).map
    (·.item)

def accepted (items : List T) : List (Candidate T) :=
  items.flatMap fun item => (q.getCandidates item).filterMap (q.assess item)
end

/-- Year penalty, then distance, then the larger ratio. -/
def Candidate.score (c : Candidate T) : ℤ ×ₗ ℕ ×ₗ ℚᵒᵈ := toLex (c.penalty, toLex (c.levDist, OrderDual.toDual c.tsr))

theorem consider_eq (best : Option (Candidate T)) (c : Candidate T) :
    consider best c = List.argAux (fun c b => c.score < b.score) best c := by
  cases best with
  | none => rfl
  | some b =>
    simp only [consider, List.argAux, Candidate.score, Prod.Lex.toLex_lt_toLex, OrderDual.toDual_lt_toDual]
    grind

theorem foldl_filterMap {α β γ : Type} (f : α → Option β) (g : γ → β → γ) (l : List α) (init : γ) :
    l.foldl (fun acc a => ((f a).map (g acc)).getD acc) init = (l.filterMap f).foldl g init := by
  induction l generalizing init with
  | nil => rfl
  | cons a l ih => cases h : f a <;> simp [h, ih]

variable {q : Search T} {items : List T}

/-- The loops find the first candidate with the least score. -/
theorem fuzzyFindBestMatch_eq :
    fuzzyFindBestMatch q items = (List.argmin Candidate.score (accepted q items)).map (·.item) := by
  unfold fuzzyFindBestMatch accepted List.argmin
  rw [List.foldl_flatMap]
  simp only [foldl_filterMap, funext₂ consider_eq]

theorem least_of_fuzzyFindBestMatch {t : T} (h : fuzzyFindBestMatch q items = some t) :
    ∃ c ∈ accepted q items, c.item = t ∧ ∀ c' ∈ accepted q items, c.score ≤ c'.score := by
  rw [fuzzyFindBestMatch_eq] at h
  obtain ⟨c, hc, rfl⟩ := Option.map_eq_some_iff.mp h
  exact ⟨c, List.argmin_mem hc, rfl, fun c' hc' => List.le_of_mem_argmin hc' hc⟩

theorem fuzzyFindBestMatch_eq_none_iff : fuzzyFindBestMatch q items = none ↔ accepted q items = [] := by
  rw [fuzzyFindBestMatch_eq, Option.map_eq_none_iff, List.argmin_eq_none]

/-- **The best match** has a title of the least score, there is none only without an accepted title, and another order
of the items gives an item of the same score. -/
theorem fuzzyFindBestMatch_spec (q : Search T) (items : List T) :
    (∀ t, fuzzyFindBestMatch q items = some t →
      ∃ c ∈ accepted q items, c.item = t ∧ ∀ c' ∈ accepted q items, c.score ≤ c'.score) ∧
    (fuzzyFindBestMatch q items = none ↔ accepted q items = []) ∧
    ∀ items', items.Perm items' → ((fuzzyFindBestMatch q items).isSome ↔ (fuzzyFindBestMatch q items').isSome) ∧
      ∀ t t', fuzzyFindBestMatch q items = some t → fuzzyFindBestMatch q items' = some t' →
        ∃ c ∈ accepted q items, ∃ c' ∈ accepted q items, c.item = t ∧ c'.item = t' ∧ c.score = c'.score := by
  refine ⟨fun t => least_of_fuzzyFindBestMatch, fuzzyFindBestMatch_eq_none_iff, fun items' hperm => ?_⟩
  have hsame : (accepted q items).Perm (accepted q items') := hperm.flatMap_right _
  constructor
  · simp only [Option.isSome_iff_ne_none, ne_eq, fuzzyFindBestMatch_eq_none_iff, ← List.perm_nil]
    exact not_congr ⟨hsame.symm.trans, hsame.trans⟩
  · intro t t' ht ht'
    obtain ⟨c, hc, rfl, hle⟩ := least_of_fuzzyFindBestMatch ht
    obtain ⟨c', hc', rfl, hle'⟩ := least_of_fuzzyFindBestMatch ht'
    have hc'' := hsame.mem_iff.mpr hc'
    exact ⟨c, hc, c', hc'', rfl, rfl, le_antisymm (hle c' hc'') (hle' c (hsame.mem_iff.mp hc))⟩

end BitAgent.Classifier
