/-
# Wantbridge.Canonical — what a torrent name is about

`internal/wantbridge/canonical.go`. `Canonicalise` lower-cases a name, takes its words and ends the title at the first
season marker, year or release tag; `artist - album` gives title and album hint. `canonicalKeys` makes the keys of a
title. Names are texts: `strings.ToLower` puts U+FFFD for bytes that are no text. The cuts leave the words before the
first boundary (`take_titleCut`).
-/
import Mathlib
import BitAgent.Catalogueguard.Tags
import BitAgent.Lib.CharClasses
import BitAgent.Lib.Fields
import BitAgent.Lib.Prelude
import BitAgent.Lib.Utf8

namespace BitAgent.Wantbridge

open Lib Lib.GoString List
open Catalogueguard (tagWhitespace)

attribute [local instance] decidableMem

abbrev Text := List Char

inductive Kind where
  | unknown
  | movie
  | tv
  | music
  deriving DecidableEq

/-- `Canonical`. The year is 0 where it is unknown, and the season -1. -/
structure Canonical where
  kind : Kind
  title : Text
  year : Int
  season : Int
  episodeSet : List Nat
  albumHint : Text

/-- `Canonical{Kind: KindUnknown, Season: -1}`. -/
def Canonical.none : Canonical :=
  { kind := .unknown, title := [], year := 0, season := -1, episodeSet := [], albumHint := [] }

/-! ## Words -/

/-- What `tokeniseWithReplacer` replaces by a space. -/
def separators : Text := ['.', '_', '-', '[', ']', '(', ')', '{', '}']
def isSpace (c : Char) : Bool := decide (c ∈ tagWhitespace)
def tokeniseWithReplacer (s : Text) : List Text := fields isSpace (s.map fun c => if c ∈ separators then ' ' else c)

/-- `strings.Join(tokens, " ")`. -/
def join (tokens : List Text) : Text := [' '].intercalate tokens

/-- `isReleaseTagToken`. -/
def releaseTags : List Text :=
  ["1080p", "2160p", "720p", "480p", "4k", "uhd", "hdr", "dv", "imax",
    "x264", "x265", "h264", "h265", "hevc", "av1", "avc",
    "web", "webrip", "webdl", "bluray", "brrip", "bdrip", "dvdrip",
    "hdrip", "hdtv", "dvd", "remux", "amzn", "atmos", "dts", "ac3", "aac",
    "dl", "ray",
    "complete", "internal", "repack", "proper", "extended", "uncut",
    "yify", "yts", "rarbg", "ettv", "eztv", "mihd",
    "flac", "mp3"].map String.toList

def isReleaseTagToken (tok : Text) : Bool := decide (tok ∈ releaseTags)

/-- A group `\d{1,n}` of a pattern. -/
def shortNumber (n : Nat) (digits : Text) : Bool :=
  decide (1 ≤ digits.length) && decide (digits.length ≤ n) && digits.all Char.isDigit

def number (digits : Text) : Nat := Nat.ofDigitChars 10 digits 0

/-- `seasonRE`, the pattern `^s(\d{1,2})((?:e\d{1,3})*)$`: the season and the episodes. -/
def seasonRE : Text → Option (Nat × List Nat)
  | 's' :: rest =>
    -- every `e` opens an episode, so the groups are what stands between them
    match rest.splitOn 'e' with
    | season :: episodes =>
      if shortNumber 2 season && episodes.all (shortNumber 3) then some (number season, episodes.map number)
      else none
    | [] => none
  | _ => none

def isSeasonMarker (tok : Text) : Bool := (seasonRE tok).isSome

/-- `extractSeasonEpisode`: the season, the episodes and the index of the marker. -/
def extractSeasonEpisode (tokens : List Text) : Int × List Nat × Option Nat :=
  match tokens.findSome? seasonRE with
  | some (season, episodes) => (season, episodes, tokens.findIdx? isSeasonMarker)
  | none => (-1, [], none)

def musicMarkers : List Text :=
  [" flac", "[flac]", " mp3", "[mp3]", " ost", "[ost]", "discography", "[discography]", "lossless", "[lossless]",
    "soundtrack", "[soundtrack]", "[24bit]", "[16bit]", "[wav]"].map String.toList

def hasMusicHint (lower : Text) : Bool := musicMarkers.any fun m => (cut m lower).isSome

section
variable (u : CharClasses)

/-- The year that a token is, one of 1900 to 2099. `strconv.Atoi` reads ASCII digits only. -/
def yearOf (tok : Text) : Option Nat :=
  if (encode tok).length ≠ 4 then none
  else if !tok.all u.isDigit then none
  else if !tok.all Char.isDigit then none
  else if 1900 ≤ number tok ∧ number tok ≤ 2099 then some (number tok)
  else none

def isYear (tok : Text) : Bool := (yearOf u tok).isSome

/-- `extractYear`: the year and the index of its token. -/
def extractYear (tokens : List Text) : Nat × Option Nat :=
  ((tokens.findSome? (yearOf u)).getD 0, tokens.findIdx? (isYear u))

def albumTokensFromRight (right : Text) : List Text :=
  let tokens := tokeniseWithReplacer right
  let cut := cutAt (extractYear u tokens).2 tokens.length
  tokens.take (cutAt (tokens.findIdx? isReleaseTagToken) cut)

/-! ## Canonicalise -/

def hyphenSplit (lower : Text) : Option (List Text × Text) :=
  match cut " - ".toList lower with
  | some (left, right) =>
    let leftTokens := tokeniseWithReplacer left
    let albumTokens := albumTokensFromRight u right
    -- a separator at the very start does not count
    if left ≠ [] ∧ leftTokens ≠ [] ∧ albumTokens ≠ [] then some (leftTokens, join albumTokens) else none
  | none => none

/-- Where the title ends: at the first season marker, release tag or, in an unsplit name, year. -/
def titleCut (tokens : List Text) (split : Bool) : Nat :=
  let cut := cutAt (extractSeasonEpisode tokens).2.2 tokens.length
  let cut := if split then cut else cutAt (extractYear u tokens).2 cut
  cutAt (tokens.findIdx? isReleaseTagToken) cut

def kindOf (season : Int) (music : Bool) (year : Nat) : Kind :=
  if 0 ≤ season then .tv else if music then .music else if 0 < year then .movie else .unknown

/-- The second half of `Canonicalise`, from the words of the title on. -/
def describe (lower : Text) (tokens : List Text) (split : Bool) (albumHint : Text) : Canonical :=
  let marker := extractSeasonEpisode tokens
  -- the year is searched in the whole name
  let year := (extractYear u (tokeniseWithReplacer lower)).1
  let title := join (tokens.take (titleCut u tokens split))
  let music := hasMusicHint lower && decide (albumHint ≠ [])
  let c : Canonical := { kind := .unknown, title, year, season := marker.1, episodeSet := marker.2.1, albumHint }
  if title ≠ [] then { c with kind := kindOf marker.1 music year }
  else if split && music then { c with kind := .music, title := albumHint, albumHint := [] }
  else c

def canonicalise (name : Text) : Canonical :=
  if name = [] then .none
  else
    let lower := name.map u.toLower
    match hyphenSplit u lower with
    | some (artistOnlyTok, albumHint) => describe u lower artistOnlyTok true albumHint
    | none =>
      if tokeniseWithReplacer lower = [] then .none
      else describe u lower (tokeniseWithReplacer lower) false []

end

/-! ## Keys -/

def itoa : Int → Text
  | .ofNat n => Nat.toDigits 10 n
  | .negSucc n => '-' :: Nat.toDigits 10 (n + 1)

def zeroPad (n : Int) (width : Nat) : Text := (itoa n).leftpad width '0'

def canonicalKey (c : Canonical) : Text :=
  match c.kind with
  | .tv =>
    if c.season < 0 then "tv:".toList ++ c.title
    else "tv:".toList ++ c.title ++ ":s".toList ++ zeroPad c.season 2
  | .movie => if 0 < c.year then "mv:".toList ++ c.title ++ ":".toList ++ itoa c.year else "mv:".toList ++ c.title
  | .music =>
    if c.albumHint ≠ [] then "ms:".toList ++ c.title ++ ":".toList ++ c.albumHint
    else "ms:".toList ++ c.title
  | .unknown => []

def canonicalKeys (c : Canonical) : List Text :=
  let primary := canonicalKey c
  if primary = [] then []
  else primary :: if c.kind = .tv ∧ 0 ≤ c.season then ["tv:".toList ++ c.title] else []

/-! ## The words of a name -/

/-- What ends a word. -/
def isBreak (c : Char) : Bool := decide (c ∈ separators) || isSpace c

theorem tokeniseWithReplacer_eq_fields (s : Text) : tokeniseWithReplacer s = fields isBreak s := by
  refine fields_map (fun c => ?_) (fun c hc => ?_) s
  · unfold isBreak
    by_cases hsep : c ∈ separators
    · rw [if_pos hsep, decide_eq_true hsep, Bool.true_or]
      decide
    · rw [if_neg hsep, decide_eq_false hsep, Bool.false_or]
  · grind [isBreak]

theorem isWord_of_mem_tokens {s w : Text} (h : w ∈ tokeniseWithReplacer s) : IsWord isBreak w := by
  rw [tokeniseWithReplacer_eq_fields] at h
  exact isWord_of_mem_fields h

theorem mem_of_mem_tokens {s w : Text} (h : w ∈ tokeniseWithReplacer s) {c : Char} (hc : c ∈ w) : c ∈ s := by
  rw [tokeniseWithReplacer_eq_fields] at h
  exact mem_of_mem_fields h hc

variable {ws : List Text}

theorem tokeniseWithReplacer_join (hws : ∀ w ∈ ws, IsWord isBreak w) :
    tokeniseWithReplacer (join ws) = ws := by
  rw [tokeniseWithReplacer_eq_fields]
  exact fields_intercalate hws (by decide)

theorem join_ne_nil (hne : ws ≠ []) (hws : ∀ w ∈ ws, IsWord isBreak w) : join ws ≠ [] := by
  intro hjoin
  have htokens := tokeniseWithReplacer_join hws
  rw [hjoin] at htokens
  exact hne htokens.symm

theorem mem_join {c : Char} (h : c ∈ join ws) : c = ' ' ∨ ∃ w ∈ ws, c ∈ w := mem_intercalate h

theorem dash_not_mem_join (hws : ∀ w ∈ ws, IsWord isBreak w) : '-' ∉ join ws := by
  intro hmem
  rcases mem_join hmem with hspace | ⟨w, hw, hcw⟩
  · exact absurd hspace (by decide)
  · exact absurd ((hws w hw).2 '-' hcw) (by decide)

theorem snd_extractSeasonEpisode (tokens : List Text) :
    (extractSeasonEpisode tokens).2.2 = tokens.findIdx? isSeasonMarker := by
  grind [extractSeasonEpisode, isSeasonMarker]

theorem extractSeasonEpisode_of_none {tokens : List Text} (h : ∀ w ∈ tokens, isSeasonMarker w = false) :
    extractSeasonEpisode tokens = (-1, [], none) := by
  have hnone : tokens.findSome? seasonRE = none := by
    rw [findSome?_eq_none_iff]
    intro w hw
    exact Option.not_isSome_iff_eq_none.mp (Bool.eq_false_iff.mp (h w hw))
  unfold extractSeasonEpisode
  rw [hnone]

section
variable (u : CharClasses)

def isBoundary (tok : Text) : Bool := isSeasonMarker tok || isYear u tok || isReleaseTagToken tok

theorem take_titleCut (tokens : List Text) :
    tokens.take (titleCut u tokens false) = tokens.takeWhile fun tok => !isBoundary u tok := by
  unfold titleCut
  simp only [Bool.false_eq_true, if_false, extractYear]
  rw [snd_extractSeasonEpisode, take_cutAt_findIdx?, take_cutAt_findIdx?, take_cutAt_findIdx?, take_length,
    takeWhile_takeWhile, takeWhile_takeWhile]
  grind [isBoundary]

theorem take_titleCut_split (tokens : List Text) : tokens.take (titleCut u tokens true) =
      tokens.takeWhile fun tok => !(isSeasonMarker tok || isReleaseTagToken tok) := by
  unfold titleCut
  simp only [if_true]
  rw [snd_extractSeasonEpisode, take_cutAt_findIdx?, take_cutAt_findIdx?, take_length, takeWhile_takeWhile]
  grind

theorem albumTokensFromRight_eq (right : Text) : albumTokensFromRight u right =
      (tokeniseWithReplacer right).takeWhile fun tok => !(isYear u tok || isReleaseTagToken tok) := by
  unfold albumTokensFromRight
  simp only [extractYear]
  rw [take_cutAt_findIdx?, take_cutAt_findIdx?, take_length, takeWhile_takeWhile]
  grind

/-! ## What `Canonicalise` finds -/

variable {lower : Text}

theorem hyphenSplit_eq_some {album : Text} {artist : List Text} (h : hyphenSplit u lower = some (artist, album)) :
    ∃ left right, lower = left ++ (" - ".toList ++ right) ∧ artist = tokeniseWithReplacer left ∧
      album = join (albumTokensFromRight u right) := by grind [hyphenSplit, cut_eq_some]

theorem mem_title_describe {tokens : List Text} {split : Bool} {albumHint : Text} {c : Char}
    (hc : c ∈ (describe u lower tokens split albumHint).title) :
    c = ' ' ∨ (∃ w ∈ tokens, c ∈ w) ∨ c ∈ albumHint := by grind [mem_join, describe]

variable {name : Text}

theorem mem_title {c : Char} (hc : c ∈ (canonicalise u name).title) :
    c = ' ' ∨ c ∈ name.map u.toLower := by
  unfold canonicalise at hc
  split at hc
  · cases hc
  · simp only [] at hc
    split at hc
    · rename_i artist album hsplit
      obtain ⟨left, right, hlower, rfl, rfl⟩ := hyphenSplit_eq_some u hsplit
      rw [hlower]
      simp only [mem_append]
      rcases mem_title_describe u hc with hspace | ⟨w, hw, hcw⟩ | halbum
      · exact .inl hspace
      · exact .inr (.inl (mem_of_mem_tokens hw hcw))
      · rcases mem_join halbum with hspace | ⟨w, hw, hcw⟩
        · exact .inl hspace
        · rw [albumTokensFromRight_eq] at hw
          exact .inr (.inr (.inr (mem_of_mem_tokens ((takeWhile_sublist _).mem hw) hcw)))
    · split at hc
      · cases hc
      · rcases mem_title_describe u hc with hspace | ⟨w, hw, hcw⟩ | halbum
        · exact .inl hspace
        · exact .inr (mem_of_mem_tokens hw hcw)
        · cases halbum

theorem title_of_movie_describe {tokens : List Text} {split : Bool} {albumHint : Text}
    (hmovie : (describe u lower tokens split albumHint).kind = .movie) :
    (describe u lower tokens split albumHint).title = join (tokens.take (titleCut u tokens split)) := by
  grind [describe]

theorem words_of_movie (hmovie : (canonicalise u name).kind = .movie) :
    ∃ ws, (canonicalise u name).title = join ws ∧ (∀ w ∈ ws, IsWord isBreak w) ∧
      (hyphenSplit u (name.map u.toLower) = none →
        ws = (tokeniseWithReplacer (name.map u.toLower)).takeWhile fun tok => !isBoundary u tok) := by
  unfold canonicalise at hmovie ⊢
  split at hmovie
  · cases hmovie
  · rename_i hne
    rw [if_neg hne]
    simp only [] at hmovie ⊢
    split at hmovie
    · grind [hyphenSplit_eq_some, title_of_movie_describe, isWord_of_mem_tokens]
    · split at hmovie
      · cases hmovie
      · grind [title_of_movie_describe, take_titleCut, isWord_of_mem_tokens]

theorem canonicalise_movie {tok : Text} {year : Nat} (hsplit : hyphenSplit u (name.map u.toLower) = none)
    (htokens : tokeniseWithReplacer (name.map u.toLower) = ws ++ [tok]) (hne : ws ≠ [])
    (hws : ∀ w ∈ ws, isBoundary u w = false) (hyear : yearOf u tok = some year) (hpos : 0 < year)
    (hseason : isSeasonMarker tok = false) :
    canonicalise u name =
      { kind := .movie, title := join ws, year := year, season := -1, episodeSet := [], albumHint := [] } := by
  have hname : name ≠ [] := by
    rintro rfl
    have hnil : tokeniseWithReplacer ([] : Text) = [] := rfl
    rw [map_nil, hnil] at htokens
    simp at htokens
  have hsome : ws ++ [tok] ≠ [] := by simp
  have hnoSeason : ∀ w ∈ ws ++ [tok], isSeasonMarker w = false := by grind [isBoundary]
  have hfound : (ws ++ [tok]).findSome? (yearOf u) = some year := by
    have hnone : ws.findSome? (yearOf u) = none := by
      rw [findSome?_eq_none_iff]
      intro w hw
      have hplain := hws w hw
      rw [isBoundary, Bool.or_eq_false_iff, Bool.or_eq_false_iff] at hplain
      exact Option.not_isSome_iff_eq_none.mp (Bool.eq_false_iff.mp hplain.1.2)
    grind
  have hisYear : isYear u tok = true := by
    rw [isYear, hyear]
    rfl
  have htitle : (ws ++ [tok]).take (titleCut u (ws ++ [tok]) false) = ws := by
    rw [take_titleCut, takeWhile_append_of_pos]
    · simp [isBoundary, hisYear]
    · intro w hw
      rw [hws w hw]
      rfl
  have hjoin : join ws ≠ [] := by grind [join_ne_nil, isWord_of_mem_tokens]
  unfold canonicalise
  rw [if_neg hname]
  simp only []
  rw [hsplit]
  simp only []
  rw [htokens, if_neg hsome, describe]
  simp only [extractYear]
  rw [htokens, hfound, htitle, if_pos hjoin, extractSeasonEpisode_of_none hnoSeason]
  simp [kindOf, hpos]

theorem cut_dash {left : Text} (h : '-' ∉ left) (right : Text) :
    cut " - ".toList (left ++ (" - ".toList ++ right)) = some (left, right) := by
  induction left with
  | nil => rfl
  | cons c left ih =>
    have hrest := ih fun hmem => h (mem_cons_of_mem c hmem)
    have hpre : ¬ (" - ".toList.isPrefixOf (c :: (left ++ (" - ".toList ++ right))) = true) := by
      cases left with
      | nil => simp
      | cons d left => grind
    rw [cons_append, cut, if_neg hpre, hrest]
    rfl

/-- A word in lower case that ends no title. -/
structure PlainWord (w : Text) : Prop where
  isWord : IsWord isBreak w
  lower : ∀ c ∈ w, u.toLower c = c
  noBoundary : isBoundary u w = false

variable {u}

theorem PlainWord.parts {w : Text} (hw : PlainWord u w) :
    isSeasonMarker w = false ∧ isYear u w = false ∧ isReleaseTagToken w = false := by
  have hplain := hw.noBoundary
  grind [isBoundary]

theorem map_toLower_join (hws : ∀ w ∈ ws, PlainWord u w) : (join ws).map u.toLower = join ws := by
  refine (map_congr_left fun c hc => ?_).trans (map_id _)
  rcases mem_join hc with rfl | ⟨w, hw, hcw⟩
  · exact u.toLower_ascii ' ' (by decide)
  · exact (hws w hw).lower c hcw

theorem tokens_album {album : List Text} (halbum : ∀ w ∈ album, PlainWord u w) :
    tokeniseWithReplacer (join album ++ " [flac]".toList) = album ++ ["flac".toList] := by
  have hjoin := tokeniseWithReplacer_join fun w hw => (halbum w hw).isWord
  rw [tokeniseWithReplacer_eq_fields] at hjoin ⊢
  have hsplit := @fields_append_sep _ isBreak (join album) "[flac]".toList ' ' (by decide)
  rw [hjoin] at hsplit
  exact hsplit.trans (congrArg (album ++ ·) (by decide))

theorem not_isYear_flac : isYear u "flac".toList = false := by simp [isYear, yearOf]

def Canonical.album (artist album : Text) : Canonical :=
  { kind := .music, title := artist, year := 0, season := -1, episodeSet := [], albumHint := album }

theorem canonicalise_album {artist album : List Text} (hartistNe : artist ≠ []) (halbumNe : album ≠ [])
    (hartist : ∀ w ∈ artist, PlainWord u w) (halbum : ∀ w ∈ album, PlainWord u w) :
    canonicalise u (join artist ++ (" - ".toList ++ (join album ++ " [FLAC]".toList))) =
      .album (join artist) (join album) := by
  have hlower : (join artist ++ (" - ".toList ++ (join album ++ " [FLAC]".toList))).map u.toLower =
      join artist ++ (" - ".toList ++ (join album ++ " [flac]".toList)) := by
    rw [map_append, map_append, map_append, map_toLower_join hartist, map_toLower_join halbum]
    simp [u.toLower_ascii]
  have hartistWords : ∀ w ∈ artist, IsWord isBreak w := fun w hw => (hartist w hw).isWord
  have halbumWords : ∀ w ∈ album, IsWord isBreak w := fun w hw => (halbum w hw).isWord
  have hartistJoin := join_ne_nil hartistNe hartistWords
  have halbumJoin := join_ne_nil halbumNe halbumWords
  have hleft := tokeniseWithReplacer_join hartistWords
  have hright : albumTokensFromRight u (join album ++ " [flac]".toList) = album := by
    rw [albumTokensFromRight_eq, tokens_album halbum, takeWhile_append_of_pos]
    · have hflac : isReleaseTagToken "flac".toList = true := by decide
      grind [takeWhile_cons_of_neg]
    · intro w hw
      obtain ⟨-, hyear, htag⟩ := (halbum w hw).parts
      rw [hyear, htag]
      rfl
  have hsplit : hyphenSplit u (join artist ++ (" - ".toList ++ (join album ++ " [flac]".toList))) =
      some (artist, join album) := by grind [hyphenSplit, cut_dash, dash_not_mem_join]
  have htokens : tokeniseWithReplacer (join artist ++ (" - ".toList ++ (join album ++ " [flac]".toList))) =
      artist ++ (album ++ ["flac".toList]) := by
    have halbumTokens := tokens_album halbum
    rw [tokeniseWithReplacer_eq_fields] at halbumTokens hleft ⊢
    rw [← halbumTokens]
    show fields isBreak (join artist ++ ' ' :: ([] ++ '-' :: ([] ++ ' ' :: (join album ++ " [flac]".toList)))) = _
    rw [fields_append_sep _ _ (by decide), fields_append_sep _ _ (by decide), fields_append_sep _ _ (by decide), hleft]
    rfl
  have hyear : (artist ++ (album ++ ["flac".toList])).findSome? (yearOf u) = none := by
    rw [findSome?_eq_none_iff]
    intro w hw
    refine Option.not_isSome_iff_eq_none.mp (Bool.eq_false_iff.mp ?_)
    rcases mem_append.mp hw with hw | hw
    · exact (hartist w hw).parts.2.1
    · rcases mem_append.mp hw with hw | hw
      · exact (halbum w hw).parts.2.1
      · rw [mem_singleton.mp hw]
        exact not_isYear_flac
  have htitle : artist.take (titleCut u artist true) = artist := by
    rw [take_titleCut_split, takeWhile_eq_self_iff]
    intro w hw
    obtain ⟨hseason, -, htag⟩ := (hartist w hw).parts
    rw [hseason, htag]
    rfl
  have hhint : hasMusicHint (join artist ++ (" - ".toList ++ (join album ++ " [flac]".toList))) = true := by
    refine any_eq_true.mpr ⟨"[flac]".toList, by decide, ?_⟩
    have hcut := cut_isSome_append (join artist ++ (" - ".toList ++ (join album ++ " ".toList))) "[flac]".toList []
    simpa using hcut
  have hname : join artist ++ (" - ".toList ++ (join album ++ " [FLAC]".toList)) ≠ [] := by simp
  unfold canonicalise
  rw [if_neg hname, hlower]
  simp only []
  rw [hsplit]
  simp only []
  unfold describe
  simp only [extractYear]
  rw [htokens, hyear, htitle, if_pos hartistJoin, hhint,
    extractSeasonEpisode_of_none fun w hw => (hartist w hw).parts.1]
  simp [Canonical.album, kindOf, halbumJoin]

end

end BitAgent.Wantbridge
