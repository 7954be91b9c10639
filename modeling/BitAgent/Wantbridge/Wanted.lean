/-
# Wantbridge.Wanted — which torrent names find their wantlist entry

An entry is indexed under its trimmed, lower-cased title, and a name is looked up under the words that `Canonicalise`
finds. They meet for a movie iff the title is words joined by single spaces, none of which ends a title
(`movie_wanted_iff`). An artist is indexed without an album and a release looked up with one (`album_wanted_iff`).
-/
import BitAgent.Wantbridge.Service

namespace BitAgent.Wantbridge

open Lib Lib.GoString List
open Lib.Words (forall_ascii)
open Catalogueguard (trimSpace trimBy_split tagWhitespace)

attribute [local instance] decidableMem

/-! ## Keys -/

def keyTag : Kind → Text
  | .tv => "tv:".toList
  | .movie => "mv:".toList
  | .music => "ms:".toList
  | .unknown => []

theorem take_of_mem_canonicalKeys {c : Canonical} {key : Text} (h : key ∈ canonicalKeys c) :
    key.take 3 = keyTag c.kind := by
  unfold canonicalKeys canonicalKey at h
  obtain ⟨kind, title, year, season, episodeSet, albumHint⟩ := c
  cases kind with
  | unknown => simp at h
  | movie =>
    simp only [keyTag] at h ⊢
    split_ifs at h <;> simp_all
  | tv =>
    simp only [keyTag] at h ⊢
    split_ifs at h <;> simp_all
    all_goals rcases h with rfl | rfl <;> rfl
  | music =>
    simp only [keyTag] at h ⊢
    split_ifs at h <;> simp_all

theorem canonicalKeys_movieEntry {title : Text} {year : Int} (hyear : 0 < year) :
    canonicalKeys (movieEntry title year).canonical = ["mv:".toList ++ title ++ ":".toList ++ itoa year] := by
  simp [movieEntry, canonicalKeys, canonicalKey, hyear]

theorem canonicalKeys_artistEntry (title : Text) :
    canonicalKeys (artistEntry title).canonical = ["ms:".toList ++ title] := by
  simp [artistEntry, canonicalKeys, canonicalKey]

theorem lookupKeys_album {artist album : Text} (halbum : album ≠ []) :
    lookupKeys (.album artist album) = ["ms:".toList ++ (artist ++ (":".toList ++ album))] := by
  simp [Canonical.album, lookupKeys, canonicalKeys, canonicalKey, halbum]

theorem movie_of_mem_lookupKeys {c : Canonical} {title rest : Text} (hc : ':' ∉ c.title) (ht : ':' ∉ title)
    (h : "mv:".toList ++ title ++ ":".toList ++ rest ∈ lookupKeys c) : c.kind = .movie ∧ c.title = title := by
  have hlonger : c.title ≠ title ++ ':' :: rest := by
    intro heq
    rw [heq] at hc
    simp at hc
  unfold lookupKeys at h
  split at h
  · simp at h
    exact absurd h.symm hlonger
  · have hkind : keyTag c.kind = "mv:".toList := by
      rw [← take_of_mem_canonicalKeys h]
      rfl
    obtain ⟨kind, title', year, season, episodeSet, albumHint⟩ := c
    cases kind with
    | movie =>
      refine ⟨rfl, ?_⟩
      by_cases hyear : 0 < year
      · simp [canonicalKeys, canonicalKey, hyear] at h
        exact (eq_of_append_cons_eq ht hc h).symm
      · simp [canonicalKeys, canonicalKey, hyear] at h
        exact absurd h.symm hlonger
    | _ => cases hkind

/-! ## The last refresh -/

section
variable {u : CharClasses} {F : Type} {bloom : Bloom Text F} {cfg : Config}
  {run : List (Refresh cfg)} {src : Source} {last : Refresh cfg} {got : List WantEntry}

theorem feedsAfter_concat (hpolled : src ∈ cfg.polled) (hfetch : last.polls.fetch u src = some got) :
    feedsAfter u cfg (run ++ [last]) src = ⟨0, got⟩ := by
  rw [feedsAfter, foldl_concat, pollFeeds, if_pos hpolled, hfetch]
  rfl

variable {e : WantEntry}

theorem mem_entriesAt_of_last (hpolled : src ∈ cfg.polled) (hfetch : last.polls.fetch u src = some got) (he : e ∈ got)
    {key : Text} (hkey : key ∈ canonicalKeys e.canonical) :
    e ∈ (serviceAfter u bloom cfg (run ++ [last])).entriesAt key := by
  have hs := @tracks_serviceAfter u _ bloom _ (run ++ [last])
  rw [hs.entries, (tags_of_fetch hfetch he).1, feedsAfter_concat hpolled hfetch]
  exact ⟨Nat.zero_lt_succ 4, he, hkey⟩

theorem exists_fetch_of_mem (he : e ∈ (feedsAfter u cfg run src).wantlist) :
    ∃ (r : Refresh cfg) (got : List WantEntry), r.polls.fetch u src = some got ∧ e ∈ got := by
  induction run using List.reverseRecOn with
  | nil => cases he
  | append_singleton run r ih =>
    rw [feedsAfter, foldl_concat, pollFeeds] at he
    split at he
    · cases hfetch : r.polls.fetch u src with
      | none =>
        rw [hfetch] at he
        exact ih he
      | some got =>
        rw [hfetch] at he
        exact ⟨r, got, hfetch, he⟩
    · exact ih he

variable {artists : List LidarrArtist}

/-! ## Movies -/

theorem itoa_year {year : Int} (h : 1900 ≤ year ∧ year ≤ 2099) :
    (itoa year).length = 4 ∧ (∀ c ∈ itoa year, c.isDigit = true) ∧ (number (itoa year) : Int) = year := by
  obtain ⟨n, rfl⟩ := Int.eq_ofNat_of_zero_le (by omega : 0 ≤ year)
  have hlow : 1900 ≤ n := by omega
  have hhigh : n ≤ 2099 := by omega
  show (Nat.toDigits 10 n).length = 4 ∧ (∀ c ∈ Nat.toDigits 10 n, c.isDigit = true) ∧
    ((Nat.ofDigitChars 10 (Nat.toDigits 10 n) 0 : Nat) : Int) = n
  refine ⟨?_, fun c hc => Nat.isDigit_of_mem_toDigits (by decide) (by decide) hc, ?_⟩
  · have hfour : (Nat.toDigits 10 n).length ≤ 4 := (Nat.length_toDigits_le_iff (by decide) (by decide)).mpr (by omega)
    have hthree : ¬ (Nat.toDigits 10 n).length ≤ 3 := by grind [Nat.length_toDigits_le_iff]
    omega
  · rw [Nat.ofDigitChars_ten_toDigits]

theorem ascii_of_isDigit {c : Char} (h : c.isDigit = true) : c.toNat < 128 :=
  toNat_lt_of_isAlpha_or_isDigit (by rw [h, Bool.or_true])

theorem forall_digit {p : Char → Bool}
    (h : (List.range 128).all (fun n => !(Char.ofNat n).isDigit || p (Char.ofNat n)) = true) {c : Char}
    (hc : c.isDigit = true) : p c = true := by
  have hp := forall_ascii (p := fun c => !c.isDigit || p c) h (ascii_of_isDigit hc)
  rwa [hc] at hp

theorem length_encode_digits {digits : Text} (h : ∀ c ∈ digits, c.isDigit = true) :
    (encode digits).length = digits.length := by
  induction digits with
  | nil => rfl
  | cons c digits ih =>
    have hc : (String.utf8EncodeChar c).length = 1 := by
      have hone := forall_digit (p := fun c => (String.utf8EncodeChar c).length == 1) (by decide) (h c mem_cons_self)
      simpa using hone
    grind [encode_cons]

section
variable {year : Int} (hyear : 1900 ≤ year ∧ year ≤ 2099)
include hyear

theorem yearOf_itoa : yearOf u (itoa year) = some year.toNat := by
  obtain ⟨hlen, hdigits, hnumber⟩ := itoa_year hyear
  have hascii : (itoa year).all Char.isDigit = true := all_eq_true.mpr hdigits
  have hunicode : (itoa year).all u.isDigit = true := by
    rw [all_eq_true]
    intro c hc
    rw [u.isDigit_ascii c (ascii_of_isDigit (hdigits c hc)), hdigits c hc]
  grind [yearOf, length_encode_digits]

theorem not_isSeasonMarker_itoa : isSeasonMarker (itoa year) = false := by
  obtain ⟨-, hdigits, -⟩ := itoa_year hyear
  unfold isSeasonMarker seasonRE
  grind [mem_cons_self]

theorem isWord_itoa : IsWord isBreak (itoa year) := by
  obtain ⟨hlen, hdigits, -⟩ := itoa_year hyear
  refine ⟨?_, fun c hc => ?_⟩
  · intro hnil
    rw [hnil] at hlen
    cases hlen
  · have hbreak := forall_digit (p := fun c => !isBreak c) (by decide) (hdigits c hc)
    simpa using hbreak

theorem map_toLower_itoa : (itoa year).map u.toLower = itoa year := by
  obtain ⟨-, hdigits, -⟩ := itoa_year hyear
  refine (map_congr_left fun c hc => ?_).trans (map_id _)
  have hlower := forall_digit (p := fun c => c.toLower == c) (by decide) (hdigits c hc)
  rw [u.toLower_ascii c (ascii_of_isDigit (hdigits c hc))]
  simpa using hlower

end

/-- Words joined by single spaces, none of which is a season marker, a year or a release tag. -/
def PlainTitle (u : CharClasses) (title : Text) : Prop :=
  ∃ ws : List Text, ws ≠ [] ∧ title = join ws ∧ ∀ w ∈ ws, IsWord isBreak w ∧ isBoundary u w = false

/-- Letters and digits, none of which is white space, spaces, dots, hyphens, underscores and brackets. -/
def TitleChar (u : CharClasses) (c : Char) : Prop :=
  (u.isLetter c || u.isDigit c) = true ∧ isSpace c = false ∨ c = ' ' ∨ c ∈ separators

def RadarrMovie.torrentName (m : RadarrMovie) : Text := m.title.toList ++ ' ' :: itoa m.year

section
variable {m : RadarrMovie}

theorem split_title (hchars : ∀ c ∈ m.title.toList, TitleChar u c) : ∃ a b : Text, (∀ c ∈ a ++ b, c = ' ') ∧
      m.title.toList.map u.toLower = a ++ (wantTitle u m.title ++ b) := by
  obtain ⟨a, b, hsplit, ha, hb⟩ := trimBy_split (fun c => decide (c ∈ tagWhitespace)) m.title.toList
  have hspace : ∀ c ∈ a ++ b, u.toLower c = ' ' := by
    intro c hc
    have hwhite : isSpace c = true := by
      rcases mem_append.mp hc with hc | hc
      · exact ha c hc
      · exact hb c hc
    have hmem : c ∈ m.title.toList := by grind
    rcases hchars c hmem with ⟨-, hnot⟩ | rfl | hsep
    · rw [hwhite] at hnot
      cases hnot
    · exact u.toLower_ascii ' ' (by decide)
    · have hnone : separators.all (fun c => !isSpace c) = true := by decide
      grind
  refine ⟨a.map u.toLower, b.map u.toLower, fun c hc => ?_, ?_⟩
  · grind
  · conv_lhs => rw [hsplit]
    rw [map_append, map_append, append_assoc]
    rfl

variable (hyear : 1900 ≤ m.year ∧ m.year ≤ 2099) (hchars : ∀ c ∈ m.title.toList, TitleChar u c)
include hyear

theorem map_toLower_torrentName : m.torrentName.map u.toLower = m.title.toList.map u.toLower ++ ' ' :: itoa m.year := by
  rw [RadarrMovie.torrentName, map_append, map_cons, map_toLower_itoa hyear, u.toLower_ascii ' ' (by decide)]
  rfl

include hchars

theorem tokens_torrentName : tokeniseWithReplacer (m.torrentName.map u.toLower) =
      tokeniseWithReplacer (wantTitle u m.title) ++ [itoa m.year] := by
  obtain ⟨a, b, hspaces, hlower⟩ := split_title hchars
  have hpad : ∀ c ∈ a ++ b, isBreak c = true := by
    intro c hc
    rw [hspaces c hc]
    decide
  rw [map_toLower_torrentName hyear, hlower]
  simp only [tokeniseWithReplacer_eq_fields]
  rw [fields_append_sep _ _ (by decide), fields_pad hpad, fields_word (isWord_itoa hyear)]

theorem colon_not_mem_torrentName : ':' ∉ m.torrentName.map u.toLower := by
  intro hmem
  rw [map_toLower_torrentName hyear, mem_append, mem_cons] at hmem
  rcases hmem with hmem | hspace | hdigit
  · obtain ⟨c, hc, hlower⟩ := mem_map.mp hmem
    rcases hchars c hc with ⟨hword, -⟩ | rfl | hsep
    · have hcolon := u.word_toLower c hword
      rw [hlower, u.isLetter_ascii _ (by decide), u.isDigit_ascii _ (by decide)] at hcolon
      exact absurd hcolon (by decide)
    · rw [u.toLower_ascii _ (by decide)] at hlower
      exact absurd hlower (by decide)
    · have hnone : separators.all (fun c => decide (c.toNat < 128) && c.toLower != ':') = true := by decide
      have hc := all_eq_true.mp hnone c hsep
      rw [Bool.and_eq_true, decide_eq_true_eq] at hc
      rw [u.toLower_ascii c hc.1] at hlower
      simp [hlower] at hc
  · exact absurd hspace (by decide)
  · grind [itoa_year]

theorem dash_mem_wantTitle (h : '-' ∈ m.torrentName.map u.toLower) : '-' ∈ wantTitle u m.title := by
  obtain ⟨a, b, hspaces, hlower⟩ := split_title hchars
  rw [map_toLower_torrentName hyear, hlower] at h
  simp only [mem_append, mem_cons] at h
  rcases h with (ha | ht | hb) | hspace | hdigit
  · exact absurd (hspaces _ (mem_append_left _ ha)) (by decide)
  · exact ht
  · exact absurd (hspaces _ (mem_append_right _ hb)) (by decide)
  · exact absurd hspace (by decide)
  · grind [itoa_year]

theorem dash_mem_of_hyphenSplit (h : hyphenSplit u (m.torrentName.map u.toLower) ≠ none) :
    '-' ∈ wantTitle u m.title := by
  obtain ⟨⟨artist, album⟩, hsplit⟩ := Option.ne_none_iff_exists'.mp h
  grind [hyphenSplit_eq_some, dash_mem_wantTitle]

theorem canonicalise_torrentName (hplain : PlainTitle u (wantTitle u m.title)) :
    canonicalise u m.torrentName = (movieEntry (wantTitle u m.title) m.year).canonical := by
  obtain ⟨ws, hne, htitle, hws⟩ := hplain
  have hwords : ∀ w ∈ ws, IsWord isBreak w := fun w hw => (hws w hw).1
  have hsplit : hyphenSplit u (m.torrentName.map u.toLower) = none := by
    grind [dash_mem_of_hyphenSplit, dash_not_mem_join]
  have htokens := tokens_torrentName hyear hchars
  rw [htitle, tokeniseWithReplacer_join hwords] at htokens
  have hcanonical := canonicalise_movie u hsplit htokens hne (fun w hw => (hws w hw).2) (yearOf_itoa hyear)
    (by omega) (not_isSeasonMarker_itoa hyear)
  have hnat : (m.year.toNat : Int) = m.year := by omega
  rw [hcanonical, htitle, hnat]
  rfl

theorem plainTitle_of_key (htitle : wantTitle u m.title ≠ [])
    (hkey : "mv:".toList ++ wantTitle u m.title ++ ":".toList ++ itoa m.year ∈
      lookupKeys (canonicalise u m.torrentName)) : PlainTitle u (wantTitle u m.title) := by
  have hcolon : ':' ∉ (canonicalise u m.torrentName).title := by
    intro hmem
    rcases mem_title u hmem with hspace | hname
    · exact absurd hspace (by decide)
    · exact colon_not_mem_torrentName hyear hchars hname
  have hown : ':' ∉ wantTitle u m.title := by
    intro hmem
    obtain ⟨a, b, -, hlower⟩ := split_title hchars
    refine colon_not_mem_torrentName hyear hchars ?_
    rw [map_toLower_torrentName hyear, hlower]
    simp [hmem]
  obtain ⟨hmovie, hsame⟩ := movie_of_mem_lookupKeys hcolon hown hkey
  obtain ⟨ws, hjoin, hwords, hunsplit⟩ := words_of_movie u hmovie
  rw [hsame] at hjoin
  have hsplit : hyphenSplit u (m.torrentName.map u.toLower) = none := by
    by_contra hsome
    have hdash := dash_mem_of_hyphenSplit hyear hchars hsome
    rw [hjoin] at hdash
    exact dash_not_mem_join hwords hdash
  have hprefix := hunsplit hsplit
  rw [tokens_torrentName hyear hchars, hjoin, tokeniseWithReplacer_join hwords] at hprefix
  refine ⟨ws, ?_, hjoin, fun w hw => ⟨hwords w hw, ?_⟩⟩
  · rintro rfl
    exact htitle hjoin
  · grind [mem_takeWhile_imp]

end

def radarrOnly : Config where
  enabled := true
  minTitleTokens := 0
  sonarrBaseURL := ""
  sonarrAPIKey := ""
  radarrBaseURL := "http://radarr:7878"
  radarrAPIKey := "key"
  lidarrBaseURL := ""
  lidarrAPIKey := ""

def radarrLists (movies : List RadarrMovie) : Refresh radarrOnly where
  polls := { sonarr := none, radarr := some movies, lidarr := none }
  order := [.radarr]
  perm := by
    have hclients : radarrOnly.clients = [.radarr] := by decide
    rw [hclients]

variable (u bloom) in
/-- A movie's torrent name is wanted, in every service that listed it last, exactly when its title is plain. -/
theorem movie_wanted_iff (m : RadarrMovie) (hmonitored : m.monitored = true) (hfile : m.hasFile = false)
    (hyear : 1900 ≤ m.year ∧ m.year ≤ 2099) (hchars : ∀ c ∈ m.title.toList, TitleChar u c) :
    (∀ (cfg : Config) (run : List (Refresh cfg)) (last : Refresh cfg) (movies : List RadarrMovie),
        .radarr ∈ cfg.polled → last.polls.radarr = some movies → m ∈ movies →
        cfg.minTitleTokens ≤ tokensIn (wantTitle u m.title) →
        ((serviceAfter u bloom cfg (run ++ [last])).matchName u bloom cfg (encode m.torrentName)).tier = .tier0) ↔
      PlainTitle u (wantTitle u m.title) := by
  constructor
  · intro hall
    -- the movie alone: what is found is its own entry
    have htier := hall radarrOnly [] (radarrLists [m]) [m] (by decide) rfl mem_cons_self (Int.natCast_nonneg _)
    have hs := @tracks_serviceAfter u _ bloom _ [radarrLists [m]]
    rw [nil_append, tier0_iff hs] at htier
    obtain ⟨key, hkey, e, he⟩ := htier
    obtain ⟨-, hin, hown⟩ := (hs.entries key e).mp he
    have hpolled : e.source ∈ radarrOnly.polled := by
      by_contra hunpolled
      rw [hs.unpolled _ hunpolled] at hin
      cases hin
    have hradarr : e.source = .radarr := by
      have hlist : radarrOnly.polled = [.radarr] := by decide
      grind
    rw [hradarr] at hin
    obtain ⟨m', hm', -, -, htitle, rfl⟩ := mem_fetchRadarr.mp hin
    rw [mem_singleton] at hm'
    subst hm'
    rw [canonicalKeys_movieEntry (by omega), mem_singleton] at hown
    subst hown
    unfold nameKeys at hkey
    rw [decode_encode] at hkey
    simp only [] at hkey
    split at hkey
    · cases hkey
    · exact plainTitle_of_key hyear hchars htitle hkey
  · intro hplain cfg run last movies hpolled hlast hmem htokens
    have htitle : wantTitle u m.title ≠ [] := by
      obtain ⟨ws, hne, hjoin, hws⟩ := hplain
      grind [join_ne_nil]
    have hfetch : last.polls.fetch u .radarr = some (fetchRadarr u movies) := by
      rw [Polls.fetch, hlast]
      rfl
    have hentry : movieEntry (wantTitle u m.title) m.year ∈ fetchRadarr u movies :=
      mem_fetchRadarr.mpr ⟨m, hmem, hmonitored, hfile, htitle, rfl⟩
    have hkey := @canonicalKeys_movieEntry (wantTitle u m.title) _ (by omega : 0 < m.year)
    rw [tier0_iff (tracks_serviceAfter (run ++ [last])), nameKeys, decode_encode,
      canonicalise_torrentName hyear hchars hplain, if_neg]
    · refine ⟨_, ?_, _, mem_entriesAt_of_last hpolled hfetch hentry (by rw [hkey]; exact mem_singleton_self _)⟩
      show _ ∈ canonicalKeys _
      rw [hkey]
      exact mem_singleton_self _
    · rintro (hempty | ⟨-, hfew⟩)
      · exact htitle hempty
      · exact absurd hfew (Int.not_lt.mpr htokens)

def exactBloom : Bloom Text (List Text) := Bloom.exact Text

instance : DecidablePred (TitleChar u) := fun c =>
  inferInstanceAs (Decidable ((u.isLetter c || u.isDigit c) = true ∧ isSpace c = false ∨ c = ' ' ∨ c ∈ separators))

theorem forall_mem_of_all {l : Text} {p : Char → Prop} [DecidablePred p] (h : (l.all fun c => decide (p c)) = true) :
    ∀ c ∈ l, p c := fun c hc => of_decide_eq_true (all_eq_true.mp h c hc)

def theMatrix : RadarrMovie := { title := "The Matrix", year := 1999, monitored := true, hasFile := false }

/-- The movie that was listed is in the table under its key. -/
theorem listed_movie_in_table :
    ∃ e ∈ (serviceAfter .ascii exactBloom radarrOnly [radarrLists [theMatrix]]).entriesAt "mv:the matrix:1999".toList,
      e.source = .radarr := by
  refine ((matchName_and_table_after_refreshes [radarrLists [theMatrix]]).2 .radarr _).mpr ⟨by decide, ?_⟩
  decide +kernel

theorem movie_wanted_theMatrix :
    ((serviceAfter .ascii exactBloom radarrOnly ([] ++ [radarrLists [theMatrix]])).matchName .ascii exactBloom
      radarrOnly (encode theMatrix.torrentName)).tier = .tier0 := by
  have hchars : ∀ c ∈ theMatrix.title.toList, TitleChar .ascii c := forall_mem_of_all (by decide)
  have hplain : PlainTitle .ascii (wantTitle .ascii theMatrix.title) := by
    refine ⟨["the".toList, "matrix".toList], by decide, by decide, ?_⟩
    intro w hw
    rw [mem_cons, mem_singleton] at hw
    rcases hw with rfl | rfl
    · exact ⟨⟨by decide, forall_mem_of_all (by decide)⟩, by decide +kernel⟩
    · exact ⟨⟨by decide, forall_mem_of_all (by decide)⟩, by decide +kernel⟩
  exact (movie_wanted_iff .ascii exactBloom theMatrix rfl rfl (by decide) hchars).mpr hplain radarrOnly []
    (radarrLists [theMatrix]) [theMatrix] (by decide) rfl mem_cons_self (by decide)

def spiderMan : RadarrMovie := { title := "Spider-Man", year := 2002, monitored := true, hasFile := false }

/-- The key of the entry has the hyphen, and the key of the name has not. -/
theorem hyphen_not_wanted :
    spiderMan.monitored = true ∧ spiderMan.hasFile = false ∧ (1900 ≤ spiderMan.year ∧ spiderMan.year ≤ 2099) ∧
      (∀ c ∈ spiderMan.title.toList, TitleChar .ascii c) ∧
      radarrOnly.minTitleTokens ≤ tokensIn (wantTitle .ascii spiderMan.title) ∧
      ((serviceAfter .ascii exactBloom radarrOnly [radarrLists [spiderMan]]).matchName .ascii exactBloom radarrOnly
        (encode spiderMan.torrentName)).tier = .tier1 :=
  ⟨rfl, rfl, by decide, forall_mem_of_all (by decide), by decide +kernel, by decide +kernel⟩

/-! ## Artists -/

theorem tokensInFrom_word {w : Text} (hw : ∀ c ∈ w, isBreak c = false) (rest : Text) :
    tokensInFrom true (w ++ rest) = tokensInFrom true rest := by
  induction w with
  | nil => rfl
  | cons c w ih =>
    have hc : ¬ (c = ' ' ∨ c = '\t') := by rintro (rfl | rfl) <;> exact absurd (hw _ mem_cons_self) (by decide)
    grind [tokensInFrom]

theorem tokensIn_join {ws : List Text} (hws : ∀ w ∈ ws, IsWord isBreak w) : tokensIn (join ws) = ws.length := by
  have hfirst : ∀ (w rest : Text), IsWord isBreak w → tokensInFrom false (w ++ rest) = tokensInFrom true rest + 1 := by
    intro w rest hw
    cases w with
    | nil => exact absurd rfl hw.1
    | cons c w =>
      have hc : ¬ (c = ' ' ∨ c = '\t') := by rintro (rfl | rfl) <;> exact absurd (hw.2 _ mem_cons_self) (by decide)
      rw [cons_append, tokensInFrom, if_neg hc, if_neg Bool.false_ne_true,
        tokensInFrom_word fun d hd => hw.2 d (mem_cons_of_mem c hd)]
  unfold tokensIn join
  induction ws with
  | nil => rfl
  | cons w ws ih =>
    have hw := hws w mem_cons_self
    cases ws with
    | nil =>
      have hone := hfirst w [] hw
      rw [append_nil] at hone
      rw [intercalate_singleton, hone]
      rfl
    | cons next ws =>
      rw [intercalate_cons_cons, append_assoc, singleton_append, hfirst w _ hw, length_cons,
        ← ih fun w' hw' => hws w' (mem_cons_of_mem w hw')]
      rfl

theorem exists_entry_music_iff (hpolled : .lidarr ∈ cfg.polled) (hlast : last.polls.lidarr = some artists)
    {title : Text} (htitle : title ≠ []) :
    (∃ e, e ∈ (serviceAfter u bloom cfg (run ++ [last])).entriesAt ("ms:".toList ++ title)) ↔
      ∃ a ∈ artists, a.monitored = true ∧ wantTitle u a.artistName = title := by
  have hs := @tracks_serviceAfter u _ bloom _ (run ++ [last])
  have hfetch : last.polls.fetch u .lidarr = some (fetchLidarr u artists) := by
    rw [Polls.fetch, hlast]
    rfl
  constructor
  · rintro ⟨e, he⟩
    obtain ⟨-, hin, hkey⟩ := (hs.entries _ e).mp he
    have hlidarr : e.source = .lidarr := by
      obtain ⟨r, got, hgot, hmem⟩ := exists_fetch_of_mem hin
      have htag := take_of_mem_canonicalKeys hkey
      rw [(tags_of_fetch hgot hmem).2] at htag
      generalize e.source = src at htag
      cases src with
      | lidarr => rfl
      | _ => cases htag
    rw [hlidarr, feedsAfter_concat hpolled hfetch] at hin
    grind [mem_fetchLidarr, canonicalKeys_artistEntry]
  · rintro ⟨a, ha, hmonitored, rfl⟩
    refine ⟨_, mem_entriesAt_of_last hpolled hfetch (mem_fetchLidarr.mpr ⟨a, ha, hmonitored, htitle, rfl⟩) ?_⟩
    grind [canonicalKeys_artistEntry]

/-- A release of an album is wanted exactly when Lidarr lists an artist named the artist, a colon and the album. -/
theorem album_wanted_iff (hpolled : .lidarr ∈ cfg.polled) (run : List (Refresh cfg)) (last : Refresh cfg)
    (artists : List LidarrArtist) (hlast : last.polls.lidarr = some artists) (artist album : List Text)
    (hartistNe : artist ≠ []) (halbumNe : album ≠ []) (hartist : ∀ w ∈ artist, PlainWord u w)
    (halbum : ∀ w ∈ album, PlainWord u w) :
    ((serviceAfter u bloom cfg (run ++ [last])).matchName u bloom cfg
        (encode (join artist ++ (" - ".toList ++ (join album ++ " [FLAC]".toList))))).tier = .tier0 ↔
      cfg.minTitleTokens ≤ artist.length ∧ ∃ a ∈ artists, a.monitored = true ∧
          wantTitle u a.artistName = join artist ++ (":".toList ++ join album) := by
  have hartistWords : ∀ w ∈ artist, IsWord isBreak w := fun w hw => (hartist w hw).isWord
  have hartistJoin := join_ne_nil hartistNe hartistWords
  have halbumJoin := join_ne_nil halbumNe fun w hw => (halbum w hw).isWord
  rw [tier0_iff (tracks_serviceAfter (run ++ [last])), nameKeys, decode_encode,
    canonicalise_album hartistNe halbumNe hartist halbum, lookupKeys_album halbumJoin]
  simp only [Canonical.album, tokensIn_join hartistWords]
  by_cases hfew : cfg.minTitleTokens ≤ artist.length
  · rw [if_neg]
    · simp only [mem_singleton, exists_eq_left, hfew, true_and]
      exact exists_entry_music_iff hpolled hlast (by simp [hartistJoin])
    · grind
  · grind

def lidarrOnly : Config where
  enabled := true
  minTitleTokens := 1
  sonarrBaseURL := ""
  sonarrAPIKey := ""
  radarrBaseURL := ""
  radarrAPIKey := ""
  lidarrBaseURL := "http://lidarr:8686"
  lidarrAPIKey := "key"

def lidarrLists (artists : List LidarrArtist) : Refresh lidarrOnly where
  polls := { sonarr := none, radarr := none, lidarr := some artists }
  order := [.lidarr]
  perm := by
    have hclients : lidarrOnly.clients = [.lidarr] := by decide
    rw [hclients]

def pinkFloyd : LidarrArtist := { artistName := "pink floyd", monitored := true }

theorem album_wanted_pinkFloyd :
    ((serviceAfter .ascii exactBloom lidarrOnly ([] ++ [lidarrLists [pinkFloyd]])).matchName .ascii exactBloom
        lidarrOnly (encode (join ["pink".toList, "floyd".toList] ++ (" - ".toList ++
          (join ["animals".toList] ++ " [FLAC]".toList))))).tier = .tier0 ↔
      lidarrOnly.minTitleTokens ≤ ["pink".toList, "floyd".toList].length ∧ ∃ a ∈ [pinkFloyd], a.monitored = true ∧
          wantTitle .ascii a.artistName =
            join ["pink".toList, "floyd".toList] ++ (":".toList ++ join ["animals".toList]) := by
  refine album_wanted_iff (by decide) [] (lidarrLists [pinkFloyd]) [pinkFloyd] rfl _ _ (by decide) (by decide) ?_ ?_
  · intro w hw
    rw [mem_cons, mem_singleton] at hw
    rcases hw with rfl | rfl
    · exact ⟨⟨by decide, forall_mem_of_all (by decide)⟩, forall_mem_of_all (by decide), by decide +kernel⟩
    · exact ⟨⟨by decide, forall_mem_of_all (by decide)⟩, forall_mem_of_all (by decide), by decide +kernel⟩
  · intro w hw
    rw [mem_singleton] at hw
    subst hw
    exact ⟨⟨by decide, forall_mem_of_all (by decide)⟩, forall_mem_of_all (by decide), by decide +kernel⟩

/-- The artist is listed, and the album is not found. -/
theorem album_of_listed_artist_not_wanted : pinkFloyd.monitored = true ∧ pinkFloyd.artistName = "pink floyd" ∧
      ((serviceAfter .ascii exactBloom lidarrOnly [lidarrLists [pinkFloyd]]).matchName .ascii exactBloom lidarrOnly
        (.ofString "pink floyd - animals [FLAC]")).tier = .tier1 := by
  decide +kernel

end

end BitAgent.Wantbridge
