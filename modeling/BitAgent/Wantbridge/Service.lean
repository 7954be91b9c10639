/-
# Wantbridge.Service — the wantlists of Sonarr, Radarr and Lidarr

`internal/wantbridge/service.go` and the `Fetch` methods of `arr_clients.go`. `Refresh` rebuilds the fingerprint
table from the fresh wantlists and from what the old table holds of sources that failed fewer than five times in a
row; `Match` looks a name up behind a bloom filter, which finds what was added. `Feed` is what the service should
know of one source; table and feeds stay in step (`Service.Tracks`).
-/
import BitAgent.Lib.Bloom
import BitAgent.Lib.Prelude
import BitAgent.Wantbridge.Canonical

namespace BitAgent.Wantbridge

open Lib Lib.GoString List
open Catalogueguard (trimSpace)

/-! ## Wantlists -/

inductive Source where
  | sonarr
  | radarr
  | lidarr
  deriving DecidableEq

structure WantEntry where
  source : Source
  canonical : Canonical

structure SonarrSeason where
  seasonNumber : Int
  monitored : Bool

structure SonarrSeries where
  title : String
  year : Int
  monitored : Bool
  seasons : List SonarrSeason

structure RadarrMovie where
  title : String
  year : Int
  monitored : Bool
  hasFile : Bool

structure LidarrArtist where
  artistName : String
  monitored : Bool

section
variable (u : CharClasses)

/-- `strings.ToLower(strings.TrimSpace(title))`. -/
def wantTitle (title : String) : Text := (trimSpace title).map u.toLower

/-- `sonarrClient.Fetch`, after the response was read. -/
def fetchSonarr (series : List SonarrSeries) : List WantEntry :=
  (series.filter (·.monitored)).flatMap fun s =>
    let title := wantTitle u s.title
    if title = [] then []
    else (s.seasons.filter (·.monitored)).map fun season =>
      { source := .sonarr
        canonical :=
          { kind := .tv, title, year := s.year, season := season.seasonNumber, episodeSet := [],
            albumHint := [] } }

def movieEntry (title : Text) (year : Int) : WantEntry where
  source := .radarr
  canonical := { kind := .movie, title, year, season := -1, episodeSet := [], albumHint := [] }

/-- `radarrClient.Fetch`, after the response was read. -/
def fetchRadarr (movies : List RadarrMovie) : List WantEntry :=
  (movies.filter fun m => m.monitored && !m.hasFile).flatMap fun m =>
    let title := wantTitle u m.title
    if title = [] then [] else [movieEntry title m.year]

def artistEntry (title : Text) : WantEntry where
  source := .lidarr
  canonical := { kind := .music, title, year := 0, season := -1, episodeSet := [], albumHint := [] }

/-- `lidarrClient.Fetch`, after the response was read. -/
def fetchLidarr (artists : List LidarrArtist) : List WantEntry :=
  (artists.filter (·.monitored)).flatMap fun a =>
    let title := wantTitle u a.artistName
    if title = [] then [] else [artistEntry title]

structure Polls where
  sonarr : Option (List SonarrSeries)
  radarr : Option (List RadarrMovie)
  lidarr : Option (List LidarrArtist)

/-- `c.Fetch(ctx)`. -/
def Polls.fetch (p : Polls) : Source → Option (List WantEntry)
  | .sonarr => p.sonarr.map (fetchSonarr u)
  | .radarr => p.radarr.map (fetchRadarr u)
  | .lidarr => p.lidarr.map (fetchLidarr u)

section
variable {u} {e : WantEntry}

theorem mem_fetchRadarr {movies : List RadarrMovie} : e ∈ fetchRadarr u movies ↔
      ∃ m ∈ movies, m.monitored = true ∧ m.hasFile = false ∧ wantTitle u m.title ≠ [] ∧
        e = movieEntry (wantTitle u m.title) m.year := by
  unfold fetchRadarr
  rw [mem_flatMap]
  constructor
  · grind
  · grind

theorem mem_fetchLidarr {artists : List LidarrArtist} : e ∈ fetchLidarr u artists ↔
      ∃ a ∈ artists, a.monitored = true ∧ wantTitle u a.artistName ≠ [] ∧
        e = artistEntry (wantTitle u a.artistName) := by
  unfold fetchLidarr
  rw [mem_flatMap]
  grind

def Source.kind : Source → Kind
  | .sonarr => .tv
  | .radarr => .movie
  | .lidarr => .music

theorem tags_of_fetch {p : Polls} {src : Source} {got : List WantEntry} (h : p.fetch u src = some got) (he : e ∈ got) :
    e.source = src ∧ e.canonical.kind = src.kind := by
  cases src with
  | sonarr =>
    obtain ⟨series, -, rfl⟩ := Option.map_eq_some_iff.mp h
    obtain ⟨s, -, hs⟩ := mem_flatMap.mp he
    grind [Source.kind]
  | radarr =>
    obtain ⟨movies, -, rfl⟩ := Option.map_eq_some_iff.mp h
    obtain ⟨m, -, -, -, -, rfl⟩ := mem_fetchRadarr.mp he
    exact ⟨rfl, rfl⟩
  | lidarr =>
    obtain ⟨artists, -, rfl⟩ := Option.map_eq_some_iff.mp h
    obtain ⟨a, -, -, -, rfl⟩ := mem_fetchLidarr.mp he
    exact ⟨rfl, rfl⟩
end

/-! ## The service -/

/-- The part of `Config` that is read here. -/
structure Config where
  enabled : Bool
  minTitleTokens : Int
  sonarrBaseURL : String
  sonarrAPIKey : String
  radarrBaseURL : String
  radarrAPIKey : String
  lidarrBaseURL : String
  lidarrAPIKey : String

/-- The clients that `NewService` makes. -/
def Config.clients (cfg : Config) : List Source :=
  (if cfg.sonarrBaseURL ≠ "" ∧ cfg.sonarrAPIKey ≠ "" then [.sonarr] else []) ++
    (if cfg.radarrBaseURL ≠ "" ∧ cfg.radarrAPIKey ≠ "" then [.radarr] else []) ++
    if cfg.lidarrBaseURL ≠ "" ∧ cfg.lidarrAPIKey ≠ "" then [.lidarr] else []

/-- One run of `Refresh`: what the polls give, and the order of the results. -/
structure Refresh (cfg : Config) where
  polls : Polls
  order : List Source
  perm : order.Perm cfg.clients

/-- `Service`, with the failures of each source in a row. -/
structure Service (F : Type) where
  fingerprintTable : GoMap Text (List WantEntry)
  filter : F
  consecutiveErr : Source → Nat

def Service.entriesAt {F : Type} (s : Service F) (key : Text) : List WantEntry :=
  (s.fingerprintTable.lookup key).getD []

variable {F : Type} (bloom : Bloom Text F) (cfg : Config)

def newService : Service F := { fingerprintTable := .empty, filter := bloom.fresh, consecutiveErr := fun _ => 0 }

/-- `consecutiveErr` after a refresh: a source that answers starts again at zero. -/
def countErrors {cfg : Config} (s : Service F) (r : Refresh cfg) (src : Source) : Nat :=
  if src ∈ r.order then
    match r.polls.fetch u src with
    | none => s.consecutiveErr src + 1
    | some _ => 0
  else s.consecutiveErr src

/-- What the table has from a source. -/
def Service.kept (s : Service F) (src : Source) : List (Text × WantEntry) :=
  s.fingerprintTable.entries.flatMap fun (k, entries) =>
    (entries.filter fun e => decide (e.source = src)).map fun e => (k, e)

/-- What a source brings to the next table: its answer, or, for fewer than five errors in a row, what it had. -/
def contribution {cfg : Config} (s : Service F) (r : Refresh cfg) (src : Source) : List (Text × WantEntry) :=
  match r.polls.fetch u src with
  | none => if countErrors u s r src < 5 then s.kept src else []
  | some got => got.flatMap fun entry => (canonicalKeys entry.canonical).map fun k => (k, entry)

/-- `Refresh`: table and filter are built anew and replace the old ones together. -/
def refresh (s : Service F) (r : Refresh cfg) : Service F :=
  if !cfg.enabled then s
  else if cfg.clients = [] then s
  else
    let newTable := (r.order.flatMap (contribution u s r)).foldl (fun t item => t.push item.1 item.2) .empty
    { fingerprintTable := newTable
      filter := newTable.entries.foldl (fun f e => bloom.add f e.1) bloom.fresh
      consecutiveErr := countErrors u s r }

/-- The service after some runs of `Refresh`. -/
def serviceAfter (run : List (Refresh cfg)) : Service F := run.foldl (refresh u bloom cfg) (newService bloom)

/-! ## Match -/

inductive Tier where
  | tier0
  | tier1
  | tier2
  deriving DecidableEq

/-- `MatchResult`, without the reason of a skip, which `Match` never gives. -/
structure MatchResult where
  tier : Tier
  source : Option Source
  canonical : Option Canonical

/-- `MatchResult{Tier: Tier1}`. -/
def MatchResult.tier1 : MatchResult := { tier := .tier1, source := none, canonical := none }

def MatchResult.found (entry : WantEntry) : MatchResult :=
  { tier := .tier0, source := some entry.source, canonical := some entry.canonical }

/-- `tokensIn`. `inTok` says that the character before was part of a token. -/
def tokensInFrom : Bool → Text → Nat
  | _, [] => 0
  | inTok, c :: s =>
    if c = ' ' ∨ c = '\t' then tokensInFrom false s
    else if inTok then tokensInFrom true s
    else tokensInFrom true s + 1

def tokensIn (s : Text) : Nat := tokensInFrom false s

/-- The keys that `Match` looks up for a title. -/
def lookupKeys (c : Canonical) : List Text :=
  if c.kind = .unknown then ["tv:".toList ++ c.title, "mv:".toList ++ c.title, "ms:".toList ++ c.title]
  else canonicalKeys c

/-- The loop of `Match` over the keys. -/
def Service.tryKeys (s : Service F) : List Text → MatchResult
  | [] => .tier1
  | k :: keys =>
    if !bloom.test s.filter k then s.tryKeys keys
    else
      match s.fingerprintTable.lookup k with
      | none => s.tryKeys keys
      | some [] => s.tryKeys keys
      | some (entry :: _) => .found entry

/-- `Match`. -/
def Service.matchName (s : Service F) (name : GoString) : MatchResult :=
  if !cfg.enabled then .tier1
  else
    let c := canonicalise u (decode name)
    if c.title = [] then .tier1
    else if 0 < cfg.minTitleTokens ∧ tokensIn c.title < cfg.minTitleTokens then .tier1
    else s.tryKeys bloom (lookupKeys c)

/-- The keys of a name: none where `Match` does not look. -/
def nameKeys (name : GoString) : List Text :=
  let c := canonicalise u (decode name)
  if c.title = [] ∨ 0 < cfg.minTitleTokens ∧ tokensIn c.title < cfg.minTitleTokens then []
  else lookupKeys c

def plainLookup (table : GoMap Text (List WantEntry)) (keys : List Text) : MatchResult :=
  match keys.findSome? fun k => ((table.lookup k).getD []).head? with
  | some entry => .found entry
  | none => .tier1

/-! ## What the service should know -/

structure Feed where
  failures : Nat
  wantlist : List WantEntry

def Feed.start : Feed := ⟨0, []⟩

def Feed.poll (f : Feed) : Option (List WantEntry) → Feed
  | none => ⟨f.failures + 1, f.wantlist⟩
  | some got => ⟨0, got⟩

def Feed.keys (f : Feed) : List Text := f.wantlist.flatMap fun e => canonicalKeys e.canonical

/-- The sources that `Refresh` polls. -/
def Config.polled (cfg : Config) : List Source := if cfg.enabled then cfg.clients else []

def pollFeeds {cfg : Config} (feeds : Source → Feed) (r : Refresh cfg) (src : Source) : Feed :=
  if src ∈ cfg.polled then (feeds src).poll (r.polls.fetch u src) else feeds src

def feedsAfter (run : List (Refresh cfg)) : Source → Feed := run.foldl (pollFeeds u) fun _ => .start

/-- The service knows of each source what it should know. -/
structure Service.Tracks (s : Service F) (feeds : Source → Feed) : Prop where
  errors : ∀ src, s.consecutiveErr src = (feeds src).failures
  entries : ∀ key e, e ∈ s.entriesAt key ↔
    (feeds e.source).failures < 5 ∧ e ∈ (feeds e.source).wantlist ∧ key ∈ canonicalKeys e.canonical
  sources : ∀ src, ∀ e ∈ (feeds src).wantlist, e.source = src
  indexed : ∀ key entries, s.fingerprintTable.lookup key = some entries → bloom.test s.filter key = true
  unpolled : ∀ src, src ∉ cfg.polled → feeds src = .start

variable {u bloom cfg} {s : Service F} {feeds : Source → Feed}

theorem tracks_newService : (newService bloom).Tracks bloom cfg fun _ => .start where
  errors _ := rfl
  entries key e := by simp [Service.entriesAt, newService, GoMap.empty, GoMap.lookup, Feed.start]
  sources src e he := by cases he
  indexed key entries h := by cases h
  unpolled _ _ := rfl

theorem test_foldl (keys : List (Text × List WantEntry)) (f : F) (key : Text)
    (h : ∃ entries, (key, entries) ∈ keys) : bloom.test (keys.foldl (fun f e => bloom.add f e.1) f) key = true := by
  obtain ⟨entries, hmem⟩ := h
  rw [← foldl_map (f := Prod.fst) (g := bloom.add)]
  exact bloom.test_foldl_add (.inl (mem_map_of_mem hmem))

theorem mem_kept_iff (s : Service F) (src : Source) (key : Text) (e : WantEntry) :
    (key, e) ∈ s.kept src ↔ e ∈ s.entriesAt key ∧ e.source = src := by
  rw [Service.kept, mem_flatMap]
  constructor
  · rintro ⟨⟨k, entries⟩, hmem, he⟩
    obtain ⟨e', he', heq⟩ := mem_map.mp he
    cases heq
    obtain ⟨hin, hsrc⟩ := mem_filter.mp he'
    rw [Service.entriesAt, GoMap.lookup_eq_some_iff.mpr hmem]
    exact ⟨hin, by simpa using hsrc⟩
  · rintro ⟨hin, hsrc⟩
    rw [Service.entriesAt] at hin
    rcases hlookup : s.fingerprintTable.lookup key with _ | entries
    · rw [hlookup] at hin
      cases hin
    · grind [GoMap.lookup_eq_some_iff]

theorem countErrors_eq (hs : s.Tracks bloom cfg feeds) (r : Refresh cfg) {src : Source} (hsrc : src ∈ r.order) :
    countErrors u s r src = ((feeds src).poll (r.polls.fetch u src)).failures := by
  rw [countErrors, if_pos hsrc, hs.errors]
  cases r.polls.fetch u src with
  | none => rfl
  | some got => rfl

theorem mem_contribution_iff (hs : s.Tracks bloom cfg feeds) (r : Refresh cfg) {src : Source}
    (hsrc : src ∈ r.order) (key : Text) (e : WantEntry) :
    (key, e) ∈ contribution u s r src ↔
      e.source = src ∧ ((feeds src).poll (r.polls.fetch u src)).failures < 5 ∧
        e ∈ ((feeds src).poll (r.polls.fetch u src)).wantlist ∧ key ∈ canonicalKeys e.canonical := by
  rw [contribution, countErrors_eq hs r hsrc]
  cases hfetch : r.polls.fetch u src with
  | none =>
    show (key, e) ∈ (if (feeds src).failures + 1 < 5 then s.kept src else []) ↔
      e.source = src ∧ (feeds src).failures + 1 < 5 ∧ e ∈ (feeds src).wantlist ∧ key ∈ canonicalKeys e.canonical
    by_cases hfew : (feeds src).failures + 1 < 5
    · rw [if_pos hfew, mem_kept_iff, hs.entries]
      grind
    · grind
  | some got =>
    have hsource : ∀ e ∈ got, e.source = src := fun e he => (tags_of_fetch hfetch he).1
    grind [Feed.poll]

theorem tracks_refresh (hs : s.Tracks bloom cfg feeds) (r : Refresh cfg) :
    (refresh u bloom cfg s r).Tracks bloom cfg (pollFeeds u feeds r) := by
  have hidle : cfg.polled = [] → pollFeeds u feeds r = feeds := by grind [pollFeeds]
  unfold refresh
  split_ifs with henabled hclients
  · grind [Config.polled]
  · grind [Config.polled]
  · have hpolled : cfg.polled = cfg.clients := if_pos (by simpa using henabled)
    have horder : ∀ src, src ∈ r.order ↔ src ∈ cfg.polled := fun src => by
      rw [hpolled]
      exact r.perm.mem_iff
    refine ⟨fun src => ?_, fun key e => ?_, fun src e he => ?_, fun key entries hlookup => ?_, fun src hsrc => ?_⟩
    · show countErrors u s r src = _
      by_cases hsrc : src ∈ r.order
      · grind [countErrors_eq, pollFeeds]
      · rw [countErrors, if_neg hsrc, pollFeeds, if_neg fun h => hsrc ((horder src).mpr h), hs.errors]
    · show e ∈ (GoMap.lookup _ key).getD [] ↔ _
      rw [GoMap.mem_foldl_push, mem_flatMap]
      constructor
      · rintro (hnone | ⟨src, hsrc, hmem⟩)
        · cases hnone
        · grind [mem_contribution_iff, pollFeeds]
      · intro hholds
        by_cases hsrc : e.source ∈ cfg.polled
        · grind [pollFeeds, mem_contribution_iff]
        · rw [pollFeeds, if_neg hsrc, hs.unpolled _ hsrc] at hholds
          cases hholds.2.1
    · rw [pollFeeds] at he
      split at he
      · cases hfetch : r.polls.fetch u src with
        | none =>
          rw [hfetch] at he
          exact hs.sources src e he
        | some got =>
          rw [hfetch] at he
          exact (tags_of_fetch hfetch he).1
      · exact hs.sources src e he
    · grind [test_foldl, GoMap.lookup_eq_some_iff]
    · rw [pollFeeds, if_neg hsrc]
      exact hs.unpolled src hsrc

theorem tracks_serviceAfter (run : List (Refresh cfg)) :
    (serviceAfter u bloom cfg run).Tracks bloom cfg (feedsAfter u cfg run) := by
  suffices h : ∀ (s : Service F) (feeds : Source → Feed), s.Tracks bloom cfg feeds →
      (run.foldl (refresh u bloom cfg) s).Tracks bloom cfg (run.foldl (pollFeeds u) feeds) from
    h _ _ tracks_newService
  induction run with
  | nil => exact fun s feeds hs => hs
  | cons r run ih => exact fun s feeds hs => ih _ _ (tracks_refresh hs r)

/-! ## Match and the table -/

theorem tryKeys_eq_plainLookup (hs : s.Tracks bloom cfg feeds) (keys : List Text) :
    s.tryKeys bloom keys = plainLookup s.fingerprintTable keys := by
  induction keys with
  | nil => rfl
  | cons k keys ih =>
    unfold Service.tryKeys
    rcases hlookup : s.fingerprintTable.lookup k with _ | entries
    · grind [plainLookup]
    · have htest := hs.indexed k entries hlookup
      grind [plainLookup]

theorem entriesAt_of_disabled (hs : s.Tracks bloom cfg feeds) (hoff : cfg.enabled = false) (key : Text) :
    s.entriesAt key = [] := by
  rw [eq_nil_iff_forall_not_mem]
  intro e he
  have hunpolled : e.source ∉ cfg.polled := by
    rw [Config.polled, hoff]
    exact not_mem_nil
  have hin := ((hs.entries key e).mp he).2.1
  rw [hs.unpolled _ hunpolled] at hin
  cases hin

theorem matchName_eq_plainLookup (hs : s.Tracks bloom cfg feeds) (name : GoString) :
    s.matchName u bloom cfg name = plainLookup s.fingerprintTable (nameKeys u cfg name) := by
  unfold Service.matchName
  split
  · rename_i hoff
    have hnone : (nameKeys u cfg name).findSome? (fun k => ((s.fingerprintTable.lookup k).getD []).head?) = none := by
      rw [findSome?_eq_none_iff]
      intro k _
      have hentries := entriesAt_of_disabled hs (by simpa using hoff) k
      grind [Service.entriesAt]
    unfold plainLookup
    rw [hnone]
  · unfold nameKeys
    simp only []
    by_cases hempty : (canonicalise u (decode name)).title = []
    · rw [if_pos hempty, if_pos (.inl hempty)]
      rfl
    · rw [if_neg hempty]
      by_cases hfew : 0 < cfg.minTitleTokens ∧ tokensIn (canonicalise u (decode name)).title < cfg.minTitleTokens
      · rw [if_pos hfew, if_pos (.inr hfew)]
        rfl
      · grind [tryKeys_eq_plainLookup]

/-- `Match` is a plain lookup, and the table holds the keys of each source's last wantlist while it has failed fewer
than five times since. -/
theorem matchName_and_table_after_refreshes (run : List (Refresh cfg)) :
    (∀ name, (serviceAfter u bloom cfg run).matchName u bloom cfg name =
        plainLookup (serviceAfter u bloom cfg run).fingerprintTable (nameKeys u cfg name)) ∧
      ∀ src key, (∃ e ∈ (serviceAfter u bloom cfg run).entriesAt key, e.source = src) ↔
        (feedsAfter u cfg run src).failures < 5 ∧ key ∈ (feedsAfter u cfg run src).keys := by
  have hs := @tracks_serviceAfter u _ bloom _ run
  refine ⟨matchName_eq_plainLookup hs, fun src key => ?_⟩
  rw [Feed.keys, mem_flatMap]
  constructor
  · rintro ⟨e, he, rfl⟩
    obtain ⟨hfew, hin, hkey⟩ := (hs.entries key e).mp he
    exact ⟨hfew, e, hin, hkey⟩
  · rintro ⟨hfew, e, hin, hkey⟩
    have hsrc := hs.sources src e hin
    subst hsrc
    exact ⟨e, (hs.entries key e).mpr ⟨hfew, hin, hkey⟩, rfl⟩

theorem tier0_iff (hs : s.Tracks bloom cfg feeds) (name : GoString) :
    (s.matchName u bloom cfg name).tier = .tier0 ↔
      ∃ k ∈ nameKeys u cfg name, ∃ e, e ∈ s.entriesAt k := by
  rw [matchName_eq_plainLookup hs, plainLookup]
  constructor
  · intro htier
    split at htier
    · rename_i e hfound
      obtain ⟨k, hk, hhead⟩ := exists_of_findSome?_eq_some hfound
      exact ⟨k, hk, e, mem_of_mem_head? hhead⟩
    · cases htier
  · rintro ⟨k, hk, e, he⟩
    split
    · rfl
    · grind [head?_eq_none_iff, Service.entriesAt]

end

end BitAgent.Wantbridge
