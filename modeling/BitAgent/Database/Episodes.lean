/-
# Database.Episodes — the season and episode filter

A torrent's episodes are a map stored as `jsonb`; a season without episodes stands for all of it.
`TorrentContentEpisodesCriteria` is meant to say what `HasEpisode` says, and does for every map whose seasons are
proper maps (`selects_eq_asked_iff`): a nil inner map is `null` in the document, and the condition only knows `{}`.
-/
import BitAgent.Lib.Prelude
import BitAgent.Lib.Sql
import Mathlib.Data.List.Sort

namespace BitAgent.Database

open Lib List

/-! ## Episode maps -/

abbrev Episodes := NilMap Int (NilMap Int Unit)

namespace Episodes

def hasEpisode (e : Episodes) (season episode : Int) : Bool :=
  match e.lookup season with
  | none => false
  | some epMap => if epMap.entries.length = 0 then true else (epMap.lookup episode).isSome

/-- A season with its episodes in ascending order. -/
structure Season where
  season : Int
  episodes : List Int

def seasonEntries (e : Episodes) : List Season :=
  (e.entries.map fun s =>
    { season := s.1, episodes := (s.2.entries.map Prod.fst).insertionSort (· ≤ ·) : Season }).insertionSort
      fun a b => a.season ≤ b.season

/-- The column as written: a nil map is NULL, a nil season `null`. -/
def encode (e : Episodes) : Option Jsonb :=
  e.map fun seasons => .object (seasons.entries.map fun s => (s.1.repr, encodeSeason s.2))
where
  encodeSeason : NilMap Int Unit → Jsonb
    | none => .null
    | some episodes => .object (episodes.entries.map fun ep => (ep.1.repr, .object []))

end Episodes

/-! ## The condition -/

/-- One of the conditions that `TorrentContentEpisodesCriteria` builds. -/
inductive EpisodeCondition
  | season (season : Int)
  | episodes (season : Int) (episodes : List Int)

namespace EpisodeCondition

def sql : EpisodeCondition → String
  | season s => "jsonb_exists(torrent_contents.episodes, '" ++ s.repr ++ "')"
  | episodes s eps =>
    "(torrent_contents.episodes #> '\x7b" ++ s.repr ++ "\x7d' = '\x7b\x7d'::jsonb " ++
      "OR torrent_contents.episodes #> '\x7b" ++ s.repr ++ "\x7d' @> '\x7b" ++
      ",".intercalate (eps.map fun e => "\"" ++ e.repr ++ "\":\x7b\x7d") ++ "\x7d'::jsonb)"

def asked (eps : List Int) : Jsonb := .object (eps.map fun e => (e.repr, .object []))

/-- The value of a condition on the column `episodes`. -/
def eval (column : Option Jsonb) : EpisodeCondition → SqlBool
  | season s => column.map fun doc => doc.hasMember s.repr
  | episodes s eps =>
    let found := column.bind fun doc => doc.getPath [s.repr]
    SqlBool.or (found.map Jsonb.isEmptyObject) (found.map fun doc => doc.contains (asked eps))

end EpisodeCondition

/-- `TorrentContentEpisodesCriteria`: the conditions that are joined by AND. -/
def torrentContentEpisodesCriteria (episodes : Episodes) : List EpisodeCondition :=
  episodes.seasonEntries.map fun s => if s.episodes.length = 0 then .season s.season else .episodes s.season s.episodes

/-- The WHERE clause keeps a row with the given column. -/
def Selects (requested : Episodes) (column : Option Jsonb) : Prop :=
  (SqlBool.all ((torrentContentEpisodesCriteria requested).map (EpisodeCondition.eval column))).Holds

def Asked (requested stored : Episodes) : Prop :=
  ∀ season episodes, requested.lookup season = some episodes →
    (episodes.entries = [] → (stored.lookup season).isSome = true) ∧
      ∀ episode, (episodes.lookup episode).isSome = true → stored.hasEpisode season episode = true

/-! ## The two agree up to nil seasons -/

theorem lookup_map_repr {ν μ : Type} (l : List (Int × ν)) (f : ν → μ) (k : Int) :
    (l.map fun e => (e.1.repr, f e.2)).lookup k.repr = ((l.find? fun e => decide (e.1 = k)).map Prod.snd).map f := by
  induction l with
  | nil => rfl
  | cons e l ih => grind [int_eq_of_repr_eq]

theorem member_encode (stored : Episodes) (season : Int) : (stored.encode.bind fun doc => doc.member season.repr) =
      (stored.lookup season).map Episodes.encode.encodeSeason := by
  cases stored with
  | none => rfl
  | some m => exact lookup_map_repr m.entries Episodes.encode.encodeSeason season

variable {season : Int} {stored : Episodes}

theorem holds_season_iff :
    (EpisodeCondition.eval stored.encode (.season season)).Holds ↔ (stored.lookup season).isSome = true := by
  have hmember := member_encode stored season
  rw [EpisodeCondition.eval]
  cases hdoc : stored.encode with
  | none =>
    rw [hdoc, Option.bind_none] at hmember
    rw [Option.map_none, ← Option.isSome_map (f := Episodes.encode.encodeSeason), ← hmember]
    simp
  | some doc => grind [SqlBool.holds_some, Jsonb.hasMember]

theorem contains_encodeSeason_iff {season : NilMap Int Unit} {episodes : List Int} :
    (Episodes.encode.encodeSeason season).contains (EpisodeCondition.asked episodes) = true ↔
      season ≠ none ∧ ∀ episode ∈ episodes, (season.lookup episode).isSome = true := by
  cases season with
  | none => simp [Episodes.encode.encodeSeason, EpisodeCondition.asked, Jsonb.contains]
  | some m =>
    rw [Episodes.encode.encodeSeason, EpisodeCondition.asked, Jsonb.contains, Jsonb.containsMembers_iff, forall_mem_map]
    simp only [ne_eq, reduceCtorEq, not_false_eq_true, true_and]
    refine forall₂_congr fun episode _ => ?_
    rw [lookup_map_repr m.entries (fun _ => Jsonb.object []) episode]
    cases h : (m.entries.find? fun e => decide (e.1 = episode)).map Prod.snd with
    | none => simp [NilMap.lookup, NilMap.entries, h]
    | some u => simp [NilMap.lookup, NilMap.entries, h, Jsonb.contains, Jsonb.containsMembers]

theorem isEmptyObject_encodeSeason_iff {season : NilMap Int Unit} :
    (Episodes.encode.encodeSeason season).isEmptyObject = true ↔ season ≠ none ∧ season.entries = [] := by
  match season with
  | none => simp [Episodes.encode.encodeSeason, Jsonb.isEmptyObject]
  | some ⟨[], _⟩ => simp [Episodes.encode.encodeSeason, Jsonb.isEmptyObject, NilMap.entries]
  | some ⟨_ :: _, _⟩ => simp [Episodes.encode.encodeSeason, Jsonb.isEmptyObject, NilMap.entries]

theorem hasEpisode_iff {episode : Int} :
    stored.hasEpisode season episode = true ↔ ∃ epMap, stored.lookup season = some epMap ∧
      (epMap.entries = [] ∨ (epMap.lookup episode).isSome = true) := by grind [Episodes.hasEpisode]

theorem holds_episodes_iff {episodes : List Int} (hne : episodes ≠ []) :
    (EpisodeCondition.eval stored.encode (.episodes season episodes)).Holds ↔
      (∀ episode ∈ episodes, stored.hasEpisode season episode = true) ∧ stored.lookup season ≠ some none := by
  have hfound : (stored.encode.bind fun doc => doc.getPath [season.repr]) =
      (stored.lookup season).map Episodes.encode.encodeSeason := member_encode stored season
  obtain ⟨first, hfirst⟩ := exists_mem_of_ne_nil episodes hne
  rw [EpisodeCondition.eval, hfound, SqlBool.holds_or]
  simp only [hasEpisode_iff]
  cases hseason : stored.lookup season with
  | none => grind [SqlBool.not_holds_none]
  | some epMap =>
    simp only [Option.map_some, SqlBool.holds_some, isEmptyObject_encodeSeason_iff,
      contains_encodeSeason_iff, ne_eq, Option.some.injEq, exists_eq_left']
    grind

theorem selects_iff (requested stored : Episodes) : Selects requested stored.encode ↔ Asked requested stored ∧
      ∀ season episodes, requested.lookup season = some episodes → episodes.entries ≠ [] →
        stored.lookup season ≠ some none := by
  have hcondition : ∀ season (episodes : NilMap Int Unit), (EpisodeCondition.eval stored.encode
        (if ((episodes.entries.map Prod.fst).insertionSort (· ≤ ·)).length = 0 then .season season
          else .episodes season ((episodes.entries.map Prod.fst).insertionSort (· ≤ ·)))).Holds ↔
      ((episodes.entries = [] → (stored.lookup season).isSome = true) ∧
        ∀ episode, (episodes.lookup episode).isSome = true → stored.hasEpisode season episode = true) ∧
      (episodes.entries ≠ [] → stored.lookup season ≠ some none) := by
    intro season episodes
    have hmem : ∀ episode, episode ∈ (episodes.entries.map Prod.fst).insertionSort (· ≤ ·) ↔
        (episodes.lookup episode).isSome = true := by
      intro episode
      rw [mem_insertionSort, mem_map, Option.isSome_iff_exists]
      constructor
      · rintro ⟨e, he, rfl⟩
        exact ⟨e.2, NilMap.lookup_eq_some_iff.mpr he⟩
      · grind [NilMap.lookup_eq_some_iff]
    have hlength : ((episodes.entries.map Prod.fst).insertionSort (· ≤ ·)).length = 0 ↔
        episodes.entries = [] := by grind [length_insertionSort]
    grind [holds_season_iff, length_eq_zero_iff, holds_episodes_iff]
  rw [Selects, SqlBool.holds_all, torrentContentEpisodesCriteria, map_map, forall_mem_map]
  simp only [Episodes.seasonEntries, mem_insertionSort, forall_mem_map, Function.comp_apply, hcondition]
  constructor
  · intro h
    refine ⟨fun season episodes hlookup => ?_, fun season episodes hlookup => ?_⟩
    · exact (h (season, episodes) (NilMap.lookup_eq_some_iff.mp hlookup)).1
    · grind [NilMap.lookup_eq_some_iff]
  · rintro ⟨hasked, hnil⟩ ⟨season, episodes⟩ hmem
    have hlookup := NilMap.lookup_eq_some_iff.mpr hmem
    exact ⟨hasked season episodes hlookup, hnil season episodes hlookup⟩

def oneEpisode (season episode : Int) : Episodes :=
  some ⟨[(season, some ⟨[(episode, ())], nodup_singleton _⟩)], nodup_singleton _⟩

theorem lookup_oneEpisode {episode s : Int} {episodes : NilMap Int Unit} :
    (oneEpisode season episode).lookup s = some episodes ↔
      s = season ∧ episodes = some ⟨[(episode, ())], nodup_singleton _⟩ := by
  simp [NilMap.lookup_eq_some_iff, oneEpisode, NilMap.entries]

theorem asked_and_not_selects_of_nil (hnil : stored.lookup season = some none) (episode : Int) :
    Asked (oneEpisode season episode) stored ∧ ¬ Selects (oneEpisode season episode) stored.encode := by
  constructor
  · intro s episodes hlookup
    obtain ⟨rfl, rfl⟩ := lookup_oneEpisode.mp hlookup
    exact ⟨nofun, fun _ _ => hasEpisode_iff.mpr ⟨none, hnil, .inl rfl⟩⟩
  · intro hselects
    exact ((selects_iff _ _).mp hselects).2 season _ (lookup_oneEpisode.mpr ⟨rfl, rfl⟩) (cons_ne_nil _ _) hnil

/-- **The filter agrees with `HasEpisode`** on the rows whose map has no nil season, and on no others. -/
theorem selects_eq_asked_iff (stored : Episodes) :
    (∀ requested, Selects requested stored.encode ↔ Asked requested stored) ↔
      ∀ season, stored.lookup season ≠ some none := by
  constructor
  · intro hagree season hnil
    obtain ⟨hasked, hrefused⟩ := asked_and_not_selects_of_nil hnil 1
    exact hrefused ((hagree _).mpr hasked)
  · grind [selects_iff]

/-- Season 1 stored as nil, episode 5 of it asked for. -/
theorem nil_season_not_selected : Asked (oneEpisode 1 5) (some ⟨[(1, none)], nodup_singleton _⟩) ∧
      ¬ Selects (oneEpisode 1 5) (Episodes.encode (some ⟨[(1, none)], nodup_singleton _⟩)) :=
  asked_and_not_selects_of_nil rfl 5

end BitAgent.Database
