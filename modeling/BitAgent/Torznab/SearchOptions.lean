/-
# Torznab.SearchOptions — the conditions of a torznab search

`searchRequestToQueryOptions` makes each category of a request a conjunction, and the search asks for one of them. A
category without conditions is left out of the alternatives, though alone it matches everything: among the known ones
`Other`, the only obstacle to the law that a list finds what its members find (`matching_eq_union_iff`).
-/
import BitAgent.Database.Enums
import BitAgent.Database.Episodes
import BitAgent.Model.Date

namespace BitAgent.Torznab

open Lib Database List

/-! ## Categories -/

/-- `torznab.Category`, with the ids of its subcategories. -/
structure Category where
  id : Int
  name : String
  subcat : List Int := []

def Category.has (c : Category) (id : Int) : Bool := c.id == id || c.subcat.any fun sub => sub == id

def categoryMovies : Category := ⟨2000, "Movies", [2030, 2040, 2045, 2060]⟩
def categoryMoviesSD : Category := ⟨2030, "Movies/SD", []⟩
def categoryMoviesHD : Category := ⟨2040, "Movies/HD", []⟩
def categoryMoviesUHD : Category := ⟨2045, "Movies/UHD", []⟩
def categoryMovies3D : Category := ⟨2060, "Movies/3D", []⟩
def categoryAudio : Category := ⟨3000, "Audio", [3030]⟩
def categoryAudioAudiobook : Category := ⟨3030, "Audio/Audiobook", []⟩
def categoryPC : Category := ⟨4000, "PC", [4050]⟩
def categoryPCGames : Category := ⟨4050, "PC/Games", []⟩
def categoryTV : Category := ⟨5000, "TV", [5030, 5040, 5045, 5070]⟩
def categoryTVSD : Category := ⟨5030, "TV/SD", []⟩
def categoryTVHD : Category := ⟨5040, "TV/HD", []⟩
def categoryTVUHD : Category := ⟨5045, "TV/UHD", []⟩
def categoryTVAnime : Category := ⟨5070, "TV/Anime", []⟩
def categoryXXX : Category := ⟨6000, "XXX", [6070]⟩
def categoryXXXOther : Category := ⟨6070, "XXX/Other", []⟩
def categoryBooks : Category := ⟨7000, "Books", [7020, 7030]⟩
def categoryBooksEBook : Category := ⟨7020, "Books/EBook", []⟩
def categoryBooksComics : Category := ⟨7030, "Books/Comics", []⟩
def categoryOther : Category := ⟨8000, "Other", []⟩

/-- `categoriesMap`. -/
def categories : List Category :=
  [categoryMovies, categoryMoviesSD, categoryMoviesHD, categoryMoviesUHD, categoryMovies3D,
    categoryAudio, categoryAudioAudiobook, categoryPC, categoryPCGames, categoryTV, categoryTVSD,
    categoryTVHD, categoryTVUHD, categoryTVAnime, categoryXXX, categoryXXXOther, categoryBooks,
    categoryBooksEBook, categoryBooksComics, categoryOther]

def knownCategories : List Int := categories.map Category.id

/-! ## Requests and conditions -/

inductive Function
  | search
  | movie
  | tv
  | music
  | book
  | other (name : String)
  deriving DecidableEq

/-- `torznab.SearchRequest`, as far as it decides what matches. -/
structure SearchRequest where
  type : Function
  query : String := ""
  cats : List Int := []
  imdbID : Option String := none
  tmdbID : Option String := none
  season : Option Int := none
  episode : Option Int := none
  airDate : Model.Date := ⟨0, 0, 0⟩
  tags : List String := []

structure ContentRef where
  type : ContentType
  source : String
  id : String

/-- A torrent content as the conditions see it: its columns, its content with attributes, and the tags of its torrent.
-/
structure Row where
  contentType : Option String := none
  videoResolution : Option String := none
  video3D : Option String := none
  isAnime : Bool := false
  releaseDate : Option Model.Date := none
  episodes : Option Jsonb := none
  content : Option (String × String × String) := none
  attributes : List (String × String) := []
  tags : List String := []
  /-- The text vector matches the query made of a string. -/
  textMatches : String → Bool := fun _ => false

inductive Condition
  | contentType (types : List ContentType)
  | videoResolution (values : List VideoResolution)
  | video3D (values : List Video3D)
  | anime
  | releaseDate (date : Model.Date)
  | episodes (requested : Episodes)
  | searchString (query : String)
  | alternativeIdentifier (ref : ContentRef)
  | canonicalIdentifier (ref : ContentRef)
  | tag (names : List String)

def Condition.eval (row : Row) : Condition → SqlBool
  | contentType types => SqlBool.isIn row.contentType (types.map ContentType.text)
  | videoResolution values => SqlBool.isIn row.videoResolution (values.map VideoResolution.text)
  | video3D values => SqlBool.isIn row.video3D (values.map Video3D.text)
  | anime => some row.isAnime
  | releaseDate date => SqlBool.eq row.releaseDate (some date)
  | episodes requested =>
    SqlBool.all ((torrentContentEpisodesCriteria requested).map (EpisodeCondition.eval row.episodes))
  | searchString query => some (row.textMatches query)
  | alternativeIdentifier ref =>
    match row.content with
    | none => some false
    | some (type, _, _) => some (decide (type = ref.type.text) && row.attributes.contains (ref.source, ref.id))
  | canonicalIdentifier ref => SqlBool.eq row.content (some (ref.type.text, ref.source, ref.id))
  | tag names => some (row.tags.any fun name => names.contains name)

def resolutionsHD : List VideoResolution := [.v720p, .v1080p, .v1440p, .v2160p]

/-- `catCriteria`: the conditions of one category. -/
def catCriteria (type : Function) (cat : Int) : List Condition :=
  if categoryMovies.has cat then
    (if type ≠ .movie ∨ categoryMovies.id = cat then [.contentType [.movie]] else []) ++
      if cat = categoryMoviesSD.id then [.videoResolution [.v480p]]
      else if cat = categoryMoviesHD.id then [.videoResolution resolutionsHD]
      else if cat = categoryMoviesUHD.id then [.videoResolution [.v2160p]]
      else if cat = categoryMovies3D.id then [.video3D [.v3d, .v3dsbs, .v3dou]]
      else []
  else if categoryTV.has cat then
    (if type ≠ .tv ∨ categoryTV.id = cat then [.contentType [.tvShow]] else []) ++
      if cat = categoryTVSD.id then [.videoResolution [.v480p]]
      else if cat = categoryTVHD.id then [.videoResolution resolutionsHD]
      else if cat = categoryTVUHD.id then [.videoResolution [.v2160p]]
      else if cat = categoryTVAnime.id then [.anime]
      else []
  else if categoryXXX.has cat then [.contentType [.xxx]]
  else if categoryPC.has cat then [.contentType [.software, .game]]
  else if categoryAudioAudiobook.has cat then [.contentType [.audiobook]]
  else if categoryAudio.has cat then [.contentType [.music]]
  else if categoryBooksComics.has cat then [.contentType [.comic]]
  else if categoryBooks.has cat then [.contentType [.ebook, .comic, .audiobook]]
  else []

/-- `catsCriteria`: the alternatives, each a conjunction. -/
def catsCriteria (r : SearchRequest) : List (List Condition) :=
  (r.cats.map (catCriteria r.type)).filter fun criteria => !criteria.isEmpty

structure Error where
  code : Nat
  description : String

def typeCriteria (r : SearchRequest) : Except Error (List Condition) :=
  match r.type with
  | .search => .ok []
  | .movie => .ok [.contentType [.movie]]
  | .tv => .ok (.contentType [.tvShow] ::
      if r.airDate.isValid then [.releaseDate r.airDate]
      else
        match r.season, r.episode with
        | some season, some episode => [.episodes (oneEpisode season episode)]
        | some season, none => [.episodes (some ⟨[(season, some GoMap.empty)], nodup_singleton _⟩)]
        | none, _ => [])
  | .music => .ok [.contentType [.music]]
  | .book => .ok [.contentType [.ebook, .comic, .audiobook]]
  | .other name => .error ⟨202, "no such function (" ++ name ++ ")"⟩

def refType (type : Function) : ContentType := if type ≠ .tv then .movie else .tvShow

def otherCriteria (r : SearchRequest) : List Condition :=
  (if r.query = "" then [] else [.searchString r.query]) ++
  (match r.imdbID with
  | none => []
  | some id => [.alternativeIdentifier ⟨refType r.type, "imdb", if id.startsWith "tt" then id else "tt" ++ id⟩]) ++
  (match r.tmdbID with
  | none => []
  | some id => [.canonicalIdentifier ⟨refType r.type, "tmdb", id⟩]) ++
  if r.tags = [] then [] else [.tag r.tags]

/-- The WHERE clause: conditions that all hold, and alternatives, if any, of which one does. -/
structure Options where
  where_ : List Condition
  anyOf : List (List Condition)

/-- `searchRequestToQueryOptions`, without order, limit and offset. -/
def searchRequestToQueryOptions (r : SearchRequest) : Except Error Options := do
  let type ← typeCriteria r
  return ⟨type ++ otherCriteria r, catsCriteria r⟩

def All (row : Row) (criteria : List Condition) : Prop := ∀ c ∈ criteria, (c.eval row).Holds

def Options.Keeps (o : Options) (row : Row) : Prop :=
  All row o.where_ ∧ (o.anyOf ≠ [] → ∃ criteria ∈ o.anyOf, All row criteria)

/-- A row is a matching result of a request. -/
def Matches (r : SearchRequest) (row : Row) : Prop := ∃ o, searchRequestToQueryOptions r = .ok o ∧ o.Keeps row

/-! ## The union law -/

/-- What a request asks for apart from its categories. -/
def MatchesRest (r : SearchRequest) (row : Row) : Prop := Matches { r with cats := [] } row

variable {r : SearchRequest} {row : Row}

theorem matches_iff : Matches r row ↔ MatchesRest r row ∧
      (catsCriteria r ≠ [] → ∃ criteria ∈ catsCriteria r, All row criteria) := by
  have htype : typeCriteria { r with cats := [] } = typeCriteria r := rfl
  simp only [MatchesRest, Matches, searchRequestToQueryOptions, htype]
  cases typeCriteria r with
  | error e =>
    constructor
    · rintro ⟨o, ho, _⟩
      exact nomatch ho
    · rintro ⟨⟨o, ho, _⟩, _⟩
      exact nomatch ho
  | ok type =>
    constructor
    · rintro ⟨o, ho, hall, hany⟩
      cases ho
      exact ⟨⟨_, rfl, hall, fun h => absurd rfl h⟩, hany⟩
    · rintro ⟨⟨o, ho, hall, _⟩, hany⟩
      cases ho
      exact ⟨_, rfl, hall, hany⟩

theorem mem_catsCriteria {criteria : List Condition} :
    criteria ∈ catsCriteria r ↔ criteria ≠ [] ∧ ∃ cat ∈ r.cats, catCriteria r.type cat = criteria := by
  grind [catsCriteria]

theorem matches_single_iff {cat : Int} :
    Matches { r with cats := [cat] } row ↔ MatchesRest r row ∧ All row (catCriteria r.type cat) := by
  have hcats : catsCriteria { r with cats := [cat] } =
      [catCriteria r.type cat].filter fun criteria => !criteria.isEmpty := rfl
  rw [matches_iff, hcats]
  refine and_congr_right fun _ => ?_
  cases catCriteria r.type cat with
  | nil => simp [All]
  | cons c criteria => simp

theorem matches_list_iff : Matches r row ↔ MatchesRest r row ∧
      ((∃ cat ∈ r.cats, catCriteria r.type cat ≠ [] ∧ All row (catCriteria r.type cat)) ∨
        ∀ cat ∈ r.cats, catCriteria r.type cat = []) := by
  rw [matches_iff]
  refine and_congr_right fun _ => ?_
  by_cases hnone : ∀ cat ∈ r.cats, catCriteria r.type cat = []
  · have hempty : catsCriteria r = [] := by
      refine eq_nil_iff_forall_not_mem.mpr fun criteria hmem => ?_
      grind [mem_catsCriteria]
    exact iff_of_true (fun h => absurd hempty h) (.inr hnone)
  · obtain ⟨cat, hcat, hne⟩ : ∃ cat ∈ r.cats, catCriteria r.type cat ≠ [] := by simpa using hnone
    have hcriteria : catsCriteria r ≠ [] := ne_nil_of_mem (mem_catsCriteria.mpr ⟨hne, cat, hcat, rfl⟩)
    grind [mem_catsCriteria]

theorem exists_catCriteria_eq (type : Function) (cat : Int) :
    ∃ type' ∈ [Function.movie, .tv, .search], catCriteria type cat = catCriteria type' cat := by
  by_cases hmovie : type = .movie
  · exact ⟨.movie, by decide, by rw [hmovie]⟩
  · by_cases htv : type = .tv
    · exact ⟨.tv, by decide, by rw [htv]⟩
    · refine ⟨.search, by decide, ?_⟩
      simp [catCriteria, hmovie, htv]

theorem catCriteria_eq_nil_iff (type : Function) {cat : Int} (hknown : cat ∈ knownCategories) :
    catCriteria type cat = [] ↔ cat = categoryOther.id := by
  have htable : ∀ cat ∈ knownCategories, ∀ type ∈ [Function.movie, .tv, .search],
      (catCriteria type cat).isEmpty = decide (cat = categoryOther.id) := by
    decide
  obtain ⟨type', htype', heq⟩ := exists_catCriteria_eq type cat
  grind

/-- **Categories as alternatives.** A list of known categories finds the union of what its members find, exactly if it
does not mix `Other` with others, or the others already match all. -/
theorem matching_eq_union_iff (db : List Row) (r : SearchRequest) (hcats : r.cats ≠ [])
    (hknown : ∀ cat ∈ r.cats, cat ∈ knownCategories) :
    (∀ row ∈ db, Matches r row ↔ ∃ cat ∈ r.cats, Matches { r with cats := [cat] } row) ↔
      (categoryOther.id ∈ r.cats → (∃ cat ∈ r.cats, cat ≠ categoryOther.id) → ∀ row ∈ db, MatchesRest r row →
          ∃ cat ∈ r.cats, cat ≠ categoryOther.id ∧ All row (catCriteria r.type cat)) := by
  have hnil : ∀ cat ∈ r.cats, (catCriteria r.type cat = [] ↔ cat = categoryOther.id) :=
    fun cat hcat => catCriteria_eq_nil_iff r.type (hknown cat hcat)
  constructor
  · rintro hlaw hother ⟨cat, hcat, hne⟩ row hrow hrest
    grind [All, matches_single_iff, matches_list_iff]
  · intro hcover row hrow
    simp only [matches_single_iff]
    rw [matches_list_iff]
    constructor
    · rintro ⟨hrest, ⟨cat, hcat, _, hall⟩ | hnone⟩
      · exact ⟨cat, hcat, hrest, hall⟩
      · obtain ⟨cat, hcat⟩ := exists_mem_of_ne_nil _ hcats
        refine ⟨cat, hcat, hrest, ?_⟩
        rw [hnone cat hcat]
        exact forall_mem_nil _
    · rintro ⟨cat, hcat, hrest, hall⟩
      refine ⟨hrest, ?_⟩
      by_cases hmixed : ∃ cat ∈ r.cats, cat ≠ categoryOther.id
      · grind
      · grind

/-- A search in `Other` finds an album; with `Movies` added, it does not. -/
theorem album_lost_with_movies : Matches { type := .search, cats := [8000] } { contentType := some "music" } ∧
      ¬ Matches { type := .search, cats := [8000, 2000] } { contentType := some "music" } := by
  have hrest : MatchesRest { type := .search } { contentType := some "music" } :=
    ⟨⟨[], []⟩, rfl, forall_mem_nil _, fun h => absurd rfl h⟩
  constructor
  · exact (matches_single_iff (r := { type := .search })).mpr ⟨hrest, forall_mem_nil _⟩
  · intro hmatch
    rcases (matches_list_iff.mp hmatch).2 with ⟨cat, hcat, hne, hall⟩ | hnone
    · rcases mem_cons.mp hcat with rfl | hcat
      · exact hne rfl
      · rw [mem_singleton.mp hcat] at hall
        exact absurd (hall _ mem_cons_self) (by decide)
    · exact absurd (hnone 2000 (by decide)) (by decide)

/-- Films in high and standard resolution are found together as one by one. -/
theorem movies_hd_or_sd : Matches { type := .movie, cats := [2040, 2030] }
        { contentType := some "movie", videoResolution := some "V480p" } ↔
      ∃ cat ∈ ([2040, 2030] : List Int), Matches { type := .movie, cats := [cat] }
        { contentType := some "movie", videoResolution := some "V480p" } :=
  (matching_eq_union_iff [{ contentType := some "movie", videoResolution := some "V480p" }, {}]
    { type := .movie, cats := [2040, 2030] } (by decide) (by decide)).mpr (fun h => absurd h (by decide)) _
    mem_cons_self

end BitAgent.Torznab
