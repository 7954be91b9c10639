/-
# Processors.Apply — what the receipts of a job change in the catalogue

`internal/processors/apply.go`: `apply` merges what the apply-mode receipts of a finished job propose into the
catalogue record of the torrent, its tags and the exclusions. The record has the columns that `apply` reads or
writes. An `Env` is the rest of the program: policies, regular expressions, the release-name parser (for the source
of the job) and the catalogue search. The feedback rows are left out, with the outcome texts that they repeat.
-/
import BitAgent.Catalogueguard.Tags
import BitAgent.Processors.Selector

namespace BitAgent.Processors.Apply

open Lib ProcessorApi Catalogueguard

/-! ## The catalogue record -/

inductive VideoResolution where
  | v360p | v480p | v540p | v576p | v720p | v1080p | v1440p | v2160p | v4320p
  deriving DecidableEq

inductive VideoSource where
  | cam | telesync | telecine | workprint | dvd | tv | webdl | webRip | bluRay
  deriving DecidableEq

inductive VideoCodec where
  | h264 | x264 | x265 | xviD | divX | mpeg2 | mpeg4 | hevc | av1
  deriving DecidableEq

inductive Video3D where
  | v3d | v3dsbs | v3dou
  deriving DecidableEq

inductive VideoModifier where
  | regional | screener | rawhd | brdisk | remux
  deriving DecidableEq

inductive ReleaseGranularity where
  | episode | multiEpisode | partialSeason | season | multiSeason | completeSeries
  deriving DecidableEq

structure ReleaseAttributes where
  version : Int
  parser : String
  sourceNameSHA256 : String
  hdrFormats : List String := []
  audioFormats : List String := []
  audioChannels : Option String := none
  audioFeatures : List String := []
  revisions : List String := []
  encoder : Option String := none
  deriving DecidableEq

/-- `Episodes`: the episodes of each season, none for a whole season. -/
abbrev Episodes := List (Int × List Int)

def Episodes.addSeason (e : Episodes) (season : Int) : Episodes :=
  e.filter (fun entry => entry.1 ≠ season) ++ [(season, [])]

def Episodes.addEpisode (e : Episodes) (season episode : Int) : Episodes :=
  if e.any (fun entry => entry.1 = season) then
    e.map fun entry => if entry.1 = season then (entry.1, entry.2.insert episode) else entry
  else e ++ [(season, [episode])]

structure CatalogueRef where
  source : Option String
  id : String
  deriving DecidableEq

structure TorrentContent where
  contentType : Option String := none
  match_ : Option CatalogueRef := none
  languages : List String := []
  episodes : Episodes := []
  videoResolution : Option VideoResolution := none
  videoSource : Option VideoSource := none
  videoCodec : Option VideoCodec := none
  video3D : Option Video3D := none
  videoModifier : Option VideoModifier := none
  releaseGroup : Option String := none
  releaseAttributes : Option ReleaseAttributes := none
  releaseGranularity : Option ReleaseGranularity := none
  deriving DecidableEq

/-! ## Names of the enumerations -/

def lookupName {α : Type} (names : List (String × α)) (s : List Char) : Option α :=
  (names.find? fun e => decide (e.1.toList = s) || decide (toLower e.1.toList = s)).map Prod.snd

/-- The `Parse` function of an enumeration. -/
def parseName {α : Type} (names : List (String × α)) (s : String) : Option α :=
  (lookupName names s.toList).or (lookupName names (toLower s.toList))

def parseVideoResolution : String → Option VideoResolution :=
  parseName [("V360p", .v360p), ("V480p", .v480p), ("V540p", .v540p), ("V576p", .v576p),
    ("V720p", .v720p), ("V1080p", .v1080p), ("V1440p", .v1440p), ("V2160p", .v2160p),
    ("V4320p", .v4320p)]

def parseVideoSource : String → Option VideoSource :=
  parseName [("CAM", .cam), ("TELESYNC", .telesync), ("TELECINE", .telecine),
    ("WORKPRINT", .workprint), ("DVD", .dvd), ("TV", .tv), ("WEBDL", .webdl), ("WEBRip", .webRip),
    ("BluRay", .bluRay)]

def parseVideoCodec : String → Option VideoCodec :=
  parseName [("H264", .h264), ("x264", .x264), ("x265", .x265), ("XviD", .xviD), ("DivX", .divX),
    ("MPEG2", .mpeg2), ("MPEG4", .mpeg4), ("HEVC", .hevc), ("AV1", .av1)]

def parseVideo3D : String → Option Video3D := parseName [("V3D", .v3d), ("V3DSBS", .v3dsbs), ("V3DOU", .v3dou)]

def parseVideoModifier : String → Option VideoModifier :=
  parseName [("REGIONAL", .regional), ("SCREENER", .screener), ("RAWHD", .rawhd),
    ("BRDISK", .brdisk), ("REMUX", .remux)]

def parseReleaseGranularity : String → Option ReleaseGranularity :=
  parseName [("episode", .episode), ("multi_episode", .multiEpisode),
    ("partial_season", .partialSeason), ("season", .season), ("multi_season", .multiSeason),
    ("complete_series", .completeSeries)]

/-! ## The job and the core -/

/-- `source`, with the content row decoded. -/
structure JobSource where
  infoHash : List UInt8
  name : String
  extension : Option String
  filesStatus : String
  files : List (Option String)
  hint : String
  tags : List String
  isAnime : Bool
  record : Except String TorrentContent

def JobSource.hintIsEmpty (src : JobSource) : Bool :=
  decide (src.hint = "") || decide (trimSpace src.hint = "null".toList)

/-- `contentfilter.Input`. -/
structure FilterInput where
  title : String
  contentType : String
  primaryExtension : String
  allExtensions : List String
  languages : List String

/-- What `EnrichTypeLocally` returns, as far as it is copied. -/
structure Enrichment where
  videoResolution : Option VideoResolution := none
  videoSource : Option VideoSource := none
  videoCodec : Option VideoCodec := none
  video3D : Option Video3D := none
  videoModifier : Option VideoModifier := none
  releaseGroup : Option String := none
  episodes : Episodes := []
  releaseAttributes : Option ReleaseAttributes := none

/-- The title and the year that the parser finds in a release name; 0 if there is no year. -/
structure ParsedName where
  title : String
  year : Int

/-- A row of `content`; `tsv` is the error of its search vector, if it does not parse. -/
structure Content where
  type : String
  title : String
  releaseYear : Int
  originalTitle : Option String
  tsv : Except String Unit

structure Core where
  forbiddenTypes : String → Bool
  /-- `EvaluateClassified`, if there is a name policy: hash, name and type. -/
  names : Option (List UInt8 → String → String → Bool)
  /-- `DecideDeterministic`, if there is a content filter. -/
  filter : Option (FilterInput → Bool)
  inferVideoResolution : String → Option VideoResolution
  inferVideoSource : String → Option VideoSource
  inferVideoCodec : String → Option VideoCodec
  /-- `completeSeriesRegex`. -/
  completeSeries : String → Bool
  /-- `EnrichTypeLocally` without a search, `none` if it fails. -/
  enrichTypeLocally : JobSource → String → Option Enrichment
  /-- `ParseVideoContentWithOptions` for a content type. -/
  parseVideoContent : JobSource → String → Except String ParsedName
  normalizeIdentityTitle : String → String
  /-- The candidates of a title, of one type or among movies and shows; at most 32. -/
  search : Option String → String → Except String (List Candidate)
  /-- The row of `content` with a type, a source and an id. -/
  content : String → String → String → Except String (Option Content)
  /-- `UPDATE torrent_contents`, which can violate a constraint. -/
  update : TorrentContent → Except String Unit

/-- `Lease`, as far as `apply` reads it. -/
structure Lease where
  plan : Plan
  input : Input
  results : List Receipt
  step : Nat

variable (core : Core) (src : JobSource) (l : Lease)

/-- The proposals of completed apply-mode steps; each receipt comes with the index of its step. -/
def proposalsOf (plan : Plan) (rs : List (Receipt × Nat)) : List Proposal :=
  rs.filterMap fun r =>
    if plan.modeAt r.2 = some .apply ∧ r.1.result.outcome = .completed then r.1.result.proposal
    else none

def completedProposals (plan : Plan) (results : List Receipt) : List Proposal := proposalsOf plan results.zipIdx

def effectiveType : String :=
  if l.input.deterministic.contentType ≠ "" then l.input.deterministic.contentType
  else (((completedProposals l.plan l.results).find? fun p => p.contentType ≠ "").map (·.contentType)).getD ""

def effectiveTitleAndYear (parsed : ParsedName) : ParsedName :=
  ((completedProposals l.plan l.results).filterMap (·.extraction)).foldl (fun (found : ParsedName) (ex : Extraction) =>
      { title := if found.title = "" then ex.title else found.title
        year := if found.year = 0 ∧ 0 < ex.year then ex.year else found.year }) parsed

def candidates : Except String (List Candidate) :=
  if l.input.deterministic.match_.isSome then .ok []
  else do
    let parsed ← core.parseVideoContent src (effectiveType l)
    let title := (effectiveTitleAndYear l parsed).title
    let kind := effectiveType l
    let multiCapClassifyMatch := decide (kind = "") && (l.plan.steps[l.step]?).any fun st =>
      st.effectiveCapabilities.contains .classify && st.effectiveCapabilities.contains .match_
    if title = "" ∨ (kind ≠ "movie" ∧ kind ≠ "tv_show" ∧ multiCapClassifyMatch = false) then .ok []
    else core.search (if kind = "movie" ∨ kind = "tv_show" then some kind else none) title

/-! ## Merging into the record -/

def deriveReleaseGranularity (contentType : Option String) (episodes : Episodes) (name : String) :
    Option ReleaseGranularity :=
  if contentType ≠ some "tv_show" then none
  else match episodes with
    | [] => if core.completeSeries name then some .completeSeries else none
    | _ :: _ :: _ => if core.completeSeries name then some .completeSeries else some .multiSeason
    | [(_, eps)] =>
      if eps.length = 0 then some .season
      else if eps.length = 1 then some .episode
      else if eps.length ≤ 3 then some .multiEpisode
      else some .partialSeason

def fillEpisodes (own offered : Episodes) : Episodes := if own = [] then offered else own

def copyEnrichment (tc : TorrentContent) (cl : Enrichment) : TorrentContent :=
  let episodes := fillEpisodes tc.episodes cl.episodes
  { tc with
    videoResolution := tc.videoResolution.or cl.videoResolution
    videoSource := tc.videoSource.or cl.videoSource
    videoCodec := tc.videoCodec.or cl.videoCodec
    video3D := tc.video3D.or cl.video3D
    videoModifier := tc.videoModifier.or cl.videoModifier
    releaseGroup := tc.releaseGroup.or cl.releaseGroup
    episodes := episodes
    releaseAttributes := tc.releaseAttributes.or cl.releaseAttributes
    releaseGranularity := tc.releaseGranularity.or (deriveReleaseGranularity core tc.contentType episodes src.name) }

def reading {α : Type} (read : String → Option α) (s : String) : Option α := if s = "" then none else read s

def readVideoResolution (ex : Extraction) : Option VideoResolution :=
  reading (fun s => (parseVideoResolution s).or (core.inferVideoResolution s)) ex.videoResolution

def readVideoSource (ex : Extraction) : Option VideoSource :=
  reading (fun s => (parseVideoSource s).or (core.inferVideoSource s)) ex.videoSource

def readVideoCodec (ex : Extraction) : Option VideoCodec :=
  reading (fun s => (parseVideoCodec s).or (core.inferVideoCodec s)) ex.videoCodec

def readEpisodes (ex : Extraction) : Episodes :=
  if ex.season.isSome ∨ ex.episodes ≠ [] then
    let season := if 0 < ex.season.getD 0 then ex.season.getD 0 else 1
    if ex.episodes = [] then Episodes.addSeason [] season
    else (ex.episodes.filter (0 < ·)).foldl (fun eps ep => eps.addEpisode season ep) []
  else []

/-- An extraction fills an empty field if it has a value for it. -/
def fills {α : Type} (own offered : Option α) : Bool := own.isNone && offered.isSome

/-- `changed` in `applyExtraction`, before the granularity. -/
def fillsGap (tc : TorrentContent) (ex : Extraction) : Bool :=
  fills tc.videoResolution (readVideoResolution core ex) || fills tc.videoSource (readVideoSource core ex) ||
    fills tc.videoCodec (readVideoCodec core ex) ||
    fills tc.video3D (reading parseVideo3D ex.video3D) ||
    fills tc.videoModifier (reading parseVideoModifier ex.videoModifier) ||
    fills tc.releaseGroup (reading some ex.releaseGroup) ||
    (decide (tc.episodes = []) && decide (readEpisodes ex ≠ []))

/-- `applyExtraction`: the record, and whether it has changed. -/
def applyExtraction (tc : TorrentContent) (ex : Extraction) : TorrentContent × Bool :=
  let episodes := fillEpisodes tc.episodes (readEpisodes ex)
  let granularity :=
    if ex.releaseGranularity ≠ "" then parseReleaseGranularity ex.releaseGranularity
    else if fillsGap core tc ex then deriveReleaseGranularity core tc.contentType episodes src.name
    else none
  ({ tc with
      videoResolution := tc.videoResolution.or (readVideoResolution core ex)
      videoSource := tc.videoSource.or (readVideoSource core ex)
      videoCodec := tc.videoCodec.or (readVideoCodec core ex)
      video3D := tc.video3D.or (reading parseVideo3D ex.video3D)
      videoModifier := tc.videoModifier.or (reading parseVideoModifier ex.videoModifier)
      releaseGroup := tc.releaseGroup.or (reading some ex.releaseGroup)
      episodes := episodes
      releaseGranularity := tc.releaseGranularity.or granularity },
    fillsGap core tc ex || (decide (ex.releaseGranularity ≠ "") && fills tc.releaseGranularity granularity))

/-! ## Tags -/

/-- The loop that replaces two dashes by one as long as there are two. -/
def collapseDashes : List Char → List Char
  | '-' :: '-' :: rest => collapseDashes ('-' :: rest)
  | c :: rest => c :: collapseDashes rest
  | [] => []

/-- The pattern `dbTagRegex`. -/
def dbTag (l : List Char) : Bool :=
  (l.splitOn '-').all fun part => !part.isEmpty && part.all fun c => c.isLower || c.isDigit

def normalizeDBTag (tag : String) : String :=
  let s := (toLower (trimSpace tag)).map fun c => if c = '_' ∨ c = '.' ∨ c = ' ' then '-' else c
  let s := trimBy (fun c => decide (c = '-')) (collapseDashes s)
  if dbTag s && !protectedTag (String.ofList s) false then String.ofList s else ""

def catalogueTags (tags : List String) : List String := (tags.map normalizeDBTag).filter (fun tag => tag ≠ "")

def applyTags (tags : List String) (p : Proposal) : List String :=
  (tags ∪ catalogueTags p.addTags).filter fun tag => !(catalogueTags p.removeTags).contains tag

/-! ## The policies and the match -/

def typeRejected (tc : TorrentContent) (contentType : String) : Bool :=
  core.forbiddenTypes contentType || core.names.any (fun eligible => !eligible src.infoHash src.name contentType) ||
    core.filter.any fun allow => !allow
      { title := src.name
        contentType := contentType
        primaryExtension := src.extension.getD ""
        allExtensions := (if src.filesStatus = "single" ∧ src.extension.getD "" ≠ "" then [src.extension.getD ""]
            else []) ++ src.files.filterMap id
        languages := tc.languages }

def exactContentTitle (title contentTitle : String) (originalTitle : Option String) : Bool :=
  let n := core.normalizeIdentityTitle title
  decide (n ≠ "") && (decide (n = core.normalizeIdentityTitle contentTitle) ||
    originalTitle.any fun original => decide (n = core.normalizeIdentityTitle original))

/-- A current candidate that the title and, for a movie, the year could mean as well. -/
def sameIdentity (content : Content) (found : ParsedName) (c : Candidate) : Bool :=
  (exactContentTitle core found.title c.title none ||
    c.aliases.any fun other => exactContentTitle core found.title c.title (some other)) &&
    (decide (content.type ≠ "movie") || decide (found.year = c.year))

/-- Whether a match is confirmed: the candidate was offered and is as it was, and it alone has the release's title and
year. -/
def confirmMatch (tc : TorrentContent) (contentType : String) (offered : List Candidate)
    (m : MatchRef) : Except String Bool := do
  let current ← candidates core src l
  if current.length = 32 ∨ offered.length = 32 then return false
  match ← core.content contentType m.source m.id with
  | none => return false
  | some content =>
    if !(offered.any fun c => c.ref = m ∧ c.title = content.title ∧
        c.year = content.releaseYear ∧ c.contentType = content.type) then return false
    match core.parseVideoContent src contentType with
    | .error _ => return false
    | .ok parsed =>
      let found := effectiveTitleAndYear l parsed
      if !exactContentTitle core found.title content.title content.originalTitle then return false
      if content.type = "movie" ∧ (found.year = 0 ∨ found.year ≠ content.releaseYear) then return false
      if content.type = "tv_show" ∧ tc.episodes = [] then return false
      let matching := current.filter (sameIdentity core content found)
      if matching.length ≠ 1 ∨ !(matching.any fun c => c.ref = m) then return false
      content.tsv
      return true

/-! ## `apply` -/

/-- The row of `processor_exclusions` of a torrent. -/
structure ExclusionRow where
  processorID : String
  reason : String
  binding : Binding

/-- The local variables of `apply` and what it has written. `outcomes` are the texts of `stepOutcomes`. -/
structure Applied where
  record : TorrentContent
  changed : Bool
  tags : List String
  exclusion : Option ExclusionRow
  finalExcluded : Bool
  outcomes : List String

def Applied.note (a : Applied) (outcome : String) : Applied := { a with outcomes := a.outcomes ++ [outcome] }

def exclude (processorID : String) (r : Result) (a : Applied) : Applied :=
  match r.outcome, r.proposal.bind (·.exclusion) with
  | .excluded, some ex =>
    { a with
      exclusion := a.exclusion.or (some { processorID := processorID, reason := ex.reason, binding := r.binding })
      finalExcluded := true }
  | _, _ => a

def baseOutcome (r : Result) : String :=
  if r.outcome = .excluded ∧ (r.proposal.bind (·.exclusion)).isSome then "applied"
  else r.outcome.text

/-- A proposed type is looked at: neither record nor operator's hint has one. -/
def considersType (tc : TorrentContent) (p : Proposal) : Bool :=
  decide (p.contentType ≠ "") && tc.contentType.isNone && src.hintIsEmpty

def takeType (tc : TorrentContent) (p : Proposal) : TorrentContent :=
  if considersType src tc p then
    let tc := { tc with contentType := some p.contentType }
    match core.enrichTypeLocally src p.contentType with
    | some cl => copyEnrichment core src tc cl
    | none => tc
  else tc

/-- Type and extraction of a proposal; the flag says whether the record has changed. -/
def mergeProposal (tc : TorrentContent) (p : Proposal) : TorrentContent × Bool :=
  match p.extraction with
  | none => (takeType core src tc p, considersType src tc p)
  | some ex =>
    let merged := applyExtraction core src (takeType core src tc p) ex
    (merged.1, considersType src tc p || merged.2)

/-- Something of the proposal counts as applied, whatever its type and extraction. -/
def countsAnyway (p : Proposal) : Bool :=
  !(catalogueTags p.addTags).isEmpty || !(catalogueTags p.removeTags).isEmpty || p.liveness.isSome ||
    decide (p.weights.len > 0) || p.language.isSome || p.embedding.isSome

/-- The part of the loop for a proposal let through by the policies. -/
def enrich (a : Applied) (receipt : Receipt) (p : Proposal) : Except String Applied :=
  let merged := mergeProposal core src a.record p
  let a := { a with
    record := merged.1, changed := a.changed || merged.2, tags := applyTags a.tags p }
  match p.match_, a.record.match_, a.record.contentType with
  | some m, none, some contentType => do
      let confirmed ← confirmMatch core src l a.record contentType receipt.candidates m
      if confirmed then
        .ok ({ a with
          record := { a.record with match_ := some { source := some m.source, id := m.id } }
          changed := true }.note "applied")
      else .ok (a.note "rejected_ambiguous")
  | _, _, _ => .ok (a.note (if merged.2 || countsAnyway p then "applied" else baseOutcome receipt.result))

def canEnrich (plan : Plan) (results : List Receipt) : Bool :=
  results.zipIdx.all fun r => !(decide (plan.modeAt r.2 = some .apply) &&
    (decide (r.1.result.outcome = .failed) || decide (r.1.result.outcome = .deferred)))

def applyReceipt (a : Applied) (r : Receipt × Nat) : Except String Applied :=
  match l.plan.steps[r.2]? with
  | none => .error "index out of range"
  | some st =>
    match st.entry.mode, r.1.result.proposal with
    | .apply, some p =>
      let a := exclude st.entry.id r.1.result a
      let outcome := r.1.result.outcome
      if canEnrich l.plan l.results = false ∨ (outcome ≠ .completed ∧ outcome ≠ .excluded) then
        .ok (a.note (if canEnrich l.plan l.results = false ∧ outcome = .completed
          then "rejected_policy" else baseOutcome r.1.result))
      else if considersType src a.record p && typeRejected core src a.record p.contentType then
        .ok (a.note "rejected_policy")
      else enrich core src l a r.1 p
    | _, _ => .ok (a.note r.1.result.outcome.text)

def start (exclusion : Option ExclusionRow) (record : TorrentContent) : Applied where
  record := record
  changed := false
  tags := src.tags
  exclusion := exclusion
  finalExcluded := false
  outcomes := []

def persist (record : TorrentContent) (a : Applied) : Except String Applied := do
  if a.changed then
    core.update a.record
    return a
  else return { a with record := record }

/-- `apply`: what is persisted. `exclusion` is the row that the torrent already has. -/
def apply (exclusion : Option ExclusionRow) : Except String Applied := do
  let record ← src.record
  let a ← l.results.zipIdx.foldlM (applyReceipt core src l) (start src exclusion record)
  persist core record a

end BitAgent.Processors.Apply
