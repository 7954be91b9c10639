/-
# ProcessorApi.Types — the processor wire contract, as far as its functions read it

The records of `processorapi/v1/types.go`. Lengths of texts are byte lengths; Go's open string enumerations (`Stage`,
`Outcome`) have a constructor for any other text. A nil pointer is `none`. `Input` keeps the fields that the result
check and the selector read; the others, and the records of the operator API, are left out.
-/
import BitAgent.Lib.Prelude

namespace BitAgent.ProcessorApi

open Lib (GoMap Float64)

def contract : String := "bitagent.processor.v1"

inductive Stage where
  | classify
  | extract
  | match_
  | language
  | policy
  | embed
  | other (text : String)
  deriving DecidableEq

inductive Outcome where
  | completed
  | abstained
  | deferred
  | failed
  | excluded
  | unmatched
  | other (text : String)
  deriving DecidableEq

def Outcome.text : Outcome → String
  | .completed => "completed"
  | .abstained => "abstained"
  | .deferred => "deferred"
  | .failed => "failed"
  | .excluded => "excluded"
  | .unmatched => "unmatched"
  | .other text => text

def Outcome.known : Outcome → Bool
  | .other _ => false
  | _ => true

structure Identity where
  id : String
  version : String
  modelVersion : String
  policyVersion : String
  artifactDigest : String
  deriving DecidableEq

structure MatchRef where
  source : String
  id : String
  deriving DecidableEq

structure Extraction where
  title : String := ""
  year : Int := 0
  season : Option Int := none
  episodes : List Int := []
  videoResolution : String := ""
  videoSource : String := ""
  videoCodec : String := ""
  video3D : String := ""
  videoModifier : String := ""
  releaseGroup : String := ""
  releaseGranularity : String := ""
  releaseDate : String := ""
  isAnime : Option Bool := none
  animeAbsoluteEpisode : Option Int := none
  audioChannels : List String := []
  audioFormats : List String := []
  hdrFormats : List String := []
  videoEditions : List String := []
  releaseFlags : List String := []

structure Deterministic where
  contentType : String := ""
  title : String := ""
  year : Int := 0
  match_ : Option MatchRef := none
  matchingOutcome : String := "not_attempted"
  deriving DecidableEq

/-- `Candidate`; only its reference is read by the checks. -/
structure Candidate where
  ref : MatchRef
  contentType : String
  title : String
  year : Int
  aliases : List String
  deriving DecidableEq

structure Input where
  deterministic : Deterministic := {}
  candidates : List Candidate := []
  deriving DecidableEq

structure Binding where
  contract : String
  jobID : String
  inputRevision : String
  pipelineRevision : String
  configurationDigest : String
  processor : Identity
  stage : Stage
  deriving DecidableEq

structure Job where
  binding : Binding
  capabilities : List Stage
  input : Input
  deriving DecidableEq

def Job.effectiveCapabilities (j : Job) : List Stage :=
  if j.capabilities.length > 0 then j.capabilities
  else if j.binding.stage ≠ .other "" then [j.binding.stage]
  else []

structure LanguageClaim where
  audio : List String
  subtitles : List String
  evidence : String
  englishAudio : String := ""

structure LivenessClaim where
  seeders : Option Int := none
  leechers : Option Int := none
  completed : Option Int := none
  observation : String := ""
  source : String := ""

structure Exclusion where
  reason : String
  scope : String

structure Embedding where
  space : String
  values : List Float64

structure Proposal where
  contentType : String := ""
  extraction : Option Extraction := none
  match_ : Option MatchRef := none
  language : Option LanguageClaim := none
  liveness : Option LivenessClaim := none
  addTags : List String := []
  removeTags : List String := []
  weights : GoMap String Float64 := GoMap.empty
  exclusion : Option Exclusion := none
  embedding : Option Embedding := none

structure Evidence where
  kind : String
  reference : String
  deriving DecidableEq

structure Telemetry where
  observedAt : String := ""
  inferenceMS : Option Float64 := none
  rssBytes : Option Int := none
  cpuMilliseconds : Option Float64 := none

/-- `Result`. `trace` is the raw JSON of the field, byte by byte. -/
structure Result where
  binding : Binding
  outcome : Outcome
  proposal : Option Proposal := none
  reasons : List String := []
  uncertainty : Option Float64 := none
  evidence : List Evidence := []
  retryAfterSeconds : Int := 0
  telemetry : Telemetry := {}
  trace : List UInt8 := []

end BitAgent.ProcessorApi
