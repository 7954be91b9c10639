/-
# ProcessorApi.Validate — the result check, and which capability authorises what it accepts

`Result.Validate` of `processorapi/v1/validate.go`, guard by guard and in the order of the source. A `Clock` is what
`time.Parse` and the clock answer. A job with at most one listed capability, and a proposal without policy operations,
goes by the job's *stage*; everything else goes part by part through the effective capabilities, except that the guard
for policy operations is dropped for a job that lists several capabilities.
-/
import BitAgent.ProcessorApi.Types

namespace BitAgent.ProcessorApi

open Lib

/-! ## Texts and numbers -/

/-- `[a-zA-Z0-9]`. -/
def alphanumeric (c : Char) : Bool := ('a' ≤ c && c ≤ 'z') || ('A' ≤ c && c ≤ 'Z') || ('0' ≤ c && c ≤ '9')

/-- `^[a-zA-Z0-9][a-zA-Z0-9<punctuation>]{0,more}$`. -/
def matchesToken (punctuation : List Char) (more : Nat) (s : String) : Bool :=
  match s.toList with
  | [] => false
  | c :: cs => alphanumeric c && decide (cs.length ≤ more) && cs.all fun c => alphanumeric c || punctuation.contains c

/-- The pattern `token`. -/
def token (s : String) : Bool := matchesToken ['.', '_', '+', '-'] 95 s

/-- The pattern `tagToken`. -/
def tagToken (s : String) : Bool := matchesToken ['.', '_', ':', '-'] 63 s

/-- The pattern `langToken`, `^[a-z]{2,3}$`. -/
def langToken (s : String) : Bool := (s.length == 2 || s.length == 3) && s.toList.all fun c => 'a' ≤ c && c ≤ 'z'

def validContentTypes : List String :=
  ["movie", "tv_show", "music", "ebook", "audiobook", "comic", "game", "software", "xxx"]

/-- A number that is present and lies outside `lo..hi`. -/
def outside (v : Option Int) (lo hi : Int) : Bool :=
  match v with
  | some n => decide (n < lo) || decide (n > hi)
  | none => false

def badMeasure (v : Option Float64) : Bool :=
  match v with
  | some x => !x.isFinite || x.lt (.finite 0)
  | none => false

/-- What the wall clock and `time.Parse(time.RFC3339Nano, …)` answer, in nanoseconds. -/
structure Clock where
  now : Int
  parse : String → Option Int

/-! ## The checks -/

def validateClassifyProposal (contentType : String) : Except String Unit :=
  reject (!validContentTypes.contains contentType) "invalid_content_type"

def Extraction.hasQualityOrMeta (ex : Extraction) : Bool :=
  ex.videoResolution != "" || ex.videoSource != "" || ex.videoCodec != "" ||
    ex.video3D != "" || ex.videoModifier != "" || ex.releaseGroup != "" ||
    ex.releaseGranularity != "" || ex.releaseDate != "" || ex.isAnime.isSome ||
    ex.animeAbsoluteEpisode.isSome || !ex.audioChannels.isEmpty || !ex.audioFormats.isEmpty ||
    !ex.hdrFormats.isEmpty || !ex.videoEditions.isEmpty || !ex.releaseFlags.isEmpty

def validateExtractProposal (ex : Option Extraction) : Except String Unit :=
  match ex with
  | none => .error "invalid_extraction"
  | some ex => do
      reject (ex.title.utf8ByteSize == 0 && !ex.hasQualityOrMeta) "invalid_extraction"
      reject (decide (ex.title.utf8ByteSize > 512) || decide (ex.year < 0) ||
        decide (ex.year > 2200) || decide (ex.episodes.length > 100) ||
        decide (ex.releaseGroup.utf8ByteSize > 128)) "invalid_extraction"
      reject (outside ex.season 0 1000) "invalid_season"
      reject (outside ex.animeAbsoluteEpisode 0 100000) "invalid_episode"
      reject (ex.episodes.any fun e => decide (e < 0) || decide (e > 10000)) "invalid_episode"

def validateMatchProposal (m : Option MatchRef) (candidates : List Candidate) (multiCap : Bool) : Except String Unit :=
  match m with
  | none => .error "unoffered_candidate"
  | some m => do
      reject (m.source == "" || m.id == "" || decide (m.source.utf8ByteSize > 64) ||
        decide (m.id.utf8ByteSize > 128)) "unoffered_candidate"
      reject ((!candidates.isEmpty || !multiCap) && !candidates.any (·.ref == m)) "unoffered_candidate"

def validateLanguageProposal (l : Option LanguageClaim) : Except String Unit :=
  match l with
  | none => .error "invalid_language"
  | some l => do
      reject (decide (l.audio.length > 16) || decide (l.subtitles.length > 16) ||
        !(["metadata_claim", "verified_reference"].contains l.evidence)) "invalid_language"
      reject ((l.audio ++ l.subtitles).any fun code => !langToken code) "invalid_language"

def validateLivenessProposal (l : Option LivenessClaim) : Except String Unit :=
  match l with
  | none => .ok ()
  | some l => do
      reject (outside l.seeders 0 10000000) "invalid_liveness"
      reject (outside l.leechers 0 10000000) "invalid_liveness"
      reject (outside l.completed 0 100000000) "invalid_liveness"
      reject (decide (l.observation.utf8ByteSize > 64) || decide (l.source.utf8ByteSize > 128)) "invalid_liveness"

def validateTagsAndWeights (addTags removeTags : List String) (weights : GoMap String Float64) :
    Except String Unit := do
  reject (decide (addTags.length > 32) || decide (removeTags.length > 32) ||
    decide (weights.len > 32)) "invalid_policy_operations"
  reject ((addTags ++ removeTags).any fun tag => !tagToken tag) "invalid_tag"
  reject (weights.entries.any fun e => !token e.1 || !e.2.isFinite || e.2.lt (.finite (-1000)) ||
    Float64.lt (.finite 1000) e.2) "invalid_weight"

def validateEmbedProposal (em : Option Embedding) : Except String Unit :=
  match em with
  | none => .error "invalid_embedding"
  | some em => do
      reject (!token em.space || em.values.isEmpty || decide (em.values.length > 2048)) "invalid_embedding"
      reject (em.values.any fun v => !v.isFinite) "invalid_embedding"

def Telemetry.validate (clock : Clock) (t : Telemetry) : Except String Unit := do
  reject (t.observedAt != "" && (match clock.parse t.observedAt with
      | none => true
      | some ts => decide (ts > clock.now + 60000000000))) "invalid_telemetry_time"
  reject (badMeasure t.inferenceMS || badMeasure t.cpuMilliseconds) "invalid_telemetry"
  reject (match t.rssBytes with | some n => decide (n < 0) | none => false) "invalid_telemetry"

/-- An exclusion without the form the contract asks for, given the result's outcome. -/
def badExclusion (e : Exclusion) (outcome : Outcome) : Bool :=
  e.scope != "publication" || e.reason.utf8ByteSize == 0 || decide (e.reason.utf8ByteSize > 128) || outcome != .excluded

def Proposal.hasPolicyOps (p : Proposal) : Bool :=
  p.liveness.isSome || !p.addTags.isEmpty || !p.removeTags.isEmpty || decide (p.weights.len > 0)

def Proposal.partCount (p : Proposal) : Nat :=
  (p.contentType != "").toNat + p.extraction.isSome.toNat + p.match_.isSome.toNat +
    p.language.isSome.toNat + p.exclusion.isSome.toNat + p.embedding.isSome.toNat

def validateStage (r : Result) (j : Job) (p : Proposal) : Except String Unit :=
  match j.binding.stage with
  | .classify => validateClassifyProposal p.contentType
  | .extract => validateExtractProposal p.extraction
  | .match_ => validateMatchProposal p.match_ j.input.candidates false
  | .language => validateLanguageProposal p.language
  | .policy =>
    match p.exclusion with
    | none => .error "invalid_exclusion"
    | some e => reject (badExclusion e r.outcome) "invalid_exclusion"
  | .embed => validateEmbedProposal p.embedding
  | .other _ => .error "unsupported_stage"

/-- At most one listed capability and no policy operations: exactly one part, checked by the job's stage. -/
def validateSingle (r : Result) (j : Job) (p : Proposal) : Except String Unit := do
  reject (p.partCount != 1) "one_proposal_per_stage"
  validateStage r j p
  reject (r.outcome == .excluded && j.binding.stage != .policy) "unexpected_exclusion"

/-- One part of a patch: absent, or its capability and then its own check. -/
def validatePart (isPresent : Bool) (unauthorized : Bool) (msg : String)
    (check : Except String Unit) : Except String Unit :=
  if isPresent then do
    reject unauthorized msg
    check
  else .ok ()

/-- Multi-capability jobs and policy operations: every part present is checked against the capabilities. -/
def validatePatch (r : Result) (j : Job) (p : Proposal) : Except String Unit := do
  let caps := j.effectiveCapabilities
  let multiCap := decide (j.capabilities.length > 1)
  validatePart (p.contentType != "") (!caps.contains .classify) "unauthorized_classify_proposal"
    (validateClassifyProposal p.contentType)
  validatePart p.extraction.isSome (!caps.contains .extract) "unauthorized_extract_proposal"
    (validateExtractProposal p.extraction)
  validatePart p.match_.isSome (!caps.contains .match_) "unauthorized_match_proposal"
    (validateMatchProposal p.match_ j.input.candidates multiCap)
  validatePart p.language.isSome (!caps.contains .language) "unauthorized_language_proposal"
    (validateLanguageProposal p.language)
  validatePart p.exclusion.isSome (!caps.contains .policy) "unexpected_exclusion" (match p.exclusion with
      | none => .ok ()
      | some e => reject (badExclusion e r.outcome) "invalid_exclusion")
  validatePart p.hasPolicyOps (!caps.contains .policy && !multiCap) "unauthorized_policy_proposal"
    (do validateLivenessProposal p.liveness
        validateTagsAndWeights p.addTags p.removeTags p.weights)
  validatePart p.embedding.isSome (!caps.contains .embed) "unauthorized_embed_proposal"
    (validateEmbedProposal p.embedding)
  reject (p.partCount == 0 && !p.hasPolicyOps) "missing_proposal"
  reject (r.outcome == .excluded && p.exclusion.isNone) "invalid_exclusion"

def Result.validateEnvelope (clock : Clock) (r : Result) (j : Job) : Except String Unit := do
  reject (r.binding != j.binding) "binding_mismatch"
  reject (!r.outcome.known) "invalid_outcome"
  reject (decide (r.reasons.length > 8) || decide (r.evidence.length > 8) ||
    decide (r.retryAfterSeconds < 0) || decide (r.retryAfterSeconds > 3600) ||
    decide (r.trace.length > 65536)) "result_bounds"
  reject (r.reasons.any fun s => decide (s.utf8ByteSize > 256)) "reason_too_large"
  reject (r.evidence.any fun e => decide (e.kind.utf8ByteSize > 64) ||
    decide (e.reference.utf8ByteSize > 512)) "evidence_too_large"
  r.telemetry.validate clock
  reject (match r.uncertainty with
    | some u => !u.isFinite || u.lt (.finite 0) || Float64.lt (.finite 1) u
    | none => false) "invalid_uncertainty"
  reject (badMeasure r.telemetry.inferenceMS || badMeasure r.telemetry.cpuMilliseconds) "invalid_telemetry"
  reject (match r.telemetry.rssBytes with | some n => decide (n < 0) | none => false) "invalid_telemetry"
  reject (r.outcome == .unmatched && (!j.effectiveCapabilities.contains .match_ ||
    j.input.deterministic.matchingOutcome != "completed_unmatched")) "unproven_complete_miss"
  reject (r.outcome != .deferred && r.retryAfterSeconds != 0) "unexpected_retry_delay"

def Result.validate (clock : Clock) (r : Result) (j : Job) : Except String Unit := do
  r.validateEnvelope clock j
  if r.outcome != .completed && r.outcome != .excluded then reject r.proposal.isSome "unexpected_proposal"
  else
    match r.proposal with
    | none => .error "missing_proposal"
    | some p =>
      if decide (j.capabilities.length ≤ 1) && !p.hasPolicyOps then validateSingle r j p
      else validatePatch r j p

/-! ## Authorisation -/

inductive Part where
  | contentType
  | extraction
  | match_
  | language
  | exclusion
  | embedding
  | policyOps
  deriving DecidableEq

def Part.capability : Part → Stage
  | .contentType => .classify
  | .extraction => .extract
  | .match_ => .match_
  | .language => .language
  | .exclusion => .policy
  | .embedding => .embed
  | .policyOps => .policy

def Proposal.has (p : Proposal) : Part → Bool
  | .contentType => p.contentType != ""
  | .extraction => p.extraction.isSome
  | .match_ => p.match_.isSome
  | .language => p.language.isSome
  | .exclusion => p.exclusion.isSome
  | .embedding => p.embedding.isSome
  | .policyOps => p.hasPolicyOps

theorem validatePart_eq_ok {isPresent unauthorized : Bool} {msg : String}
    {check : Except String Unit} :
    validatePart isPresent unauthorized msg check = .ok () ↔
      (isPresent = true → unauthorized = false ∧ check = .ok ()) := by
  cases isPresent <;> simp [validatePart]

variable {p : Proposal} {r : Result} {j : Job}

theorem validatePatch_authorised (h : validatePatch r j p = .ok ()) (part : Part) (hpart : p.has part = true) :
    part.capability ∈ j.effectiveCapabilities ∨ (part = .policyOps ∧ 1 < j.capabilities.length) := by
  unfold validatePatch at h
  simp only [checked_bind_iff, validatePart_eq_ok, reject_eq_ok] at h
  obtain ⟨hclassify, hextract, hmatch, hlanguage, hexclusion, hpolicy, hembed, -, -⟩ := h
  have hcap : ∀ c : Stage, (!j.effectiveCapabilities.contains c) = false → c ∈ j.effectiveCapabilities := by
    intro c hc
    simpa using hc
  cases part with
  | contentType => exact Or.inl (hcap _ (hclassify hpart).1)
  | extraction => exact Or.inl (hcap _ (hextract hpart).1)
  | match_ => exact Or.inl (hcap _ (hmatch hpart).1)
  | language => exact Or.inl (hcap _ (hlanguage hpart).1)
  | exclusion => exact Or.inl (hcap _ (hexclusion hpart).1)
  | embedding => exact Or.inl (hcap _ (hembed hpart).1)
  | policyOps =>
    have hguard := (hpolicy hpart).1
    by_cases hcaps : Stage.policy ∈ j.effectiveCapabilities
    · exact Or.inl hcaps
    · grind

def Stage.part : Stage → Option Part
  | .classify => some .contentType
  | .extract => some .extraction
  | .match_ => some .match_
  | .language => some .language
  | .policy => some .exclusion
  | .embed => some .embedding
  | .other _ => none

theorem validateStage_has (h : validateStage r j p = .ok ()) :
    ∃ part, j.binding.stage.part = some part ∧ p.has part = true := by
  unfold validateStage at h
  cases hstage : j.binding.stage with
  | classify =>
    rw [hstage] at h
    refine ⟨.contentType, rfl, ?_⟩
    -- the empty text is not a content type
    have hvalid : p.contentType ∈ validContentTypes := by simpa [validateClassifyProposal] using h
    show (p.contentType != "") = true
    rw [bne_iff_ne]
    intro hempty
    rw [hempty] at hvalid
    exact absurd hvalid (by decide)
  | extract =>
    rw [hstage] at h
    refine ⟨.extraction, rfl, ?_⟩
    show p.extraction.isSome = true
    cases hex : p.extraction with
    | none => simp [hex, validateExtractProposal] at h
    | some ex => rfl
  | match_ =>
    rw [hstage] at h
    refine ⟨.match_, rfl, ?_⟩
    show p.match_.isSome = true
    cases hm : p.match_ with
    | none => simp [hm, validateMatchProposal] at h
    | some m => rfl
  | language =>
    rw [hstage] at h
    refine ⟨.language, rfl, ?_⟩
    show p.language.isSome = true
    cases hl : p.language with
    | none => simp [hl, validateLanguageProposal] at h
    | some l => rfl
  | policy =>
    rw [hstage] at h
    refine ⟨.exclusion, rfl, ?_⟩
    show p.exclusion.isSome = true
    grind
  | embed =>
    rw [hstage] at h
    refine ⟨.embedding, rfl, ?_⟩
    show p.embedding.isSome = true
    cases hem : p.embedding with
    | none => simp [hem, validateEmbedProposal] at h
    | some em => rfl
  | other text => simp [hstage] at h

theorem part_unique (hone : p.partCount = 1) {a b : Part} (ha : p.has a = true) (hb : p.has b = true)
    (hna : a ≠ .policyOps) (hnb : b ≠ .policyOps) : a = b := by
  by_contra hne
  have htwo : 2 ≤ p.partCount := by
    unfold Proposal.partCount
    cases a <;> cases b <;> first
      | exact absurd rfl hne
      | exact absurd rfl hna
      | exact absurd rfl hnb
      | (simp only [Proposal.has] at ha hb
         simp only [ha, hb, Bool.toNat_true]
         omega)
  omega

theorem validateSingle_stage (h : validateSingle r j p = .ok ()) (hops : p.hasPolicyOps = false) (part : Part)
    (hpart : p.has part = true) : part.capability = j.binding.stage := by
  unfold validateSingle at h
  simp only [checked_bind_iff, reject_eq_ok] at h
  obtain ⟨hone, hstage, -⟩ := h
  obtain ⟨own, hown, hhas⟩ := validateStage_has hstage
  have hnot : ∀ q, p.has q = true → q ≠ .policyOps := by
    rintro q hq rfl
    exact absurd hops (by rw [show p.hasPolicyOps = true from hq]; simp)
  have heq : part = own := part_unique (by simpa using hone) hpart hhas (hnot _ hpart) (hnot _ hhas)
  rw [heq]
  cases hs : j.binding.stage <;> simp_all [Stage.part] <;> subst own <;> rfl

/-- **What an accepted proposal is authorised by.** Every part belongs to an effective capability of the job, except
the policy operations of a job that lists several, and the part of a job that lists exactly one, which goes by the
stage. -/
theorem validate_authorised (clock : Clock) {r : Result} {j : Job} {p : Proposal}
    (h : r.validate clock j = .ok ()) (hp : r.proposal = some p) (part : Part)
    (hpart : p.has part = true) :
    part.capability ∈ j.effectiveCapabilities ∨ (part = .policyOps ∧ 1 < j.capabilities.length) ∨
      (j.capabilities.length = 1 ∧ p.hasPolicyOps = false ∧ part.capability = j.binding.stage) := by
  unfold Result.validate at h
  rw [checked_bind_iff, hp] at h
  obtain ⟨-, hproposal⟩ := h
  split_ifs at hproposal with hcompleted
  · simp at hproposal
  · simp only at hproposal
    split_ifs at hproposal with hsingle
    · rw [Bool.and_eq_true, decide_eq_true_iff, Bool.not_eq_true'] at hsingle
      obtain ⟨hlen, hops⟩ := hsingle
      have hstage := validateSingle_stage hproposal hops part hpart
      by_cases hnil : j.capabilities.length = 0
      · left
        have hother : j.binding.stage ≠ .other "" := by
          rw [← hstage]
          cases part <;> simp [Part.capability]
        simp [Job.effectiveCapabilities, hnil, hother, hstage]
      · right; right
        exact ⟨by omega, hops, hstage⟩
    · grind [validatePatch_authorised]

def sampleJob (stage : Stage) (capabilities : List Stage) : Job where
  binding :=
    { contract := contract, jobID := "j", inputRevision := "i", pipelineRevision := "p",
      configurationDigest := "c", stage := stage,
      processor :=
        { id := "p", version := "1", modelVersion := "none", policyVersion := "default",
          artifactDigest := "none" } }
  capabilities := capabilities
  input := {}

def sampleResult (j : Job) (p : Proposal) : Result where
  binding := j.binding
  outcome := .completed
  proposal := some p

def sampleClock : Clock where
  now := 0
  parse := fun _ => none

/-- A content type is accepted from a job that may classify. -/
theorem validate_authorised_classify :
    Part.contentType.capability ∈ (sampleJob .classify [.classify, .extract]).effectiveCapabilities := by
  have haccepted : (sampleResult (sampleJob .classify [.classify, .extract]) { contentType := "movie" }).validate
      sampleClock (sampleJob .classify [.classify, .extract]) = .ok () := by decide
  rcases validate_authorised sampleClock haccepted rfl .contentType (by decide) with
    hcapability | ⟨hpart, -⟩ | ⟨hone, -⟩
  · exact hcapability
  · cases hpart
  · cases hone

/-- Tags are accepted for a job whose two capabilities do not include policy, and a content type for one without
classify. -/
theorem validate_accepts_unauthorised :
    (sampleResult (sampleJob .classify [.classify, .extract]) { addTags := ["hd"] }).validate
        sampleClock (sampleJob .classify [.classify, .extract]) = .ok () ∧
      Stage.policy ∉ (sampleJob .classify [.classify, .extract]).effectiveCapabilities ∧
      (sampleResult (sampleJob .classify [.extract]) { contentType := "movie" }).validate
        sampleClock (sampleJob .classify [.extract]) = .ok () ∧
      Stage.classify ∉ (sampleJob .classify [.extract]).effectiveCapabilities := by
  decide

end BitAgent.ProcessorApi
