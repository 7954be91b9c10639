/-
# Processors.Selector — which steps of a plan run, and what earlier steps can do about it

`internal/processors/selector.go`: a step's selector is evaluated against a context accumulated from the earlier
receipts; a step that does not match gets a `selector_skipped` receipt. An `Env` is the text folding, the sampling
bucket (a SHA-256), the job that `Prepare` builds and the length of receipts as JSON. Everything in the context is
taken from apply-mode receipts only, except the last uncertainty. `RunOne` puts a failure in the place of a result
with which the receipts of the job, those of shadow steps included, exceed 100000 bytes.
-/
import BitAgent.ProcessorApi.Validate

namespace BitAgent.Processors

open Lib ProcessorApi List

/-! ## Plans -/

structure ScoreThreshold where
  dimension : String
  min : Option Float64
  max : Option Float64
  deriving DecidableEq

structure Selector where
  contentTypes : List String := []
  excludeTypes : List String := []
  extensions : List String := []
  isAnime : Option Bool := none
  hasContentMatch : Option Bool := none
  excluded : Option Bool := none
  minUncertainty : Option Float64 := none
  requiredTags : List String := []
  scoreThresholds : List ScoreThreshold := []
  sampleBasisPoints : Option Int := none
  deriving DecidableEq

/-- `Selector.IsEmpty`, for a selector that is there. -/
def Selector.isEmpty (s : Selector) : Bool :=
  s.contentTypes.isEmpty && s.excludeTypes.isEmpty && s.extensions.isEmpty && s.isAnime.isNone &&
    s.hasContentMatch.isNone && s.excluded.isNone && s.minUncertainty.isNone &&
    s.requiredTags.isEmpty && s.scoreThresholds.isEmpty && s.sampleBasisPoints.isNone

def outsideUnit (x : Float64) : Bool := !x.isFinite || x.lt (.finite 0) || Float64.lt (.finite 1) x

/-- A threshold that `Selector.Validate` refuses. -/
def ScoreThreshold.invalid (t : ScoreThreshold) : Bool :=
  !token t.dimension || t.min.any (!·.isFinite) || t.max.any (!·.isFinite) ||
    (match t.min, t.max with | some lo, some hi => hi.lt lo | _, _ => false)

def Selector.validate (s : Selector) : Except String Unit := do
  reject (decide (s.contentTypes.length > 16) || decide (s.excludeTypes.length > 16) ||
    decide (s.extensions.length > 64) || decide (s.requiredTags.length > 32) ||
    decide (s.scoreThresholds.length > 16)) "invalid_selector"
  reject ((s.contentTypes ++ s.excludeTypes).any fun ct =>
    ct != "unknown" && !validContentTypes.contains ct) "invalid_selector_content_type"
  reject (s.extensions.any fun ext =>
    ext.utf8ByteSize == 0 || decide (ext.utf8ByteSize > 32)) "invalid_selector_extension"
  reject (s.requiredTags.any fun tag => !tagToken tag) "invalid_selector_tag"
  reject (s.minUncertainty.any outsideUnit) "invalid_selector_uncertainty"
  reject (outside s.sampleBasisPoints 0 10000) "invalid_selector_sample"
  reject (s.scoreThresholds.any (·.invalid)) "invalid_selector_threshold"

inductive Mode where
  | shadow
  | apply
  deriving DecidableEq

inductive EntryState where
  | active
  | paused
  | draining
  deriving DecidableEq

/-- `Entry`: a registered processor, less driver, endpoint, credentials and learning settings. -/
structure Entry where
  id : String
  generation : Nat
  executionGeneration : Nat
  mode : Mode
  state : EntryState
  priority : Int
  selector : Option Selector
  capabilities : List Stage
  deriving DecidableEq

structure Step where
  entry : Entry
  stage : Stage
  capabilities : List Stage

def Step.effectiveCapabilities (st : Step) : List Stage :=
  if st.capabilities.length > 0 then st.capabilities else [st.stage]

/-- `AdmissionPolicy`, as far as the plan carries it. -/
structure Admission where
  generation : Nat
  basisPoints : Int
  seed : String
  policyVersion : String

structure Plan where
  epoch : Nat
  corePolicy : String
  steps : List Step
  admission : Admission

structure Receipt where
  result : Result
  candidates : List Candidate

/-! ## The context of a step -/

structure ContentRow where
  isAnime : Bool
  deriving DecidableEq

structure Source where
  tags : List String
  extension : Option String
  files : List (Option String)
  contents : List ContentRow
  deriving DecidableEq

/-- `torrentContext`. `tags` is the set of tags, `scores` the map of accumulated weights. -/
structure TorrentContext where
  infoHash : List UInt8
  contentType : String
  extensions : List String
  isAnime : Bool
  hasContentMatch : Bool
  excluded : Bool
  lastUncertainty : Option Float64
  tags : List String
  scores : String → Float64
  extractedTitle : String
  extractedYear : Int

structure Env where
  /-- `strings.ToLower(strings.TrimSpace(s))`. -/
  foldText : String → String
  /-- The sampling bucket of a processor id and an info hash. -/
  bucket : String → List UInt8 → Nat
  prepare : List Receipt → Nat → Job
  /-- `len(json.Marshal(results))`. -/
  jsonLength : List Receipt → Nat

variable (env : Env)

def normalizeExt (ext : String) : String :=
  let s := env.foldText ext
  match s.toList with
  | '.' :: rest => String.ofList rest
  | _ => s

def addExt (seen : List String) : Option String → List String
  | none => seen
  | some e =>
    let n := normalizeExt env e
    if n != "" && !seen.contains n then seen ++ [n] else seen

def initialContext (hash : List UInt8) (src : Source) (input : Input) : TorrentContext where
  infoHash := hash
  contentType := input.deterministic.contentType
  extensions := (src.extension :: src.files).foldl (addExt env) []
  isAnime := match src.contents with | [row] => row.isAnime | _ => false
  hasContentMatch := input.deterministic.match_.isSome
  excluded := false
  lastUncertainty := none
  tags := src.tags
  scores := fun _ => .finite 0
  extractedTitle := input.deterministic.title
  extractedYear := input.deterministic.year

def applyProposal (tc : TorrentContext) (p : Proposal) : TorrentContext where
  infoHash := tc.infoHash
  contentType := if p.contentType != "" && tc.contentType == "" then p.contentType else tc.contentType
  extensions := tc.extensions
  isAnime := match p.extraction with
    | some ex => ex.isAnime.getD tc.isAnime
    | none => tc.isAnime
  hasContentMatch := match p.match_ with
    | some m => if m.id != "" then true else tc.hasContentMatch
    | none => tc.hasContentMatch
  excluded := tc.excluded
  lastUncertainty := tc.lastUncertainty
  tags := (tc.tags ++ p.addTags).filter fun t => !p.removeTags.contains t
  scores := p.weights.entries.foldl
    (fun scores e => fun dim => if dim = e.1 then (scores dim).add e.2 else scores dim) tc.scores
  extractedTitle := match p.extraction with
    | some ex => if ex.title != "" then ex.title else tc.extractedTitle
    | none => tc.extractedTitle
  extractedYear := match p.extraction with
    | some ex => if ex.year > 0 then ex.year else tc.extractedYear
    | none => tc.extractedYear

def applyResult (tc : TorrentContext) (r : Result) : TorrentContext :=
  match r.outcome, r.proposal with
  | .excluded, some p => if p.exclusion.isSome then { tc with excluded := true } else tc
  | .completed, some p => applyProposal tc p
  | _, _ => tc

def TorrentContext.withUncertainty (tc : TorrentContext) (u : Option Float64) : TorrentContext :=
  { tc with lastUncertainty := u }

/-- The mode of step `i`. -/
def Plan.modeAt (plan : Plan) (i : Nat) : Option Mode := (plan.steps[i]?).map (·.entry.mode)

/-- A result's uncertainty, if it has any, replaces the last one. -/
def noteUncertainty (tc : TorrentContext) (r : Result) : TorrentContext :=
  tc.withUncertainty (r.uncertainty.or tc.lastUncertainty)

/-- One round of the loop of `buildTorrentContext`. The uncertainty is taken before the mode of the
step is looked at. -/
def addReceipt (plan : Plan) (tc : TorrentContext) (receipt : Receipt × Nat) : TorrentContext :=
  if plan.modeAt receipt.2 = some .apply then applyResult (noteUncertainty tc receipt.1.result) receipt.1.result
  else noteUncertainty tc receipt.1.result

def buildTorrentContext (hash : List UInt8) (src : Source) (input : Input) (results : List Receipt)
    (plan : Plan) (upToStep : Nat) : TorrentContext :=
  ((results.take (min upToStep results.length)).zipIdx).foldl (addReceipt plan) (initialContext env hash src input)

/-- The `min_uncertainty` clause of a selector. -/
def uncertaintyClause (minUncertainty lastUncertainty : Option Float64) : Bool :=
  match minUncertainty, lastUncertainty with
  | some m, some u => !u.lt m
  | _, _ => true

def matchesSelector (sel : Selector) (processorID : String) (tc : TorrentContext) : Bool :=
  sel.isEmpty || ((sel.contentTypes.isEmpty ||
        sel.contentTypes.contains (if tc.contentType == "" then "unknown" else tc.contentType)) &&
      !(!sel.excludeTypes.isEmpty &&
        sel.excludeTypes.contains (if tc.contentType == "" then "unknown" else tc.contentType)) &&
      (sel.extensions.isEmpty || sel.extensions.any fun want => tc.extensions.contains (normalizeExt env want)) &&
      sel.isAnime.all (tc.isAnime == ·) &&
      sel.hasContentMatch.all (tc.hasContentMatch == ·) &&
      sel.excluded.all (tc.excluded == ·) &&
      uncertaintyClause sel.minUncertainty tc.lastUncertainty &&
      sel.requiredTags.all (tc.tags.contains ·) &&
      sel.scoreThresholds.all (fun st =>
        !st.min.any (fun lo => (tc.scores st.dimension).lt lo) &&
          !st.max.any (fun hi => hi.lt (tc.scores st.dimension))) &&
      sel.sampleBasisPoints.all (fun bps =>
        !decide (bps ≤ 0) && (decide (bps ≥ 10000) || decide ((env.bucket processorID tc.infoHash : Int) < bps))))

/-! ## Runs of a job -/

structure JobContext where
  hash : List UInt8
  source : Option Source
  input : Input
  plan : Plan

/-- `matchesStepSelector` in `RunOne`: a step is skipped only if its selector is evaluated and fails. -/
def runsStep (c : JobContext) (results : List Receipt) (k : Nat) : Bool :=
  match (c.plan.steps[k]?).bind fun st => st.entry.selector.map fun sel => (st.entry.id, sel) with
  | none => true
  | some (id, sel) =>
    sel.isEmpty || c.source.all fun src =>
      matchesSelector env sel id (buildTorrentContext env c.hash src c.input results c.plan k)

def skipReceipt (j : Job) : Receipt where
  result := { binding := j.binding, outcome := .abstained, reasons := ["selector_skipped"] }
  candidates := j.input.candidates

/-- The last attempt of a step whose result does not fit. -/
def limitReceipt (j : Job) : Receipt where
  result := { binding := j.binding, outcome := .failed, reasons := ["pipeline_result_limit"] }
  candidates := j.input.candidates

def limited (results : List Receipt) (k : Nat) (r : Receipt) : Receipt :=
  if env.jsonLength (results ++ [r]) ≤ 100000 then r else limitReceipt (env.prepare results k)

def receipts (c : JobContext) (returned : Nat → Receipt) : Nat → List Receipt
  | 0 => []
  | k + 1 =>
    let results := receipts c returned k
    results ++ [if runsStep env c results k then limited env results k (returned k)
      else skipReceipt (env.prepare results k)]

/-- The selector's decision for step `k`: run (`true`) or skip. -/
def decision (c : JobContext) (returned : Nat → Receipt) (k : Nat) : Bool :=
  runsStep env c (receipts env c returned k) k

/-- No result of the run is refused for the length of the receipts. -/
def Fits (c : JobContext) (returned : Nat → Receipt) : Prop :=
  ∀ k < c.plan.steps.length, decision env c returned k = true →
    env.jsonLength (receipts env c returned k ++ [returned k]) ≤ 100000

/-- Results that differ at most in their binding, which is not the service's to choose. -/
def SameAnswer (r r' : Result) : Prop := r' = { r with binding := r'.binding }

/-- The services of apply-mode steps give the same answers. -/
def AgreeOnApply (plan : Plan) (returned returned' : Nat → Receipt) : Prop :=
  ∀ i, plan.modeAt i = some .apply → SameAnswer (returned i).result (returned' i).result

/-- The bound that `Result.Validate` puts on an uncertainty. -/
def Admissible (returned : Nat → Receipt) : Prop := ∀ i, (returned i).result.uncertainty.any outsideUnit = false

theorem admissible_of_validate {clock : Clock} {r : Result} {j : Job}
    (h : r.validate clock j = .ok ()) : r.uncertainty.any outsideUnit = false := by
  unfold Result.validate Result.validateEnvelope at h
  simp only [checked_bind_iff, reject_eq_ok] at h
  obtain ⟨⟨-, -, -, -, -, -, huncertainty, -⟩, -⟩ := h
  grind [outsideUnit]

/-- Some shadow step run before step `k` is not followed, before `k`, by an apply-mode step that returned an
uncertainty. -/
def Exposed (c : JobContext) (returned : Nat → Receipt) (k : Nat) : Prop :=
  ∃ s < k, c.plan.modeAt s = some .shadow ∧ decision env c returned s = true ∧
    ∀ i, s < i → i < k → c.plan.modeAt i = some .apply → decision env c returned i = true →
      (returned i).result.uncertainty = none

/-! ## What a shadow step can change -/

section Context

variable (tc : TorrentContext) (u u' : Option Float64)

@[simp] theorem withUncertainty_lastUncertainty : (tc.withUncertainty u).lastUncertainty = u := rfl

@[simp] theorem withUncertainty_withUncertainty :
    (tc.withUncertainty u).withUncertainty u' = tc.withUncertainty u' := rfl

theorem applyResult_withUncertainty (r : Result) :
    applyResult (tc.withUncertainty u) r = (applyResult tc r).withUncertainty u := by
  unfold applyResult
  split
  · split_ifs <;> rfl
  · rfl
  · rfl

theorem applyResult_sameAnswer {r r' : Result} (h : SameAnswer r r') : applyResult tc r' = applyResult tc r := by
  rw [h]
  rfl

theorem addReceipt_lastUncertainty (plan : Plan) (receipt : Receipt) (i : Nat) :
    (addReceipt plan tc (receipt, i)).lastUncertainty = receipt.result.uncertainty.or tc.lastUncertainty := by
  unfold addReceipt noteUncertainty
  split_ifs
  · rw [applyResult_withUncertainty, withUncertainty_lastUncertainty]
  · rfl

/-- **One receipt.** Receipts that agree at apply-mode steps keep contexts alike but for the last
uncertainty. -/
theorem addReceipt_withUncertainty {plan : Plan} {receipt receipt' : Receipt} {i : Nat}
    (hr : plan.modeAt i = some .apply → SameAnswer receipt.result receipt'.result) :
    addReceipt plan (tc.withUncertainty u) (receipt', i) =
      (addReceipt plan tc (receipt, i)).withUncertainty (receipt'.result.uncertainty.or u) := by
  unfold addReceipt noteUncertainty
  dsimp only
  split_ifs with happly
  · rw [applyResult_withUncertainty, applyResult_withUncertainty, applyResult_withUncertainty,
      applyResult_sameAnswer tc (hr happly)]
    rfl
  · rfl

end Context

/-- The clauses of a selector beside `min_uncertainty`. -/
def Selector.withoutUncertainty (sel : Selector) : Selector := { sel with minUncertainty := none }

theorem matchesSelector_eq (sel : Selector) (processorID : String) (tc : TorrentContext) :
    matchesSelector env sel processorID tc =
      (matchesSelector env sel.withoutUncertainty processorID tc &&
        uncertaintyClause sel.minUncertainty tc.lastUncertainty) := by
  rcases hm : sel.minUncertainty with _ | m
  · rw [show sel.withoutUncertainty = sel by rw [Selector.withoutUncertainty, ← hm]]
    simp [uncertaintyClause]
  · have hne : sel.isEmpty = false := by simp [Selector.isEmpty, hm]
    by_cases hothers : sel.withoutUncertainty.isEmpty = true
    · -- `min_uncertainty` is the only clause
      grind [Selector.isEmpty, Selector.withoutUncertainty, Option.isNone_iff_eq_none, matchesSelector]
    · grind [matchesSelector, Selector.withoutUncertainty, uncertaintyClause]

theorem matchesSelector_withUncertainty (sel : Selector) (processorID : String)
    (tc : TorrentContext) (u : Option Float64) :
    matchesSelector env sel.withoutUncertainty processorID (tc.withUncertainty u) =
      matchesSelector env sel.withoutUncertainty processorID tc := rfl

/-! ## Two runs -/

section Runs

variable {env} {c : JobContext} {returned returned' : Nat → Receipt}

/-- The receipt that step `k` leaves. -/
def receiptAt (env : Env) (c : JobContext) (returned : Nat → Receipt) (k : Nat) : Receipt :=
  if decision env c returned k then limited env (receipts env c returned k) k (returned k)
  else skipReceipt (env.prepare (receipts env c returned k) k)

theorem receiptAt_of_fits {k : Nat} (hfits : Fits env c returned) (hlen : k < c.plan.steps.length) :
    receiptAt env c returned k = if decision env c returned k then returned k
      else skipReceipt (env.prepare (receipts env c returned k) k) := by
  unfold receiptAt limited
  split_ifs with hran hlimit
  · rfl
  · exact absurd (hfits k hlen hran) hlimit
  · rfl

theorem receipts_succ (k : Nat) : receipts env c returned (k + 1) =
      receipts env c returned k ++ [receiptAt env c returned k] := rfl

@[simp] theorem length_receipts (k : Nat) : (receipts env c returned k).length = k := by
  induction k with
  | zero => rfl
  | succ k ih => grind [receipts_succ]

/-- The context of step `k` in a run. -/
def contextAt (env : Env) (c : JobContext) (src : Source) (returned : Nat → Receipt) (k : Nat) : TorrentContext :=
  buildTorrentContext env c.hash src c.input (receipts env c returned k) c.plan k

variable (src : Source)

theorem contextAt_succ (k : Nat) : contextAt env c src returned (k + 1) =
      addReceipt c.plan (contextAt env c src returned k) (receiptAt env c returned k, k) := by
  unfold contextAt buildTorrentContext
  rw [length_receipts, length_receipts, Nat.min_self, Nat.min_self,
    take_of_length_le (by simp), take_of_length_le (by simp), receipts_succ,
    zipIdx_append, foldl_append]
  simp

theorem contextAt_succ_lastUncertainty (k : Nat) :
    (contextAt env c src returned (k + 1)).lastUncertainty = (receiptAt env c returned k).result.uncertainty.or
        (contextAt env c src returned k).lastUncertainty := by
  rw [contextAt_succ, addReceipt_lastUncertainty]

variable {k : Nat}

theorem decision_eq {src : Source} {st : Step} {sel : Selector} (hsrc : c.source = some src)
    (hst : c.plan.steps[k]? = some st) (hsel : st.entry.selector = some sel) :
    decision env c returned k = matchesSelector env sel st.entry.id (contextAt env c src returned k) := by
  unfold decision runsStep contextAt matchesSelector
  simp only [hst, hsel, hsrc, Option.bind_some, Option.map_some, Option.all_some]
  rw [← Bool.or_assoc, Bool.or_self]

theorem decision_eq_of_none
    (h : c.source = none ∨ ∀ st sel, c.plan.steps[k]? = some st → st.entry.selector ≠ some sel) :
    decision env c returned k = true := by
  unfold decision runsStep
  cases hst : c.plan.steps[k]? with
  | none => rfl
  | some st =>
    cases hsel : st.entry.selector with
    | none => simp [hsel]
    | some sel => grind

theorem exposed_succ : Exposed env c returned (k + 1) ↔
      (c.plan.modeAt k = some .shadow ∧ decision env c returned k = true) ∨
      (Exposed env c returned k ∧ ¬ (c.plan.modeAt k = some .apply ∧ decision env c returned k = true ∧
          (returned k).result.uncertainty ≠ none)) := by
  constructor
  · rintro ⟨s, hs, hmode, hran, hlater⟩
    rcases Nat.lt_succ_iff_lt_or_eq.mp hs with hlt | rfl
    · refine Or.inr ⟨⟨s, hlt, hmode, hran, fun i hsi hik => hlater i hsi (by omega)⟩, ?_⟩
      grind
    · exact Or.inl ⟨hmode, hran⟩
  · rintro (⟨hmode, hran⟩ | ⟨⟨s, hs, hmode, hran, hlater⟩, hk⟩)
    · exact ⟨k, Nat.lt_succ_self k, hmode, hran, fun i hki hik => by omega⟩
    · refine ⟨s, by omega, hmode, hran, ?_⟩
      grind

theorem receiptAt_uncertainty (hfits : Fits env c returned) (hlen : k < c.plan.steps.length) :
    (receiptAt env c returned k).result.uncertainty =
      if decision env c returned k then (returned k).result.uncertainty else none := by
  rw [receiptAt_of_fits hfits hlen]
  split_ifs <;> rfl

theorem lastUncertainty_admissible (hfits : Fits env c returned) (hadm : Admissible returned)
    (hlen : k ≤ c.plan.steps.length) :
    (contextAt env c src returned k).lastUncertainty.any outsideUnit = false := by
  induction k with
  | zero => rfl
  | succ k ih =>
    have hprev := ih (by omega)
    rw [contextAt_succ_lastUncertainty, receiptAt_uncertainty hfits hlen]
    have hk := hadm k
    split_ifs
    · cases hu : (returned k).result.uncertainty with
      | none => simpa [hu] using hprev
      | some u => simpa [hu] using hk
    · simpa using hprev

theorem receiptAt_sameAnswer (hfits : Fits env c returned) (hfits' : Fits env c returned')
    (hagree : AgreeOnApply c.plan returned returned') (hlen : k < c.plan.steps.length)
    (hk : decision env c returned' k = decision env c returned k) (hmode : c.plan.modeAt k = some .apply) :
    SameAnswer (receiptAt env c returned k).result (receiptAt env c returned' k).result := by
  rw [receiptAt_of_fits hfits hlen, receiptAt_of_fits hfits' hlen, hk]
  split_ifs
  · exact hagree k hmode
  · rfl

/-- **Contexts of two runs.** While the decisions agree, the contexts differ at most in the last
uncertainty. -/
theorem contextAt_alike (hfits : Fits env c returned) (hfits' : Fits env c returned')
    (hagree : AgreeOnApply c.plan returned returned') (hlen : k ≤ c.plan.steps.length)
    (hsame : ∀ i < k, decision env c returned' i = decision env c returned i) :
    contextAt env c src returned' k = (contextAt env c src returned k).withUncertainty
      (contextAt env c src returned' k).lastUncertainty := by
  induction k with
  | zero => rfl
  | succ k ih =>
    grind [contextAt_succ, addReceipt_withUncertainty, receiptAt_sameAnswer, withUncertainty_lastUncertainty]

theorem lastUncertainty_alike (hfits : Fits env c returned) (hfits' : Fits env c returned')
    (hagree : AgreeOnApply c.plan returned returned') (hlen : k ≤ c.plan.steps.length)
    (hsame : ∀ i < k, decision env c returned' i = decision env c returned i) (hexposed : ¬ Exposed env c returned k) :
    (contextAt env c src returned' k).lastUncertainty = (contextAt env c src returned k).lastUncertainty := by
  induction k with
  | zero => rfl
  | succ k ih =>
    rw [exposed_succ, not_or] at hexposed
    obtain ⟨hshadow, hnotLater⟩ := hexposed
    have hcovered : Exposed env c returned k → c.plan.modeAt k = some .apply ∧
        decision env c returned k = true ∧ (returned k).result.uncertainty ≠ none := by grind
    have hprev := ih (by omega) fun i hi => hsame i (by omega)
    rw [contextAt_succ_lastUncertainty, contextAt_succ_lastUncertainty, receiptAt_uncertainty hfits' hlen,
      receiptAt_uncertainty hfits hlen, hsame k (Nat.lt_succ_self k)]
    cases hran : decision env c returned k with
    | false => grind
    | true =>
      -- the step ran, so it is an apply-mode one and gave the same answer in both runs
      have happly : c.plan.modeAt k = some .apply := by
        unfold Plan.modeAt at hshadow ⊢
        rw [getElem?_eq_getElem (by omega)] at hshadow ⊢
        cases hm : (c.plan.steps[k]).entry.mode with
        | shadow => exact absurd ⟨by simp [hm], hran⟩ hshadow
        | apply => simp [hm]
      have huncertainty : (returned' k).result.uncertainty = (returned k).result.uncertainty := by rw [hagree k happly]
      rw [if_pos rfl, if_pos rfl, huncertainty]
      cases hu : (returned k).result.uncertainty with
      | some u => rfl
      | none => grind

/-- A step is safe from shadow steps: no positive `min_uncertainty`, another clause refuses it, or the last
uncertainty cannot come from one. -/
def Isolated (env : Env) (c : JobContext) (returned : Nat → Receipt) (k : Nat) : Prop :=
  ∀ st sel m src, c.plan.steps[k]? = some st → st.entry.selector = some sel →
    sel.minUncertainty = some m → c.source = some src → Float64.lt (.finite 0) m = true →
    matchesSelector env sel.withoutUncertainty st.entry.id (contextAt env c src returned k) = true →
    ¬ Exposed env c returned k

theorem uncertaintyClause_of_not_pos {m : Float64} {u : Option Float64}
    (hm : Float64.lt (.finite 0) m = false) (hu : u.any outsideUnit = false) :
    uncertaintyClause (some m) u = true := by
  cases u with
  | none => rfl
  | some u =>
    simp only [Option.any_some, outsideUnit, Bool.or_eq_false_iff] at hu
    obtain ⟨⟨hfin, hlo⟩, -⟩ := hu
    cases u with
    | nan => simp [Float64.isFinite] at hfin
    | inf n => simp [Float64.isFinite] at hfin
    | finite q =>
      cases m with
      | nan => rfl
      | inf n =>
        cases n with
        | true => rfl
        | false => simp [Float64.lt] at hm
      | finite p => grind [Float64.lt, uncertaintyClause]

/-- **One step.** If the runs decided alike so far and step `k` is isolated, they decide it alike. -/
theorem decision_alike (hfits : Fits env c returned) (hfits' : Fits env c returned')
    (hadm : Admissible returned) (hadm' : Admissible returned')
    (hagree : AgreeOnApply c.plan returned returned') (hlen : k < c.plan.steps.length)
    (hsame : ∀ i < k, decision env c returned' i = decision env c returned i) (hk : Isolated env c returned k) :
    decision env c returned' k = decision env c returned k := by
  by_cases hnone : c.source = none ∨ ∀ st sel, c.plan.steps[k]? = some st → st.entry.selector ≠ some sel
  · rw [decision_eq_of_none hnone, decision_eq_of_none hnone]
  obtain ⟨hsource, hselector⟩ := not_or.mp hnone
  obtain ⟨src, hsrc⟩ := Option.ne_none_iff_exists'.mp hsource
  simp only [not_forall, ne_eq, not_not] at hselector
  obtain ⟨st, sel, hst, hsel⟩ := hselector
  have halike : contextAt env c src returned' k = (contextAt env c src returned k).withUncertainty
      (contextAt env c src returned' k).lastUncertainty := contextAt_alike src hfits hfits' hagree (by omega) hsame
  rw [decision_eq hsrc hst hsel, decision_eq hsrc hst hsel, matchesSelector_eq,
    matchesSelector_eq env sel _ (contextAt env c src returned k)]
  have hothers : matchesSelector env sel.withoutUncertainty st.entry.id (contextAt env c src returned' k) =
      matchesSelector env sel.withoutUncertainty st.entry.id (contextAt env c src returned k) := by
    rw [halike, matchesSelector_withUncertainty]
  rw [hothers]
  cases hmatch : matchesSelector env sel.withoutUncertainty st.entry.id
      (contextAt env c src returned k) with
  | false => rfl
  | true =>
    cases hm : sel.minUncertainty with
    | none => rfl
    | some m =>
      cases hpos : Float64.lt (.finite 0) m with
      | false =>
        rw [uncertaintyClause_of_not_pos hpos (lastUncertainty_admissible src hfits' hadm' hlen.le),
          uncertaintyClause_of_not_pos hpos (lastUncertainty_admissible src hfits hadm hlen.le)]
      | true =>
        rw [lastUncertainty_alike src hfits hfits' hagree hlen.le hsame (hk st sel m src hst hsel hm hsrc hpos hmatch)]

/-- Every shadow step answers with the uncertainty `v`. -/
def withShadowUncertainty (plan : Plan) (returned : Nat → Receipt) (v : Float64) : Nat → Receipt := fun i =>
  if plan.modeAt i = some .shadow then { returned i with result := { (returned i).result with uncertainty := some v } }
  else returned i

theorem withShadowUncertainty_agree (plan : Plan) (returned : Nat → Receipt) (v : Float64) :
    AgreeOnApply plan returned (withShadowUncertainty plan returned v) := by
  intro i hi
  unfold withShadowUncertainty
  rw [if_neg (by rw [hi]; simp)]
  rfl

theorem withShadowUncertainty_admissible (plan : Plan) (hadm : Admissible returned) {v : Float64}
    (hv : outsideUnit v = false) : Admissible (withShadowUncertainty plan returned v) := by
  intro i
  unfold withShadowUncertainty
  split_ifs
  · simpa using hv
  · exact hadm i

theorem lastUncertainty_of_exposed {v : Float64}
    (hfits : Fits env c (withShadowUncertainty c.plan returned v)) (hlen : k ≤ c.plan.steps.length)
    (hsame : ∀ i < k, decision env c (withShadowUncertainty c.plan returned v) i = decision env c returned i)
    (hexposed : Exposed env c returned k) :
    (contextAt env c src (withShadowUncertainty c.plan returned v) k).lastUncertainty = some v := by
  induction k with
  | zero =>
    obtain ⟨s, hs, -⟩ := hexposed
    exact absurd hs (Nat.not_lt_zero s)
  | succ k ih =>
    have hprev := ih (by omega) fun i hi => hsame i (by omega)
    rw [contextAt_succ_lastUncertainty, receiptAt_uncertainty hfits hlen, hsame k (Nat.lt_succ_self k)]
    rcases exposed_succ.mp hexposed with ⟨hshadow, hran⟩ | ⟨hexp, hcovered⟩
    · grind [withShadowUncertainty]
    · cases hran : decision env c returned k with
      | false => simpa using hprev hexp
      | true =>
        rw [if_pos rfl, withShadowUncertainty]
        split_ifs with hshadow
        · rfl
        · -- the mode is apply, so the step returned no uncertainty
          have hnone : (returned k).result.uncertainty = none := by
            by_contra hsome
            refine hcovered ⟨?_, hran, hsome⟩
            unfold Plan.modeAt at hshadow ⊢
            rw [getElem?_eq_getElem (by omega)] at hshadow ⊢
            cases hm : (c.plan.steps[k]).entry.mode with
            | shadow => exact absurd (by simp [hm]) hshadow
            | apply => simp [hm]
          rw [hnone]
          simpa using hprev hexp

end Runs

/-! ## A visible shadow step -/

def sampleStep (id : String) (mode : Mode) (selector : Option Selector) : Step where
  entry :=
    { id := id, generation := 1, executionGeneration := 1, mode := mode, state := .active,
      priority := 0, selector := selector, capabilities := [.classify] }
  stage := .classify
  capabilities := []

def sampleContext : JobContext where
  hash := []
  source := some { tags := [], extension := none, files := [], contents := [] }
  input := {}
  plan :=
    { epoch := 1, corePolicy := "core", steps := [sampleStep "shadow" .shadow none,
          sampleStep "second" .apply (some { minUncertainty := some (.finite 1) })],
      admission := { generation := 1, basisPoints := 10000, seed := "", policyVersion := "all-v1" } }

def sampleEnv : Env where
  foldText := id
  bucket := fun _ _ => 0
  prepare := fun _ _ => sampleJob .classify []
  jsonLength := fun results => 400 * results.length

/-- The shadow service abstains with the uncertainty `u`. -/
def sampleReturned (u : Float64) : Nat → Receipt := fun i =>
  { result :=
      { binding := (sampleJob .classify []).binding, outcome := .abstained,
        uncertainty := if i = 0 then some u else none }
    candidates := [] }

theorem sampleReturned_admissible {u : Float64} (hu : outsideUnit u = false) : Admissible (sampleReturned u) := by
  intro i
  grind [sampleReturned]

theorem sampleReturned_agree (u u' : Float64) :
    AgreeOnApply sampleContext.plan (sampleReturned u) (sampleReturned u') := by
  intro i hi
  have hne : i ≠ 0 := by
    rintro rfl
    exact absurd hi (by decide)
  simp [SameAnswer, sampleReturned, hne]

theorem sample_fits (returned : Nat → Receipt) : Fits sampleEnv sampleContext returned := by
  intro k hk _
  have hlen : k < 2 := hk
  simp only [sampleEnv, length_append, length_receipts, length_singleton]
  omega

end BitAgent.Processors
