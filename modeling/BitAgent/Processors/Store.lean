/-
# Processors.Store — the tables of the optional processors, and who may invalidate them

`internal/processors/store.go`, `admission.go` and the tables of the migrations 61 to 67, as far as the job queue uses
them. Each exported function is one transaction on a `State`; one that fails returns no state.

Time is in microseconds, one instant in a transaction. Digests and info hashes are numbers: their byte order is the
numeric order. What the queue takes from the catalogue is of an arbitrary type `Base`, read through a `Catalogue`. The
HTTP inspection comes before the transaction of `Register`; the capabilities of the manifest are an argument.
-/
import BitAgent.Lib.Table
import BitAgent.Processors.Selector

namespace BitAgent.Processors

open Lib ProcessorApi

abbrev Time := Nat
abbrev Digest := Nat
abbrev InfoHash := Nat

/-- The errors of the package, a missing row (`pgx.ErrNoRows`), and any other error by its text. -/
inductive Err where
  | conflict
  | absent
  | stale
  | capacity
  | registration
  | control
  | noRows
  | other (text : String)
  deriving DecidableEq

/-- `Config`, times in microseconds. -/
structure Config where
  concurrency : Nat
  queueCapacity : Nat
  retainedJobs : Nat
  requestTimeout : Time
  maxAttempts : Nat
  retention : Time
  scanBatch : Nat

def newDefaultConfig : Config where
  concurrency := 2
  queueCapacity := 1000
  retainedJobs := 10000
  requestTimeout := 10 * 1000000
  maxAttempts := 3
  retention := 7 * 24 * 3600 * 1000000
  scanBatch := 32

/-- `Config.Validate`. The poll interval, which no transaction reads, is an argument. -/
def Config.validate (c : Config) (pollInterval : Time) : Except String Unit :=
  let ms : Time := 1000
  let minute : Time := 60 * 1000 * ms
  reject (decide (c.concurrency < 1) || decide (c.concurrency > 16) || decide (c.queueCapacity < 1) ||
    decide (c.queueCapacity > 100000) || decide (c.retainedJobs < c.queueCapacity) ||
    decide (c.retainedJobs > 1000000) || decide (c.scanBatch < 1) || decide (c.scanBatch > 256) ||
    decide (c.maxAttempts < 1) || decide (c.maxAttempts > 5) ||
    decide (c.requestTimeout < 100 * ms) || decide (c.requestTimeout > minute) ||
    decide (pollInterval < 100 * ms) || decide (pollInterval > minute) ||
    decide (c.retention < 60 * minute) || decide (c.retention > 30 * 24 * 60 * minute))
    "invalid processor resource bounds"

structure Config.Bounded (c : Config) : Prop where
  concurrency : 1 ≤ c.concurrency
  queueCapacity : 1 ≤ c.queueCapacity
  retainedJobs : c.queueCapacity ≤ c.retainedJobs
  scanBatch : 1 ≤ c.scanBatch
  maxAttempts : 1 ≤ c.maxAttempts
  retention : c.requestTimeout ≤ c.retention

theorem Config.bounded_of_validate {c : Config} {pollInterval : Time}
    (h : c.validate pollInterval = .ok ()) : c.Bounded := by
  unfold Config.validate at h
  simp only [reject_eq_ok, Bool.or_eq_false_iff, decide_eq_false_iff_not, Nat.not_lt] at h
  have hminute : c.requestTimeout ≤ c.retention := Nat.le_trans (m := 60000000) (by omega) (by omega)
  exact ⟨by omega, by omega, by omega, by omega, by omega, hminute⟩

theorem Config.poll_pos {c : Config} {pollInterval : Time}
    (h : c.validate pollInterval = .ok ()) : 0 < pollInterval := by
  grind [Config.validate, reject_eq_ok]

/-! ## Rows -/

/-- The `state` of a job. -/
inductive JobState where
  | queued
  | leased
  | deferred
  | completed
  | failed
  | canceled
  | stale
  deriving DecidableEq

def JobState.text : JobState → String
  | .queued => "queued"
  | .leased => "leased"
  | .deferred => "deferred"
  | .completed => "completed"
  | .failed => "failed"
  | .canceled => "canceled"
  | .stale => "stale"

/-- `state IN ('queued','deferred','leased')`. -/
def JobState.pending : JobState → Bool
  | .queued | .deferred | .leased => true
  | _ => false

def JobState.terminal (s : JobState) : Bool := !s.pending

/-- The source snapshot of a torrent: its catalogue facts and the reprocess request it names. -/
structure Snapshot (Base : Type) where
  base : Base
  reprocess : Option Digest

/-- A row of `processor_jobs`. -/
structure JobRow (Base : Type) where
  jobID : Digest
  infoHash : InfoHash
  inputRevision : Digest
  pipelineRevision : Digest
  epoch : Nat
  source : Snapshot Base
  plan : Plan
  preparedJob : Option Job := none
  step : Nat := 0
  stepAttempts : Nat := 0
  attempts : Nat := 0
  results : List Receipt := []
  state : JobState := .queued
  reason : String := ""
  outcome : Option Outcome := none
  leaseGeneration : Nat := 0
  leaseUntil : Option Time := none
  createdAt : Time
  availableAt : Time
  finishedAt : Option Time := none
  preparationFailures : Nat := 0

/-- A row of `processor_attempts`. -/
structure AttemptRow where
  jobID : Digest
  leaseGeneration : Nat
  processorID : String
  generation : Nat
  stage : Stage
  startedAt : Time
  finishedAt : Option Time := none
  outcome : String := ""
  reason : String := ""

/-- A row of `processor_applications`. -/
structure ApplicationRow where
  infoHash : InfoHash
  jobID : Digest
  inputRevision : Digest
  appliedRevision : Digest
  pipelineRevision : Digest
  results : List Receipt

/-- The `state` of a reprocess request. -/
inductive RequestState where
  | waitingCore
  | ready
  | queued
  | settled
  | coreOnly
  | held
  | deferred
  | failed
  | stale
  | canceled
  deriving DecidableEq

/-- The status of the core queue job of a request; `missing` when its row is gone. -/
inductive CoreStatus where
  | pending
  | processed
  | failed
  | missing
  deriving DecidableEq

structure CoreReceipt where
  completed : Bool
  sourceDigest : Digest
  policy : String

structure ReprocessWrite where
  requestID : Digest
  expectedInputRevision : Digest
  expectedPipelineRevision : Digest
  reason : String

structure RequestRow where
  requestID : Digest
  requestDigest : Digest
  originJobID : Digest
  infoHash : InfoHash
  expectedPipelineRevision : Digest
  state : RequestState
  stateReason : String
  coreStatus : CoreStatus
  coreReceipt : Option CoreReceipt
  resultJobID : Option Digest
  createdAt : Time

/-- The `processor_control` row. `scanAfter` is `none` for the empty byte string. -/
structure Control where
  epoch : Nat
  scanAfter : Option InfoHash
  admission : Admission
  attemptHistoryFloor : Time

/-- The database, the clock and the catalogue. `torrents` are the torrents with their facts. -/
structure State (Base : Type) where
  control : Control
  registry : Table Entry.id
  registryGeneration : Nat
  jobs : Table (@JobRow.jobID Base)
  attempts : Table fun a : AttemptRow => (a.jobID, a.leaseGeneration)
  applications : Table ApplicationRow.infoHash
  requests : Table RequestRow.requestID
  torrents : Table (Prod.fst : InfoHash × Base → InfoHash)
  now : Time

structure Catalogue (Base : Type) where
  rawSize : Snapshot Base → Nat
  /-- `source.admitted`. -/
  admitted : Base → Bool
  /-- A row of `torrent_contents` exists. -/
  hasContents : Base → Bool
  eligible : InfoHash → Base → Bool
  /-- `digest` of the canonical snapshot. -/
  sourceDigest : Snapshot Base → Digest
  /-- `llmwork.SourceDigest` of the torrent. -/
  coreDigest : InfoHash → Base → Digest
  /-- `digest` of a plan. -/
  planDigest : Plan → Digest
  /-- `digest` of hash, revision and pipeline: the id of a job. -/
  jobDigest : InfoHash → Digest → Digest → Digest
  /-- `digest` of the job and the text of a reprocess request. -/
  requestDigest : Digest → ReprocessWrite → Digest
  inputSize : InfoHash → Snapshot Base → Nat
  resultsSize : List Receipt → Nat
  /-- `admissionBucket`, `none` for a seed that is not 64 lower-case hex digits. -/
  admissionBucket : InfoHash → String → Option Nat
  /-- `apply`: the facts after the results were applied, or its error. -/
  apply : InfoHash → Plan → List Receipt → Base → Except String Base
  /-- What the result check asks the clock. -/
  clock : Clock

variable {Base : Type} (cat : Catalogue Base) (cfg : Config) (policy : String)

/-! ## Plans and admission -/

/-- `stageIndex`: the position of a stage in `Stages`. -/
def stageIndex : Stage → Nat
  | .classify => 0
  | .extract => 1
  | .match_ => 2
  | .language => 3
  | .policy => 4
  | .embed => 5
  | .other _ => 6

/-- The order of the plan: priority, then the stage of the first capability, then the id. -/
def planOrder (a b : Entry) : Bool :=
  let stage (e : Entry) := stageIndex (e.capabilities.headD (.other ""))
  if a.priority ≠ b.priority then a.priority < b.priority
  else if stage a ≠ stage b then stage a < stage b
  else a.id ≤ b.id

def sortEntries : List Entry → List Entry
  | [] => []
  | e :: es => insert e (sortEntries es)
where
  insert (e : Entry) : List Entry → List Entry
    | [] => [e]
    | x :: xs => if planOrder e x then e :: x :: xs else x :: insert e xs

def stepOf (e : Entry) : Option Step :=
  match e.state, e.capabilities with
  | .paused, _ => none
  | _, [] => none
  | _, first :: rest => some
      { entry := { e with generation := e.executionGeneration, state := .active }
        stage := first
        capabilities := if rest.isEmpty then [] else first :: rest }

/-- `readPlan`: the plan, and whether some unpaused processor is draining. -/
def readPlan (s : State Base) : Plan × Bool :=
  let entries := sortEntries s.registry.rows
  ({ epoch := s.control.epoch, corePolicy := policy, steps := entries.filterMap stepOf,
     admission := s.control.admission },
    entries.any fun e => (stepOf e).isSome && e.state == .draining)

def admittedByPolicy (hash : InfoHash) (a : Admission) : Bool :=
  match cat.admissionBucket hash a.seed with
  | none => false
  | some bucket =>
    decide (0 ≤ a.basisPoints) && decide (a.basisPoints ≤ 10000) && decide ((bucket : Int) < a.basisPoints)

/-! ## Invalidation -/

/-- The open attempts of the given leases end with an outcome and a reason. -/
def closeAttempts (s : State Base) (leases : List (Digest × Nat)) (outcome reason : String) :
    Table fun a : AttemptRow => (a.jobID, a.leaseGeneration) :=
  s.attempts.update (fun a => leases.contains (a.jobID, a.leaseGeneration) && a.finishedAt.isNone)
    (fun a => { a with finishedAt := some s.now, outcome := outcome, reason := reason })

/-- Shared by `invalidateFor`, `Cancel`, `CancelReprocessing` and `abandon`: the pending jobs that satisfy `p` end in
`state`. -/
def endJobs (s : State Base) (p : JobRow Base → Bool) (state : JobState) (reason attemptReason : String) : State Base :=
  let ended := (s.jobs.rows.filter fun r => r.state.pending && p r).map fun r => (r.jobID, r.leaseGeneration)
  { s with
    jobs := s.jobs.update (fun r => r.state.pending && p r)
      (fun r => { r with state := state, reason := reason, leaseUntil := none,
                         finishedAt := some s.now })
    attempts := closeAttempts s ended "unknown" attemptReason }

/-- `invalidateFor`: a new epoch, the scan starts over, and every pending job becomes stale. -/
def invalidateFor (s : State Base) (reason : String) : State Base :=
  endJobs { s with control := { s.control with epoch := s.control.epoch + 1, scanAfter := none } }
    (fun _ => true) .stale reason reason

/-- `nextval('processor_registry_generation')`. -/
def nextGeneration (s : State Base) : State Base × Nat :=
  ({ s with registryGeneration := s.registryGeneration + 1 }, s.registryGeneration + 1)

/-- `RegistryWrite`, with the capabilities that the inspection of the service reported. -/
structure RegistryWrite where
  expectedGeneration : Int
  mode : Mode
  state : EntryState
  priority : Int
  selector : Option Selector
  capabilities : List Stage

def storedSelector (sel : Option Selector) : Option Selector := sel.filter (!·.isEmpty)

def validateWrite (w : RegistryWrite) : Except Err Unit := do
  reject (decide (w.expectedGeneration < 0) || decide (w.priority < 0) || decide (w.priority > 1000)) .registration
  reject (w.selector.any fun sel => sel.validate.toOption.isNone) .registration

def register (s : State Base) (id : String) (w : RegistryWrite) : Except Err (State Base) := do
  validateWrite w
  let current := ((s.registry.get? id).map (·.generation)).getD 0
  reject ((current : Int) != w.expectedGeneration) .conflict
  reject (current == 0 && decide (s.registry.rows.length ≥ 16)) .capacity
  let (s, gen) := nextGeneration s
  let entry : Entry :=
    { id := id, generation := gen, executionGeneration := gen, mode := w.mode, state := w.state,
      priority := w.priority, selector := storedSelector w.selector,
      capabilities := w.capabilities }
  .ok (invalidateFor { s with registry := s.registry.upsert entry } "registry_changed")

structure RegistryControl where
  expectedGeneration : Int
  state : Option EntryState
  mode : Option Mode
  selector : Option Selector

/-- A new execution generation: another mode, a pause or an end of one, or another selector. Draining changes
admission only. -/
def startsExecution (e : Entry) (state : EntryState) (mode : Mode) (selector : Option Selector) : Bool :=
  e.mode != mode || (e.state == .paused && state != .paused) ||
    (e.state != .paused && state == .paused) || e.selector != selector

/-- `Control`. -/
def controlEntry (s : State Base) (id : String) (c : RegistryControl) : Except Err (State Base) := do
  reject (c.selector.any fun sel => sel.validate.toOption.isNone) .control
  match s.registry.get? id with
  | none => .error .absent
  | some e =>
    reject (c.expectedGeneration != (e.generation : Int)) .conflict
    let state := c.state.getD e.state
    let mode := c.mode.getD e.mode
    let selector := match c.selector with
      | some sel => storedSelector (some sel)
      | none => e.selector
    let (s, gen) := nextGeneration s
    let changed := startsExecution e state mode selector
    let s := if changed then invalidateFor s "registry_changed" else s
    let entry : Entry :=
      { e with generation := gen, state := state, mode := mode, selector := selector,
               executionGeneration := if changed then gen else e.executionGeneration }
    .ok { s with registry := s.registry.upsert entry }

def remove (s : State Base) (id : String) (gen : Nat) : Except Err (State Base) := do
  reject ((s.registry.get? id).map (·.generation) != some gen) .conflict
  .ok (invalidateFor { s with registry := s.registry.delete fun e => e.id == id } "registry_changed")

/-- `AdmissionWrite`; `versionsValid` is the answer of the pattern for version and reason. -/
structure AdmissionWrite where
  expectedGeneration : Nat
  basisPoints : Int
  seed : String
  policyVersion : String
  versionsValid : Bool

/-- Every registered processor gets a new generation and execution generation. -/
def renewGenerations (s : State Base) : State Base :=
  { s with
    registryGeneration := s.registryGeneration + s.registry.rows.length
    registry := s.registry.update (fun _ => true)
      (fun e => { e with
        generation := s.registryGeneration + 1 + s.registry.rows.findIdx (fun x => x.id = e.id)
        executionGeneration := s.registryGeneration + 1 + s.registry.rows.findIdx (fun x => x.id = e.id) }) }

def setAdmission (s : State Base) (w : AdmissionWrite) : Except Err (State Base) := do
  reject ((cat.admissionBucket 0 w.seed).isNone || decide (w.expectedGeneration < 1) ||
    decide (w.basisPoints < 0) || decide (w.basisPoints > 10000) || !w.versionsValid) .control
  let a := s.control.admission
  reject (w.expectedGeneration != a.generation) .conflict
  if w.seed = a.seed ∧ w.basisPoints = a.basisPoints ∧ w.policyVersion = a.policyVersion then .ok s
  else
    let a' : Admission := { generation := a.generation + 1, basisPoints := w.basisPoints,
                            seed := w.seed, policyVersion := w.policyVersion }
    let s := invalidateFor { s with control := { s.control with admission := a' } } "admission_changed"
    .ok (renewGenerations s)

def cancel (s : State Base) (id : Digest) : State Base :=
  endJobs s (fun r => r.jobID == id) .canceled "operator_canceled" "operator_canceled"

end BitAgent.Processors
