/-
# Processors.Queue — the job queue of the optional processors, transaction by transaction

`internal/processors/queue.go`, `reprocessing.go` and `pruneJobs`. A worker claims a job and gets a `Lease`, which
its later calls present. Every call is one transaction on the `State`; an error changes nothing. `exec` runs one call
of any party. The job that `Prepare` assembles, the answer of the service and the progress of the core queue and the
catalogue come in with the call. Left out: metrics, the feedback log and the feedback rows of `apply`.
-/
import Mathlib.Data.List.Sort
import BitAgent.Lib.Run
import BitAgent.Processors.Store

namespace BitAgent.Processors

open Lib ProcessorApi

variable {Base : Type} (cat : Catalogue Base) (cfg : Config) (policy : String)

/-- `UPDATE processor_jobs SET f WHERE job_id=id`. -/
def updateJob (s : State Base) (id : Digest) (f : JobRow Base → JobRow Base)
    (hf : ∀ r, (f r).jobID = r.jobID) : State Base :=
  { s with jobs := s.jobs.update (fun r => r.jobID == id) f hf }

def second : Time := 1000000
def hour : Time := 3600 * second

/-! ## Sources -/

/-- The request that a snapshot names: the latest that the core has let through. -/
def namedRequest (s : State Base) (hash : InfoHash) : Option Digest :=
  let named := s.requests.rows.filter fun r => r.infoHash == hash &&
    [RequestState.ready, .queued, .settled, .coreOnly].contains r.state
  (named.insertionSort fun a b =>
    b.createdAt < a.createdAt ∨ (b.createdAt = a.createdAt ∧ b.requestID ≤ a.requestID)).head?.map (·.requestID)

/-- `readSource`: a snapshot above 256 KiB is an error, not a torrent to pass over. -/
def readSource (s : State Base) (hash : InfoHash) : Except Err (Snapshot Base) :=
  match s.torrents.get? hash with
  | none => .error .noRows
  | some (_, base) =>
    let snapshot : Snapshot Base := { base := base, reprocess := namedRequest s hash }
    if cat.rawSize snapshot > 262144 then .error (.other "source_too_large") else .ok snapshot

/-! ## Reprocess requests -/

/-- `UPDATE processor_reprocess_requests SET state, state_reason WHERE p`, the reason computed from the
row. -/
def setRequestsBy (s : State Base) (p : RequestRow → Bool) (state : RequestState)
    (reason : RequestRow → String) : State Base :=
  { s with
    requests := s.requests.update p (fun r => { r with state := state, stateReason := reason r }) }

/-- `setRequestsBy` with one reason for all rows. -/
def setRequests (s : State Base) (p : RequestRow → Bool) (state : RequestState) (reason : String) : State Base :=
  setRequestsBy s p state fun _ => reason

/-- What becomes of one waiting request, checked in the order of the source. -/
def settleVerdict (s : State Base) (plan : Plan) (draining : Bool) (r : RequestRow) :
    Except Err (RequestState × String) :=
  if r.createdAt + hour < s.now then .ok (.deferred, "core_processing_expired")
  else if r.coreStatus = .failed then .ok (.failed, "core_processing_failed")
  else if r.coreStatus ≠ .processed then .ok (.deferred, "core_processing_unavailable_or_expired")
  else if r.expectedPipelineRevision ≠ cat.planDigest plan then .ok (.stale, "pipeline_changed")
  else match r.coreReceipt with
    | none => .ok (.held, "core_receipt_unavailable")
    | some receipt =>
      match readSource cat s r.infoHash with
      | .error .noRows => .ok (.held, "source_unavailable")
      | .error e => .error e
      | .ok src =>
        if !cat.admitted src.base || !cat.eligible r.infoHash src.base then .ok (.held, "current_authority_denied")
        else if receipt.policy ≠ policy ∨
            receipt.sourceDigest ≠ cat.coreDigest r.infoHash src.base then
          .ok (.stale, "core_receipt_source_changed")
        else if !receipt.completed then .ok (.deferred, "normal_processing_incomplete")
        else if plan.steps.isEmpty then .ok (.coreOnly, "no_active_processors")
        else if draining || !admittedByPolicy cat r.infoHash plan.admission then .ok (.held, "admission_policy_denied")
        else .ok (.ready, "normal_processing_completed")

/-- The loop of `settleReprocessing` over the requests it selected. -/
def settleAll (plan : Plan) (draining : Bool) : List RequestRow → State Base → Except Err (State Base)
  | [], s => .ok s
  | r :: rs, s => do
      let (state, reason) ← settleVerdict cat policy s plan draining r
      settleAll plan draining rs (setRequests s (fun x => x.requestID == r.requestID) state reason)

def resultJob (s : State Base) (r : RequestRow) : Option (JobRow Base) := r.resultJobID.bind s.jobs.get?

/-- `j.state||':'||j.outcome`. -/
def endedReason (j : JobRow Base) : String := j.state.text ++ ":" ++ (j.outcome.map Outcome.text).getD ""

/-- The first three statements of `settleReprocessing`. -/
def settleRequests (s : State Base) (plan : Plan) : State Base :=
  let s := setRequestsBy s
    (fun r => r.state == .queued && (resultJob s r).any (·.state.terminal)) .settled
    (fun r => ((resultJob s r).map endedReason).getD "")
  let s := setRequests s
    (fun r => r.state == .ready && r.expectedPipelineRevision != cat.planDigest plan) .stale
    "pipeline_changed"
  setRequests s (fun r => r.state == .ready && decide (r.createdAt + hour < s.now)) .deferred
    "optional_admission_expired"

/-- The requests that `settleReprocessing` selects then: no longer pending or an hour old, the oldest 16. -/
def dueRequests (s : State Base) : List RequestRow :=
  let due := s.requests.rows.filter fun r => r.state == .waitingCore &&
    (r.coreStatus != .pending || decide (r.createdAt + hour < s.now))
  (due.insertionSort fun a b => a.createdAt ≤ b.createdAt).take 16

def settleReprocessing (s : State Base) (plan : Plan) (draining : Bool) : Except Err (State Base) :=
  let s := settleRequests cat s plan
  settleAll cat policy plan draining (dueRequests s) s

/-! ## Scan -/

/-- The jobs that `pruneJobs` deletes: ended longer than the retention ago, oldest first, at most 128. -/
def doomed (s : State Base) : List Digest :=
  let old := s.jobs.rows.filter fun r => r.finishedAt.any fun t => decide (t + cfg.retention < s.now)
  ((old.insertionSort fun a b => a.finishedAt.getD 0 ≤ b.finishedAt.getD 0).take 128).map (·.jobID)

/-- `pruneJobs`: the floor rises to the newest attempt that goes, then the jobs go with their attempts. -/
def pruneJobs (s : State Base) : State Base :=
  let gone := doomed cfg s
  let boundary := (s.attempts.rows.filter fun a => gone.contains a.jobID).foldl
    (fun floor a => max floor (a.finishedAt.getD a.startedAt)) s.control.attemptHistoryFloor
  { s with
    control := { s.control with attemptHistoryFloor := boundary }
    jobs := s.jobs.delete fun r => gone.contains r.jobID
    attempts := s.attempts.delete fun a => gone.contains a.jobID }

/-- A request whose torrent may no longer be processed is held. -/
def holdRequest (s : State Base) (priority : List InfoHash) (hash : InfoHash) : State Base :=
  if priority.contains hash then
    setRequests s (fun r => r.infoHash == hash && r.state == .ready) .held "current_authority_denied"
  else s

/-- The row of a new job; its id is the digest of torrent, source and plan. -/
def newJob (s : State Base) (plan : Plan) (hash : InfoHash) (src : Snapshot Base) : JobRow Base where
  jobID := cat.jobDigest hash (cat.sourceDigest src) (cat.planDigest plan)
  infoHash := hash
  inputRevision := cat.sourceDigest src
  pipelineRevision := cat.planDigest plan
  epoch := plan.epoch
  source := src
  plan := plan
  createdAt := s.now
  availableAt := s.now

/-- `INSERT … ON CONFLICT DO NOTHING`, and the request follows the job. The flag: whether a row was inserted. -/
def insertJob (s : State Base) (job : JobRow Base) : State Base × Bool :=
  if (s.jobs.get? job.jobID).isSome then (s, false)
  else
    ({ s with
        jobs := s.jobs.insertNew job
        requests := s.requests.update (fun r => r.infoHash == job.infoHash && r.state == .ready)
          (fun r => { r with state := .queued, resultJobID := some job.jobID }) },
      true)

/-- The admission loop of `Scan`: `after` is the cursor, `admitted` the jobs so far. -/
def admitAll (plan : Plan) (capacity : Int) (priority : List InfoHash) :
    List InfoHash → State Base → Option InfoHash → Nat → Except Err (State Base × Option InfoHash × Nat)
  | [], s, after, admitted => .ok (s, after, admitted)
  | hash :: rest, s, after, admitted =>
    let after := if priority.contains hash then after else some hash
    if !admittedByPolicy cat hash plan.admission then admitAll plan capacity priority rest s after admitted
    else match readSource cat s hash with
      | .error e => .error e
      | .ok src =>
        if !cat.admitted src.base || !cat.eligible hash src.base then
          admitAll plan capacity priority rest (holdRequest s priority hash) after admitted
        else if (s.applications.get? hash).any (fun a =>
          a.appliedRevision == cat.sourceDigest src && a.pipelineRevision == cat.planDigest plan) then
          admitAll plan capacity priority rest s after admitted
        else if cat.inputSize hash src > 100000 then admitAll plan capacity priority rest s after admitted
        else
          let (s, inserted) := insertJob s (newJob cat s plan hash src)
          let admitted := if inserted then admitted + 1 else admitted
          if (admitted : Int) ≥ capacity then .ok (s, after, admitted)
          else admitAll plan capacity priority rest s after admitted

/-- `min(s.cfg.ScanBatch, s.cfg.QueueCapacity-pending, s.cfg.RetainedJobs-total)`. -/
def scanCapacity (s : State Base) : Int :=
  let pending := (s.jobs.rows.countP fun r => r.state.pending : Nat)
  min (cfg.scanBatch : Int) (min ((cfg.queueCapacity : Int) - pending) ((cfg.retainedJobs : Int) - s.jobs.rows.length))

def scanCandidates (s : State Base) (limit : Nat) : List InfoHash :=
  let found := s.torrents.rows.filter fun t =>
    s.control.scanAfter.all (· < t.1) && cat.hasContents t.2 &&
      !s.requests.rows.any (fun r => r.infoHash == t.1 && r.state == .waitingCore)
  (((found.map Prod.fst).insertionSort (· ≤ ·)).take limit)

/-- `Scan`: settle the requests, prune, and admit what fits, requests first. -/
def scan (s : State Base) : Except Err (State Base × Nat) := do
  let (plan, draining) := readPlan policy s
  let s ← settleReprocessing cat policy s plan draining
  if plan.steps.isEmpty || draining || plan.admission.basisPoints == 0 then .ok (s, 0)
  else
    let s := pruneJobs cfg s
    let capacity := scanCapacity cfg s
    if capacity ≤ 0 then .ok (s, 0)
    else
      let ready := (s.requests.rows.filter fun r => r.state == .ready).insertionSort
        fun a b => a.createdAt ≤ b.createdAt
      let priority := (ready.take (min 16 capacity.toNat)).map (·.infoHash)
      let normal := scanCandidates cat s (cfg.scanBatch - priority.length)
      let hashes := priority ++ normal.filter (!priority.contains ·)
      let (s, after, admitted) ← admitAll cat plan capacity priority hashes s s.control.scanAfter 0
      let after := if normal.isEmpty && priority.isEmpty then none else after
      .ok ({ s with control := { s.control with scanAfter := after } }, admitted)

/-! ## Leases -/

/-- What a worker is given by `Claim`. -/
structure Lease (Base : Type) where
  id : Digest
  hash : InfoHash
  inputRevision : Digest
  pipelineRevision : Digest
  epoch : Nat
  generation : Nat
  source : Snapshot Base
  plan : Plan
  results : List Receipt
  step : Nat
  stepAttempts : Nat

/-- A lease that ran out frees its job. -/
def expireLeases (s : State Base) : State Base :=
  let expired (r : JobRow Base) : Bool := r.state == .leased && r.leaseUntil.any fun t => decide (t < s.now)
  { s with
    jobs := s.jobs.update expired
      (fun r => { r with state := .queued, leaseUntil := none, reason := "lease_expired" })
    attempts := closeAttempts s ((s.jobs.rows.filter expired).map
      fun r => (r.jobID, r.leaseGeneration)) "failed" "lease_expired" }

/-- The job that `Claim` picks. -/
def nextJob (s : State Base) : Option (JobRow Base) :=
  let open_ := s.jobs.rows.filter fun r => (r.state == .queued || r.state == .deferred) &&
    decide (r.availableAt ≤ s.now) && r.epoch == s.control.epoch
  (open_.insertionSort fun a b => a.availableAt < b.availableAt ∨
    (a.availableAt = b.availableAt ∧ (a.createdAt < b.createdAt ∨
      (a.createdAt = b.createdAt ∧ a.jobID ≤ b.jobID)))).head?

def leaseOf (r : JobRow Base) : Lease Base where
  id := r.jobID
  hash := r.infoHash
  inputRevision := r.inputRevision
  pipelineRevision := r.pipelineRevision
  epoch := r.epoch
  generation := r.leaseGeneration
  source := r.source
  plan := r.plan
  results := r.results
  step := r.step
  stepAttempts := r.stepAttempts

/-- A job as `Claim` leases it. -/
def leasedRow (s : State Base) (r : JobRow Base) : JobRow Base :=
  { r with state := .leased, leaseGeneration := r.leaseGeneration + 1,
           leaseUntil := some (s.now + cfg.requestTimeout + 5 * second) }

variable (s : State Base)

theorem leasedRow_jobID (r : JobRow Base) : (leasedRow cfg s r).jobID = r.jobID := rfl

/-- `Claim`: the next job, unless as many as may run at once are leased. -/
def claim (s : State Base) : State Base × Option (Lease Base) :=
  let s := expireLeases s
  if s.jobs.rows.countP (fun r => r.state == .leased) ≥ cfg.concurrency then (s, none)
  else match nextJob s with
    | none => (s, none)
    | some r => (updateJob s r.jobID (leasedRow cfg s) (leasedRow_jobID cfg s), some (leaseOf (leasedRow cfg s r)))

/-- `state='leased' AND lease_generation=$2`. -/
def holds (l : Lease Base) (r : JobRow Base) : Bool := r.state == .leased && r.leaseGeneration == l.generation

/-- `… AND lease_until>clock_timestamp()`. -/
def holdsNow (s : State Base) (l : Lease Base) (r : JobRow Base) : Bool :=
  holds l r && r.leaseUntil.any fun t => decide (t > s.now)

/-- The checks of a lease against the present state; the source is read again. -/
def fresh (s : State Base) (l : Lease Base) : Except Err (Snapshot Base) := do
  reject (s.control.epoch != l.epoch || l.plan.corePolicy != policy) .stale
  let src ← readSource cat s l.hash
  reject (!cat.admitted src.base || cat.sourceDigest src != l.inputRevision) .stale
  reject (!cat.eligible l.hash src.base) .stale
  .ok src

def preparedRow (j : Job) (row : JobRow Base) : JobRow Base := { row with preparedJob := some j }

theorem preparedRow_jobID (j : Job) (row : JobRow Base) : (preparedRow j row).jobID = row.jobID := rfl

/-- `Prepare`. The assembled job `built` is stored once, and later returned. -/
def prepare (s : State Base) (l : Lease Base) (built : Except String Job) :
    Except Err (State Base × Job) := do
  let _ ← fresh cat policy s l
  match s.jobs.get? l.id with
  | none => .error .noRows
  | some r =>
    reject (!holds l r) .stale
    match r.preparedJob, built with
    | some saved, _ => .ok (s, saved)
    | none, .error text => .error (.other text)
    | none, .ok j => .ok (updateJob s l.id (preparedRow j) (preparedRow_jobID j), j)

def startedRow (row : JobRow Base) : JobRow Base :=
  { row with attempts := row.attempts + 1, stepAttempts := row.stepAttempts + 1 }

theorem startedRow_jobID (row : JobRow Base) : (startedRow row).jobID = row.jobID := rfl

/-- `startAttempt`. A second attempt under one lease violates the primary key of the attempts. -/
def startAttempt (s : State Base) (l : Lease Base) : Except Err (State Base) :=
  match s.jobs.get? l.id with
  | none => .error .stale
  | some r => do
      reject (!holdsNow s l r) .stale
      match l.plan.steps[l.step]? with
      | none => .error (.other "index out of range")
      | some st =>
        reject (s.attempts.get? (l.id, l.generation)).isSome (.other "unique_violation")
        let attempt : AttemptRow :=
          { jobID := l.id, leaseGeneration := l.generation, processorID := st.entry.id,
            generation := st.entry.executionGeneration, stage := st.stage, startedAt := s.now }
        let s := updateJob s l.id startedRow startedRow_jobID
        .ok { s with attempts := s.attempts.insertNew attempt }

/-- An answer that is tried again: the job waits at least `2^stepAttempts` seconds and as long as the service asked.
-/
def deferredRow (s : State Base) (l : Lease Base) (r : Result) (row : JobRow Base) : JobRow Base :=
  { row with state := .deferred, outcome := some r.outcome, reason := "retry_scheduled",
             leaseUntil := none,
             availableAt := s.now + max (2 ^ l.stepAttempts) r.retryAfterSeconds.toNat * second }

theorem deferredRow_jobID (l : Lease Base) (r : Result) (row : JobRow Base) :
    (deferredRow s l r row).jobID = row.jobID :=
  rfl

def finishedRow (s : State Base) (results : List Receipt) (state : JobState) (reason : String)
    (r : Result) (row : JobRow Base) : JobRow Base :=
  { row with results := results, preparedJob := none, step := row.step + 1, stepAttempts := 0,
             state := state, reason := reason,
             outcome := if state = .queued then none else some r.outcome,
             leaseUntil := none, availableAt := s.now,
             finishedAt := if state = .completed ∨ state = .stale then some s.now else none }

theorem finishedRow_jobID (results : List Receipt) (state : JobState) (reason : String) (r : Result)
    (row : JobRow Base) :
    (finishedRow s results state reason r row).jobID = row.jobID :=
  rfl

def settleRequest (s : State Base) (id : Digest) (state : JobState) (r : Result) : State Base :=
  setRequests s (fun x => x.resultJobID == some id && x.state == .queued) .settled (state.text ++ ":" ++ r.outcome.text)

/-- The reason of an attempt: the first reason of the answer, cut to 128 characters. -/
def attemptReason (r : Result) : String :=
  let reason := r.reasons.headD ""
  if reason.utf8ByteSize > 128 then String.ofList (reason.toList.take 128) else reason

/-- The end of the attempt that the lease stands for. -/
def finishAttempt (s : State Base) (l : Lease Base) (r : Result) : State Base :=
  { s with
    attempts := s.attempts.update
      (fun a => a.jobID == l.id && a.leaseGeneration == l.generation)
      (fun a => { a with finishedAt := some s.now, outcome := r.outcome.text,
                         reason := attemptReason r }) }

/-- `apply` inside `Finish`: the catalogue changes and the application is recorded. -/
def applyResults (s : State Base) (l : Lease Base) (results : List Receipt) (src : Snapshot Base) :
    Except Err (State Base) :=
  match cat.apply l.hash l.plan results src.base with
  | .error text => .error (.other text)
  | .ok after => do
      let s := { s with torrents := s.torrents.upsert (l.hash, after) }
      let snapshot ← readSource cat s l.hash
      let row : ApplicationRow :=
        { infoHash := l.hash, jobID := l.id, inputRevision := l.inputRevision,
          appliedRevision := cat.sourceDigest snapshot, pipelineRevision := l.pipelineRevision,
          results := results }
      .ok { s with applications := s.applications.upsert row }

/-- The last step: the results are applied (the flag), unless the source has changed. -/
def finishLast (s : State Base) (l : Lease Base) (r : Result) (results : List Receipt) :
    Except Err (State Base × Bool) :=
  match fresh cat policy s l with
  | .error .stale | .error .noRows =>
    .ok (settleRequest (updateJob s l.id (finishedRow s results .stale "source_changed" r)
      (finishedRow_jobID s _ _ _ r)) l.id .stale r, false)
  | .error e => .error e
  | .ok src => do
      let s ← applyResults cat s l results src
      .ok (settleRequest (updateJob s l.id (finishedRow s results .completed "" r)
        (finishedRow_jobID s _ _ _ r)) l.id .completed r, true)

/-- `Finish`. The flag says whether the results were applied to the catalogue. -/
def finish (s : State Base) (l : Lease Base) (j : Job) (r : Result) (dispatched : Bool) :
    Except Err (State Base × Bool) :=
  match r.validate cat.clock j with
  | .error text => .error (.other text)
  | .ok () =>
    match s.jobs.get? l.id with
    | none => .error .noRows
    | some row => do
        reject (!holdsNow s l row) .stale
        reject (s.control.epoch != l.epoch) .stale
        let s := if dispatched then finishAttempt s l r else s
        if (r.outcome = .failed ∨ r.outcome = .deferred) ∧
            l.stepAttempts + 1 < cfg.maxAttempts ∧ dispatched then
          .ok (updateJob s l.id (deferredRow s l r) (deferredRow_jobID s l r), false)
        else
          let results := l.results ++ [{ result := r, candidates := j.input.candidates }]
          reject (decide (cat.resultsSize results > 900000)) (.other "pipeline_result_limit")
          if l.step + 1 = l.plan.steps.length then finishLast cat policy s l r results
          else .ok (updateJob s l.id (finishedRow s results .queued "" r) (finishedRow_jobID s _ _ _ r), false)

/-- The job of a lease whose input no longer holds ends as stale. -/
def abandon (s : State Base) (l : Lease Base) (reason : String) : State Base :=
  endJobs s (fun r => r.jobID == l.id && holds l r) .stale reason "source_or_input_invalid"

/-- Preparation is tried again after 1, 2, 4, 8, 16 seconds, up to the limit of attempts. -/
def failedRow (s : State Base) (row : JobRow Base) : JobRow Base :=
  let last := decide (row.preparationFailures + 1 ≥ cfg.maxAttempts)
  { row with preparationFailures := row.preparationFailures + 1,
             state := if last then .failed else .deferred,
             outcome := some .failed, reason := "preparation_failed", leaseUntil := none,
             availableAt := s.now + 2 ^ min row.preparationFailures 4 * second,
             finishedAt := if last then some s.now else none }

theorem failedRow_jobID (row : JobRow Base) : (failedRow cfg s row).jobID = row.jobID := rfl

/-- `FailPreparation`, for the holder of a lease that has not run out. -/
def failPreparation (s : State Base) (l : Lease Base) : Except Err (State Base) := do
  reject (s.control.epoch != l.epoch) .stale
  match s.jobs.get? l.id with
  | none => .error .stale
  | some r =>
    reject (!holdsNow s l r) .stale
    .ok (updateJob s l.id (failedRow cfg s) (failedRow_jobID cfg s))

/-! ## Requests for reprocessing -/

/-- `state IN ('waiting_core','ready','queued')`. -/
def RequestState.active : RequestState → Bool
  | .waitingCore | .ready | .queued => true
  | _ => false

/-- `Reprocess`. A known id is answered from the stored request; `export_` is the job as exported. -/
def reprocess (s : State Base) (origin : Digest) (w : ReprocessWrite) (export_ : JobRow Base) :
    Except Err (State Base) :=
  let fingerprint := cat.requestDigest origin w
  match s.requests.get? w.requestID with
  | some prior => if prior.requestDigest ≠ fingerprint then .error .conflict else .ok s
  | none => do
      reject (export_.inputRevision != w.expectedInputRevision || export_.state.pending) .conflict
      let (plan, _) := readPlan policy s
      reject (cat.planDigest plan != w.expectedPipelineRevision) .conflict
      reject (decide (s.requests.rows.length ≥ min cfg.retainedJobs 1000) ||
        decide (s.requests.rows.countP (·.state.active) ≥ min cfg.queueCapacity 64)) .capacity
      let hash := export_.infoHash
      reject (s.jobs.rows.any (fun r => r.infoHash == hash && r.state.pending) ||
        s.requests.rows.any (fun r => r.infoHash == hash && r.state.active)) .conflict
      let src ← readSource cat s hash
      reject (!cat.admitted src.base || !cat.eligible hash src.base) .stale
      let request : RequestRow :=
        { requestID := w.requestID, requestDigest := fingerprint, originJobID := origin,
          infoHash := hash, expectedPipelineRevision := w.expectedPipelineRevision,
          state := .waitingCore, stateReason := "", coreStatus := .pending, coreReceipt := none,
          resultJobID := none, createdAt := s.now }
      .ok { s with requests := s.requests.insertNew request }

def cancelReprocessing (s : State Base) (id : Digest) : Except Err (State Base) :=
  match s.requests.get? id with
  | none => .error .noRows
  | some r =>
    let s := match r.resultJobID with
      | some job => endJobs s (fun x => x.jobID == job) .canceled "reprocessing_canceled" "reprocessing_canceled"
      | none => s
    .ok (setRequests s (fun x => x.requestID == id && x.state.active) .canceled "operator_canceled")

/-! ## Schedules -/

/-- A call of a worker, the scanner, an operator, or the rest of the program, which moves clock, catalogue and core
queue. -/
inductive Call (Base : Type) where
  | scan
  | claim
  | prepare (l : Lease Base) (built : Except String Job)
  | startAttempt (l : Lease Base)
  | finish (l : Lease Base) (j : Job) (r : Result) (dispatched : Bool)
  | abandon (l : Lease Base) (reason : String)
  | failPreparation (l : Lease Base)
  | cancel (id : Digest)
  | register (id : String) (w : RegistryWrite)
  | control (id : String) (c : RegistryControl)
  | remove (id : String) (generation : Nat)
  | setAdmission (w : AdmissionWrite)
  | reprocess (origin : Digest) (w : ReprocessWrite) (export_ : JobRow Base)
  | cancelReprocessing (id : Digest)
  | core (request : Digest) (status : CoreStatus) (receipt : Option CoreReceipt)
  | catalogue (hash : InfoHash) (facts : Option Base)
  | tick (elapsed : Time)

/-- A transaction that fails leaves the state as it was. -/
def committed (s : State Base) (tx : Except Err (State Base)) : State Base :=
  match tx with
  | .ok s' => s'
  | .error _ => s

/-- One call, and the job whose results it applied to the catalogue. -/
def exec (s : State Base) : Call Base → State Base × Option Digest
  | .scan => (committed s ((scan cat cfg policy s).map Prod.fst), none)
  | .claim => ((claim cfg s).1, none)
  | .prepare l built => (committed s ((prepare cat policy s l built).map Prod.fst), none)
  | .startAttempt l => (committed s (startAttempt s l), none)
  | .finish l j r dispatched =>
    match finish cat cfg policy s l j r dispatched with
    | .ok (s', true) => (s', some l.id)
    | .ok (s', false) => (s', none)
    | .error _ => (s, none)
  | .abandon l reason => (abandon s l reason, none)
  | .failPreparation l => (committed s (failPreparation cfg s l), none)
  | .cancel id => (cancel s id, none)
  | .register id w => (committed s (register s id w), none)
  | .control id c => (committed s (controlEntry s id c), none)
  | .remove id generation => (committed s (remove s id generation), none)
  | .setAdmission w => (committed s (setAdmission cat s w), none)
  | .reprocess origin w export_ => (committed s (reprocess cat cfg policy s origin w export_), none)
  | .cancelReprocessing id => (committed s (cancelReprocessing s id), none)
  | .core request status receipt =>
    ({ s with
        requests := s.requests.update (fun r => r.requestID == request)
          (fun r => { r with coreStatus := status, coreReceipt := receipt }) },
      none)
  | .catalogue hash facts =>
    ({ s with
        torrents := match facts with
          | some base => s.torrents.upsert (hash, base)
          | none => s.torrents.delete fun t => t.1 == hash },
      none)
  | .tick elapsed => ({ s with now := s.now + elapsed }, none)

/-- The store after its migration. -/
def initial (Base : Type) (now : Time) : State Base where
  control :=
    { epoch := 1, scanAfter := none, attemptHistoryFloor := now,
      admission := { generation := 1, basisPoints := 10000, policyVersion := "all-v1",
                     seed := String.ofList (List.replicate 64 '0') } }
  registry := .empty
  registryGeneration := 0
  jobs := .empty
  attempts := .empty
  applications := .empty
  requests := .empty
  torrents := .empty
  now := now

/-- The state before call `k` of a schedule. -/
def stateAt (start : Time) (schedule : Nat → Call Base) (k : Nat) : State Base :=
  Run.stateAt (fun s c => (exec cat cfg policy s c).1) (initial Base start) schedule k

/-- The lease that call `k` of a schedule handed out. -/
def claimedAt (start : Time) (schedule : Nat → Call Base) (k : Nat) : Option (Lease Base) :=
  match schedule k with
  | .claim => (claim cfg (stateAt cat cfg policy start schedule k)).2
  | _ => none

/-- The job whose results call `k` of a schedule applied. -/
def appliedAt (start : Time) (schedule : Nat → Call Base) (k : Nat) : Option Digest :=
  (exec cat cfg policy (stateAt cat cfg policy start schedule k) (schedule k)).2

end BitAgent.Processors
