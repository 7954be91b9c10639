/-
# Queue.Server — the queue server and its handlers

`handleJob` in `internal/queue/server/server.go`, `Exec` in `internal/queue/handler/handler.go` and
`CalculateBackoff`. A worker locks the next job that is due, runs its function in a goroutine, and writes the outcome
when `Exec` returns: when the function has, or at the job timeout, which does not stop the function.

When a run ends, if ever, is the environment's choice. A row has its create-only columns apart (`NewJob`). Ids are
drawn from a sequence in place of random UUIDs. Left out: the payload, the fingerprint with its unique index, the
notification channel, which nothing feeds, and the shutdown.
-/
import BitAgent.Lib.Prelude
import BitAgent.Lib.Run
import BitAgent.Lib.Table
import Mathlib.Data.List.Sort

namespace BitAgent.Queue

open Lib

/-! ## Jobs, handlers and runs -/

abbrev Time := Nat
def second : Time := 1000000

inductive QueueJobStatus where
  | pending
  | processed
  | retry
  | failed
  deriving DecidableEq

structure NewJob where
  queue : String
  maxRetries : Nat
  runAfter : Time
  deadline : Option Time
  archivalDuration : Time
  priority : Int

/-- A row of `queue_jobs`. -/
structure QueueJob where
  id : Nat
  created : NewJob
  status : QueueJobStatus
  retries : Nat
  runAfter : Time
  ranAt : Option Time
  error : Option String

/-- `Handler`, as `New` returns it: the concurrency is set. -/
structure Handler where
  queue : String
  concurrency : Nat
  jobTimeout : Time
  timeoutText : String
  concurrency_pos : 0 < concurrency

structure Run where
  job : Nat
  started : Time
  ends : Option Time
  deriving DecidableEq

/-- The handler has returned by `t`. -/
def Run.over (r : Run) (t : Time) : Bool := r.ends.any (decide <| · ≤ t)

/-- A worker inside `handleJob`: its handler, its copy of the job, and its run, unless the deadline was in the past.
-/
structure Worker where
  id : Nat
  handler : Handler
  job : QueueJob
  run : Option Run

/-- The table of jobs, and who is at work on them. -/
structure State where
  jobs : Serial QueueJob.id
  workers : Table Worker.id
  runs : List Run
  now : Time

def initial : State where
  jobs := .empty
  workers := .empty
  runs := []
  now := 0

/-! ## `handleJob` -/

/-- `CalculateBackoff`: the delay, with the random number that was drawn below 30. The `Duration` of the source wraps
from about 310 retries on, where its fourth power in nanoseconds exceeds 63 bits; jobs are created with at most a few
retries, so this is not modelled. -/
def calculateBackoff (retryCount draw : Nat) : Time := (retryCount ^ 4 + 15 + (draw % 30) * retryCount + 1) * second

/-- A row is locked as long as a worker holds it. -/
def locked (s : State) (id : Nat) : Bool := s.workers.rows.any fun w => decide (w.job.id = id)
def QueueJobStatus.open_ (status : QueueJobStatus) : Bool := decide (status = .pending) || decide (status = .retry)

/-- The condition of the query: queue, status, time, and `SKIP LOCKED`. -/
def due (s : State) (h : Handler) (r : QueueJob) : Bool :=
  decide (r.created.queue = h.queue) && r.status.open_ && decide (r.runAfter ≤ s.now) && !locked s r.id

/-- The order of the query: jobs not retried first, then priority, time and id. -/
def pickBefore (a b : QueueJob) : Bool :=
  let retried (r : QueueJob) : Nat := if r.status = .retry then 1 else 0
  decide (retried a < retried b) || decide (retried a = retried b) &&
    (decide (a.created.priority < b.created.priority) || decide (a.created.priority = b.created.priority) &&
        (decide (a.runAfter < b.runAfter) || decide (a.runAfter = b.runAfter) && decide (a.id ≤ b.id)))

/-- The due job that the order of the query puts first. -/
def nextJob (s : State) (h : Handler) : Option QueueJob :=
  ((s.jobs.table.rows.filter (due s h)).insertionSort (pickBefore · ·)).head?

/-- `job.Deadline.Time.Before(time.Now())` does not hold. -/
def NewJob.allows (j : NewJob) (t : Time) : Bool := j.deadline.all (decide <| t ≤ ·)

/-- The first half of `handleJob`: the job is locked, and runs unless its deadline is past. -/
def pick (s : State) (w : Nat) (h : Handler) (duration : Option Time) : State :=
  if s.workers.rows.countP (fun v => decide (v.handler.queue = h.queue)) < h.concurrency ∧
      (s.workers.get? w).isNone then
    match nextJob s h with
    | none => s
    | some job =>
      if job.created.allows s.now then
        let job := { job with retries := if job.status = .pending then job.retries else job.retries + 1 }
        let run : Run := { job := job.id, started := s.now, ends := duration.map (s.now + ·) }
        { s with
          workers := s.workers.insertNew { id := w, handler := h, job := job, run := some run }
          runs := run :: s.runs }
      else { s with workers := s.workers.insertNew { id := w, handler := h, job := job, run := none } }
  else s

/-- What the environment decides: the error of the function, whether `select` takes the timeout when both are ready,
the random number of the backoff, and whether the update fails. -/
structure Outcome where
  result : Option String
  sawTimeout : Bool
  draw : Nat
  updateFails : Bool

def Handler.timeoutError (h : Handler) : String :=
  "job exceeded its " ++ h.timeoutText ++ " timeout: context deadline exceeded"

/-- What `Exec` returns: an error, or nothing, and `none` if it has not returned. -/
def exec (h : Handler) (run : Run) (now : Time) (o : Outcome) : Option (Option String) :=
  let expired := decide (run.started + h.jobTimeout ≤ now)
  if run.over now && !(expired && o.sawTimeout) then some (o.result.map ("job failed to process: " ++ ·))
  else if expired then some (some h.timeoutError)
  else none

/-- What the handling of a job says in the end; `none` while it runs. -/
def jobErr (w : Worker) (now : Time) (o : Outcome) : Option (Option String) :=
  match w.run with
  | none => some (some "the job did not complete before its deadline")
  | some run => exec w.handler run now o

/-- The columns that `handleJob` sets. -/
def settled (job : QueueJob) (now : Time) (err : Option String) (draw : Nat) : QueueJob :=
  match err with
  | some text =>
    if job.retries < job.created.maxRetries then
      { job with
        ranAt := some now, status := .retry
        runAfter := now + calculateBackoff job.retries draw, error := some text }
    else { job with ranAt := some now, status := .failed, error := some text }
  | none => { job with ranAt := some now, status := .processed }

def updated (job r : QueueJob) : QueueJob :=
  { r with
    status := job.status, retries := job.retries, runAfter := job.runAfter, ranAt := job.ranAt
    error := job.error }

/-- The second half of `handleJob`. -/
def finish (s : State) (w : Nat) (o : Outcome) : State :=
  match s.workers.get? w with
  | none => s
  | some worker =>
    match jobErr worker s.now o with
    | none => s
    | some err =>
      { s with
        jobs :=
          if o.updateFails then s.jobs
          else s.jobs.update (fun r => decide (r.id = worker.job.id))
            (updated (settled worker.job s.now err o.draw))
        workers := s.workers.delete fun v => decide (v.id = w) }

/-! ## The server -/

inductive Event where
  | enqueue (j : NewJob)
  | pick (w : Nat) (h : Handler) (duration : Option Time)
  | finish (w : Nat) (o : Outcome)
  /-- `runGarbageCollection`. -/
  | collect
  /-- A deletion of jobs by an operator or a cleaner; it waits for locked rows. -/
  | purge (p : QueueJob → Bool)
  | tick (elapsed : Time)

/-- A job that ended longer ago than it is to be kept. -/
def archived (now : Time) (r : QueueJob) : Bool :=
  !r.status.open_ && r.ranAt.any fun t => decide (t + r.created.archivalDuration < now)

def step (s : State) : Event → State
  | .enqueue j =>
    { s with
      jobs := s.jobs.insert
        (fun id => { id := id, created := j, status := .pending, retries := 0,
                     runAfter := j.runAfter, ranAt := none, error := none }) }
  | .pick w h duration => pick s w h duration
  | .finish w o => finish s w o
  | .collect => { s with jobs := s.jobs.delete (archived s.now) }
  | .purge p => if s.workers.rows.any (fun w => (s.jobs.get? w.job.id).any p) then s
      else { s with jobs := s.jobs.delete p }
  | .tick elapsed => { s with now := s.now + elapsed }

/-- The state before event `k` of a schedule. -/
def stateAt (schedule : Nat → Event) : Nat → State := Lib.Run.stateAt step initial schedule

/-- How many handlers are at work on one job. -/
def runningOf (s : State) (id : Nat) : Nat := s.runs.countP fun r => decide (r.job = id) && !r.over s.now

end BitAgent.Queue
