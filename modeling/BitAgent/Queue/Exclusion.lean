/-
# Queue.Exclusion — when the function of a job can run twice at once

The lock on a job's row is held until `handleJob` has written the outcome, and `Exec` returns at the job timeout
whether or not the function has. So a function can still be running when its job is picked again: after the first
backoff, or at once if the update fails. Nothing else can make two runs of one job overlap.
-/
import BitAgent.Queue.Server

namespace BitAgent.Queue

open Lib List Table

/-! ## The deployment -/

/-- The handlers, the jobs, the run times of a handler's function, and whether updates can fail. -/
structure Deployment where
  handlers : List Handler
  enqueues : NewJob → Prop
  lasts : Handler → Option Time → Prop
  faults : Prop

def Deployment.Allows (d : Deployment) : Event → Prop
  | .enqueue j => d.enqueues j
  | .pick _ h duration => h ∈ d.handlers ∧ d.lasts h duration
  | .finish _ o => o.updateFails = true → d.faults
  | .collect => True
  | .purge _ => True
  | .tick _ => True

/-- A run of this duration is still going on after `wait`. -/
def outlasts (duration : Option Time) (wait : Time) : Bool := duration.all (decide <| wait < ·)

/-- How long after the start of its first run a job can be picked again while that run goes on. -/
def Deployment.PickedAgainAfter (d : Deployment) (h : Handler) (j : NewJob) (wait : Time) : Prop :=
  (d.faults ∧ wait = h.jobTimeout) ∨ (0 < j.maxRetries ∧ wait = h.jobTimeout + calculateBackoff 0 0)

/-- No function runs on until its job is picked again before the deadline. -/
def Deployment.Punctual (d : Deployment) : Prop :=
  ∀ h ∈ d.handlers, ∀ duration, d.lasts h duration → ∀ j, d.enqueues j → j.queue = h.queue →
    ∀ wait, d.PickedAgainAfter h j wait → ¬ (outlasts duration wait = true ∧ j.allows (j.runAfter + wait) = true)

/-! ## What a step does -/

theorem Run.over_mono {r : Run} {t u : Time} (htu : t ≤ u) (h : r.over t = true) : r.over u = true := by
  unfold Run.over at *
  cases hends : r.ends with
  | none =>
    rw [hends] at h
    cases h
  | some e => grind

theorem NewJob.allows_mono {j : NewJob} {t u : Time} (htu : t ≤ u) (h : j.allows u = true) : j.allows t = true := by
  unfold NewJob.allows at *
  cases hdeadline : j.deadline with
  | none => rfl
  | some e => grind

variable {s : State}

theorem locked_eq_false_iff {id : Nat} : locked s id = false ↔ ∀ w ∈ s.workers.rows, w.job.id ≠ id := by simp [locked]

variable {h : Handler}

theorem due_iff {r : QueueJob} :
    due s h r = true ↔ r.created.queue = h.queue ∧ r.status.open_ = true ∧ r.runAfter ≤ s.now ∧
      ∀ w ∈ s.workers.rows, w.job.id ≠ r.id := by simp [due, locked_eq_false_iff, and_assoc]

theorem nextJob_due {job : QueueJob} (hnext : nextJob s h = some job) :
    job ∈ s.jobs.table.rows ∧ due s h job = true := by
  have hmem := mem_of_mem_head? hnext
  grind [mem_insertionSort]

/-- Worker `v` has taken the due row `job`: its copy of the job, and the run if the deadline allows one. -/
structure Picked (s : State) (h : Handler) (duration : Option Time) (job : QueueJob) (v : Worker) : Prop where
  mem : job ∈ s.jobs.table.rows
  due : due s h job = true
  handler : v.handler = h
  id : v.job.id = job.id
  created : v.job.created = job.created
  runAfter : v.job.runAfter = job.runAfter
  retries : v.job.retries = if job.status = .pending ∨ job.created.allows s.now = false then job.retries
    else job.retries + 1
  run : ∀ run, v.run = some run → job.created.allows s.now = true ∧
    run = { job := job.id, started := s.now, ends := duration.map (s.now + ·) }
  rows : (s.workers.insertNew v).rows = s.workers.rows ++ [v]

abbrev State.withWorker (s : State) (v : Worker) : State :=
  { s with workers := s.workers.insertNew v, runs := v.run.toList ++ s.runs }

theorem pick_cases (s : State) (w : Nat) (h : Handler) (duration : Option Time) : pick s w h duration = s ∨
      ∃ job v, Picked s h duration job v ∧ pick s w h duration = s.withWorker v := by
  unfold pick
  split_ifs with hfree
  · have hrows : ∀ v : Worker, v.id = w → (s.workers.insertNew v).rows = s.workers.rows ++ [v] := by
      grind [rows_insertNew, get?_eq_none_iff, Option.isNone_iff_eq_none]
    cases hnext : nextJob s h with
    | none => exact .inl rfl
    | some job =>
      obtain ⟨hmem, hdue⟩ := nextJob_due hnext
      refine .inr ⟨job, ?_⟩
      by_cases hallows : job.created.allows s.now = true
      · refine ⟨_, ⟨hmem, hdue, rfl, rfl, rfl, rfl, ?_, ?_, hrows _ rfl⟩, if_pos hallows⟩
        · simp [hallows]
        · rintro run ⟨⟩
          exact ⟨hallows, rfl⟩
      · refine ⟨_, ⟨hmem, hdue, rfl, rfl, rfl, rfl, ?_, ?_, hrows _ rfl⟩, if_neg hallows⟩
        · simp [hallows]
        · rintro run ⟨⟩
  · exact .inl rfl

section Picked

variable {s : State} {h : Handler} {duration : Option Time} {job : QueueJob} {v : Worker}

theorem Picked.mem_workers (hp : Picked s h duration job v) {x : Worker} :
    x ∈ (s.withWorker v).workers.rows ↔ x ∈ s.workers.rows ∨ x = v := by
  rw [hp.rows, mem_append, mem_singleton]

theorem Picked.mem_runs (hp : Picked s h duration job v) {r : Run} (hr : r ∈ (s.withWorker v).runs) :
    r ∈ s.runs ∨ v.run = some r ∧ r = { job := job.id, started := s.now, ends := duration.map (s.now + ·) } := by
  rcases mem_append.mp hr with hnew | hold
  · have hnew := Option.mem_toList.mp hnew
    exact .inr ⟨hnew, (hp.run r hnew).2⟩
  · exact .inl hold

end Picked

theorem exec_eq_some {run : Run} {now : Time} {o : Outcome} {err : Option String}
    (hexec : exec h run now o = some err) :
    run.over now = true ∨ run.started + h.jobTimeout ≤ now := by grind [exec]

theorem finish_cases (s : State) (w : Nat) (o : Outcome) :
    finish s w o = s ∨ ∃ worker err, s.workers.get? w = some worker ∧ jobErr worker s.now o = some err ∧ finish s w o =
        { s with
          jobs :=
            if o.updateFails then s.jobs
            else s.jobs.update (fun r => decide (r.id = worker.job.id))
              (updated (settled worker.job s.now err o.draw))
          workers := s.workers.delete fun v => decide (v.id = w) } := by grind [finish]

/-! ## The invariant -/

def Quiet (runs : List Run) (id : Nat) (j : NewJob) (since : Time → Prop) : Prop :=
  ∀ r ∈ runs, r.job = id → ∀ t, since t → j.allows t = true → r.over t = true

/-- A worker's copy of the job agrees with the row, and but for its own run the job is quiet. -/
structure Busy (d : Deployment) (s : State) (w : Worker) : Prop where
  handler : w.handler ∈ d.handlers
  queue : w.job.created.queue = w.handler.queue
  enqueued : d.enqueues w.job.created
  known : w.job.id < s.jobs.next
  row : ∀ row ∈ s.jobs.table.rows, row.id = w.job.id → row.created = w.job.created
  since : w.job.created.runAfter ≤ w.job.runAfter
  due : w.job.runAfter ≤ s.now
  started : ∀ r, w.run = some r → w.job.created.runAfter ≤ r.started ∧
    ∃ duration, d.lasts w.handler duration ∧ r.ends = duration.map (r.started + ·)
  others : Quiet (s.runs.filter fun r => !decide (w.run = some r)) w.job.id w.job.created (s.now ≤ ·)

structure Safe (d : Deployment) (s : State) : Prop where
  /-- A run starts after the earlier runs of its job are over; the newest run is first. -/
  apart : s.runs.Pairwise fun newer older => newer.job = older.job → older.over newer.started = true
  past : ∀ r ∈ s.runs, r.started ≤ s.now ∧ r.job < s.jobs.next
  rows : ∀ row ∈ s.jobs.table.rows, d.enqueues row.created ∧ row.created.runAfter ≤ row.runAfter
  quiet : ∀ row ∈ s.jobs.table.rows, row.status.open_ = true → locked s row.id = false →
    Quiet s.runs row.id row.created fun t => row.runAfter ≤ t ∧ s.now ≤ t
  busy : ∀ w ∈ s.workers.rows, Busy d s w
  distinct : ∀ v ∈ s.workers.rows, ∀ w ∈ s.workers.rows, v.job.id = w.job.id → v = w

theorem safe_initial (d : Deployment) : Safe d initial where
  apart := .nil
  past := by intro r hr; cases hr
  rows := by intro row hrow; cases hrow
  quiet := by intro row hrow; cases hrow
  busy := by intro w hw; cases hw
  distinct := by intro v hv; cases hv

section Steps

variable {d : Deployment} {s : State}

theorem Safe.tick (hsafe : Safe d s) (elapsed : Time) :
    Safe d { s with now := s.now + elapsed } where
  apart := hsafe.apart
  past := fun r hr => ⟨Nat.le_add_right_of_le (hsafe.past r hr).1, (hsafe.past r hr).2⟩
  rows := hsafe.rows
  quiet := fun row hrow hopen hfree r hr hjob t ht =>
    hsafe.quiet row hrow hopen hfree r hr hjob t ⟨ht.1, Nat.le_of_add_right_le ht.2⟩
  busy := fun w hw =>
    { hsafe.busy w hw with
      due := Nat.le_add_right_of_le (hsafe.busy w hw).due
      others := fun r hr hjob t ht => (hsafe.busy w hw).others r hr hjob t (Nat.le_of_add_right_le ht) }
  distinct := hsafe.distinct

theorem Safe.delete (hsafe : Safe d s) (p : QueueJob → Bool) : Safe d { s with jobs := s.jobs.delete p } := by
  have hsub : ∀ row ∈ (s.jobs.delete p).table.rows, row ∈ s.jobs.table.rows :=
    fun row hrow => (mem_delete.mp hrow).1
  exact
    { apart := hsafe.apart
      past := hsafe.past
      rows := fun row hrow => hsafe.rows row (hsub row hrow)
      quiet := fun row hrow => hsafe.quiet row (hsub row hrow)
      busy := fun w hw => { hsafe.busy w hw with row := fun row hrow => (hsafe.busy w hw).row row (hsub row hrow) }
      distinct := hsafe.distinct }

theorem Safe.enqueue (hsafe : Safe d s) {j : NewJob} (hj : d.enqueues j) : Safe d (step s (.enqueue j)) := by
  set row : QueueJob :=
    { id := s.jobs.next, created := j, status := .pending, retries := 0, runAfter := j.runAfter,
      ranAt := none, error := none } with hrow
  have hrows : (step s (.enqueue j)).jobs.table.rows = s.jobs.table.rows ++ [row] := s.jobs.rows_insert _ _
  have hcases : ∀ x ∈ (step s (.enqueue j)).jobs.table.rows, x ∈ s.jobs.table.rows ∨ x = row := by
    intro x hx
    rw [hrows] at hx
    simpa using hx
  exact
    { apart := hsafe.apart
      past := fun r hr => ⟨(hsafe.past r hr).1, Nat.lt_succ_of_lt (hsafe.past r hr).2⟩
      rows := by
        intro x hx
        rcases hcases x hx with hold | rfl
        · exact hsafe.rows x hold
        · exact ⟨hj, Nat.le_refl _⟩
      quiet := by
        intro x hx hopen hfree
        rcases hcases x hx with hold | rfl
        · exact hsafe.quiet x hold hopen hfree
        · intro r hr hjob
          exact absurd (hsafe.past r hr).2 (by rw [hjob]; exact Nat.lt_irrefl _)
      busy := fun w hw =>
        { hsafe.busy w hw with
          known := Nat.lt_succ_of_lt (hsafe.busy w hw).known
          row := by
            intro x hx hid
            rcases hcases x hx with hold | rfl
            · exact (hsafe.busy w hw).row x hold hid
            · exact absurd (hsafe.busy w hw).known (by rw [← hid]; exact Nat.lt_irrefl _) }
      distinct := hsafe.distinct }

variable {job : QueueJob} {duration : Option Time}

theorem Safe.busy_picked (hsafe : Safe d s) {v : Worker} (hp : Picked s h duration job v) (hhandler : h ∈ d.handlers)
    (hlasts : d.lasts h duration) :
    Busy d (s.withWorker v) v := by
  obtain ⟨hqueue, hopen, hnow, hfree⟩ := due_iff.mp hp.due
  obtain ⟨henqueued, hsince⟩ := hsafe.rows job hp.mem
  have hquiet := hsafe.quiet job hp.mem hopen (locked_eq_false_iff.mpr hfree)
  exact
    { handler := hp.handler ▸ hhandler
      queue := by rw [hp.created, hp.handler, hqueue]
      enqueued := by rw [hp.created]; exact henqueued
      known := by rw [hp.id]; exact s.jobs.below job hp.mem
      row := by
        intro row hrow hsame
        have hget := get?_of_mem hrow
        rw [hsame, hp.id, get?_of_mem hp.mem] at hget
        rw [hp.created, Option.some.inj hget]
      since := by rw [hp.created, hp.runAfter]; exact hsince
      due := by rw [hp.runAfter]; exact hnow
      started := by
        intro r hr
        obtain ⟨-, rfl⟩ := hp.run r hr
        rw [hp.created, hp.handler]
        exact ⟨Nat.le_trans hsince hnow, duration, hlasts, rfl⟩
      others := by
        intro r hr hrjob t ht hallows
        obtain ⟨hr, hother⟩ := mem_filter.mp hr
        rw [hp.created] at hallows
        rcases hp.mem_runs hr with hr | ⟨hown, -⟩
        · exact hquiet r hr (hrjob.trans hp.id) t ⟨Nat.le_trans hnow ht, ht⟩ hallows
        · rw [hown] at hother
          simp at hother }

theorem Safe.pick (hsafe : Safe d s) (w : Nat) (hhandler : h ∈ d.handlers) (hlasts : d.lasts h duration) :
    Safe d (Queue.pick s w h duration) := by
  rcases pick_cases s w h duration with heq | ⟨job, v, hp, heq⟩
  · rw [heq]
    exact hsafe
  rw [heq]
  obtain ⟨-, hopen, hnow, hfree⟩ := due_iff.mp hp.due
  exact
    { apart := by
        show List.Pairwise _ (v.run.toList ++ s.runs)
        cases hv : v.run with
        | none => exact hsafe.apart
        | some run =>
          obtain ⟨hallows, rfl⟩ := hp.run run hv
          refine pairwise_cons.mpr ⟨?_, hsafe.apart⟩
          intro older holder hsame
          exact hsafe.quiet job hp.mem hopen (locked_eq_false_iff.mpr hfree) older holder hsame.symm s.now
            ⟨hnow, Nat.le_refl _⟩ hallows
      past := by
        intro r hr
        rcases hp.mem_runs hr with hold | ⟨-, rfl⟩
        · exact hsafe.past r hold
        · exact ⟨Nat.le_refl _, s.jobs.below job hp.mem⟩
      rows := hsafe.rows
      quiet := by
        -- a row that is still free is not the job that was picked, so that the new run is not its own
        intro row hrow hropen hrfree r hr hrjob
        rw [locked_eq_false_iff] at hrfree
        have hfreed : locked s row.id = false :=
          locked_eq_false_iff.mpr fun x hx => hrfree x (hp.mem_workers.mpr (.inl hx))
        rcases hp.mem_runs hr with hold | ⟨-, rfl⟩
        · exact hsafe.quiet row hrow hropen hfreed r hold hrjob
        · exact absurd (hp.id.trans hrjob) (hrfree v (hp.mem_workers.mpr (.inr rfl)))
      busy := by
        intro x hx
        rcases hp.mem_workers.mp hx with hold | rfl
        · refine { hsafe.busy x hold with others := ?_ }
          intro r hr hrjob
          obtain ⟨hr, hother⟩ := mem_filter.mp hr
          rcases hp.mem_runs hr with hr | ⟨-, rfl⟩
          · exact (hsafe.busy x hold).others r (mem_filter.mpr ⟨hr, hother⟩) hrjob
          · exact absurd hrjob.symm (hfree x hold)
        · exact hsafe.busy_picked hp hhandler hlasts
      distinct := by
        intro x hx y hy hxy
        rcases hp.mem_workers.mp hx with hxold | rfl
        · rcases hp.mem_workers.mp hy with hyold | rfl
          · exact hsafe.distinct x hxold y hyold hxy
          · exact absurd (hxy.trans hp.id) (hfree x hxold)
        · rcases hp.mem_workers.mp hy with hyold | rfl
          · exact absurd (hxy.symm.trans hp.id) (hfree y hyold)
          · rfl }

theorem Deployment.Punctual.over (hpunctual : d.Punctual) {w : Worker} (hbusy : Busy d s w) {run : Run}
    (hrun : w.run = some run) {wait t : Time}
    (hwait : d.PickedAgainAfter w.handler w.job.created wait) (ht : run.started + wait ≤ t)
    (hallows : w.job.created.allows t = true) : run.over t = true := by
  obtain ⟨hstarted, duration, hlasts, hends⟩ := hbusy.started run hrun
  have hnot := hpunctual w.handler hbusy.handler duration hlasts w.job.created hbusy.enqueued hbusy.queue wait hwait
  have hsoon : w.job.created.allows (w.job.created.runAfter + wait) = true :=
    NewJob.allows_mono (Nat.le_trans (Nat.add_le_add_right hstarted wait) ht) hallows
  unfold Run.over
  rw [hends]
  cases duration with
  | none => exact absurd ⟨rfl, hsoon⟩ hnot
  | some length =>
    have hlength : length ≤ wait := by
      refine Nat.le_of_not_lt fun hlt => hnot ⟨?_, hsoon⟩
      exact decide_eq_true hlt
    grind

theorem calculateBackoff_le (retryCount draw : Nat) :
    calculateBackoff 0 0 ≤ calculateBackoff retryCount draw := by
  refine Nat.mul_le_mul_right _ ?_
  grind

variable {now : Time} {err : Option String}

theorem settled_open {draw : Nat} (hopen : (settled job now err draw).status.open_ = true) :
    0 < job.created.maxRetries ∧ now + calculateBackoff 0 0 ≤ (settled job now err draw).runAfter := by
  unfold settled at hopen ⊢
  cases err with
  | none => cases hopen
  | some text =>
    simp only at hopen ⊢
    split_ifs at hopen ⊢ with hretries
    · grind [calculateBackoff_le]
    · cases hopen

theorem le_settled_runAfter (hdue : job.runAfter ≤ now) (err : Option String) (draw : Nat) :
    job.runAfter ≤ (settled job now err draw).runAfter := by
  unfold settled
  grind

variable {o : Outcome}

theorem Busy.quiet (hpunctual : d.Punctual) {w : Worker} (hbusy : Busy d s w) (herr : jobErr w s.now o = some err)
    {since : Time → Prop} (hnow : ∀ t, since t → s.now ≤ t)
    (hsince : ∃ delay, d.PickedAgainAfter w.handler w.job.created (w.handler.jobTimeout + delay) ∧
      ∀ t, since t → s.now + delay ≤ t) :
    Quiet s.runs w.job.id w.job.created since := by
  intro r hr hjob t ht hallows
  by_cases hown : w.run = some r
  · unfold jobErr at herr
    rw [hown] at herr
    rcases exec_eq_some herr with hover | hexpired
    · exact Run.over_mono (hnow t ht) hover
    · obtain ⟨delay, hagain, hdelay⟩ := hsince
      refine hpunctual.over hbusy hown hagain ?_ hallows
      grind
  · exact hbusy.others r (mem_filter.mpr ⟨hr, by simpa using hown⟩) hjob t (hnow t ht) hallows

theorem mem_finished {jobs : Serial QueueJob.id} {worker : Worker}
    {x : QueueJob}
    (hx : x ∈ (if o.updateFails then jobs
      else jobs.update (fun r => decide (r.id = worker.job.id))
        (updated (settled worker.job now err o.draw))).table.rows) :
    (x ∈ jobs.table.rows ∧ (x.id = worker.job.id → o.updateFails = true)) ∨
      ∃ y ∈ jobs.table.rows, y.id = worker.job.id ∧ x = updated (settled worker.job now err o.draw) y := by
  cases hfails : o.updateFails with
  | true =>
    rw [hfails] at hx
    exact .inl ⟨hx, fun _ => rfl⟩
  | false =>
    have hx : x ∈ (jobs.table.update (fun r => decide (r.id = worker.job.id))
        (updated (settled worker.job now err o.draw))).rows := by
      rw [hfails] at hx
      exact hx
    rcases mem_update hx with ⟨y, hy, hid, rfl⟩ | ⟨hold, hid⟩
    · exact .inr ⟨y, hy, of_decide_eq_true hid, rfl⟩
    · grind

theorem Safe.finish (hsafe : Safe d s) (hpunctual : d.Punctual) (w : Nat) (hfaults : o.updateFails = true → d.faults) :
    Safe d (Queue.finish s w o) := by
  rcases finish_cases s w o with heq | ⟨worker, err, hget, herr, heq⟩
  · rw [heq]
    exact hsafe
  rw [heq]
  have hbusy := hsafe.busy worker (get?_mem hget)
  have hworkers : ∀ x, x ∈ (s.workers.delete fun v => decide (v.id = w)).rows ↔ x ∈ s.workers.rows ∧ x.id ≠ w := by
    intro x
    rw [mem_delete, decide_eq_false_iff_not]
  exact
    { apart := hsafe.apart
      past := by
        intro r hr
        refine ⟨(hsafe.past r hr).1, ?_⟩
        show r.job < (if o.updateFails then s.jobs else _ : Serial QueueJob.id).next
        split_ifs <;> exact (hsafe.past r hr).2
      rows := by
        intro x hx
        rcases mem_finished hx with ⟨hold, -⟩ | ⟨y, hy, hid, rfl⟩
        · exact hsafe.rows x hold
        · refine ⟨(hsafe.rows y hy).1, ?_⟩
          show y.created.runAfter ≤ _
          rw [hbusy.row y hy hid]
          exact Nat.le_trans hbusy.since (le_settled_runAfter hbusy.due err o.draw)
      quiet := by
        intro x hx hopen hfree
        rcases mem_finished hx with ⟨hold, hfails⟩ | ⟨y, hy, hid, rfl⟩
        · by_cases hid : x.id = worker.job.id
          · -- the transaction was rolled back: the row can be picked at once
            rw [hid, hbusy.row x hold hid]
            exact hbusy.quiet hpunctual herr (fun t ht => ht.2) ⟨0, .inl ⟨hfaults (hfails hid), rfl⟩, fun t ht => ht.2⟩
          · refine hsafe.quiet x hold hopen (locked_eq_false_iff.mpr fun v hv hvid => ?_)
            refine locked_eq_false_iff.mp hfree v ((hworkers v).mpr ⟨hv, fun hvw => hid ?_⟩) hvid
            have hsame := get?_of_mem hv
            grind
        · obtain ⟨hretries, hafter⟩ := settled_open hopen
          show Quiet s.runs y.id y.created _
          rw [hid, hbusy.row y hy hid]
          exact hbusy.quiet hpunctual herr (fun t ht => ht.2)
            ⟨_, .inr ⟨hretries, rfl⟩, fun t ht => Nat.le_trans hafter ht.1⟩
      busy := by
        intro v hv
        have hv := hsafe.busy v ((hworkers v).mp hv).1
        refine { hv with known := ?_, row := ?_ }
        · show v.job.id < (if o.updateFails then s.jobs else _ : Serial QueueJob.id).next
          split_ifs <;> exact hv.known
        · intro x hx hid
          rcases mem_finished hx with ⟨hold, -⟩ | ⟨y, hy, -, rfl⟩
          · exact hv.row x hold hid
          · exact hv.row y hy hid
      distinct := fun x hx y hy => hsafe.distinct x ((hworkers x).mp hx).1 y ((hworkers y).mp hy).1 }

theorem Safe.step (hpunctual : d.Punctual) (hsafe : Safe d s) {e : Event} (he : d.Allows e) :
    Safe d (Queue.step s e) := by
  cases e with
  | enqueue j => exact hsafe.enqueue he
  | pick w h duration => exact hsafe.pick w he.1 he.2
  | finish w o => exact hsafe.finish hpunctual w he
  | collect => exact hsafe.delete _
  | purge p =>
    simp only [Queue.step]
    split_ifs
    · exact hsafe
    · exact hsafe.delete p
  | tick elapsed => exact hsafe.tick elapsed

theorem Safe.runningOf_le_one (hsafe : Safe d s) (id : Nat) : runningOf s id ≤ 1 := by
  refine countP_le_one hsafe.apart ?_
  intro newer hnewer older holder hover hrunning
  simp only [Bool.and_eq_true, decide_eq_true_eq, Bool.not_eq_true', Bool.and_eq_false_iff,
    decide_eq_false_iff_not, Bool.not_eq_false'] at hrunning ⊢
  by_cases hsame : older.job = id
  · right
    exact Run.over_mono (hsafe.past newer hnewer).1 (hover (hrunning.1.trans hsame.symm))
  · exact .inl hsame

end Steps

/-! ## A run that overlaps its own retry -/

section Retry

structure Alone (s : State) (row : QueueJob) (runs : List Run) : Prop where
  rows : s.jobs.table.rows = [row]
  workers : s.workers.rows = []
  runs : s.runs = runs

variable {s : State} {row : QueueJob} {runs : List Run} {h : Handler}

def attempt (s : State) (row : QueueJob) (h : Handler) (duration : Option Time) : Worker where
  id := 1
  handler := h
  job := { row with retries := if row.status = .pending then row.retries else row.retries + 1 }
  run := some { job := row.id, started := s.now, ends := duration.map (s.now + ·) }

theorem Alone.nextJob (halone : Alone s row runs) (hqueue : row.created.queue = h.queue)
    (hopen : row.status.open_ = true) (hdue : row.runAfter ≤ s.now) : Queue.nextJob s h = some row := by
  have hrow : Queue.due s h row = true := due_iff.mpr ⟨hqueue, hopen, hdue, by simp [halone.workers]⟩
  unfold Queue.nextJob
  rw [halone.rows, filter_cons_of_pos hrow]
  rfl

theorem Alone.room (halone : Alone s row runs) :
    s.workers.rows.countP (fun v => decide (v.handler.queue = h.queue)) < h.concurrency ∧
      (s.workers.get? 1).isNone = true := by
  refine ⟨?_, ?_⟩
  · rw [halone.workers]
    exact h.concurrency_pos
  · unfold Table.get?
    rw [halone.workers]
    rfl

theorem Alone.pick (halone : Alone s row runs) (hqueue : row.created.queue = h.queue)
    (hopen : row.status.open_ = true) (hdue : row.runAfter ≤ s.now)
    (hallows : row.created.allows s.now = true) (duration : Option Time) :
    Queue.pick s 1 h duration =
      { s with
        workers := s.workers.insertNew (attempt s row h duration)
        runs := { job := row.id, started := s.now, ends := duration.map (s.now + ·) } :: runs } := by
  unfold Queue.pick
  rw [if_pos halone.room, halone.nextJob hqueue hopen hdue]
  simp only [hallows, if_true, halone.runs]
  rfl

theorem Alone.finish (halone : Alone s row runs) (duration : Option Time) {o : Outcome}
    (hsaw : o.sawTimeout = true) {u : State} (hjobs : u.jobs = s.jobs)
    (hworkers : u.workers = s.workers.insertNew (attempt s row h duration))
    (hnow : u.now = s.now + h.jobTimeout) :
    Alone (Queue.finish u 1 o) (if o.updateFails then row
        else updated (settled (attempt s row h duration).job u.now (some h.timeoutError) o.draw) row)
      u.runs ∧ (Queue.finish u 1 o).now = u.now := by
  have hget : u.workers.get? 1 = some (attempt s row h duration) := by
    rw [hworkers, get?_insertNew]
    unfold Table.get?
    rw [halone.workers]
    rfl
  have herr : jobErr (attempt s row h duration) u.now o = some (some h.timeoutError) := by
    show exec h _ u.now o = _
    unfold exec
    simp [hnow, hsaw]
  unfold Queue.finish
  rw [hget]
  simp only [herr]
  refine ⟨⟨?_, ?_, rfl⟩, trivial⟩
  · cases o.updateFails with
    | true =>
      rw [if_pos rfl, if_pos rfl, hjobs]
      exact halone.rows
    | false =>
      rw [if_neg Bool.false_ne_true, if_neg Bool.false_ne_true, hjobs]
      show s.jobs.table.rows.map _ = _
      rw [halone.rows]
      simp [attempt]
  · show u.workers.rows.filter _ = []
    rw [hworkers, rows_insertNew (by rw [halone.workers]; exact not_mem_nil), halone.workers]
    rfl

def retried (j : NewJob) (h : Handler) (duration : Option Time) (fails : Bool) (delay : Time) : List Event :=
  [.enqueue j, .tick j.runAfter, .pick 1 h duration, .tick h.jobTimeout,
    .finish 1 { result := none, sawTimeout := true, draw := 0, updateFails := fails },
    .tick delay, .pick 1 h duration]

def timedOut (j : NewJob) (h : Handler) (fails : Bool) : QueueJob :=
  let row : QueueJob :=
    { id := 1, created := j, status := .pending, retries := 0, runAfter := j.runAfter, ranAt := none
      error := none }
  if fails then row
  else updated (settled row (j.runAfter + h.jobTimeout) (some h.timeoutError) 0) row

theorem retried_overlaps {j : NewJob} {duration : Option Time} {fails : Bool} {delay : Time}
    (hqueue : j.queue = h.queue) (hopen : (timedOut j h fails).status.open_ = true)
    (hdue : (timedOut j h fails).runAfter ≤ j.runAfter + (h.jobTimeout + delay))
    (hallows : j.allows (j.runAfter + (h.jobTimeout + delay)) = true)
    (hlong : outlasts duration (h.jobTimeout + delay) = true) :
    runningOf ((retried j h duration fails delay).foldl step initial) 1 = 2 := by
  -- the first pick
  set s1 := step (step initial (.enqueue j)) (.tick j.runAfter) with hs1
  have hnow1 : s1.now = j.runAfter := Nat.zero_add _
  set row : QueueJob :=
    { id := 1, created := j, status := .pending, retries := 0, runAfter := j.runAfter, ranAt := none
      error := none } with hrow
  have halone1 : Alone s1 row [] := ⟨rfl, rfl, rfl⟩
  have hpick1 := halone1.pick (h := h) hqueue rfl (Nat.le_of_eq hnow1.symm)
    (NewJob.allows_mono (Nat.le_add_right_of_le (Nat.le_of_eq hnow1)) hallows) duration
  -- the timeout
  set o : Outcome := { result := none, sawTimeout := true, draw := 0, updateFails := fails } with ho
  set s3 := step (Queue.pick s1 1 h duration) (.tick h.jobTimeout) with hs3
  have hnow3 : s3.now = j.runAfter + h.jobTimeout := by
    rw [hs3, hpick1, ← hnow1]
    rfl
  obtain ⟨halone4, hnow4⟩ := halone1.finish (h := h) duration (o := o) rfl (u := s3)
    (by rw [hs3, hpick1]; rfl) (by rw [hs3, hpick1]; rfl) (by rw [hnow3, hnow1])
  have hrow4 : (if o.updateFails then row else
    updated (settled (attempt s1 row h duration).job s3.now (some h.timeoutError) o.draw) row) =
    timedOut j h fails := by
    rw [hnow3]
    rfl
  rw [hrow4] at halone4
  -- the second pick
  set s5 := step (Queue.finish s3 1 o) (.tick delay) with hs5
  have hnow5 : s5.now = j.runAfter + (h.jobTimeout + delay) := by
    show (Queue.finish s3 1 o).now + delay = _
    rw [hnow4, hnow3, Nat.add_assoc]
  have halone5 : Alone s5 (timedOut j h fails) s3.runs := ⟨halone4.rows, halone4.workers, halone4.runs⟩
  have hcreated : (timedOut j h fails).created = j := by cases fails <;> rfl
  have hid : (timedOut j h fails).id = 1 := by cases fails <;> rfl
  have hpick5 := halone5.pick (h := h) (by rw [hcreated, hqueue]) hopen (by rw [hnow5]; exact hdue)
    (by rw [hcreated, hnow5]; exact hallows) duration
  have hruns : s3.runs = [{ job := 1, started := s1.now, ends := duration.map (s1.now + ·) }] := by
    rw [hs3, hpick1]
    rfl
  have hgoing : ∀ start, s5.now ≤ start + (h.jobTimeout + delay) →
      Run.over { job := 1, started := start, ends := duration.map (start + ·) } s5.now = false := by
    intro start hend
    unfold Run.over
    cases duration with
    | none => rfl
    | some length =>
      have hlength : h.jobTimeout + delay < length := of_decide_eq_true hlong
      grind
  show runningOf (Queue.pick s5 1 h duration) 1 = 2
  grind [runningOf]

end Retry

/-! ## Exclusion -/

theorem exists_overlap {d : Deployment} (hnot : ¬ d.Punctual) : ∃ schedule : Nat → Event, (∀ k, d.Allows (schedule k)) ∧
      ∃ k id, 1 < runningOf (stateAt schedule k) id := by
  unfold Deployment.Punctual at hnot
  push Not at hnot
  obtain ⟨h, hh, duration, hlasts, j, hj, hqueue, wait, hwait, hlong, hallows⟩ := hnot
  -- the two ways in which the job is picked again
  obtain ⟨fails, delay, hfails, rfl, hopen, hdue⟩ : ∃ (fails : Bool) (delay : Time),
      (fails = true → d.faults) ∧ wait = h.jobTimeout + delay ∧
      (timedOut j h fails).status.open_ = true ∧
      (timedOut j h fails).runAfter ≤ j.runAfter + (h.jobTimeout + delay) := by
    rcases hwait with ⟨hfaults, rfl⟩ | ⟨hretries, rfl⟩
    · exact ⟨true, 0, fun _ => hfaults, rfl, rfl, Nat.le_add_right _ _⟩
    · refine ⟨false, calculateBackoff 0 0, Bool.noConfusion, rfl, ?_, ?_⟩
      · simp [timedOut, updated, settled, hretries, QueueJobStatus.open_]
      · grind [timedOut, updated, settled]
  refine ⟨Lib.Run.replay (retried j h duration fails delay) .collect, ?_, 7, 1, ?_⟩
  · intro k
    rcases Lib.Run.replay_mem (retried j h duration fails delay) .collect k with hmem | hidle
    · generalize Lib.Run.replay (retried j h duration fails delay) .collect k = e at hmem
      simp only [retried, mem_cons, not_mem_nil, or_false] at hmem
      rcases hmem with rfl | rfl | rfl | rfl | rfl | rfl | rfl
      · exact hj
      · trivial
      · exact ⟨hh, hlasts⟩
      · trivial
      · exact hfails
      · trivial
      · exact ⟨hh, hlasts⟩
    · rw [hidle]
      trivial
  · have hrun := Lib.Run.stateAt_replay step initial (retried j h duration fails delay) .collect
    show 1 < runningOf (Lib.Run.stateAt step initial _ 7) 1
    rw [show (retried j h duration fails delay).length = 7 from rfl] at hrun
    grind [retried_overlaps]

/-- **When runs of one job exclude each other**: if and only if no function can outlast its timeout until its job is
picked again, by the first backoff if the job may be retried, or by nothing if an update can fail. -/
theorem runs_exclusive_iff_punctual (d : Deployment) : (∀ schedule : Nat → Event, (∀ k, d.Allows (schedule k)) →
      ∀ k id, runningOf (stateAt schedule k) id ≤ 1) ↔ d.Punctual := by
  constructor
  · grind [exists_overlap]
  · intro hpunctual schedule hallows k id
    have hsafe := Lib.Run.stateAt_invariant_of step (safe_initial d) (fun s e he hs => hs.step hpunctual he) hallows k
    exact hsafe.runningOf_le_one id

def processTorrent : Handler where
  queue := "process_torrent"
  concurrency := 1
  jobTimeout := 600 * second
  timeoutText := "10m0s"
  concurrency_pos := Nat.one_pos

/-- A torrent takes eleven minutes: 16 seconds after the timeout at ten the retry starts beside it. -/
theorem slow_torrent_processed_twice :
    let events : List Event :=
      [.enqueue { queue := "process_torrent", maxRetries := 2, runAfter := 0, deadline := none
                  archivalDuration := 604800 * second, priority := 0 },
        .pick 1 processTorrent (some (660 * second)),
        .tick (600 * second),
        .finish 1 { result := none, sawTimeout := true, draw := 0, updateFails := false },
        .tick (16 * second),
        .pick 1 processTorrent (some (660 * second))]
    runningOf (stateAt (Lib.Run.replay events .collect) 6) 1 = 2 := by
  decide

end BitAgent.Queue
