/-
# Queue.Retries — how often a job is picked

`handleJob` counts a retry only when it is about to run the function. A job whose deadline has passed is not run, and
goes back to `retry` for ever. The counter bounds the picks exactly for the jobs that have no deadline or may not be
retried, and only if no update fails.
-/
import BitAgent.Queue.Exclusion

namespace BitAgent.Queue

open Lib Table

/-! ## Picks -/

def picked (s : State) (e : Event) (id : Nat) : Bool := !locked s id && locked (step s e) id

/-- How often a job was picked before event `k`. -/
def timesPicked (schedule : Nat → Event) (id : Nat) : Nat → Nat
  | 0 => 0
  | k + 1 => timesPicked schedule id k + if picked (stateAt schedule k) (schedule k) id then 1 else 0

/-- A job is picked at most once more often than it may be retried, is then processed or failed, and stays so. -/
structure Settles (schedule : Nat → Event) (id : Nat) (j : NewJob) : Prop where
  bound : ∀ k, timesPicked schedule id k ≤ j.maxRetries + 1
  ended : ∀ k, timesPicked schedule id k = j.maxRetries + 1 → locked (stateAt schedule k) id = false →
    ∀ row ∈ (stateAt schedule k).jobs.table.rows, row.id = id → row.status = .processed ∨ row.status = .failed
  final : ∀ k l, k ≤ l → ∀ row ∈ (stateAt schedule k).jobs.table.rows, row.id = id →
    row.status = .processed ∨ row.status = .failed → timesPicked schedule id l = timesPicked schedule id k ∧
        ∀ later ∈ (stateAt schedule l).jobs.table.rows, later.id = id → later = row

/-! ## What a step does to one job -/

/-- A step keeps a job and its workers, deletes the job, or a worker takes or finishes it. -/
inductive Change (s s' : State) (e : Event) (id : Nat) : Prop
  | kept (rows : ∀ row ∈ s'.jobs.table.rows, row.id = id → row ∈ s.jobs.table.rows)
      (workers : ∀ w, w.job.id = id → (w ∈ s'.workers.rows ↔ w ∈ s.workers.rows))
  | taken (row : QueueJob) (v : Worker) (mem : row ∈ s.jobs.table.rows) (id_eq : row.id = id)
      (open_ : row.status.open_ = true) (free : locked s id = false) (job_id : v.job.id = id)
      (created : v.job.created = row.created)
      (retries : v.job.retries = if row.status = .pending ∨ row.created.allows s.now = false
        then row.retries else row.retries + 1)
      (rows : s'.jobs = s.jobs) (workers : ∀ w, w ∈ s'.workers.rows ↔ w ∈ s.workers.rows ∨ w = v)
  | finished (w : Worker) (o : Outcome) (err : Option String) (event : e = .finish w.id o)
      (mem : w ∈ s.workers.rows) (job_id : w.job.id = id)
      (rows : ∀ x ∈ s'.jobs.table.rows, x.id = id → (x ∈ s.jobs.table.rows ∧ o.updateFails = true) ∨
        ∃ y ∈ s.jobs.table.rows, y.id = id ∧ x = updated (settled w.job s.now err o.draw) y)
      (workers : ∀ v, v.job.id = id → (v ∈ s'.workers.rows ↔ v ∈ s.workers.rows ∧ v ≠ w))

variable {s s' : State} {id : Nat} {e : Event}

theorem Change.of_workers_eq (hworkers : s'.workers = s.workers)
    (hrows : ∀ row ∈ s'.jobs.table.rows, row.id = id → row ∈ s.jobs.table.rows) : Change s s' e id :=
  .kept hrows fun w _ => by rw [hworkers]

theorem Change.of_eq (h : s' = s) : Change s s' e id := by
  rw [h]
  exact .of_workers_eq rfl fun _ hrow _ => hrow

variable {h : Handler}

theorem Picked.change {duration : Option Time} {job : QueueJob} {v : Worker} (hp : Picked s h duration job v)
    (e : Event) (id : Nat) : Change s (s.withWorker v) e id := by
  obtain ⟨-, hopen, -, hfree⟩ := due_iff.mp hp.due
  by_cases hsame : job.id = id
  · refine .taken job v hp.mem hsame hopen ?_ (hp.id.trans hsame) hp.created hp.retries rfl fun _ => hp.mem_workers
    rw [← hsame]
    exact locked_eq_false_iff.mpr hfree
  · refine .kept (fun row hrow _ => hrow) ?_
    intro x hx
    rw [hp.mem_workers]
    refine ⟨?_, Or.inl⟩
    rintro (hold | rfl)
    · exact hold
    · exact absurd (hp.id.symm.trans hx) hsame

theorem finish_change (s : State) (w : Nat) (o : Outcome) (id : Nat) : Change s (finish s w o) (.finish w o) id := by
  rcases finish_cases s w o with heq | ⟨worker, err, hget, -, heq⟩
  · exact .of_eq heq
  have hwid : worker.id = w := get?_key hget
  have hworkers : ∀ v, v ∈ (finish s w o).workers.rows ↔ v ∈ s.workers.rows ∧ v ≠ worker := by
    intro v
    rw [heq, mem_delete, decide_eq_false_iff_not]
    refine and_congr_right fun hv => not_congr ⟨fun hvw => ?_, fun hvw => by rw [hvw, hwid]⟩
    have hsame := get?_of_mem hv
    grind
  have hrows : ∀ x ∈ (finish s w o).jobs.table.rows,
      (x ∈ s.jobs.table.rows ∧ (x.id = worker.job.id → o.updateFails = true)) ∨
        ∃ y ∈ s.jobs.table.rows, y.id = worker.job.id ∧ x = updated (settled worker.job s.now err o.draw) y := by
    intro x hx
    rw [heq] at hx
    exact mem_finished hx
  by_cases hsame : worker.job.id = id
  · refine .finished worker o err (by rw [hwid]) (get?_mem hget) hsame ?_ fun v _ => hworkers v
    grind
  · refine .kept ?_ ?_
    · intro x hx hxid
      rcases hrows x hx with ⟨hold, -⟩ | ⟨y, -, hyid, rfl⟩
      · exact hold
      · exact absurd (hyid.symm.trans hxid) hsame
    · grind

theorem step_change (s : State) (e : Event) (hid : id < s.jobs.next) : Change s (step s e) e id := by
  cases e with
  | enqueue j =>
    refine Change.of_workers_eq rfl ?_
    intro row hrow hrid
    rcases mem_insertNew hrow with hold | rfl
    · exact hold
    · exact absurd hrid (Nat.ne_of_gt hid)
  | pick w h duration =>
    rw [step]
    rcases pick_cases s w h duration with heq | ⟨job, v, hp, heq⟩
    · exact .of_eq heq
    · rw [heq]
      exact hp.change _ id
  | finish w o => exact finish_change s w o id
  | collect => exact Change.of_workers_eq rfl fun row hrow _ => (mem_delete.mp hrow).1
  | purge p =>
    rw [step]
    split_ifs
    · exact .of_eq rfl
    · exact Change.of_workers_eq rfl fun row hrow _ => (mem_delete.mp hrow).1
  | tick elapsed => exact Change.of_workers_eq rfl fun row hrow _ => hrow

theorem next_le (s : State) (e : Event) : s.jobs.next ≤ (step s e).jobs.next := by
  cases e with
  | enqueue j => exact Nat.le_succ _
  | pick w h duration => grind [pick_cases, step]
  | finish w o =>
    rcases finish_cases s w o with heq | ⟨worker, err, _, _, heq⟩
    · rw [step, heq]
    · rw [step, heq]
      show s.jobs.next ≤ (if o.updateFails then s.jobs else _ : Serial QueueJob.id).next
      split_ifs <;> exact Nat.le_refl _
  | collect => exact Nat.le_refl _
  | purge p =>
    rw [step]
    split_ifs <;> exact Nat.le_refl _
  | tick elapsed => exact Nat.le_refl _

theorem locked_eq_true_iff : locked s id = true ↔ ∃ w ∈ s.workers.rows, w.job.id = id := by
  simp only [locked, List.any_eq_true, decide_eq_true_eq]

theorem locked_congr (h : ∀ w, w.job.id = id → (w ∈ s'.workers.rows ↔ w ∈ s.workers.rows)) :
    locked s' id = locked s id := by grind [locked_eq_true_iff]

theorem picked_of_free (hfree : locked (step s e) id = false) :
    picked s e id = false := by
  rw [picked, hfree, Bool.and_false]

theorem picked_of_kept (hkept : locked (step s e) id = locked s id) :
    picked s e id = false := by
  rw [picked, hkept, Bool.not_and_self]

theorem mem_workers_step {w : Worker} (hw : w ∈ (step s e).workers.rows) :
    w ∈ s.workers.rows ∨ w.job.id < s.jobs.next := by
  cases e with
  | pick i h duration =>
    rcases pick_cases s i h duration with heq | ⟨job, v, hp, heq⟩
    · rw [step, heq] at hw
      exact .inl hw
    · rw [step, heq, hp.mem_workers] at hw
      refine hw.imp_right ?_
      rintro rfl
      rw [hp.id]
      exact s.jobs.below job hp.mem
  | finish i o => grind [finish_cases, step, mem_delete]
  | purge p =>
    rw [step] at hw
    split_ifs at hw <;> exact .inl hw
  | enqueue j => exact .inl hw
  | collect => exact .inl hw
  | tick elapsed => exact .inl hw

/-! ## The invariant -/

/-- A locked row is open, and locked by one worker. -/
structure Held (s : State) : Prop where
  known : ∀ w ∈ s.workers.rows, w.job.id < s.jobs.next
  open_ : ∀ w ∈ s.workers.rows, ∀ row ∈ s.jobs.table.rows, row.id = w.job.id → row.status.open_ = true
  alone : ∀ v ∈ s.workers.rows, ∀ w ∈ s.workers.rows, v.job.id = w.job.id → v = w

theorem held_initial : Held initial where
  known := by intro w hw; cases hw
  open_ := by intro w hw; cases hw
  alone := by intro w hw; cases hw

theorem Held.step (h : Held s) (e : Event) : Held (Queue.step s e) := by
  have hknown : ∀ w ∈ (Queue.step s e).workers.rows, w.job.id < s.jobs.next := fun w hw =>
    (mem_workers_step hw).elim (h.known w) id
  refine ⟨fun w hw => Nat.lt_of_lt_of_le (hknown w hw) (next_le s e), ?_, ?_⟩
  · intro w hw row hrow hid
    cases step_change s e (hknown w hw) with
    | kept rows workers => exact h.open_ w ((workers w rfl).mp hw) row (rows row hrow hid) hid
    | taken job v mem id_eq open_ free job_id created retries rows workers =>
      rw [rows] at hrow
      have hsame := get?_of_mem hrow
      rw [hid, ← id_eq, get?_of_mem mem] at hsame
      rw [← Option.some.inj hsame]
      exact open_
    | finished u o err event mem job_id rows workers =>
      obtain ⟨hold, hne⟩ := (workers w rfl).mp hw
      exact absurd (h.alone w hold u mem job_id.symm) hne
  · intro v hv w hw hvw
    cases step_change s e (hknown w hw) with
    | kept rows workers => exact h.alone v ((workers v hvw).mp hv) w ((workers w rfl).mp hw) hvw
    | taken job u mem id_eq open_ free job_id created retries rows workers => grind [locked_eq_false_iff]
    | finished u o err event mem job_id rows workers =>
      exact h.alone v ((workers v hvw).mp hv).1 w ((workers w rfl).mp hw).1 hvw

/-- What the row of a free job says about the number of picks. -/
def Waits (j : NewJob) (n : Nat) (row : QueueJob) : Prop :=
  match row.status with
  | .pending => n = 0 ∧ row.retries = 0
  | .retry => n = row.retries + 1 ∧ row.retries < j.maxRetries
  | _ => True

/-- A free job was picked once more than it was retried, and a worker has a copy that counts its own pick. -/
structure Counted (j : NewJob) (id n : Nat) (s : State) : Prop where
  known : id < s.jobs.next
  bound : n ≤ j.maxRetries + 1
  created : ∀ row ∈ s.jobs.table.rows, row.id = id → row.created = j
  free : locked s id = false → ∀ row ∈ s.jobs.table.rows, row.id = id → Waits j n row
  held : ∀ w ∈ s.workers.rows, w.job.id = id → w.job.created = j ∧ n = w.job.retries + 1 ∧ w.job.retries ≤ j.maxRetries

variable {j : NewJob} {n : Nat}

theorem waits_updated {w : Worker} (hcreated : w.job.created = j) (hn : n = w.job.retries + 1) (now : Time)
    (err : Option String) (draw : Nat) (y : QueueJob) :
    Waits j n (updated (settled w.job now err draw) y) := by
  unfold settled
  cases err with
  | none => trivial
  | some text =>
    simp only
    split_ifs with hretries
    · rw [hcreated] at hretries
      exact ⟨hn, hretries⟩
    · trivial

variable {row : QueueJob}

theorem counted_taken {now : Time} {retries : Nat}
    (hcond : j.maxRetries = 0 ∨ j.deadline = none) (hcreated : row.created = j)
    (hopen : row.status.open_ = true) (hwaits : Waits j n row)
    (hretries : retries = if row.status = .pending ∨ row.created.allows now = false
      then row.retries else row.retries + 1) :
    n + 1 = retries + 1 ∧ retries ≤ j.maxRetries := by
  unfold Waits at hwaits
  cases hstatus : row.status with
  | pending => grind
  | retry =>
    rw [hstatus] at hwaits
    -- a job that is retried may be retried, so that it has no deadline
    have hdeadline : j.deadline = none := hcond.resolve_left fun h => by omega
    have hallows : row.created.allows now = true := by
      rw [hcreated, NewJob.allows, hdeadline]
      rfl
    rw [hstatus, hallows, if_neg (by decide)] at hretries
    omega
  | processed =>
    rw [hstatus] at hopen
    cases hopen
  | failed =>
    rw [hstatus] at hopen
    cases hopen

theorem Held.counted_enqueue (hheld : Held s) (j : NewJob) :
    Counted j s.jobs.next 0 (Queue.step s (.enqueue j)) := by
  have hrow : ∀ row ∈ (Queue.step s (.enqueue j)).jobs.table.rows, row.id = s.jobs.next →
      row.created = j ∧ row.status = .pending ∧ row.retries = 0 := by
    intro row hrow hid
    rcases mem_insertNew hrow with hold | rfl
    · exact absurd hid (Nat.ne_of_lt (s.jobs.below row hold))
    · exact ⟨rfl, rfl, rfl⟩
  exact
    { known := Nat.lt_succ_self _
      bound := Nat.zero_le _
      created := fun row hmem hid => (hrow row hmem hid).1
      free := fun _ row hmem hid => by grind [Waits]
      held := fun w hw hid => absurd hid (Nat.ne_of_lt (hheld.known w hw)) }

theorem Counted.step (h : Counted j id n s) (hheld : Held s) (hcond : j.maxRetries = 0 ∨ j.deadline = none)
    (hok : ∀ w o, e = .finish w o → o.updateFails = false) :
    Counted j id (n + if picked s e id then 1 else 0) (Queue.step s e) := by
  have hknown := Nat.lt_of_lt_of_le h.known (next_le s e)
  cases step_change s e h.known with
  | kept rows workers =>
    have hlocked := locked_congr workers
    rw [picked_of_kept hlocked]
    exact
      { known := hknown
        bound := h.bound
        created := fun row hrow hid => h.created row (rows row hrow hid) hid
        free := fun hfree row hrow hid => h.free (hlocked ▸ hfree) row (rows row hrow hid) hid
        held := fun w hw hid => h.held w ((workers w hid).mp hw) hid }
  | taken row v mem id_eq open_ free job_id created retries rows workers =>
    have hlocked : locked (Queue.step s e) id = true := locked_eq_true_iff.mpr ⟨v, (workers v).mpr (.inr rfl), job_id⟩
    have hpicked : picked s e id = true := by
      unfold picked
      rw [hlocked, free]
      rfl
    have hrow := h.created row mem id_eq
    obtain ⟨hn, hle⟩ := counted_taken hcond hrow open_ (h.free free row mem id_eq) retries
    have honly : ∀ w ∈ (Queue.step s e).workers.rows, w.job.id = id → w = v := by grind [locked_eq_false_iff]
    rw [hpicked]
    exact
      { known := hknown
        bound := by
          show n + 1 ≤ _
          omega
        created := by
          rw [rows]
          exact h.created
        free := fun hfree => by
          rw [hlocked] at hfree
          cases hfree
        held := fun w hw hid => by grind }
  | finished w o err event mem job_id rows workers =>
    have hlocked : locked (Queue.step s e) id = false := by
      rw [locked_eq_false_iff]
      intro v hv hvid
      obtain ⟨hold, hne⟩ := (workers v hvid).mp hv
      exact hne (hheld.alone v hold w mem (hvid.trans job_id.symm))
    obtain ⟨hcreated, hn, -⟩ := h.held w mem job_id
    have hupdated : ∀ x ∈ (Queue.step s e).jobs.table.rows, x.id = id →
        ∃ y ∈ s.jobs.table.rows, y.id = id ∧ x = updated (settled w.job s.now err o.draw) y := by
      grind
    rw [picked_of_free hlocked]
    exact
      { known := hknown
        bound := h.bound
        created := fun x hx hxid => by
          obtain ⟨y, hy, hyid, rfl⟩ := hupdated x hx hxid
          exact h.created y hy hyid
        free := fun _ x hx hxid => by grind [waits_updated]
        held := fun v hv hvid => h.held v ((workers v hvid).mp hv).1 hvid }

/-- A job that is processed or failed, or was deleted since. -/
structure Rests (s : State) (id : Nat) (row : QueueJob) : Prop where
  known : id < s.jobs.next
  free : locked s id = false
  closed : row.status.open_ = false
  same : ∀ later ∈ s.jobs.table.rows, later.id = id → later = row

theorem Rests.step (h : Rests s id row) (e : Event) :
    Rests (Queue.step s e) id row ∧ picked s e id = false := by
  cases step_change s e h.known with
  | kept rows workers =>
    have hlocked := locked_congr workers
    exact ⟨⟨Nat.lt_of_lt_of_le h.known (next_le s e), hlocked.trans h.free, h.closed,
      fun later hlater hid => h.same later (rows later hlater hid) hid⟩, picked_of_kept hlocked⟩
  | taken job v mem id_eq open_ free job_id created retries rows workers =>
    rw [h.same job mem id_eq, h.closed] at open_
    cases open_
  | finished w o err event mem job_id rows workers => exact absurd job_id (locked_eq_false_iff.mp h.free w mem)

/-! ## Along a schedule -/

section Schedule

variable (schedule : Nat → Event)

theorem held_stateAt (k : Nat) : Held (stateAt schedule k) :=
  Lib.Run.stateAt_invariant step held_initial (fun _ e h => h.step e) schedule k

variable {k : Nat}

theorem next_mono {l : Nat} (hkl : k ≤ l) : (stateAt schedule k).jobs.next ≤ (stateAt schedule l).jobs.next := by
  induction l, hkl using Nat.le_induction with
  | base => exact Nat.le_refl _
  | succ l _ ih => exact Nat.le_trans ih (next_le _ _)

theorem timesPicked_of_fresh (hfresh : (stateAt schedule k).jobs.next ≤ id) :
    timesPicked schedule id k = 0 := by
  induction k with
  | zero => rfl
  | succ k ih =>
    have hfree : locked (step (stateAt schedule k) (schedule k)) id = false := locked_eq_false_iff.mpr fun w hw hid =>
      absurd ((held_stateAt schedule (k + 1)).known w hw) (by rw [hid]; exact Nat.not_lt.mpr hfresh)
    rw [timesPicked, ih (Nat.le_trans (next_le _ _) hfresh), picked_of_free hfree]
    rfl

theorem rests_of_closed (hrow : row ∈ (stateAt schedule k).jobs.table.rows) (hid : row.id = id)
    (hclosed : row.status.open_ = false) {l : Nat} (hkl : k ≤ l) :
    Rests (stateAt schedule l) id row ∧ timesPicked schedule id l = timesPicked schedule id k := by
  induction l, hkl using Nat.le_induction with
  | base =>
    refine ⟨⟨hid ▸ (stateAt schedule k).jobs.below row hrow, ?_, hclosed, ?_⟩, rfl⟩
    · refine locked_eq_false_iff.mpr fun w hw hwid => ?_
      have hopen := (held_stateAt schedule k).open_ w hw row hrow (hid.trans hwid.symm)
      rw [hclosed] at hopen
      cases hopen
    · intro later hlater hlid
      have hsame := get?_of_mem hlater
      rw [hlid, ← hid, get?_of_mem hrow] at hsame
      exact (Option.some.inj hsame).symm
  | succ l _ ih =>
    obtain ⟨hrests, hpicked⟩ := ih.1.step (schedule l)
    refine ⟨hrests, ?_⟩
    rw [timesPicked, hpicked, ih.2]
    rfl

theorem counted_stateAt (hcond : j.maxRetries = 0 ∨ j.deadline = none)
    (hok : ∀ k w o, schedule k = .finish w o → o.updateFails = false) {start : Nat}
    (hstart : schedule start = .enqueue j) (hk : start + 1 ≤ k) :
    Counted j (stateAt schedule start).jobs.next
      (timesPicked schedule (stateAt schedule start).jobs.next k) (stateAt schedule k) := by
  induction k, hk using Nat.le_induction with
  | base =>
    have hcount : timesPicked schedule (stateAt schedule start).jobs.next (start + 1) = 0 := by
      have hpicked : picked (stateAt schedule start) (.enqueue j) (stateAt schedule start).jobs.next = false :=
        picked_of_kept rfl
      grind [timesPicked, timesPicked_of_fresh]
    have hnext : stateAt schedule (start + 1) = step (stateAt schedule start) (.enqueue j) := by
      rw [← hstart]
      rfl
    rw [hcount, hnext]
    exact (held_stateAt schedule start).counted_enqueue j
  | succ k _ ih => exact ih.step (held_stateAt schedule k) hcond (hok k)

theorem settles_of_counted (hcond : j.maxRetries = 0 ∨ j.deadline = none)
    (hok : ∀ k w o, schedule k = .finish w o → o.updateFails = false) {start : Nat}
    (hstart : schedule start = .enqueue j) :
    Settles schedule (stateAt schedule start).jobs.next j where
  bound := by
    intro k
    by_cases hk : start + 1 ≤ k
    · exact (counted_stateAt schedule hcond hok hstart hk).bound
    · grind [next_mono, timesPicked_of_fresh]
  ended := by
    intro k hall hfree row hrow hid
    by_cases hk : start + 1 ≤ k
    · have hwaits := (counted_stateAt schedule hcond hok hstart hk).free hfree row hrow hid
      unfold Waits at hwaits
      rw [hall] at hwaits
      cases hstatus : row.status with
      | pending =>
        rw [hstatus] at hwaits
        omega
      | retry =>
        rw [hstatus] at hwaits
        omega
      | processed => exact .inl rfl
      | failed => exact .inr rfl
    · have hfresh : (stateAt schedule k).jobs.next ≤ (stateAt schedule start).jobs.next := next_mono schedule (by omega)
      exact absurd ((stateAt schedule k).jobs.below row hrow) (by rw [hid]; exact Nat.not_lt.mpr hfresh)
  final := by
    intro k l hkl row hrow hid hclosed
    have hnot : row.status.open_ = false := by rcases hclosed with h | h <;> rw [h] <;> rfl
    obtain ⟨hrests, htimes⟩ := rests_of_closed schedule hrow hid hnot hkl
    exact ⟨htimes, hrests.same⟩

end Schedule

/-! ## A job that is picked for ever -/

def endless (j : NewJob) (h : Handler) (wait : Time) (o : Outcome) : Nat → Event
  | 0 => .enqueue j
  | k + 1 => if k % 3 = 0 then .tick wait else if k % 3 = 1 then .pick 1 h (some 0) else .finish 1 o

/-- The only job waits to be picked, and was never retried by its counter. -/
structure Ready (s : State) (j : NewJob) (wait : Time) (row : QueueJob) : Prop where
  alone : Alone s row s.runs
  id_eq : row.id = 1
  created : row.created = j
  open_ : row.status.open_ = true
  retries : row.retries = 0
  due : row.runAfter ≤ s.now + wait

def latecomer (row : QueueJob) (h : Handler) : Worker := { id := 1, handler := h, job := row, run := none }

theorem Alone.pick_late {runs : List Run} (halone : Alone s row runs) (hqueue : row.created.queue = h.queue)
    (hopen : row.status.open_ = true) (hdue : row.runAfter ≤ s.now) (hlate : row.created.allows s.now = false)
    (duration : Option Time) :
    Queue.pick s 1 h duration = { s with workers := s.workers.insertNew (latecomer row h) } := by
  unfold Queue.pick
  rw [if_pos halone.room, halone.nextJob hqueue hopen hdue]
  simp only [hlate, Bool.false_eq_true, if_false]
  rfl

variable {o : Outcome}

theorem Alone.take {runs : List Run} (halone : Alone s row runs) (hqueue : row.created.queue = h.queue)
    (hopen : row.status.open_ = true) (hdue : row.runAfter ≤ s.now) (hsaw : o.sawTimeout = false) :
    ∃ (v : Worker) (err : Option String), v.id = 1 ∧ v.job.id = row.id ∧ jobErr v s.now o = some err ∧
      (row.created.allows s.now = false → v.job = row ∧ err.isSome = true) ∧
      (Queue.pick s 1 h (some 0)).workers.rows = [v] ∧ (Queue.pick s 1 h (some 0)).jobs = s.jobs ∧
      (Queue.pick s 1 h (some 0)).now = s.now := by
  have hrows : ∀ v : Worker, (s.workers.insertNew v).rows = [v] := by
    intro v
    rw [rows_insertNew (by rw [halone.workers]; exact List.not_mem_nil), halone.workers]
    rfl
  cases hallows : row.created.allows s.now with
  | true =>
    rw [halone.pick hqueue hopen hdue hallows]
    refine ⟨attempt s row h (some 0), o.result.map ("job failed to process: " ++ ·), rfl, rfl, ?_,
      Bool.noConfusion, hrows _, rfl, rfl⟩
    show exec h _ s.now o = _
    unfold exec
    simp [Run.over, hsaw]
  | false =>
    rw [halone.pick_late hqueue hopen hdue hallows]
    exact ⟨latecomer row h, _, rfl, rfl, rfl, fun _ => ⟨rfl, rfl⟩, hrows _, rfl, rfl⟩

theorem NewJob.allows_of_late {d t : Time} (hd : j.deadline = some d) (hlate : d < t) :
    j.allows t = false := by grind [NewJob.allows]

/-- Why a job goes on for ever: its updates fail, or its deadline is over and it may be retried. -/
def Endless (j : NewJob) (wait : Time) (o : Outcome) : Prop :=
  o.updateFails = true ∨ (o.updateFails = false ∧ 0 < j.maxRetries ∧ calculateBackoff 0 o.draw ≤ wait ∧
      ∀ now, j.allows (now + wait) = false)

theorem locked_of_idle (hidle : s.workers.rows = []) (id : Nat) : locked s id = false := by
  rw [locked_eq_false_iff, hidle]
  intro w hw
  cases hw

theorem finish_only {v : Worker} {err : Option String} (hworkers : s.workers.rows = [v]) (hvid : v.id = 1)
    (herr : jobErr v s.now o = some err) :
    (Queue.finish s 1 o).workers.rows = [] ∧ (Queue.finish s 1 o).now = s.now ∧ (Queue.finish s 1 o).jobs =
        if o.updateFails then s.jobs
        else s.jobs.update (fun r => decide (r.id = v.job.id))
          (updated (settled v.job s.now err o.draw)) := by
  have hget : s.workers.get? 1 = some v := by
    unfold Table.get?
    rw [hworkers]
    simp [hvid]
  have hfinish : Queue.finish s 1 o =
      { s with
        jobs :=
          if o.updateFails then s.jobs
          else s.jobs.update (fun r => decide (r.id = v.job.id))
            (updated (settled v.job s.now err o.draw))
        workers := s.workers.delete fun w => decide (w.id = 1) } := by
    unfold Queue.finish
    rw [hget]
    simp only [herr]
  rw [hfinish]
  refine ⟨?_, rfl, rfl⟩
  show s.workers.rows.filter _ = []
  rw [hworkers]
  simp [hvid]

variable {wait : Time}

theorem Ready.later (hready : Ready s j wait row) (hjobs : s'.jobs = s.jobs) (hidle : s'.workers.rows = [])
    (hnow : s.now ≤ s'.now) : Ready s' j wait row where
  alone := ⟨by rw [hjobs]; exact hready.alone.rows, hidle, rfl⟩
  id_eq := hready.id_eq
  created := hready.created
  open_ := hready.open_
  retries := hready.retries
  due := Nat.le_trans hready.due (Nat.add_le_add_right hnow wait)

theorem Ready.retried {draw : Nat} (hready : Ready s j wait row) (text : String) (hretries : 0 < j.maxRetries)
    (hwait : calculateBackoff 0 draw ≤ wait)
    (hrows : s'.jobs.table.rows = [updated (settled row s'.now (some text) draw) row]) (hidle : s'.workers.rows = []) :
    Ready s' j wait (updated (settled row s'.now (some text) draw) row) := by
  have hsettled : settled row s'.now (some text) draw =
      { row with
        ranAt := some s'.now, status := .retry
        runAfter := s'.now + calculateBackoff 0 draw, error := some text } := by
    unfold settled
    simp only [hready.retries, hready.created, hretries, if_true]
  refine ⟨⟨hrows, hidle, rfl⟩, hready.id_eq, hready.created, ?_, ?_, ?_⟩
  · rw [hsettled]
    rfl
  · rw [hsettled]
    exact hready.retries
  · rw [hsettled]
    exact Nat.add_le_add_left hwait _

theorem Ready.round (hready : Ready s j wait row) (hqueue : j.queue = h.queue) (hsaw : o.sawTimeout = false)
    (hendless : Endless j wait o) :
    let s₁ := step s (.tick wait)
    let s₂ := step s₁ (.pick 1 h (some 0))
    picked s (.tick wait) 1 = false ∧ picked s₁ (.pick 1 h (some 0)) 1 = true ∧
      picked s₂ (.finish 1 o) 1 = false ∧ ∃ row', Ready (step s₂ (.finish 1 o)) j wait row' := by
  intro s₁ s₂
  have halone1 : Alone s₁ row s₁.runs := ⟨hready.alone.rows, hready.alone.workers, rfl⟩
  obtain ⟨v, err, hvid, hjid, herr, hlate, hworkers, hjobs, hnow⟩ :=
    halone1.take (h := h) (by rw [hready.created]; exact hqueue) hready.open_ hready.due hsaw
  have hworkers : s₂.workers.rows = [v] := hworkers
  have hjobs : s₂.jobs = s.jobs := hjobs
  have hnow : s₂.now = s.now + wait := hnow
  have hlocked : locked s₂ 1 = true := by
    rw [locked_eq_true_iff, hworkers]
    exact ⟨v, List.mem_singleton_self v, hjid.trans hready.id_eq⟩
  obtain ⟨hidle, hafter, hfinish⟩ := finish_only hworkers hvid (by rw [hnow]; exact herr)
  refine ⟨Bool.not_and_self _, ?_, ?_, ?_⟩
  · show (!locked s₁ 1 && locked s₂ 1) = true
    rw [locked_of_idle halone1.workers, hlocked]
    rfl
  · exact picked_of_free (locked_of_idle hidle 1)
  rcases hendless with hfails | ⟨hwrites, hretries, hwait, hover⟩
  · refine ⟨row, hready.later ?_ hidle ?_⟩
    · show (Queue.finish s₂ 1 o).jobs = _
      rw [hfinish, if_pos hfails, hjobs]
    · show s.now ≤ (Queue.finish s₂ 1 o).now
      rw [hafter, hnow]
      exact Nat.le_add_right _ _
  · obtain ⟨hjob, herrs⟩ := hlate (by rw [hready.created]; exact hover _)
    obtain ⟨text, rfl⟩ := Option.isSome_iff_exists.mp herrs
    refine ⟨_, hready.retried text hretries hwait ?_ hidle⟩
    show (Queue.finish s₂ 1 o).jobs.table.rows = [updated (settled row (Queue.finish s₂ 1 o).now _ _) row]
    rw [hfinish, hafter, hwrites, if_neg Bool.false_ne_true, hjob]
    show s₂.jobs.table.rows.map _ = _
    rw [hjobs, hready.alone.rows]
    simp

theorem timesPicked_endless (hqueue : j.queue = h.queue) (hsaw : o.sawTimeout = false) (hafter : j.runAfter ≤ wait)
    (hendless : Endless j wait o) (n : Nat) :
    timesPicked (endless j h wait o) 1 (3 * n + 1) = n ∧
      ∃ row, Ready (stateAt (endless j h wait o) (3 * n + 1)) j wait row := by
  induction n with
  | zero =>
    refine ⟨rfl, _, ⟨rfl, rfl, rfl⟩, rfl, rfl, rfl, rfl, ?_⟩
    exact Nat.le_add_left_of_le hafter
  | succ n ih =>
    obtain ⟨hcount, row, hready⟩ := ih
    obtain ⟨htick, hpick, hfinish, row', hready'⟩ := hready.round hqueue hsaw hendless
    have h0 : endless j h wait o (3 * n + 1) = .tick wait := by simp [endless]
    have h1 : endless j h wait o (3 * n + 1 + 1) = .pick 1 h (some 0) := by grind [endless]
    have h2 : endless j h wait o (3 * n + 1 + 1 + 1) = .finish 1 o := by grind [endless]
    have s1 : stateAt (endless j h wait o) (3 * n + 1 + 1) =
        step (stateAt (endless j h wait o) (3 * n + 1)) (.tick wait) := by
      rw [← h0]
      rfl
    have s2 : stateAt (endless j h wait o) (3 * n + 1 + 1 + 1) =
        step (stateAt (endless j h wait o) (3 * n + 1 + 1)) (.pick 1 h (some 0)) := by
      rw [← h1]
      rfl
    have s3 : stateAt (endless j h wait o) (3 * n + 1 + 1 + 1 + 1) =
        step (stateAt (endless j h wait o) (3 * n + 1 + 1 + 1)) (.finish 1 o) := by
      rw [← h2]
      rfl
    grind [timesPicked]

/-! ## When the picks of a job are bounded -/

/-- **How often a job is picked.** In every schedule at most once more often than it may be retried, and it is then
settled for good, if and only if it has no deadline or may not be retried, and no update can fail. -/
theorem picks_bounded_iff (j : NewJob) (faults : Prop) : (∀ schedule : Nat → Event,
      (∀ k w o, schedule k = .finish w o → o.updateFails = true → faults) →
      ∀ k, schedule k = .enqueue j → Settles schedule (stateAt schedule k).jobs.next j) ↔
    (j.maxRetries = 0 ∨ j.deadline = none) ∧ ¬ faults := by
  constructor
  · intro hsettles
    -- a handler of the job's queue, and a schedule in which the job is picked for ever
    let h : Handler := ⟨j.queue, 1, 0, "", Nat.one_pos⟩
    have hunbounded : ∀ (wait : Time) (o : Outcome), o.sawTimeout = false → j.runAfter ≤ wait →
        Endless j wait o → (o.updateFails = true → faults) → False := by
      intro wait o hsaw hafter hendless hfaults
      have hallowed : ∀ k w o', endless j h wait o k = .finish w o' → o'.updateFails = true → faults := by
        intro k w o' hk
        cases k with
        | zero => cases hk
        | succ k => grind [endless]
      have hbound := (hsettles _ hallowed 0 rfl).bound (3 * (j.maxRetries + 2) + 1)
      have hcount := (timesPicked_endless (h := h) rfl hsaw hafter hendless (j.maxRetries + 2)).1
      rw [show (stateAt (endless j h wait o) 0).jobs.next = 1 from rfl, hcount] at hbound
      omega
    have hfaults : ¬ faults := fun hf =>
      hunbounded j.runAfter ⟨none, false, 0, true⟩ rfl (Nat.le_refl _) (.inl rfl) fun _ => hf
    refine ⟨?_, hfaults⟩
    by_contra hcond
    obtain ⟨hretries, hdeadline⟩ := not_or.mp hcond
    obtain ⟨d, hd⟩ := Option.ne_none_iff_exists'.mp hdeadline
    obtain ⟨wait, hafter, hbackoff, hlate⟩ : ∃ wait : Nat, j.runAfter ≤ wait ∧
        calculateBackoff 0 0 ≤ wait ∧ d < wait := by
      generalize calculateBackoff 0 0 = backoff
      exact ⟨max j.runAfter (max backoff (d + 1)), Nat.le_max_left _ _,
        Nat.le_trans (Nat.le_max_left _ _) (Nat.le_max_right _ _),
        Nat.le_trans (Nat.le_max_right _ _) (Nat.le_max_right _ _)⟩
    exact hunbounded wait ⟨none, false, 0, false⟩ rfl hafter
      (.inr ⟨rfl, Nat.pos_of_ne_zero hretries, hbackoff, fun now =>
        NewJob.allows_of_late hd (Nat.lt_of_lt_of_le hlate (Nat.le_add_left _ _))⟩) Bool.noConfusion
  · grind [settles_of_counted]

/-- A job that may be retried once, with a deadline that has passed, is picked three times. -/
theorem late_job_picked_again :
    let j : NewJob :=
      { queue := "process_torrent", maxRetries := 1, runAfter := 0, deadline := some 0
        archivalDuration := 604800 * second, priority := 0 }
    timesPicked (endless j processTorrent (20 * second)
      { result := none, sawTimeout := false, draw := 0, updateFails := false }) 1 10 = 3 := by
  refine (timesPicked_endless rfl rfl (Nat.zero_le _) (.inr ⟨rfl, Nat.one_pos, by decide, ?_⟩) 3).1
  intro now
  exact NewJob.allows_of_late rfl (Nat.add_pos_right now (by decide))

end BitAgent.Queue
