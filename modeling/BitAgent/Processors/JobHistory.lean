/-
# Processors.JobHistory — what one call does to one job, and the bounds of the queue

What a call may do to a row (`RowStep`): only a claim leases a job, and only the holder of its lease prepares, starts
or finishes a step. `Moves` is this for all rows and every call except `Scan`, which prunes rows and inserts newborn
ones (`ScanRows`). The numbers of leased, pending and retained jobs stay within their limits under every schedule.
-/
import BitAgent.Processors.QueueInvariant

namespace BitAgent.Processors

open Lib ProcessorApi List Table

variable {Base : Type}

/-! ## One row, one call -/

structure Presents (l : Lease Base) (r : JobRow Base) : Prop where
  id : r.jobID = l.id
  leased : r.state = .leased
  generation : r.leaseGeneration = l.generation

variable {s : State Base} {l : Lease Base}

theorem presents_of_holds {r : JobRow Base} (hrow : s.jobs.get? l.id = some r) (h : holds l r = true) :
    Presents l r := by
  simp only [holds, Bool.and_eq_true, beq_iff_eq] at h
  exact ⟨get?_key hrow, h.1, h.2⟩

abbrev Attempts := Table fun a : AttemptRow => (a.jobID, a.leaseGeneration)

/-- What the call `c` may make of a row; `noted` are the attempts after it. -/
inductive RowStep (s : State Base) (c : Call Base) (noted : Attempts) (r r' : JobRow Base) :
    Prop where
  /-- The work on the current step stays; the row may lose its lease and may end. -/
  | quiet (step : r'.step = r.step) (attempts : r'.stepAttempts = r.stepAttempts)
      (prepared : r'.preparedJob = r.preparedJob)
      (generation : r'.leaseGeneration = r.leaseGeneration)
      (leased : r'.state = .leased → r.state = .leased)
      (ended : ∀ t, r'.finishedAt = some t → r.finishedAt = some t ∨ t = s.now)
  | claimed (call : c = .claim) (step : r'.step = r.step)
      (attempts : r'.stepAttempts = r.stepAttempts) (prepared : r'.preparedJob = r.preparedJob)
      (generation : r'.leaseGeneration = r.leaseGeneration + 1)
      (ended : r'.finishedAt = r.finishedAt)
  | prepared (l : Lease Base) (built : Except String Job) (j : Job) (call : c = .prepare l built)
      (holder : Presents l r) (unprepared : r.preparedJob = none) (result : r' = preparedRow j r)
  | started (l : Lease Base) (call : c = .startAttempt l) (holder : Presents l r)
      (attempt : noted.get? (l.id, l.generation) ≠ none) (result : r' = startedRow r)
  /-- A step that counts: the next one starts from scratch. -/
  | finished (l : Lease Base) (j : Job) (res : Result) (dispatched : Bool)
      (call : c = .finish l j res dispatched) (holder : Presents l r) (step : r'.step = r.step + 1)
      (attempts : r'.stepAttempts = 0) (prepared : r'.preparedJob = none)
      (generation : r'.leaseGeneration = r.leaseGeneration) (free : r'.state ≠ .leased)
      (ended : ∀ t, r'.finishedAt = some t → t = s.now)

theorem RowStep.same (s : State Base) (c : Call Base) (noted : Attempts) (r : JobRow Base) : RowStep s c noted r r :=
  .quiet rfl rfl rfl rfl id fun _ => .inl

theorem RowStep.ends (s : State Base) (c : Call Base) (noted : Attempts) (r : JobRow Base)
    {state : JobState} (hstate : state ≠ .leased) (reason : String) :
    RowStep s c noted r
      { r with state := state, reason := reason, leaseUntil := none, finishedAt := some s.now } :=
  .quiet rfl rfl rfl rfl (fun h => absurd h hstate) fun _ h => .inr (Option.some.inj h).symm

variable {c : Call Base}

theorem RowStep.generation_le {noted : Attempts} {r r' : JobRow Base} (h : RowStep s c noted r r') :
    r.leaseGeneration ≤ r'.leaseGeneration := by
  cases h with
  | quiet _ _ _ generation => exact generation.ge
  | claimed _ _ _ _ generation => exact (Nat.le_succ _).trans generation.ge
  | prepared _ _ _ _ _ _ result => rw [result]; exact Nat.le_refl _
  | started _ _ _ _ result => rw [result]; exact Nat.le_refl _
  | finished _ _ _ _ _ _ _ _ _ generation => exact generation.ge

structure Moves (s : State Base) (c : Call Base) (s' : State Base) : Prop where
  absent : ∀ {id}, s.jobs.get? id = none → s'.jobs.get? id = none
  present : ∀ {id r}, s.jobs.get? id = some r → ∃ r', s'.jobs.get? id = some r' ∧ RowStep s c s'.attempts r r'
  attempts : ∀ {k}, s'.attempts.get? k = none → s.attempts.get? k = none
  now : s.now ≤ s'.now

variable {s' : State Base}

theorem Moves.of_eq (c : Call Base) (hjobs : s'.jobs = s.jobs) (hatt : s'.attempts = s.attempts)
    (hnow : s.now ≤ s'.now) : Moves s c s' where
  absent h := by rw [hjobs]; exact h
  present {id r} h := ⟨r, by rw [hjobs]; exact h, .same s c _ r⟩
  attempts h := by rw [hatt] at h; exact h
  now := hnow

theorem Moves.of_update {p : JobRow Base → Bool} {f : JobRow Base → JobRow Base}
    (hget : ∀ id, s'.jobs.get? id = (s.jobs.get? id).map fun r => if p r then f r else r)
    (hatt : ∀ k, (s'.attempts.get? k).isSome = (s.attempts.get? k).isSome) (hnow : s'.now = s.now)
    (hsel : ∀ r, p r = true → RowStep s c s'.attempts r (f r)) : Moves s c s' where
  absent h := by rw [hget, h]; rfl
  present {id r} h := by grind [RowStep.same]
  attempts {k} h := by
    have hk := hatt k
    rw [h] at hk
    simpa using hk.symm
  now := hnow.ge

theorem Rewrites.moves {id : Digest} {row row' : JobRow Base} (h : Rewrites s s' id row row')
    (hstep : RowStep s c s'.attempts row row') : Moves s c s' where
  absent {x} hnone := by
    have hne : x ≠ id := by
      rintro rfl
      rw [h.before] at hnone
      cases hnone
    rw [h.others hne, hnone]
  present {x r} hsome := by
    by_cases hx : x = id
    · subst hx
      obtain rfl : row = r := Option.some.inj (h.before.symm.trans hsome)
      exact ⟨row', h.after, hstep⟩
    · exact ⟨r, by rw [h.others hx, hsome], .same s c _ r⟩
  attempts {k} hnone := by
    have hk := h.attempts k
    rw [hnone] at hk
    simpa using hk.symm
  now := h.now.ge

theorem closeAttempts_keys (s : State Base) (leases : List (Digest × Nat)) (outcome reason : String)
    (k : Digest × Nat) :
    ((closeAttempts s leases outcome reason).get? k).isSome = (s.attempts.get? k).isSome :=
  isSome_get?_update _ _ _ (by intro _; rfl) _

/-! ## Calls that insert and delete no row -/

theorem Interrupts.moves (h : Interrupts s s') (c : Call Base) : Moves s c s' := by
  cases h with
  | spares now _ _ jobs attempts => exact .of_eq c jobs attempts now.ge
  | ends now _ p state reason attemptReason terminal _ jobs attempts =>
    have hget := get?_endJobs s p state reason attemptReason
    rw [← jobs] at hget
    refine .of_update hget (fun k => ?_) now ?_
    · rw [attempts]
      exact closeAttempts_keys s _ _ _ k
    · intro r _
      refine .ends s c _ r ?_ reason
      rintro rfl
      cases terminal

variable (cat : Catalogue Base) (cfg : Config) (policy : String)

theorem moves_claim (s : State Base) : Moves s .claim (claim cfg s).1 := by
  have hexpire : Moves s .claim (expireLeases s) := by
    refine .of_update (get?_expireLeases s) (closeAttempts_keys s _ _ _) rfl ?_
    intro r _
    exact .quiet rfl rfl rfl rfl (fun h => by cases h) fun _ => .inl
  unfold claim
  dsimp only
  split_ifs
  · exact hexpire
  split
  next => exact hexpire
  next r hr =>
    obtain ⟨hrow, -⟩ := nextJob_pending hr
    have hlease := rewrites_updateJob (leasedRow_jobID cfg (expireLeases s)) hrow
    refine ⟨?_, ?_, ?_, hexpire.now⟩
    · intro id hnone
      have hnone' := hexpire.absent hnone
      rwa [hlease.others]
      rintro rfl
      rw [hrow] at hnone'
      cases hnone'
    · intro id r0 hsome
      obtain ⟨r1, hr1, hstep⟩ := hexpire.present hsome
      by_cases hid : id = r.jobID
      · subst hid
        obtain rfl : r = r1 := Option.some.inj (hrow.symm.trans hr1)
        refine ⟨_, hlease.after, ?_⟩
        -- the row that is leased had at most lost its lease before
        rw [get?_expireLeases, hsome, Option.map_some] at hr1
        cases hr1
        split_ifs
        · exact .claimed rfl rfl rfl rfl rfl rfl
        · exact .claimed rfl rfl rfl rfl rfl rfl
      · exact ⟨r1, by rw [hlease.others hid]; exact hr1, hstep⟩
    · intro k hnone
      exact hexpire.attempts hnone

theorem moves_prepare {built : Except String Job} {j : Job} (h : prepare cat policy s l built = .ok (s', j)) :
    Moves s (.prepare l built) s' := by
  obtain ⟨row, hrow, hholds, ⟨-, rfl⟩ | ⟨hnone, rfl⟩⟩ := prepare_row cat policy h
  · exact .of_eq _ rfl rfl (Nat.le_refl _)
  · exact (rewrites_updateJob _ hrow).moves (.prepared l built j rfl (presents_of_holds hrow hholds) hnone rfl)

theorem moves_startAttempt (h : startAttempt s l = .ok s') :
    Moves s (.startAttempt l) s' := by
  obtain ⟨row, hrow, hholds, -, hstart⟩ := startAttempt_row h
  have hholder := presents_of_holds hrow (holds_of_holdsNow hholds)
  have hrow' := rewrites_updateJob startedRow_jobID hrow
  refine ⟨?_, ?_, ?_, hstart.now.ge⟩
  · intro id hnone
    have hne : id ≠ l.id := by
      rintro rfl
      rw [hrow] at hnone
      cases hnone
    rw [hstart.jobs, hrow'.others hne, hnone]
  · intro id r hsome
    rw [hstart.jobs]
    by_cases hid : id = l.id
    · subst hid
      obtain rfl : row = r := Option.some.inj (hrow.symm.trans hsome)
      exact ⟨_, hrow'.after, .started l rfl hholder hstart.noted rfl⟩
    · exact ⟨r, by rw [hrow'.others hid, hsome], .same _ _ _ r⟩
  · intro k hnone
    exact hstart.forgets_none hnone

theorem moves_failPreparation (h : failPreparation cfg s l = .ok s') : Moves s (.failPreparation l) s' := by
  obtain ⟨row, hrow, -, rfl⟩ := failPreparation_row cfg h
  refine (rewrites_updateJob _ hrow).moves (.quiet rfl rfl rfl rfl ?_ ?_)
  · grind [failedRow]
  · grind [failedRow]

theorem moves_finish {j : Job} {r : Result} {dispatched applied : Bool}
    (h : finish cat cfg policy s l j r dispatched = .ok (s', applied)) :
    Moves s (.finish l j r dispatched) s' := by
  obtain ⟨row, row', hh, hof, hrewrite⟩ := finish_row cat cfg policy h
  have hholder : Presents l row := ⟨get?_key hh.row, hh.leased, hh.generation⟩
  refine hrewrite.moves ?_
  -- only a counted step moves on, and its end is now or not yet
  have hcounted : ∀ results state reason, state ≠ .leased →
      RowStep s (.finish l j r dispatched) s'.attempts row (finishedRow s results state reason r row) := by
    intro results state reason hstate
    refine .finished l j r dispatched rfl hholder rfl rfl rfl rfl hstate ?_
    grind [finishedRow]
  cases hof with
  | deferred l' => exact .quiet rfl rfl rfl rfl (fun h => by cases h) fun _ => .inl
  | next results => exact hcounted _ _ _ (by decide)
  | stale results => exact hcounted _ _ _ (by decide)
  | completed results => exact hcounted _ _ _ (by decide)

theorem exec_moves (s : State Base) (c : Call Base) (hc : c ≠ .scan) : Moves s c (exec cat cfg policy s c).1 := by
  have hexec := executed cat cfg policy s c
  generalize (exec cat cfg policy s c).1 = s' at hexec ⊢
  cases hexec with
  | failed => exact .of_eq c rfl rfl (Nat.le_refl _)
  | scan => exact absurd rfl hc
  | claim => exact moves_claim cfg s
  | prepare h => exact moves_prepare cat policy h
  | startAttempt h => exact moves_startAttempt h
  | finish h => exact moves_finish cat cfg policy h
  | failPreparation h => exact moves_failPreparation cfg h
  | interrupts _ h _ => exact h.moves c
  | reprocess h =>
    obtain ⟨hjobs, hatt, -, hnow⟩ := reprocess_jobs cat cfg policy h
    exact .of_eq _ hjobs hatt hnow.ge
  | cancelReprocessing h => exact (interrupts_cancelReprocessing h).moves _
  | core => exact .of_eq _ rfl rfl (Nat.le_refl _)
  | outside _ jobs attempts _ _ now => exact .of_eq c jobs attempts now

/-! ## The limits of the configuration -/

def leasedJobs (s : State Base) : Nat := s.jobs.rows.countP fun r => r.state == .leased

def leasedJobsOf (s : State Base) (processor : String) : Nat :=
  s.jobs.rows.countP fun r => r.state == .leased && (r.plan.steps[r.step]?).any fun st => st.entry.id == processor

def pendingJobs (s : State Base) : Nat := s.jobs.rows.countP fun r => r.state.pending
def retainedJobs (s : State Base) : Nat := s.jobs.rows.length

structure WithinLimits (s : State Base) : Prop where
  leased : leasedJobs s ≤ cfg.concurrency
  pending : pendingJobs s ≤ cfg.queueCapacity
  retained : retainedJobs s ≤ cfg.retainedJobs

theorem retainedJobs_eq (s : State Base) : retainedJobs s = s.jobs.rows.countP fun _ => true := by simp [retainedJobs]

theorem retainedJobs_le_of_keeps (h : Keeps s s') : retainedJobs s' ≤ retainedJobs s := by
  rw [retainedJobs_eq, retainedJobs_eq]
  refine countP_le [] ?_
  intro id r' hr' _
  cases hold : s.jobs.get? id with
  | none => rw [h.absent hold] at hr'; cases hr'
  | some r => exact .inr ⟨r, rfl, rfl⟩

theorem pendingJobs_le_of_keeps (h : Keeps s s') : pendingJobs s' ≤ pendingJobs s := by
  refine countP_le [] ?_
  intro id r' hr' hp'
  cases hold : s.jobs.get? id with
  | none => rw [h.absent hold] at hr'; cases hr'
  | some r =>
    refine .inr ⟨r, rfl, ?_⟩
    obtain ⟨r'', hr'', hev⟩ := h.present hold
    obtain rfl : r'' = r' := Option.some.inj (hr''.symm.trans hr')
    cases hp : r.state.pending with
    | true => rfl
    | false =>
      have hsame := hev.frozen (by simp [JobState.terminal, hp])
      rw [hsame, hp] at hp'
      cases hp'

theorem leasedJobs_le_of_moves (h : Moves s c s') (hc : c ≠ .claim) : leasedJobs s' ≤ leasedJobs s := by
  refine countP_le [] ?_
  intro id r' hr' hleased'
  have hleased' : r'.state = .leased := by simpa using hleased'
  cases hold : s.jobs.get? id with
  | none => rw [h.absent hold] at hr'; cases hr'
  | some r =>
    refine .inr ⟨r, rfl, ?_⟩
    obtain ⟨r'', hr'', hstep⟩ := h.present hold
    obtain rfl : r'' = r' := Option.some.inj (hr''.symm.trans hr')
    suffices hleased : r.state = .leased by simp [hleased]
    cases hstep with
    | quiet _ _ _ _ leased => exact leased hleased'
    | claimed call => exact absurd call hc
    | prepared _ _ _ _ holder => exact holder.leased
    | started _ _ holder => exact holder.leased
    | finished _ _ _ _ _ _ _ _ _ _ free => exact absurd hleased' free

theorem leasedJobs_claim (s : State Base) (hs : leasedJobs s ≤ cfg.concurrency) :
    leasedJobs (claim cfg s).1 ≤ cfg.concurrency := by
  have hexpire : leasedJobs (expireLeases s) ≤ leasedJobs s := by
    refine countP_le [] ?_
    grind [get?_expireLeases, Option.map_eq_some_iff]
  unfold claim
  dsimp only
  split_ifs with hbusy
  · exact hexpire.trans hs
  split
  next => exact hexpire.trans hs
  next r hr =>
    have hone : leasedJobs (updateJob (expireLeases s) r.jobID (leasedRow cfg (expireLeases s))
        (leasedRow_jobID cfg (expireLeases s))) ≤ leasedJobs (expireLeases s) + 1 := by
      refine countP_le [r.jobID] ?_
      grind [get?_updateJob_of_ne]
    grind [leasedJobs]

theorem withinLimits_scan {gone : List Digest} {left : Table (@JobRow.jobID Base)}
    (h : ScanRows cfg s s' gone new left) (hs : WithinLimits cfg s) : WithinLimits cfg s' := by
  have hleft : ∀ {id r}, left.get? id = some r → s.jobs.get? id = some r := by
    intro id r hr
    rw [h.pruned] at hr
    split_ifs at hr
    exact hr
  -- a property of rows that newborn ones may have: counted from what is left, and from the start
  have hcount : ∀ q : JobRow Base → Bool, s'.jobs.rows.countP q ≤ left.rows.countP q + new.length ∧
        left.rows.countP q ≤ s.jobs.rows.countP q := by
    intro q
    constructor
    · refine countP_le new ?_
      intro id r hr hq
      rcases h.fresh hr with hold | ⟨hid, -⟩
      · exact .inr ⟨r, hold, hq⟩
      · exact .inl hid
    · refine countP_le [] ?_
      intro id r hr hq
      exact .inr ⟨r, hleft hr, hq⟩
  obtain ⟨hpend, hpend'⟩ := hcount fun r => r.state.pending
  obtain ⟨hall, hall'⟩ := hcount fun _ => true
  have hspend := hs.pending
  have hsall := hs.retained
  simp only [countP_true] at hall hall'
  refine ⟨?_, ?_, ?_⟩
  · refine le_trans (countP_le [] ?_) hs.leased
    intro id r hr hleased
    rcases h.fresh hr with hold | ⟨-, hnew⟩
    · exact .inr ⟨r, hleft hold, hleased⟩
    · simp [hnew.queued] at hleased
  · unfold pendingJobs at hspend ⊢
    rcases h.room with rfl | ⟨hroom, -⟩
    · rw [length_nil] at hpend
      omega
    · omega
  · unfold retainedJobs at hsall ⊢
    rcases h.room with rfl | ⟨-, hroom⟩
    · rw [length_nil] at hall
      omega
    · omega

/-- **Step lemma.** -/
theorem withinLimits_exec (hs : WithinLimits cfg s) (c : Call Base) :
    WithinLimits cfg (exec cat cfg policy s c).1 := by
  by_cases hscan : c = .scan
  · subst hscan
    obtain ⟨gone, new, left, hrows⟩ := exec_scan cat cfg policy s
    exact withinLimits_scan cfg hrows hs
  rcases exec_keeps cat cfg policy s c with hkeep | ⟨hc, -⟩
  · refine ⟨?_, (pendingJobs_le_of_keeps hkeep).trans hs.pending, (retainedJobs_le_of_keeps hkeep).trans hs.retained⟩
    by_cases hclaim : c = .claim
    · subst hclaim
      exact leasedJobs_claim cfg s hs.leased
    · exact (leasedJobs_le_of_moves (exec_moves cat cfg policy s c hscan) hclaim).trans hs.leased
  · exact absurd hc hscan

theorem withinLimits_initial (now : Time) : WithinLimits cfg (initial Base now) :=
  ⟨Nat.zero_le _, Nat.zero_le _, Nat.zero_le _⟩

/-- **Run lemma.** -/
theorem withinLimits_stateAt (start : Time) (schedule : Nat → Call Base) (k : Nat) :
    WithinLimits cfg (stateAt cat cfg policy start schedule k) :=
  Run.stateAt_invariant (I := WithinLimits cfg) _ (withinLimits_initial cfg start)
    (fun _ c hs => withinLimits_exec cat cfg policy hs c) schedule k

theorem leasedJobsOf_le (s : State Base) (processor : String) : leasedJobsOf s processor ≤ leasedJobs s := by
  refine countP_mono_left ?_
  intro r _ hr
  exact (Bool.and_eq_true _ _ ▸ hr).1

/-- **The queue stays within its limits**: at most `Concurrency` jobs are leased, `QueueCapacity` pending, and
`RetainedJobs` have a row. -/
theorem queue_within_limits (start : Time) (schedule : Nat → Call Base) (k : Nat) :
    leasedJobs (stateAt cat cfg policy start schedule k) ≤ cfg.concurrency ∧
    (∀ processor, leasedJobsOf (stateAt cat cfg policy start schedule k) processor ≤ cfg.concurrency) ∧
    pendingJobs (stateAt cat cfg policy start schedule k) ≤ cfg.queueCapacity ∧
    retainedJobs (stateAt cat cfg policy start schedule k) ≤ cfg.retainedJobs := by
  have hlimits := withinLimits_stateAt cat cfg policy start schedule k
  refine ⟨hlimits.leased, ?_, hlimits.pending, hlimits.retained⟩
  intro processor
  exact (leasedJobsOf_le _ processor).trans hlimits.leased

end BitAgent.Processors
