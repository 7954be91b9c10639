/-
# Processors.AttemptWindow — the window of the latest 500 terminal attempts

`attemptWindow` of `internal/processors/attempt_window.go`. The report measures the latest 500 terminal attempts of
an execution generation, read from rows that `pruneJobs` deletes, and compares the oldest with a floor: the newest
end among the attempts that were ever deleted. `recordedBefore` is a history that nothing deletes from: the terminal
rows that are left and those that were pruned, none of which is newer than the floor (`Prunes`), and none written
again (`AttemptStep`).

Times are printed by a parameter `stamp`; the start of the execution generation comes in with the call.
-/
import BitAgent.Processors.JobHistory

namespace BitAgent.Processors

open Lib ProcessorApi List Table

deriving instance DecidableEq for AttemptRow

variable {Base : Type}

/-! ## The report -/

structure Window where
  start : String
  end_ : String

/-- `v1.Measurement`. The values here are counts. -/
structure Measurement where
  value : Option Nat
  unit : String
  window : Window
  population : String
  source : String
  unavailableReason : String

def measurement (value : Option Nat) (unit start end_ population source : String) : Measurement where
  value := value
  unit := unit
  window := { start := start, end_ := end_ }
  population := population
  source := source
  unavailableReason := if value.isNone then "not_measured" else ""

def technicalFailureWindowSize : Nat := 500

def AttemptRow.endedAt (a : AttemptRow) : Time := a.finishedAt.getD 0

/-- `ORDER BY finished_at DESC,job_id DESC,lease_generation DESC`. -/
def AttemptRow.Precedes (a b : AttemptRow) : Prop :=
  b.endedAt < a.endedAt ∨ (b.endedAt = a.endedAt ∧
    (b.jobID < a.jobID ∨ (b.jobID = a.jobID ∧ b.leaseGeneration ≤ a.leaseGeneration)))

instance : DecidableRel AttemptRow.Precedes := fun _ _ => by unfold AttemptRow.Precedes; infer_instance

/-- `processor_id=$1 AND generation=$2 AND finished_at IS NOT NULL`. -/
def terminalOf (id : String) (generation : Nat) (a : AttemptRow) : Bool :=
  a.processorID == id && a.generation == generation && a.finishedAt.isSome

/-- `recent`. -/
def recentAttempts (s : State Base) (id : String) (generation : Nat) : List AttemptRow :=
  ((s.attempts.rows.filter (terminalOf id generation)).insertionSort AttemptRow.Precedes).take
    technicalFailureWindowSize

structure Sample where
  count : Nat
  failures : Nat
  unknown : Nat
  deferred : Nat
  progress : Nat
  first : Option Time
  last : Option Time
  floor : Time
  unfinished : Nat

/-- The aggregates over `recent`. -/
def sampleOf (recent : List AttemptRow) (floor : Time) (unfinished : Nat) : Sample where
  count := recent.length
  failures := recent.countP (·.outcome == "failed")
  unknown := recent.countP fun a =>
    !(["completed", "abstained", "deferred", "failed", "excluded", "unmatched"].contains a.outcome)
  deferred := recent.countP (·.outcome == "deferred")
  progress := recent.countP fun a => decide (floor < a.endedAt)
  first := (recent.map (·.endedAt)).min?
  last := (recent.map (·.endedAt)).max?
  floor := floor
  unfinished := unfinished

def Sample.complete (x : Sample) : Bool :=
  x.count == technicalFailureWindowSize && x.first.any fun t => decide (x.floor < t)

section
variable (stamp : Time → String)

def windowMeasurements (generation : Nat) (x : Sample) (now : String) : List (String × Measurement) :=
  let start := (x.first.map stamp).getD now
  let end_ := (x.last.map stamp).getD now
  let population := "latest 500 terminal attempts for processor execution generation " ++ toString generation
  let put (key : String) (value : Option Nat) (reason : String) : String × Measurement :=
    ("technical_failure_window_" ++ key,
      { measurement value "count" start end_ population "core_postgres" with unavailableReason := reason })
  if !x.complete then
    let reason := if x.count == technicalFailureWindowSize then "retention_history_incomplete"
      else "insufficient_attempt_history"
    [put "attempts" none reason, put "failures" none reason, put "unknown" none reason, put "deferred" none reason]
  else
    [put "attempts" (some x.count) "", put "unknown" (some x.unknown) "", put "deferred" (some x.deferred) "",
      if x.unknown ≠ 0 then put "failures" none "unresolved_attempt_outcomes"
      else if x.deferred ≠ 0 then put "failures" none "deferred_attempts_unclassified"
      else put "failures" (some x.failures) ""]

def prefixReason (x : Sample) (executionStart : Option Time) : String :=
  if x.count ≥ technicalFailureWindowSize then "fixed_window_population_reached"
  else match executionStart with
    | none => "execution_start_unknown"
    | some t =>
      if !decide (x.floor < t) || x.first.any (fun f => decide (f < t)) then "retention_history_incomplete"
      else ""

def prefixMeasurements (generation : Nat) (x : Sample) (executionStart : Option Time) (now : String) :
    List (String × Measurement) :=
  let start := (executionStart.map stamp).getD now
  let population := "complete startup prefix (0-499 terminal attempts) for processor execution generation " ++
    toString generation
  [("attempts", x.count), ("failures", x.failures), ("unknown", x.unknown), ("deferred", x.deferred),
      ("unfinished", x.unfinished)].map fun (key, n) =>
    let reason := if prefixReason x executionStart = "" ∧ key = "failures" then
      if x.unknown ≠ 0 then "unresolved_attempt_outcomes"
      else if x.deferred ≠ 0 then "deferred_attempts_unclassified" else ""
      else prefixReason x executionStart
    ("technical_failure_prefix_" ++ key,
      { measurement (if reason = "" then some n else none) "count" start now population "core_postgres" with
        unavailableReason := reason })

def windowReport (generation : Nat) (x : Sample) (executionStart : Option Time) (now : String) :
    List (String × Measurement) :=
  windowMeasurements stamp generation x now ++
    [("technical_failure_window_progress", measurement (some x.progress) "count" (stamp x.floor) now
        "retained terminal attempts after the completeness floor, capped at 500" "core_postgres"),
      ("technical_failure_window_unfinished", measurement (some x.unfinished) "count" now now
        "unfinished retained attempts for the processor execution generation; not counted as successes"
        "core_postgres")] ++
    prefixMeasurements stamp generation x executionStart now

def unfinishedOf (s : State Base) (id : String) (generation : Nat) : Nat :=
  s.attempts.rows.countP fun a => a.processorID == id && a.generation == generation && a.finishedAt.isNone

def attemptWindow (s : State Base) (entry : Entry) (executionStart : Option Time) (now : String) :
    List (String × Measurement) :=
  windowReport stamp entry.executionGeneration
    (sampleOf (recentAttempts s entry.id entry.executionGeneration) s.control.attemptHistoryFloor
      (unfinishedOf s entry.id entry.executionGeneration))
    executionStart now

def WindowAvailable (report : List (String × Measurement)) : Prop :=
  ∃ m, report.lookup "technical_failure_window_attempts" = some m ∧ m.value.isSome = true

theorem windowAvailable_iff {generation : Nat} {x : Sample} {executionStart : Option Time} {now : String} :
    WindowAvailable (windowReport stamp generation x executionStart now) ↔ x.complete = true := by
  have hkey : "technical_failure_window_attempts" = "technical_failure_window_" ++ "attempts" := rfl
  unfold WindowAvailable windowReport windowMeasurements
  rw [hkey]
  cases x.complete with
  | false =>
    simp only [Bool.not_false, ↓reduceIte, cons_append, lookup_cons_self]
    simp [measurement]
  | true =>
    simp only [Bool.not_true, Bool.false_eq_true, ↓reduceIte, cons_append, lookup_cons_self]
    simp [measurement]

end

/-! ## What a call does to the attempts -/

/-- The lease number `k` of a job is not held. -/
def Free (s : State Base) (k : Digest × Nat) : Prop :=
  ∀ r, s.jobs.get? k.1 = some r → r.state = .leased → r.leaseGeneration ≠ k.2

/-- A call but no scan, and the attempt under `k`: nothing, its end with its lease, or its start. -/
inductive AttemptStep (s' : State Base) (k : Digest × Nat) : Option AttemptRow → Option AttemptRow → Prop
  | same (a : Option AttemptRow) : AttemptStep s' k a a
  | ended {a a' : AttemptRow} (unfinished : a.finishedAt = none) (free : Free s' k) :
      AttemptStep s' k (some a) (some a')
  | started {a : AttemptRow} {r : JobRow Base} (unfinished : a.finishedAt = none)
      (row : s'.jobs.get? k.1 = some r) (generation : r.leaseGeneration = k.2) :
      AttemptStep s' k none (some a)

/-- Every attempt takes a step, and the floor stays. -/
structure Records (s s' : State Base) : Prop where
  floor : s'.control.attemptHistoryFloor = s.control.attemptHistoryFloor
  attempts : ∀ k, AttemptStep s' k (s.attempts.get? k) (s'.attempts.get? k)

theorem Records.of_eq {s s' : State Base} (hatt : s'.attempts = s.attempts)
    (hfloor : s'.control.attemptHistoryFloor = s.control.attemptHistoryFloor) : Records s s' where
  floor := hfloor
  attempts k := by
    rw [hatt]
    exact .same _

theorem Records.of_update {s s' : State Base} {p : AttemptRow → Bool} {f : AttemptRow → AttemptRow}
    (hget : ∀ k, s'.attempts.get? k = (s.attempts.get? k).map fun a => if p a then f a else a)
    (hsel : ∀ k a, s.attempts.get? k = some a → p a = true → a.finishedAt = none ∧ Free s' k)
    (hfloor : s'.control.attemptHistoryFloor = s.control.attemptHistoryFloor) : Records s s' where
  floor := hfloor
  attempts k := by
    rw [hget]
    cases ha : s.attempts.get? k with
    | none => exact .same none
    | some a =>
      rw [Option.map_some]
      cases hp : p a with
      | false =>
        rw [if_neg Bool.false_ne_true]
        exact .same _
      | true =>
        obtain ⟨hopen, hfree⟩ := hsel k a ha hp
        exact .ended hopen hfree

theorem Records.of_close {s s' : State Base} {leases : List (Digest × Nat)} {outcome reason : String}
    (hatt : s'.attempts = closeAttempts s leases outcome reason)
    (hfree : ∀ k ∈ leases, Free s' k)
    (hfloor : s'.control.attemptHistoryFloor = s.control.attemptHistoryFloor) : Records s s' := by
  refine .of_update (p := fun a => leases.contains (a.jobID, a.leaseGeneration) && a.finishedAt.isNone)
    (f := fun a => { a with finishedAt := some s.now, outcome := outcome, reason := reason }) ?_ ?_ hfloor
  · intro k
    rw [hatt]
    exact get?_update _ _ _ (by intro _; rfl) k
  · grind [Option.isNone_iff_eq_none, get?_key]

theorem Interrupts.records {s s' : State Base} (h : Interrupts s s') : Records s s' := by
  cases h with
  | spares _ floor _ _ attempts => exact .of_eq attempts floor
  | ends _ floor p state reason attemptReason terminal _ jobs attempts =>
    refine .of_close attempts ?_ floor
    intro k hk r' hr' hleased
    obtain ⟨r, hr, rfl⟩ := mem_map.mp hk
    obtain ⟨hrow, hp⟩ := mem_filter.mp hr
    rw [jobs, get?_endJobs, get?_of_mem hrow, Option.map_some, if_pos hp] at hr'
    cases hr'
    replace hleased : state = .leased := hleased
    rw [hleased] at terminal
    cases terminal

variable (cat : Catalogue Base) (cfg : Config) (policy : String)

theorem claim_rows (s : State Base) :
    (claim cfg s).1.attempts = (expireLeases s).attempts ∧ (claim cfg s).1.control = s.control ∧
      ∀ id r', (claim cfg s).1.jobs.get? id = some r' → ∃ r, (expireLeases s).jobs.get? id = some r ∧
        (r' = r ∨ r' = leasedRow cfg (expireLeases s) r) := by
  unfold claim
  dsimp only
  split_ifs
  · exact ⟨rfl, rfl, fun id r' hr' => ⟨r', hr', .inl rfl⟩⟩
  split
  next => exact ⟨rfl, rfl, fun id r' hr' => ⟨r', hr', .inl rfl⟩⟩
  next r hr =>
    obtain ⟨hrow, -⟩ := nextJob_pending hr
    have hlease := rewrites_updateJob (leasedRow_jobID cfg (expireLeases s)) hrow
    refine ⟨rfl, rfl, fun id r' hr' => ?_⟩
    by_cases hid : id = r.jobID
    · subst hid
      exact ⟨r, hrow, .inr (Option.some.inj (hr'.symm.trans hlease.after))⟩
    · exact ⟨r', (hlease.others hid).symm.trans hr', .inl rfl⟩

theorem records_claim (s : State Base) : Records s (claim cfg s).1 := by
  obtain ⟨hatt, hcontrol, hrows⟩ := claim_rows cfg s
  refine .of_close hatt ?_ (by rw [hcontrol])
  intro k hk r' hr' hleased
  obtain ⟨r, hr, rfl⟩ := mem_map.mp hk
  obtain ⟨hrow, hexpired⟩ := mem_filter.mp hr
  obtain ⟨r1, hr1, hcase⟩ := hrows _ r' hr'
  rw [get?_expireLeases, get?_of_mem hrow, Option.map_some, if_pos hexpired] at hr1
  cases hr1
  -- the row lost its lease; if it was leased again, then under the next number
  rcases hcase with rfl | rfl
  · cases hleased
  · exact Nat.succ_ne_self _

theorem records_startAttempt {s s' : State Base} {l : Lease Base} (h : startAttempt s l = .ok s') : Records s s' := by
  unfold startAttempt at h
  split at h
  · cases h
  next row hrow =>
    obtain ⟨hholds, h⟩ := reject_bind_eq_ok.mp h
    split at h
    · cases h
    next st _ =>
      obtain ⟨hfree, h⟩ := reject_bind_eq_ok.mp h
      cases h
      obtain ⟨-, hgen, -⟩ := holdsNow_iff.mp (by simpa using hholds)
      refine ⟨rfl, fun k => ?_⟩
      show AttemptStep _ k _ ((s.attempts.insertNew _).get? k)
      rw [get?_insertNew]
      cases ha : s.attempts.get? k with
      | some a =>
        rw [Option.some_or]
        exact .same _
      | none =>
        rw [Option.none_or]
        split_ifs with hk
        · have hafter := (rewrites_updateJob startedRow_jobID hrow).after
          exact .started rfl (by rw [← hk]; exact hafter) (by rw [← hk]; exact hgen)
        · exact .same none

theorem finish_attempts {s s' : State Base} {l : Lease Base} {j : Job} {r : Result}
    {dispatched applied : Bool} (h : finish cat cfg policy s l j r dispatched = .ok (s', applied)) :
    s'.attempts = (if dispatched then finishAttempt s l r else s).attempts := by
  unfold finish at h
  split at h
  · cases h
  split at h
  · cases h
  obtain ⟨-, h⟩ := reject_bind_eq_ok.mp h
  obtain ⟨-, h⟩ := reject_bind_eq_ok.mp h
  generalize (if dispatched then finishAttempt s l r else s) = s1 at h ⊢
  split at h
  · cases h
    rfl
  obtain ⟨-, h⟩ := reject_bind_eq_ok.mp h
  split at h
  · unfold finishLast at h
    split at h
    · cases h
      rfl
    · cases h
      rfl
    · cases h
    · obtain ⟨s2, hs2, h⟩ := accepted_bind_iff.mp h
      cases h
      unfold applyResults at hs2
      split at hs2
      · cases hs2
      · obtain ⟨src, -, hs2⟩ := accepted_bind_iff.mp hs2
        cases hs2
        rfl
  · cases h
    rfl

/-- Each attempt belongs to a job that kept its lease number, and an ended one's is not held. -/
def Settled (s : State Base) : Prop :=
  ∀ k a, s.attempts.get? k = some a →
    (∃ r, s.jobs.get? k.1 = some r ∧ k.2 ≤ r.leaseGeneration) ∧ (a.finishedAt ≠ none → Free s k)

theorem records_finish {s s' : State Base} {l : Lease Base} {j : Job} {r : Result}
    {dispatched applied : Bool} (hs : Settled s)
    (h : finish cat cfg policy s l j r dispatched = .ok (s', applied)) : Records s s' := by
  have hatt := finish_attempts cat cfg policy h
  obtain ⟨row, row', hholder, hof, hrewrite⟩ := finish_row cat cfg policy h
  have hfloor : s'.control.attemptHistoryFloor = s.control.attemptHistoryFloor := by rw [hrewrite.control]
  cases dispatched with
  | false => exact .of_eq hatt hfloor
  | true =>
    refine .of_update (p := fun a => a.jobID == l.id && a.leaseGeneration == l.generation)
      (f := fun a => { a with finishedAt := some s.now, outcome := r.outcome.text,
                              reason := attemptReason r }) ?_ ?_ hfloor
    · intro k
      rw [hatt]
      exact get?_update _ _ _ (by intro _; rfl) k
    · intro k a ha hp
      simp only [Bool.and_eq_true, beq_iff_eq] at hp
      have hkey : k = (l.id, l.generation) := by rw [← get?_key ha, hp.1, hp.2]
      subst hkey
      constructor
      · -- the lease was held, so its attempt had not ended
        by_contra hended
        exact (hs _ a ha).2 hended row hholder.row hholder.leased hholder.generation
      · intro r1 hr1 hleased
        obtain rfl : row' = r1 := Option.some.inj (hrewrite.after.symm.trans hr1)
        cases hof <;> cases hleased

theorem exec_records {s : State Base} (hs : Settled s) (c : Call Base) (hc : c ≠ .scan) :
    Records s (exec cat cfg policy s c).1 := by
  have hexec := executed cat cfg policy s c
  generalize (exec cat cfg policy s c).1 = s' at hexec ⊢
  cases hexec with
  | failed => exact .of_eq rfl rfl
  | scan => exact absurd rfl hc
  | claim => exact records_claim cfg s
  | prepare h =>
    obtain ⟨row, hrow, -, ⟨-, hsame⟩ | ⟨-, hsame⟩⟩ := prepare_row cat policy h
    · rw [hsame]
      exact .of_eq rfl rfl
    · rw [hsame]
      exact .of_eq rfl rfl
  | startAttempt h => exact records_startAttempt h
  | finish h => exact records_finish cat cfg policy hs h
  | failPreparation h =>
    obtain ⟨row, hrow, -, rfl⟩ := failPreparation_row cfg h
    exact .of_eq rfl rfl
  | interrupts _ h _ => exact h.records
  | reprocess h =>
    obtain ⟨-, hatt, hcontrol, -⟩ := reprocess_jobs cat cfg policy h
    exact .of_eq hatt (by rw [hcontrol])
  | cancelReprocessing h => exact (interrupts_cancelReprocessing h).records
  | core => exact .of_eq rfl rfl
  | outside _ _ attempts control _ _ => exact .of_eq attempts (by rw [control])

theorem RowStep.free {s : State Base} {c : Call Base} {noted : Attempts} {r r' : JobRow Base} {g : Nat}
    (h : RowStep s c noted r r') (hle : g ≤ r.leaseGeneration)
    (hfree : r.state = .leased → r.leaseGeneration ≠ g) : r'.state = .leased → r'.leaseGeneration ≠ g := by
  intro hleased
  cases h with
  | quiet _ _ _ generation leased _ =>
    rw [generation]
    exact hfree (leased hleased)
  | claimed _ _ _ _ generation _ => omega
  | prepared l built j _ _ _ result =>
    subst result
    exact hfree hleased
  | started l _ _ _ result =>
    subst result
    exact hfree hleased
  | finished l j res dispatched _ _ _ _ _ _ free _ => exact absurd hleased free

theorem Settled.records {s s' : State Base} {c : Call Base} (hs : Settled s) (hm : Moves s c s')
    (hr : Records s s') : Settled s' := by
  intro k a' ha'
  have hstep := hr.attempts k
  cases ha : s.attempts.get? k with
  | none =>
    rw [ha, ha'] at hstep
    cases hstep with
    | started unfinished row generation => grind
  | some a =>
    obtain ⟨⟨r, hrow, hle⟩, hfree⟩ := hs k a ha
    obtain ⟨r', hrow', hrs⟩ := hm.present hrow
    refine ⟨⟨r', hrow', hle.trans hrs.generation_le⟩, fun hended => ?_⟩
    rw [ha, ha'] at hstep
    cases hstep with
    | same =>
      intro r1 hr1
      obtain rfl : r' = r1 := Option.some.inj (hrow'.symm.trans hr1)
      exact hrs.free hle (hfree hended r hrow)
    | ended _ free => exact free

/-! ## What a scan does to the attempts -/

/-- Some attempts go, none of them newer than the floor afterwards. -/
structure Prunes (s s' : State Base) : Prop where
  rows : ∃ gone : AttemptRow → Bool, s'.attempts.rows = s.attempts.rows.filter (!gone ·) ∧
    ∀ a ∈ s.attempts.rows, gone a = true → a.finishedAt ≠ none → a.endedAt ≤ s'.control.attemptHistoryFloor
  floor : s.control.attemptHistoryFloor ≤ s'.control.attemptHistoryFloor

theorem Prunes.of_eq {s s' : State Base} (hatt : s'.attempts = s.attempts)
    (hfloor : s'.control.attemptHistoryFloor = s.control.attemptHistoryFloor) : Prunes s s' where
  rows := ⟨fun _ => false, by rw [hatt]; simp, fun _ _ h => by cases h⟩
  floor := hfloor.ge

theorem le_foldl_max {α : Type} (f : α → Nat) (l : List α) (m : Nat) :
    m ≤ l.foldl (fun m a => max m (f a)) m ∧ ∀ a ∈ l, f a ≤ l.foldl (fun m a => max m (f a)) m := by
  induction l generalizing m with
  | nil => exact ⟨Nat.le_refl m, fun _ h => by cases h⟩
  | cons x l ih => grind

theorem prunes_pruneJobs (s : State Base) : Prunes s (pruneJobs cfg s) := by
  obtain ⟨hfloor, hgone⟩ := le_foldl_max (fun a : AttemptRow => a.finishedAt.getD a.startedAt)
    (s.attempts.rows.filter fun a => (doomed cfg s).contains a.jobID) s.control.attemptHistoryFloor
  refine ⟨⟨fun a => (doomed cfg s).contains a.jobID, rfl, fun a ha hdoomed hended => ?_⟩, hfloor⟩
  obtain ⟨t, ht⟩ := Option.ne_none_iff_exists'.mp hended
  have hle := hgone a (mem_filter.mpr ⟨ha, hdoomed⟩)
  rw [ht] at hle
  unfold AttemptRow.endedAt
  rw [ht]
  exact hle

theorem prunes_scan {s s' : State Base} {n : Nat} (h : scan cat cfg policy s = .ok (s', n)) : Prunes s s' := by
  have hprune : ∀ {s1 plan draining}, settleReprocessing cat policy s plan draining = .ok s1 →
      Prunes s (pruneJobs cfg s1) := by
    intro s1 plan draining hsettle
    obtain ⟨-, hcontrol, -, hatt⟩ := settleReprocessing_jobs cat policy hsettle
    obtain ⟨hrows, hfloor⟩ := prunes_pruneJobs cfg s1
    rw [hatt] at hrows
    rw [hcontrol] at hfloor
    exact ⟨hrows, hfloor⟩
  cases scan_phases cat cfg policy h with
  | settled settle =>
    obtain ⟨-, hcontrol, -, hatt⟩ := settleReprocessing_jobs cat policy settle
    exact .of_eq hatt (by rw [hcontrol])
  | pruned s1 settle result =>
    rw [result]
    exact hprune settle
  | admitted s1 s2 priority hashes after n settle room loop result =>
    obtain ⟨cursor, rfl⟩ := result
    -- the admission loop touches neither the attempts nor the floor
    obtain ⟨hatt, hfloor⟩ : s2.attempts = (pruneJobs cfg s1).attempts ∧
        s2.control.attemptHistoryFloor = (pruneJobs cfg s1).control.attemptHistoryFloor := by
      refine admitAll_invariant cat (I := fun x => x.attempts = (pruneJobs cfg s1).attempts ∧
        x.control.attemptHistoryFloor = (pruneJobs cfg s1).control.attemptHistoryFloor) ?_ ?_ ⟨rfl, rfl⟩ loop
      · intro x hash hx
        unfold holdRequest
        split_ifs
        · exact hx
        · exact hx
      · grind [insertJob]
    obtain ⟨hrows, hle⟩ := hprune settle
    refine ⟨?_, ?_⟩
    · show ∃ gone : AttemptRow → Bool, s2.attempts.rows = _ ∧ ∀ a ∈ s.attempts.rows, gone a = true →
        a.finishedAt ≠ none → a.endedAt ≤ s2.control.attemptHistoryFloor
      rw [hatt, hfloor]
      exact hrows
    · grind

theorem exec_prunes (s : State Base) : Prunes s (exec cat cfg policy s .scan).1 := by
  show Prunes s (committed s ((scan cat cfg policy s).map Prod.fst))
  cases hscan : scan cat cfg policy s with
  | error e => exact .of_eq rfl rfl
  | ok out => exact prunes_scan cat cfg policy hscan

theorem Settled.scan {s s' : State Base} {gone new : List Digest} {left : Table (@JobRow.jobID Base)}
    (hs : Settled s) (h : ScanRows cfg s s' gone new left) : Settled s' := by
  rintro ⟨id, g⟩ a ha
  rw [h.attempts] at ha
  split_ifs at ha with hgone
  obtain ⟨⟨r, hrow, hle⟩, hfree⟩ := hs _ a ha
  have hrow' : s'.jobs.get? id = some r := h.kept (by rw [h.pruned, if_neg hgone]; exact hrow)
  refine ⟨⟨r, hrow', hle⟩, fun hended r1 hr1 => ?_⟩
  obtain rfl : r = r1 := Option.some.inj (hrow'.symm.trans hr1)
  exact hfree hended r hrow

theorem settled_exec {s : State Base} (hs : Settled s) (c : Call Base) : Settled (exec cat cfg policy s c).1 := by
  by_cases hc : c = .scan
  · subst hc
    obtain ⟨gone, new, left, hscan⟩ := exec_scan cat cfg policy s
    exact hs.scan cfg hscan
  · exact hs.records (exec_moves cat cfg policy s c hc) (exec_records cat cfg policy hs c hc)

theorem settled_stateAt (start : Time) (schedule : Nat → Call Base) (k : Nat) :
    Settled (stateAt cat cfg policy start schedule k) :=
  Run.stateAt_invariant (I := Settled) _ (fun _ _ h => by cases h)
    (fun _ c hs => settled_exec cat cfg policy hs c) schedule k

/-! ## The history -/

/-- The attempts that a call recorded as terminal: new rows with an end. -/
def recordedBy (s s' : State Base) : List AttemptRow :=
  s'.attempts.rows.filter fun a => a.finishedAt.isSome && !s.attempts.rows.contains a

/-- The terminal attempts that the first `k` calls recorded; none is ever taken out. -/
def recordedBefore (start : Time) (schedule : Nat → Call Base) (k : Nat) : List AttemptRow :=
  (List.range k).flatMap fun i =>
    recordedBy (stateAt cat cfg policy start schedule i) (stateAt cat cfg policy start schedule (i + 1))

def retained (s : State Base) : List AttemptRow := s.attempts.rows.filter (·.finishedAt.isSome)

theorem Records.retained_perm {s s' : State Base} (h : Records s s') :
    (retained s').Perm (retained s ++ recordedBy s s') := by
  have hsplit := (filter_append_perm (fun a => s.attempts.rows.contains a) (retained s')).symm
  have hnew : (retained s').filter (fun a => !s.attempts.rows.contains a) = recordedBy s s' := by
    unfold retained recordedBy
    rw [filter_filter]
    exact filter_congr fun a _ => Bool.and_comm _ _
  have hold : ((retained s').filter fun a => s.attempts.rows.contains a).Perm (retained s) := by
    have hnodup : ∀ t : State Base, (retained t).Nodup := fun t => (rows_nodup t.attempts).filter _
    refine (perm_ext_iff_of_nodup ((hnodup s').filter _) (hnodup s)).mpr fun a => ?_
    simp only [retained, mem_filter, contains_iff_mem]
    constructor
    · grind
    · rintro ⟨hmem, hended⟩
      refine ⟨⟨?_, hended⟩, hmem⟩
      -- a terminal row is left as it is
      have hget := get?_of_mem hmem
      have hstep := h.attempts (a.jobID, a.leaseGeneration)
      rw [hget] at hstep
      cases hget' : s'.attempts.get? (a.jobID, a.leaseGeneration) with
      | none =>
        rw [hget'] at hstep
        cases hstep
      | some a' =>
        rw [hget'] at hstep
        cases hstep with
        | same => exact get?_mem hget'
        | ended unfinished =>
          rw [unfinished] at hended
          cases hended
  grind

/-- The history: the terminal attempts left, and others not newer than the floor. -/
def Accounted (s : State Base) (recorded : List AttemptRow) : Prop :=
  ∃ dropped, recorded.Perm (retained s ++ dropped) ∧ ∀ a ∈ dropped, a.endedAt ≤ s.control.attemptHistoryFloor

theorem Accounted.records {s s' : State Base} {recorded : List AttemptRow} (h : Accounted s recorded)
    (hr : Records s s') : Accounted s' (recorded ++ recordedBy s s') := by
  obtain ⟨dropped, hperm, hfloor⟩ := h
  refine ⟨dropped, ?_, fun a ha => (hfloor a ha).trans hr.floor.ge⟩
  calc recorded ++ recordedBy s s'
      |>.Perm ((retained s ++ dropped) ++ recordedBy s s') := hperm.append_right _
    _ |>.Perm ((retained s ++ recordedBy s s') ++ dropped) := by grind
    _ |>.Perm (retained s' ++ dropped) := hr.retained_perm.symm.append_right _

theorem Accounted.prunes {s s' : State Base} {recorded : List AttemptRow} (h : Accounted s recorded)
    (hp : Prunes s s') : Accounted s' (recorded ++ recordedBy s s') := by
  obtain ⟨dropped, hperm, hfloor⟩ := h
  obtain ⟨⟨gone, hrows, hgone⟩, hrise⟩ := hp
  have hnone : recordedBy s s' = [] := by grind [recordedBy, filter_eq_nil_iff]
  have hleft : (retained s).filter (!gone ·) = retained s' := by
    unfold retained
    rw [hrows, filter_filter, filter_filter]
    exact filter_congr fun a _ => Bool.and_comm _ _
  refine ⟨(retained s).filter gone ++ dropped, ?_, ?_⟩
  · grind [filter_append_perm]
  · intro a ha
    rcases mem_append.mp ha with ha | ha
    · obtain ⟨hmem, hg⟩ := mem_filter.mp ha
      obtain ⟨hrow, hended⟩ := mem_filter.mp hmem
      exact hgone a hrow hg (Option.isSome_iff_ne_none.mp hended)
    · exact (hfloor a ha).trans hrise

/-- **Run lemma.** Whatever the calls and their order, the history is accounted for. -/
theorem accounted_stateAt (start : Time) (schedule : Nat → Call Base) (k : Nat) :
    Accounted (stateAt cat cfg policy start schedule k) (recordedBefore cat cfg policy start schedule k) := by
  induction k with
  | zero => exact ⟨[], List.Perm.refl _, fun _ h => by cases h⟩
  | succ k ih =>
    have hnext : recordedBefore cat cfg policy start schedule (k + 1) =
        recordedBefore cat cfg policy start schedule k ++ recordedBy (stateAt cat cfg policy start schedule k)
            (stateAt cat cfg policy start schedule (k + 1)) := by
      grind [recordedBefore, range_succ]
    rw [hnext, stateAt_succ]
    by_cases hc : schedule k = .scan
    · rw [hc]
      exact ih.prunes (exec_prunes cat cfg policy _)
    · have hsettled := settled_stateAt cat cfg policy start schedule k
      exact ih.records (exec_records cat cfg policy hsettled _ hc)

/-! ## The window -/

def AttemptRow.Newer (a b : AttemptRow) : Prop := a.Precedes b ∧ ¬ b.Precedes a

/-- `window` holds the latest `n` of the attempts `all`, newest first. -/
structure Latest (n : Nat) (all window : List AttemptRow) : Prop where
  length : window.length = n
  sorted : window.Pairwise AttemptRow.Newer
  others : ∃ older, all.Perm (window ++ older) ∧ ∀ a ∈ window, ∀ b ∈ older, a.Newer b

instance : Std.Total AttemptRow.Precedes := ⟨fun a b => by simp only [AttemptRow.Precedes, Time, Digest]; omega⟩

instance : IsTrans AttemptRow AttemptRow.Precedes :=
  ⟨fun a b c => by simp only [AttemptRow.Precedes, Time, Digest]; omega⟩

theorem AttemptRow.newer_of_key_ne {a b : AttemptRow} (hab : a.Precedes b)
    (hkey : (a.jobID, a.leaseGeneration) ≠ (b.jobID, b.leaseGeneration)) : a.Newer b := by
  refine ⟨hab, fun hba => hkey ?_⟩
  grind [AttemptRow.Precedes]

theorem AttemptRow.newer_of_endedAt_lt {a b : AttemptRow} (h : b.endedAt < a.endedAt) : a.Newer b := by
  refine ⟨.inl h, fun hba => ?_⟩
  grind [AttemptRow.Precedes]

theorem pairwise_newer (s : State Base) (p : AttemptRow → Bool) :
    ((s.attempts.rows.filter p).insertionSort AttemptRow.Precedes).Pairwise AttemptRow.Newer := by
  have hkeys : ((s.attempts.rows.filter p).insertionSort AttemptRow.Precedes).Pairwise fun a b =>
    (a.jobID, a.leaseGeneration) ≠ (b.jobID, b.leaseGeneration) := by
    have hnodup := s.attempts.nodup.sublist (filter_sublist (p := p).map _)
    grind [perm_insertionSort]
  exact (pairwise_insertionSort AttemptRow.Precedes _).imp₂
    (fun _ _ hab hne => AttemptRow.newer_of_key_ne hab hne) hkeys

theorem complete_iff {recent : List AttemptRow} {floor : Time} {unfinished : Nat} :
    (sampleOf recent floor unfinished).complete = true ↔
      recent.length = technicalFailureWindowSize ∧ ∀ a ∈ recent, floor < a.endedAt := by
  have hfirst : (sampleOf recent floor unfinished).first = (recent.map (·.endedAt)).min? := rfl
  unfold Sample.complete
  rw [Bool.and_eq_true, beq_iff_eq, Option.any_eq_true, hfirst]
  refine and_congr_right fun hfull => ?_
  constructor
  · rintro ⟨t, ht, hlt⟩ a ha
    have hmin := (min?_eq_some_iff.mp ht).2 a.endedAt (mem_map.mpr ⟨a, ha, rfl⟩)
    exact (of_decide_eq_true hlt).trans_le hmin
  · intro hafter
    cases ht : (recent.map (·.endedAt)).min? with
    | none =>
      rw [min?_eq_none_iff, map_eq_nil_iff] at ht
      subst ht
      cases hfull
    | some t =>
      obtain ⟨a, ha, rfl⟩ := mem_map.mp (min?_eq_some_iff.mp ht).1
      exact ⟨_, rfl, decide_eq_true (hafter a ha)⟩

theorem Accounted.latest {s : State Base} {recorded : List AttemptRow} (h : Accounted s recorded)
    {id : String} {generation unfinished : Nat}
    (hcomplete : (sampleOf (recentAttempts s id generation) s.control.attemptHistoryFloor unfinished).complete = true) :
    Latest technicalFailureWindowSize (recorded.filter (terminalOf id generation))
      (recentAttempts s id generation) := by
  obtain ⟨dropped, hperm, hfloor⟩ := h
  obtain ⟨hfull, hfirst⟩ := complete_iff.mp hcomplete
  have hsorted := pairwise_newer s (terminalOf id generation)
  unfold recentAttempts at hfull hfirst ⊢
  have hmine : (retained s).filter (terminalOf id generation) = s.attempts.rows.filter (terminalOf id generation) := by
    unfold retained
    rw [filter_filter]
    grind [filter_congr, terminalOf]
  have hsort := perm_insertionSort AttemptRow.Precedes (s.attempts.rows.filter (terminalOf id generation))
  generalize (s.attempts.rows.filter (terminalOf id generation)).insertionSort AttemptRow.Precedes = sorted
    at hfull hfirst hsorted hsort ⊢
  rw [← take_append_drop technicalFailureWindowSize sorted] at hsorted hsort
  obtain ⟨hwindow, -, hacross⟩ := pairwise_append.mp hsorted
  refine ⟨hfull, hwindow, sorted.drop technicalFailureWindowSize ++ dropped.filter (terminalOf id generation), ?_, ?_⟩
  · grind
  · grind [AttemptRow.newer_of_endedAt_lt]

/-- **The window is exact.** It is reported as available exactly if the report is the one of the latest 500 terminal
attempts ever recorded for the generation, all ended after the floor. -/
theorem windowAvailable_iff_latest (stamp : Time → String) (start : Time) (schedule : Nat → Call Base)
    (k : Nat) (entry : Entry) (executionStart : Option Time) (now : String) :
    WindowAvailable (attemptWindow stamp (stateAt cat cfg policy start schedule k) entry executionStart now) ↔
      ∃ latest, Latest 500 ((recordedBefore cat cfg policy start schedule k).filter
          (terminalOf entry.id entry.executionGeneration)) latest ∧
        (∀ a ∈ latest, (stateAt cat cfg policy start schedule k).control.attemptHistoryFloor < a.endedAt) ∧
        attemptWindow stamp (stateAt cat cfg policy start schedule k) entry executionStart now =
          windowReport stamp entry.executionGeneration
            (sampleOf latest (stateAt cat cfg policy start schedule k).control.attemptHistoryFloor
              (unfinishedOf (stateAt cat cfg policy start schedule k) entry.id entry.executionGeneration))
            executionStart now := by
  constructor
  · intro havailable
    have hcomplete := (windowAvailable_iff stamp).mp havailable
    exact ⟨_, (accounted_stateAt cat cfg policy start schedule k).latest hcomplete, (complete_iff.mp hcomplete).2, rfl⟩
  · rintro ⟨latest, hlatest, hfloor, hreport⟩
    rw [hreport, windowAvailable_iff, complete_iff]
    exact ⟨hlatest.length, hfloor⟩

end BitAgent.Processors
