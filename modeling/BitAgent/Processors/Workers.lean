/-
# Processors.Workers — `RunOne`, by any number of workers that may crash

`RunOne` is a sequence of transactions with a call of the service in between. A worker is modelled by its `Phase`; any
other call may come between two steps, and a crash forgets the phase.

`Prepare` and `startAttempt` run under a context that ends `RequestTimeout` after the claim. This matters: the lease
numbers of a job start over when its row was pruned and admitted again. The context and the database read one clock,
and claim and start of the context are one moment. A `Dispatch` is the job that `RunOne` hands to the transport or to
the built-in driver; the transport's encoding, and the reduced jobs that it posts for the same attempt to a service
that refused the first with 400, are not modelled.
-/
import Mathlib.Tactic.IntervalCases
import BitAgent.Processors.JobHistory

namespace BitAgent.Processors

open Lib ProcessorApi List

/-! ## `RunOne` -/

/-- Where a worker is in `RunOne`; its context began at `since`, the job carries `deadline`. -/
inductive Phase (Base : Type) where
  | idle
  | claimed (l : Lease Base) (since : Time)
  | unprepared (l : Lease Base) (e : Err)
  | prepared (l : Lease Base) (since : Time) (j : Job) (deadline : Time)
  | calling (l : Lease Base) (j : Job)
  | answered (l : Lease Base) (j : Job) (r : Result) (dispatched : Bool)

structure Dispatch where
  jobID : Digest
  generation : Nat
  step : Nat
  job : Job
  deadline : Time

/-- What the next step of a worker depends on besides the queue: the assembled job, whether its answer is lost, and
the answer of the service. -/
inductive Input where
  | claim
  | prepare (built : Except String Job) (lost : Bool)
  | start
  | answer (r : Result)
  | finish
  | giveUp
  | crash

structure Action (Base : Type) where
  call : Option (Call Base)
  phase : Phase Base
  sent : List Dispatch := []

/-- The result that stands in when no attempt is left. -/
def exhausted (j : Job) : Result where
  binding := j.binding
  outcome := .failed
  reasons := ["retry_exhausted"]

section
variable {Base : Type} (cat : Catalogue Base) (cfg : Config) (policy : String) (selects : Lease Base → Bool)

def contextEnded (s : State Base) (since : Time) : Bool := decide (s.now > since + cfg.requestTimeout)

/-- `RunOne`, step by step; `selects` is `matchesStepSelector`. An unfit input does nothing. -/
def runOne (s : State Base) : Phase Base → Input → Action Base
  | _, .crash => { call := none, phase := .idle }
  | .idle, .claim =>
    match (claim cfg s).2 with
    | none => { call := some .claim, phase := .idle }
    | some l => { call := some .claim, phase := .claimed l s.now }
  | .claimed l since, .prepare built lost =>
    if contextEnded cfg s since then { call := none, phase := .unprepared l (.other "context deadline exceeded") }
    else match prepare cat policy s l built with
      | .error e => { call := none, phase := .unprepared l e }
      | .ok (_, j) =>
        { call := some (.prepare l built)
          phase := if lost then .unprepared l (.other "connection lost")
            else .prepared l since j (s.now + cfg.requestTimeout) }
  | .unprepared l e, .giveUp =>
    if e = .stale ∨ e = .noRows then { call := some (.abandon l "source_changed"), phase := .idle }
    else { call := some (.failPreparation l), phase := .idle }
  | .prepared l since j deadline, .start =>
    if !selects l then { call := none, phase := .answered l j (skipReceipt j).result false }
    else if l.stepAttempts < cfg.maxAttempts then
      if contextEnded cfg s since then { call := none, phase := .idle }
      else match startAttempt s l with
        | .error _ => { call := none, phase := .idle }
        | .ok _ =>
          { call := some (.startAttempt l)
            phase := .calling l j
            sent := [{ jobID := l.id, generation := l.generation, step := l.step, job := j,
                       deadline := deadline }] }
    else { call := none, phase := .answered l j (exhausted j) false }
  | .calling l j, .answer r => { call := none, phase := .answered l j r true }
  | .answered l j r dispatched, .finish => { call := some (.finish l j r dispatched), phase := .idle }
  | phase, _ => { call := none, phase := phase }

/-! ## The system -/

def Call.outside : Call Base → Bool
  | .claim | .prepare .. | .startAttempt _ | .finish .. | .abandon .. | .failPreparation _ => false
  | _ => true

structure System (W Base : Type) where
  queue : State Base
  workers : W → Phase Base
  sent : List Dispatch

inductive Event (W Base : Type) where
  | work (w : W) (i : Input)
  | outside (c : Call Base)

def recorded (s : State Base) (d : Dispatch) : Bool := (s.attempts.get? (d.jobID, d.generation)).isSome

def advance (s : State Base) : Option (Call Base) → State Base
  | none => s
  | some c => (exec cat cfg policy s c).1

variable {W : Type} [DecidableEq W]

def sends (sys : System W Base) : Event W Base → List Dispatch
  | .work w i => (runOne cat cfg policy selects sys.queue (sys.workers w) i).sent
  | .outside _ => []

def System.step (sys : System W Base) : Event W Base → System W Base
  | .work w i =>
    let a := runOne cat cfg policy selects sys.queue (sys.workers w) i
    let queue := advance cat cfg policy sys.queue a.call
    { queue := queue
      workers := Function.update sys.workers w a.phase
      sent := (sys.sent ++ a.sent).filter (recorded queue) }
  | .outside c =>
    let queue := if c.outside then (exec cat cfg policy sys.queue c).1 else sys.queue
    { sys with queue := queue, sent := sys.sent.filter (recorded queue) }

def System.initial (W Base : Type) (start : Time) : System W Base where
  queue := Processors.initial Base start
  workers _ := .idle
  sent := []

/-- The system before event `k`. -/
def systemAt (start : Time) (events : Nat → Event W Base) (k : Nat) : System W Base :=
  Run.stateAt (System.step cat cfg policy selects) (.initial W Base start) events k

/-- Everything that the events from `i` to before `i + n` send. -/
def sentBetween (start : Time) (events : Nat → Event W Base) (i : Nat) : Nat → List Dispatch
  | 0 => []
  | n + 1 => sentBetween start events i n ++
      sends cat cfg policy selects (systemAt cat cfg policy selects start events (i + n)) (events (i + n))

end

/-! ## A worker that follows its lease -/

section
variable {Base : Type} {s : State Base} {c : Call Base} {r : JobRow Base}

theorem RowStep.ended_now {noted : Attempts} {r' : JobRow Base} (h : RowStep s c noted r r') {t : Time}
    (ht : r'.finishedAt = some t) :
    r.finishedAt = some t ∨ t = s.now := by
  cases h with
  | quiet _ _ _ _ _ ended => exact ended t ht
  | claimed _ _ _ _ _ ended => exact .inl (ended ▸ ht)
  | prepared _ _ _ _ _ _ result => rw [result] at ht; exact .inl ht
  | started _ _ _ _ result => rw [result] at ht; exact .inl ht
  | finished _ _ _ _ _ _ _ _ _ _ _ ended => exact .inr (ended t ht)

variable {l : Lease Base}

theorem RowStep.presents {noted : Attempts} {r' : JobRow Base} (h : RowStep s c noted r r') (hid : r.jobID = l.id)
    (hgen : l.generation ≤ r.leaseGeneration) (hl : Presents l r') :
    Presents l r ∧ r'.step = r.step ∧ (noted.get? (l.id, l.generation) = none → r'.stepAttempts = r.stepAttempts) ∧
      (r.preparedJob ≠ none → r'.preparedJob = r.preparedJob) := by
  cases h with
  | quiet step attempts prepared generation leased =>
    exact ⟨⟨hid, leased hl.leased, generation ▸ hl.generation⟩, step, fun _ => attempts, fun _ => prepared⟩
  | claimed _ _ _ _ generation =>
    -- a claim starts another lease
    have := hl.generation
    omega
  | prepared _ _ _ _ holder unprepared result =>
    subst result
    exact ⟨⟨hid, holder.leased, hl.generation⟩, rfl, fun _ => rfl, fun h => absurd unprepared h⟩
  | started l' _ holder attempt result =>
    subst result
    refine ⟨⟨hid, holder.leased, hl.generation⟩, rfl, ?_, fun _ => rfl⟩
    intro hnone
    have hkey : (l'.id, l'.generation) = (l.id, l.generation) := by
      rw [← holder.id, ← holder.generation, hid]
      exact congrArg (Prod.mk l.id) hl.generation
    rw [hkey] at attempt
    exact absurd hnone attempt
  | finished _ _ _ _ _ _ _ _ _ _ free => exact absurd hl.leased free

/-- The row of a lease from `since` is as the lease says, and a prepared job is stored. -/
structure Tracks (s : State Base) (l : Lease Base) (since : Time) (job : Option Job)
    (r : JobRow Base) : Prop where
  row : s.jobs.get? l.id = some r
  generation : l.generation ≤ r.leaseGeneration
  ended : ∀ {t}, r.finishedAt = some t → since ≤ t
  step : Presents l r → r.step = l.step
  attempts : Presents l r → s.attempts.get? (l.id, l.generation) = none → r.stepAttempts = l.stepAttempts
  prepared : ∀ {j}, job = some j → Presents l r → r.preparedJob = some j

variable {s' : State Base} {since : Time} {job : Option Job}

theorem Tracks.moves (h : Tracks s l since job r) (hm : Moves s c s') (hsince : since ≤ s.now) :
    ∃ r', Tracks s' l since job r' := by
  obtain ⟨r', hr', hstep⟩ := hm.present h.row
  have hpres := hstep.presents (Table.get?_key h.row) h.generation
  refine ⟨r', hr', h.generation.trans hstep.generation_le, ?_, ?_, ?_, ?_⟩
  · intro t ht
    rcases hstep.ended_now ht with hold | rfl
    · exact h.ended hold
    · exact hsince
  · intro hl
    obtain ⟨hl0, hstep', -⟩ := hpres hl
    exact hstep'.trans (h.step hl0)
  · intro hl hnone
    obtain ⟨hl0, -, hatt, -⟩ := hpres hl
    exact (hatt hnone).trans (h.attempts hl0 (hm.attempts hnone))
  · intro j hj hl
    obtain ⟨hl0, -, -, hprep⟩ := hpres hl
    have hold := h.prepared hj hl0
    grind

variable (cat : Catalogue Base) (cfg : Config) (policy : String) {left : Table (@JobRow.jobID Base)}

theorem Tracks.scan (h : Tracks s l since job r) {gone new : List Digest} (hrows : ScanRows cfg s s' gone new left)
    (hs : Consistent s) (hcfg : cfg.Bounded) :
    contextEnded cfg s' since = true ∨ ∃ r', Tracks s' l since job r' := by
  by_cases hgone : l.id ∈ gone
  · left
    obtain ⟨r0, t, hr0, -, hfin, hold⟩ := prunable_of_doomed cfg hs (hrows.doomed hgone)
    obtain rfl : r = r0 := Option.some.inj (h.row.symm.trans hr0)
    have hsince : since ≤ t := h.ended hfin
    have hret := hcfg.retention
    have hlate : since + cfg.requestTimeout < s.now :=
      calc since + cfg.requestTimeout ≤ t + cfg.retention := Nat.add_le_add hsince hret
        _ < s.now := hold
    rw [contextEnded, hrows.now]
    exact decide_eq_true hlate
  · right
    have hrow : s'.jobs.get? l.id = some r := by
      apply hrows.kept
      rw [hrows.pruned, if_neg hgone]
      exact h.row
    refine ⟨r, hrow, h.generation, h.ended, h.step, ?_, h.prepared⟩
    intro hl hnone
    rw [hrows.attempts, if_neg hgone] at hnone
    exact h.attempts hl hnone

def Following (s : State Base) (l : Lease Base) (since : Time) (job : Option Job) : Prop :=
  since ≤ s.now ∧ (contextEnded cfg s since = true ∨ ∃ r, Tracks s l since job r)

theorem exec_now (s : State Base) (c : Call Base) : s.now ≤ (exec cat cfg policy s c).1.now := by
  by_cases hc : c = .scan
  · subst hc
    obtain ⟨gone, new, left, hrows⟩ := exec_scan cat cfg policy s
    exact hrows.now.ge
  · exact (exec_moves cat cfg policy s c hc).now

/-- **Step lemma.** Every call lets the worker follow. -/
theorem following_exec (h : Following cfg s l since job) (hs : Consistent s) (hcfg : cfg.Bounded) (c : Call Base) :
    Following cfg (exec cat cfg policy s c).1 l since job := by
  have hnow := exec_now cat cfg policy s c
  refine ⟨h.1.trans hnow, ?_⟩
  rcases h.2 with hlate | ⟨r, htrack⟩
  · left
    have hlate : since + cfg.requestTimeout < s.now := of_decide_eq_true hlate
    exact decide_eq_true (Nat.lt_of_lt_of_le hlate hnow)
  by_cases hc : c = .scan
  · subst hc
    obtain ⟨gone, new, left, hrows⟩ := exec_scan cat cfg policy s
    exact htrack.scan cfg hrows hs hcfg
  · exact .inr (htrack.moves (exec_moves cat cfg policy s c hc) h.1)

/-- What a worker in a given phase relies on. -/
def Phase.Follows (s : State Base) : Phase Base → Prop
  | .claimed l since => Following cfg s l since none
  | .prepared l since j _ => Following cfg s l since (some j)
  | _ => True

variable {p : Phase Base}

theorem follows_exec (h : p.Follows cfg s) (hs : Consistent s) (hcfg : cfg.Bounded) (c : Call Base) :
    p.Follows cfg (exec cat cfg policy s c).1 := by
  cases p with
  | claimed l since => exact following_exec cat cfg policy h hs hcfg c
  | prepared l since j deadline => exact following_exec cat cfg policy h hs hcfg c
  | _ => trivial

/-! ## What was sent -/

def attemptsOf (sent : List Dispatch) (id : Digest) (step : Nat) : Nat :=
  sent.countP fun d => d.jobID == id && d.step == step

variable {sent : List Dispatch}

theorem attemptsOf_eq_zero {id : Digest} {step : Nat} (h : ∀ d ∈ sent, d.jobID = id → d.step ≠ step) :
    attemptsOf sent id step = 0 := by
  refine countP_eq_zero.mpr ?_
  grind

theorem attemptsOf_append (sent : List Dispatch) (d : Dispatch) (id : Digest) (step : Nat) :
    attemptsOf (sent ++ [d]) id step = attemptsOf sent id step + if d.jobID = id ∧ d.step = step then 1 else 0 := by
  simp [attemptsOf]

/-- What was sent: the current step as the stored job and at most as often as its row counts, nothing for a later
step. -/
structure Logged (s : State Base) (sent : List Dispatch) : Prop where
  row : ∀ {d}, d ∈ sent → ∃ r, s.jobs.get? d.jobID = some r ∧ d.step ≤ r.step ∧
    (d.step = r.step → r.preparedJob = some d.job)
  current : ∀ {id r}, s.jobs.get? id = some r →
    attemptsOf sent id r.step ≤ r.stepAttempts ∧ r.stepAttempts ≤ cfg.maxAttempts
  bounded : ∀ id step, attemptsOf sent id step ≤ cfg.maxAttempts
  same : ∀ {d d'}, d ∈ sent → d' ∈ sent → d.jobID = d'.jobID → d.step = d'.step → d.job = d'.job

theorem Logged.sublist {sent' : List Dispatch} (h : Logged cfg s sent) (hsub : sent'.Sublist sent) :
    Logged cfg s sent' where
  row hd := h.row (hsub.subset hd)
  current hr := ⟨(hsub.countP_le).trans (h.current hr).1, (h.current hr).2⟩
  bounded id step := (hsub.countP_le).trans (h.bounded id step)
  same hd hd' := h.same (hsub.subset hd) (hsub.subset hd')

theorem Logged.moves (h : Logged cfg s sent) (hm : Moves s c s') (hc : ∀ l, c ≠ .startAttempt l) :
    Logged cfg s' sent where
  row {d} hd := by
    obtain ⟨r, hr, hle, hprep⟩ := h.row hd
    obtain ⟨r', hr', hstep⟩ := hm.present hr
    refine ⟨r', hr', ?_⟩
    cases hstep with
    | quiet step _ prepared => grind
    | claimed _ step _ prepared => grind
    | prepared _ _ _ _ _ unprepared result =>
      subst result
      refine ⟨hle, fun heq => ?_⟩
      -- the current step was not sent before it was prepared
      have hsome := hprep heq
      rw [unprepared] at hsome
      cases hsome
    | started l call => exact absurd call (hc l)
    | finished _ _ _ _ _ _ step => exact ⟨by omega, fun heq => by omega⟩
  current {id r'} hr' := by
    cases hold : s.jobs.get? id with
    | none => rw [hm.absent hold] at hr'; cases hr'
    | some r =>
      obtain ⟨r'', hr'', hstep⟩ := hm.present hold
      obtain rfl : r'' = r' := Option.some.inj (hr''.symm.trans hr')
      have hcur := h.current hold
      cases hstep with
      | quiet step attempts => rw [step, attempts]; exact hcur
      | claimed _ step attempts => rw [step, attempts]; exact hcur
      | prepared _ _ _ _ _ _ result => subst result; exact hcur
      | started l call => exact absurd call (hc l)
      | finished _ _ _ _ _ _ step attempts =>
        have hzero : attemptsOf sent id (r.step + 1) = 0 := by
          apply attemptsOf_eq_zero
          intro d hd hid heq
          obtain ⟨r0, hr0, hle, -⟩ := h.row hd
          grind
        grind
  bounded := h.bounded
  same := h.same

theorem Logged.scan (h : Logged cfg s sent) {gone new : List Digest} (hrows : ScanRows cfg s s' gone new left)
    (hgone : ∀ d ∈ sent, d.jobID ∉ gone) :
    Logged cfg s' sent where
  row {d} hd := by
    obtain ⟨r, hr, hstep⟩ := h.row hd
    refine ⟨r, hrows.kept ?_, hstep⟩
    rw [hrows.pruned, if_neg (hgone d hd)]
    exact hr
  current {id r'} hr' := by
    cases hleft : left.get? id with
    | some r =>
      obtain rfl : r = r' := Option.some.inj ((hrows.kept hleft).symm.trans hr')
      rw [hrows.pruned] at hleft
      split_ifs at hleft
      exact h.current hleft
    | none =>
      -- a newborn job: its id had no row, or the row went with everything sent for it
      rcases hrows.fresh hr' with hold | ⟨-, hnew⟩
      · rw [hleft] at hold
        cases hold
      have hzero : attemptsOf sent id r'.step = 0 := by
        apply attemptsOf_eq_zero
        intro d hd hid
        obtain ⟨r, hr, -⟩ := h.row hd
        rw [hrows.pruned, ← hid, if_neg (hgone d hd), hr] at hleft
        cases hleft
      rw [hzero, hnew.attempts]
      exact ⟨Nat.le_refl 0, Nat.zero_le _⟩
  bounded := h.bounded
  same := h.same

theorem Logged.started {j : Job} (deadline : Time) (h : Logged cfg s sent) (hr : s.jobs.get? l.id = some r)
    (hstart : Starts s s' l) (hstep : r.step = l.step) (hroom : r.stepAttempts < cfg.maxAttempts)
    (hprep : r.preparedJob = some j) :
    Logged cfg s' (sent ++ [{ jobID := l.id, generation := l.generation, step := l.step, job := j,
                              deadline := deadline }]) := by
  have hrow' := rewrites_updateJob startedRow_jobID hr
  obtain ⟨hcur, -⟩ := h.current hr
  have hlookup : ∀ {id r'}, s'.jobs.get? id = some r' →
      (id = l.id ∧ r' = startedRow r) ∨ (id ≠ l.id ∧ s.jobs.get? id = some r') := by
    intro id r' hr'
    rw [hstart.jobs] at hr'
    by_cases hid : id = l.id
    · subst hid
      exact .inl ⟨rfl, (Option.some.inj (hrow'.after.symm.trans hr')).symm⟩
    · rw [hrow'.others hid] at hr'
      exact .inr ⟨hid, hr'⟩
  have hfound : ∀ {id r0}, s.jobs.get? id = some r0 → ∃ r', s'.jobs.get? id = some r' ∧
      r'.step = r0.step ∧ r'.preparedJob = r0.preparedJob := by
    intro id r0 hr0
    rw [hstart.jobs]
    by_cases hid : id = l.id
    · subst hid
      obtain rfl : r = r0 := Option.some.inj (hr.symm.trans hr0)
      exact ⟨_, hrow'.after, rfl, rfl⟩
    · exact ⟨r0, by rw [hrow'.others hid, hr0], rfl, rfl⟩
  -- what was sent before for the same step was the stored job, too
  have hagree : ∀ {d}, d ∈ sent → d.jobID = l.id → d.step = l.step → d.job = j := by
    intro d hd hid hds
    obtain ⟨r0, hr0, -, hprep0⟩ := h.row hd
    grind
  refine ⟨?_, ?_, ?_, ?_⟩
  · intro d hd
    rcases mem_append.mp hd with hd | hd
    · obtain ⟨r0, hr0, hle, hprep0⟩ := h.row hd
      grind
    · grind
  · intro id r' hr'
    rw [attemptsOf_append]
    rcases hlookup hr' with ⟨rfl, rfl⟩ | ⟨hid, hold⟩
    · show attemptsOf sent l.id r.step + _ ≤ r.stepAttempts + 1 ∧ r.stepAttempts + 1 ≤ _
      grind
    · rw [if_neg (fun h => hid h.1.symm)]
      exact h.current hold
  · intro id step
    rw [attemptsOf_append]
    split_ifs with hmatch
    · grind
    · exact h.bounded id step
  · intro d d' hd hd' hid hds
    rcases mem_append.mp hd with hd | hd <;> rcases mem_append.mp hd' with hd' | hd'
    · exact h.same hd hd' hid hds
    · grind
    · grind
    · grind

/-! ## One event -/

variable (selects : Lease Base → Bool)

/-- **Inversion of `RunOne`.** Only these steps take up a lease, a job or an attempt. -/
inductive Acts (s : State Base) (p : Phase Base) : Action Base → Prop where
  | rests (call : Option (Call Base)) (phase : Phase Base)
      (hcall : ∀ l, call ≠ some (.startAttempt l)) (hscan : call ≠ some .scan)
      (hphase : ∀ s, phase.Follows cfg s) : Acts s p { call := call, phase := phase }
  | stays : Acts s p { call := none, phase := p }
  | claims (l : Lease Base) (h : (claim cfg s).2 = some l) : Acts s p { call := some .claim, phase := .claimed l s.now }
  | prepares (l : Lease Base) (since : Time) (built : Except String Job) (s' : State Base) (j : Job)
      (deadline : Time) (hp : p = .claimed l since) (halive : contextEnded cfg s since = false)
      (h : prepare cat policy s l built = .ok (s', j)) :
      Acts s p { call := some (.prepare l built), phase := .prepared l since j deadline }
  | starts (l : Lease Base) (since : Time) (j : Job) (deadline : Time) (s' : State Base)
      (hp : p = .prepared l since j deadline) (hroom : l.stepAttempts < cfg.maxAttempts)
      (halive : contextEnded cfg s since = false) (h : startAttempt s l = .ok s') :
      Acts s p
        { call := some (.startAttempt l)
          phase := .calling l j
          sent := [{ jobID := l.id, generation := l.generation, step := l.step, job := j,
                     deadline := deadline }] }

theorem runOne_acts (s : State Base) (p : Phase Base) (i : Input) :
    Acts cat cfg policy s p (runOne cat cfg policy selects s p i) := by
  have hrests : ∀ call phase, (∀ l, call ≠ some (.startAttempt l)) → call ≠ some .scan →
      (∀ s, phase.Follows cfg s) → Acts cat cfg policy s p { call := call, phase := phase } := .rests
  fun_cases runOne cat cfg policy selects s p i with
  | case3 l hl => exact .claims l hl
  | case6 l since built lost halive s' j hprep =>
    cases lost with
    | true => exact hrests _ _ (fun _ h => by cases h) (fun h => by cases h) fun _ => trivial
    | false => exact .prepares l since built s' j _ rfl (by simpa using halive) hprep
  | case12 l since j deadline _ hroom halive s' hstart =>
    exact .starts l since j deadline s' rfl hroom (by simpa using halive) hstart
  | case16 => exact .stays
  | _ => exact hrests _ _ (fun _ h => by cases h) (fun h => by cases h) fun _ => trivial

theorem claim_leaseOf (h : (claim cfg s).2 = some l) :
    ∃ r, (claim cfg s).1.jobs.get? l.id = some r ∧ r.state = .leased ∧ l = leaseOf r := by
  unfold claim at h ⊢
  dsimp only at h ⊢
  split_ifs at h ⊢
  split at h
  · cases h
  next r hr =>
    cases h
    obtain ⟨hrow, -⟩ := nextJob_pending hr
    refine ⟨leasedRow cfg (expireLeases s) r, ?_, rfl, rfl⟩
    show (updateJob _ r.jobID _ _).jobs.get? r.jobID = _
    rw [get?_updateJob, hrow, Option.map_some]

theorem following_claim (h : (claim cfg s).2 = some l) (hs : Consistent (claim cfg s).1) :
    Following cfg (claim cfg s).1 l s.now none := by
  obtain ⟨r, hr, hleased, rfl⟩ := claim_leaseOf cfg h
  refine ⟨(moves_claim cfg s).now, .inr ⟨r, hr, Nat.le_refl _, ?_, fun _ => rfl, fun _ _ => rfl, ?_⟩⟩
  · intro t ht
    -- a leased job has not ended
    have hnone := (hs _ _ hr (by rw [hleased]; rfl)).2
    rw [hnone] at ht
    cases ht
  · intro j hj
    cases hj

theorem following_prepare {built : Except String Job} {j : Job} (h : Following cfg s l since none)
    (halive : contextEnded cfg s since = false) (hprep : prepare cat policy s l built = .ok (s', j)) :
    Following cfg s' l since (some j) := by
  obtain ⟨hsince, hlate | ⟨r, htrack⟩⟩ := h
  · rw [halive] at hlate
    cases hlate
  have hmoves := moves_prepare cat policy hprep
  obtain ⟨r', htrack'⟩ := htrack.moves hmoves hsince
  refine ⟨hsince.trans hmoves.now, .inr ⟨r', htrack'.row, htrack'.generation, htrack'.ended,
    htrack'.step, htrack'.attempts, ?_⟩⟩
  rintro _ ⟨⟩ -
  obtain ⟨row, hrow, -, ⟨hsaved, rfl⟩ | ⟨-, rfl⟩⟩ := prepare_row cat policy hprep
  · obtain rfl : row = r' := Option.some.inj (hrow.symm.trans htrack'.row)
    exact hsaved
  · have hafter := (rewrites_updateJob (preparedRow_jobID j) hrow).after
    obtain rfl := Option.some.inj (hafter.symm.trans htrack'.row)
    rfl

theorem logged_exec (h : Logged cfg s sent) (hc : ∀ l, c ≠ .startAttempt l) :
    Logged cfg (exec cat cfg policy s c).1 (sent.filter (recorded (exec cat cfg policy s c).1)) := by
  by_cases hscan : c = .scan
  · subst hscan
    obtain ⟨gone, new, left, hrows⟩ := exec_scan cat cfg policy s
    refine (h.sublist cfg filter_sublist).scan cfg hrows ?_
    intro d hd hgone
    have hrec := (mem_filter.mp hd).2
    rw [recorded, hrows.attempts, if_pos hgone] at hrec
    cases hrec
  · exact (h.moves cfg (exec_moves cat cfg policy s c hscan) hc).sublist cfg filter_sublist

theorem consistent_advance (h : Consistent s) (c : Option (Call Base)) :
    Consistent (advance cat cfg policy s c) := by
  cases c with
  | none => exact h
  | some c => exact consistent_exec cat cfg policy h c

theorem follows_advance (h : p.Follows cfg s) (hs : Consistent s) (hcfg : cfg.Bounded) (c : Option (Call Base)) :
    p.Follows cfg (advance cat cfg policy s c) := by
  cases c with
  | none => exact h
  | some c => exact follows_exec cat cfg policy h hs hcfg c

theorem logged_advance (h : Logged cfg s sent) {c : Option (Call Base)} (hc : ∀ l, c ≠ some (.startAttempt l)) :
    Logged cfg (advance cat cfg policy s c) (sent.filter (recorded (advance cat cfg policy s c))) := by
  cases c with
  | none => exact h.sublist cfg filter_sublist
  | some c => exact logged_exec cat cfg policy h fun l hl => hc l (congrArg some hl)

theorem runOne_follows {a : Action Base} (h : Acts cat cfg policy s p a) (hp : p.Follows cfg s) (hs : Consistent s) :
    a.phase.Follows cfg (advance cat cfg policy s a.call) := by
  cases h with
  | rests call phase _ _ hphase => exact hphase _
  | stays => exact hp
  | claims l hl => exact following_claim cfg hl (consistent_exec cat cfg policy hs .claim)
  | prepares l since built s' j deadline hphase halive hprep =>
    subst hphase
    have hs' : advance cat cfg policy s (some (.prepare l built)) = s' := by
      simp [advance, exec, hprep, committed, Except.map]
    rw [hs']
    exact following_prepare cat cfg policy hp halive hprep
  | starts => trivial

theorem runOne_logged {a : Action Base} (h : Acts cat cfg policy s p a) (hp : p.Follows cfg s)
    (hlog : Logged cfg s sent) :
    Logged cfg (advance cat cfg policy s a.call)
      ((sent ++ a.sent).filter (recorded (advance cat cfg policy s a.call))) := by
  cases h with
  | rests call phase hcall => simpa using logged_advance cat cfg policy hlog hcall
  | stays => grind [logged_advance]
  | claims l _ => grind [logged_advance]
  | prepares l _ built => grind [logged_advance]
  | starts l since j deadline s' hphase hroom halive hstart =>
    subst hphase
    obtain ⟨-, hlate | ⟨r, htrack⟩⟩ := hp
    · rw [halive] at hlate
      cases hlate
    have hs' : advance cat cfg policy s (some (.startAttempt l)) = s' := by simp [advance, exec, hstart, committed]
    rw [hs']
    -- the row is under the lease of the worker, and no attempt was started under it
    obtain ⟨row, hrow, hholds, hfree, hstarts⟩ := startAttempt_row hstart
    obtain rfl : row = r := Option.some.inj (hrow.symm.trans htrack.row)
    have hl := presents_of_holds hrow (holds_of_holdsNow hholds)
    have hattempts := htrack.attempts hl hfree
    have hnext := hlog.started cfg deadline hrow hstarts (htrack.step hl) (by omega) (htrack.prepared rfl hl)
    exact hnext.sublist cfg filter_sublist

variable {W : Type} [DecidableEq W]

structure System.Sound (sys : System W Base) : Prop where
  consistent : Consistent sys.queue
  follows : ∀ w, (sys.workers w).Follows cfg sys.queue
  logged : Logged cfg sys.queue sys.sent

/-- **Step lemma.** -/
theorem sound_step (hcfg : cfg.Bounded) {sys : System W Base} (h : sys.Sound cfg)
    (e : Event W Base) : (sys.step cat cfg policy selects e).Sound cfg := by
  cases e with
  | work w i =>
    have hacts := runOne_acts cat cfg policy selects sys.queue (sys.workers w) i
    refine ⟨consistent_advance cat cfg policy h.consistent _, ?_,
      runOne_logged cat cfg policy hacts (h.follows w) h.logged⟩
    intro w'
    show (Function.update sys.workers w _ w').Follows cfg _
    by_cases hw : w' = w
    · subst hw
      rw [Function.update_self]
      exact runOne_follows cat cfg policy hacts (h.follows w') h.consistent
    · rw [Function.update_of_ne hw]
      exact follows_advance cat cfg policy (h.follows w') h.consistent hcfg _
  | outside c =>
    cases hout : c.outside with
    | false =>
      refine ⟨?_, ?_, ?_⟩
      · simpa [System.step, hout] using h.consistent
      · simpa [System.step, hout] using h.follows
      · simpa [System.step, hout] using h.logged.sublist cfg filter_sublist
    | true =>
      have hc : ∀ l, c ≠ .startAttempt l := by
        rintro l rfl
        cases hout
      refine ⟨?_, ?_, ?_⟩
      · simpa [System.step, hout] using consistent_exec cat cfg policy h.consistent c
      · intro w
        simpa [System.step, hout] using follows_exec cat cfg policy (h.follows w) h.consistent hcfg c
      · simpa [System.step, hout] using logged_exec cat cfg policy h.logged hc

omit [DecidableEq W] in
theorem sound_initial (start : Time) : (System.initial W Base start).Sound cfg where
  consistent := consistent_initial start
  follows _ := trivial
  logged :=
    { row := fun h => by cases h
      current := fun h => by cases h
      bounded := fun _ _ => Nat.zero_le _
      same := fun h => by cases h }

/-- **Run lemma.** -/
theorem sound_systemAt (hcfg : cfg.Bounded) (start : Time) (events : Nat → Event W Base) (k : Nat) :
    (systemAt cat cfg policy selects start events k).Sound cfg :=
  Run.stateAt_invariant (I := System.Sound cfg) _ (sound_initial cfg start)
    (fun _ e h => sound_step cat cfg policy selects hcfg h e) events k

/-! ## Whole runs -/

/-- In the events from `i` to before `i + n` no scan may prune the job's row. -/
def RetainedThrough (start : Time) (events : Nat → Event W Base) (i n : Nat) (id : Digest) : Prop :=
  ∀ k, i ≤ k → k < i + n → events k = .outside .scan →
    ¬ Prunable cfg (systemAt cat cfg policy selects start events k).queue id

def forJob (id : Digest) (sent : List Dispatch) : List Dispatch := sent.filter fun d => d.jobID == id

theorem step_sent (sys : System W Base) (e : Event W Base) : (sys.step cat cfg policy selects e).sent =
      (sys.sent ++ sends cat cfg policy selects sys e).filter (recorded (sys.step cat cfg policy selects e).queue) := by
  cases e with
  | work w i => rfl
  | outside c =>
    rw [show sends cat cfg policy selects sys (.outside c) = [] from rfl, append_nil]
    rfl

theorem recorded_exec (hs : Consistent s) {d : Dispatch} (hkept : c = .scan → ¬ Prunable cfg s d.jobID)
    (h : recorded s d = true) :
    recorded (exec cat cfg policy s c).1 d = true := by
  unfold recorded at h ⊢
  rw [Option.isSome_iff_ne_none] at h ⊢
  intro hnone
  by_cases hc : c = .scan
  · subst hc
    obtain ⟨gone, new, left, hrows⟩ := exec_scan cat cfg policy s
    have hgone : d.jobID ∉ gone := fun hid => hkept rfl (prunable_of_doomed cfg hs (hrows.doomed hid))
    rw [hrows.attempts, if_neg hgone] at hnone
    exact h hnone
  · exact h ((exec_moves cat cfg policy s c hc).attempts hnone)

theorem Acts.recorded {s : State Base} {p : Phase Base} {a : Action Base} {sent : List Dispatch}
    (h : Acts cat cfg policy s p a) (hs : Consistent s)
    (hrec : ∀ d ∈ sent, Processors.recorded s d = true) {d : Dispatch} (hd : d ∈ sent ++ a.sent) :
    Processors.recorded (advance cat cfg policy s a.call) d = true := by
  -- an old dispatch stays recorded under any call that is no scan
  have hold : ∀ c : Option (Call Base), c ≠ some .scan → d ∈ sent →
      Processors.recorded (advance cat cfg policy s c) d = true := by
    rintro (_ | c) hc hmem
    · exact hrec d hmem
    · exact recorded_exec cat cfg policy hs (fun h => absurd (congrArg some h) hc) (hrec d hmem)
  cases h with
  | rests call phase _ hscan => exact hold call hscan (by simpa using hd)
  | stays => exact hold none (fun h => by cases h) (by simpa using hd)
  | claims => grind
  | prepares l _ built => grind
  | starts l since j deadline s' _ _ _ hstart =>
    rcases mem_append.mp hd with hd | hd
    · grind
    · obtain rfl := mem_singleton.mp hd
      have hs' : advance cat cfg policy s (some (.startAttempt l)) = s' := by simp [advance, exec, hstart, committed]
      rw [hs']
      obtain ⟨-, -, -, -, hstarts⟩ := startAttempt_row hstart
      exact Option.isSome_iff_ne_none.mpr hstarts.noted

theorem recorded_step {sys : System W Base} (h : sys.Sound cfg)
    (hrec : ∀ d ∈ sys.sent, recorded sys.queue d = true) {e : Event W Base} {d : Dispatch}
    (hd : d ∈ sys.sent ++ sends cat cfg policy selects sys e)
    (hkept : e = .outside .scan → ¬ Prunable cfg sys.queue d.jobID) :
    recorded (sys.step cat cfg policy selects e).queue d = true := by
  cases e with
  | work w i =>
    exact (runOne_acts cat cfg policy selects sys.queue (sys.workers w) i).recorded cat cfg policy h.consistent hrec hd
  | outside c =>
    have hmem : d ∈ sys.sent := by simpa [sends] using hd
    cases hout : c.outside with
    | false => simpa [System.step, hout] using hrec d hmem
    | true =>
      have hnext := recorded_exec cat cfg policy (c := c) h.consistent (fun hc => hkept (congrArg _ hc)) (hrec d hmem)
      simpa [System.step, hout] using hnext

theorem recorded_systemAt (start : Time) (events : Nat → Event W Base) (k : Nat) :
    ∀ d ∈ (systemAt cat cfg policy selects start events k).sent,
      recorded (systemAt cat cfg policy selects start events k).queue d = true := by
  cases k with
  | zero =>
    intro d hd
    cases hd
  | succ k =>
    intro d hd
    have hstep := step_sent cat cfg policy selects (systemAt cat cfg policy selects start events k) (events k)
    have hd : d ∈ (System.step cat cfg policy selects
      (systemAt cat cfg policy selects start events k) (events k)).sent := hd
    rw [hstep] at hd
    exact (mem_filter.mp hd).2

theorem sentBetween_sublist (hcfg : cfg.Bounded) (start : Time) (events : Nat → Event W Base)
    {i n : Nat} {id : Digest} (hkept : RetainedThrough cat cfg policy selects start events i n id) :
    (forJob id (sentBetween cat cfg policy selects start events i n)).Sublist
      (forJob id (systemAt cat cfg policy selects start events (i + n)).sent) := by
  induction n with
  | zero => exact nil_sublist _
  | succ n ih =>
    have ih := ih fun k hik hkn => hkept k hik (by omega)
    set sys := systemAt cat cfg policy selects start events (i + n) with hsys
    -- nothing that was sent for the job is dropped by event `i + n`
    have hnext : forJob id (systemAt cat cfg policy selects start events (i + (n + 1))).sent =
        forJob id sys.sent ++ forJob id (sends cat cfg policy selects sys (events (i + n))) := by
      show forJob id (sys.step cat cfg policy selects (events (i + n))).sent = _
      rw [step_sent, forJob, filter_filter, forJob, forJob, ← filter_append]
      refine filter_congr ?_
      intro d hd
      by_cases hid : d.jobID = id
      · have hrec := recorded_step cat cfg policy selects
          (sound_systemAt cat cfg policy selects hcfg start events (i + n))
          (recorded_systemAt cat cfg policy selects start events (i + n)) hd
          (fun hscan => by rw [hid]; exact hkept (i + n) (by omega) (by omega) hscan)
        rw [← hsys] at hrec
        simp [hid, hrec]
      · simp [hid]
    grind [forJob, sentBetween]

/-- **The retry contract.** With a valid configuration, any workers that may crash, any calls in between and any
answers: while the row of a job is retained, each step is sent at most `MaxAttempts` times, and every time as the same
job. -/
theorem step_attempts_bounded_and_alike {pollInterval : Time}
    (hcfg : cfg.validate pollInterval = .ok ()) (start : Time) (events : Nat → Event W Base)
    (i n : Nat) (id : Digest)
    (hkept : RetainedThrough cat cfg policy selects start events i n id) (step : Nat) :
    attemptsOf (sentBetween cat cfg policy selects start events i n) id step ≤ cfg.maxAttempts ∧
    ∀ d ∈ sentBetween cat cfg policy selects start events i n,
      ∀ d' ∈ sentBetween cat cfg policy selects start events i n,
        d.jobID = id → d'.jobID = id → d.step = step → d'.step = step → d.job = d'.job := by
  have hbounded := Config.bounded_of_validate hcfg
  have hsub := sentBetween_sublist cat cfg policy selects hbounded start events hkept
  have hlog := (sound_systemAt cat cfg policy selects hbounded start events (i + n)).logged
  have hmem : ∀ d ∈ sentBetween cat cfg policy selects start events i n, d.jobID = id →
      d ∈ (systemAt cat cfg policy selects start events (i + n)).sent := by
    intro d hd hid
    have hjob : d ∈ forJob id (sentBetween cat cfg policy selects start events i n) :=
      mem_filter.mpr ⟨hd, by simpa using hid⟩
    exact (mem_filter.mp (hsub.subset hjob)).1
  constructor
  · -- only the dispatches of the job are counted
    have hcount : ∀ sent, attemptsOf sent id step = attemptsOf (forJob id sent) id step := by
      grind [attemptsOf, forJob, countP_filter]
    rw [hcount]
    refine (hsub.countP_le).trans ?_
    have hle := hlog.bounded id step
    rw [hcount] at hle
    exact hle
  · intro d hd d' hd' hid hid' hds hds'
    exact hlog.same (hmem d hd hid) (hmem d' hd' hid') (hid.trans hid'.symm) (hds.trans hds'.symm)

end

/-! ## A takeover -/

def laterStepJob : Job := { sampleStepJob with binding := { sampleStepJob.binding with jobID := "k" } }

def failedAnswer : Result where
  binding := sampleStepJob.binding
  outcome := .failed
  reasons := ["service_unavailable"]

/-- A worker sends the step and crashes; another takes over, gets a failed answer, and retries. -/
def takeoverEvents : List (Event Bool Nat) :=
  [.outside (.register "titles"
      { expectedGeneration := 0, mode := .apply, state := .active, priority := 0, selector := none,
        capabilities := [.classify] }),
    .outside (.catalogue 5 (some 10)), .outside .scan,
    .work false .claim, .work false (.prepare (.ok sampleStepJob) false), .work false .start,
    .work false .crash, .outside (.tick (16 * second)),
    .work true .claim, .work true (.prepare (.ok laterStepJob) false), .work true .start,
    .work true (.answer failedAnswer), .work true .finish, .outside (.tick (3 * second)),
    .work true .claim, .work true (.prepare (.ok laterStepJob) false), .work true .start]

def takeoverSchedule (k : Nat) : Event Bool Nat := (takeoverEvents[k]?).getD (.outside (.tick 0))

/-- At that run: the step is sent three times, which is `MaxAttempts`, with three deadlines, as the job prepared
first. -/
theorem takeover_sends_one_job :
    (sentBetween sampleCatalogue newDefaultConfig "core" (fun _ => true) 0 takeoverSchedule 3 14).map
        (fun d => (d.generation, d.deadline)) =
      [(1, 10 * second), (2, 26 * second), (3, 29 * second)] ∧
    attemptsOf (sentBetween sampleCatalogue newDefaultConfig "core" (fun _ => true) 0 takeoverSchedule
      3 14) 51002 0 ≤ newDefaultConfig.maxAttempts ∧
    ∀ d ∈ sentBetween sampleCatalogue newDefaultConfig "core" (fun _ => true) 0 takeoverSchedule 3 14,
      ∀ d' ∈ sentBetween sampleCatalogue newDefaultConfig "core" (fun _ => true) 0 takeoverSchedule
        3 14, d.jobID = 51002 → d'.jobID = 51002 → d.step = 0 → d'.step = 0 → d.job = d'.job := by
  refine ⟨by decide, ?_⟩
  refine step_attempts_bounded_and_alike sampleCatalogue newDefaultConfig "core" (fun _ => true)
    (show newDefaultConfig.validate second = .ok () by decide) 0 takeoverSchedule 3 14 51002 ?_ 0
  intro k hk hkn hscan
  -- no event of this stretch is a scan
  interval_cases k <;> cases hscan

/-- After the three attempts the torrent changes, the job is abandoned, and the torrent is again as it was. Once the
retention is over one scan prunes the row, and the next admits a job with the same id. -/
def readmissionEvents : List (Event Bool Nat) :=
  takeoverEvents ++
  [.work true .crash, .outside (.tick (16 * second)), .outside (.catalogue 5 (some 11)),
    .work true .claim, .work true (.prepare (.ok laterStepJob) false), .work true .giveUp,
    .outside (.catalogue 5 (some 10)), .outside (.tick (newDefaultConfig.retention + second)),
    .outside .scan, .outside .scan,
    .work true .claim, .work true (.prepare (.ok laterStepJob) false), .work true .start]

def readmissionSchedule (k : Nat) : Event Bool Nat := (readmissionEvents[k]?).getD (.outside (.tick 0))

/-- Over the whole history of the id its step is sent four times, and the last time with another binding. -/
theorem readmission_sends_again :
    newDefaultConfig.validate second = .ok () ∧ newDefaultConfig.maxAttempts = 3 ∧
    (sentBetween sampleCatalogue newDefaultConfig "core" (fun _ => true) 0 readmissionSchedule 0 30).map
        (fun d => (d.jobID, d.step, d.job.binding.jobID)) =
      [(51002, 0, "j"), (51002, 0, "j"), (51002, 0, "j"), (51002, 0, "k")] := by
  refine ⟨by decide, rfl, by decide +kernel⟩

end BitAgent.Processors
