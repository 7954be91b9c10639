/-
# Processors.QueueInvariant — the life of a job under every schedule

The life of one row of `processor_jobs` is `JobRow.Evolves`: a terminal row does not change, lease numbers do not go
down, and a pending row belongs to the current epoch and has no end. Every call except `Scan` makes each row evolve
(`Keeps`); a `Scan` deletes old ended rows and inserts newborn ones (`ScanRows`). The id of a job is a digest of its
input, so a job whose row was pruned can be applied again.
-/
import BitAgent.Processors.Queue

namespace BitAgent.Processors

open Lib ProcessorApi List Table

variable {Base : Type}

/-! ## The life of a row -/

def JobRow.Live (epoch : Nat) (r : JobRow Base) : Prop := r.state.pending = true → r.epoch = epoch ∧ r.finishedAt = none

structure JobRow.Evolves (e e' : Nat) (r r' : JobRow Base) : Prop where
  frozen : r.state.terminal = true → r' = r
  generation : r.leaseGeneration ≤ r'.leaseGeneration
  live : r.Live e → r'.Live e'

variable {e : Nat}

theorem JobRow.Evolves.refl (r : JobRow Base) : r.Evolves e e r := ⟨fun _ => rfl, Nat.le_refl _, id⟩

theorem JobRow.Evolves.trans {e₁ e₂ e₃ : Nat} {r₁ r₂ r₃ : JobRow Base}
    (h : r₁.Evolves e₁ e₂ r₂) (h' : r₂.Evolves e₂ e₃ r₃) : r₁.Evolves e₁ e₃ r₃ where
  frozen hend := by
    obtain rfl := h.frozen hend
    exact h'.frozen hend
  generation := Nat.le_trans h.generation h'.generation
  live := h'.live ∘ h.live

theorem JobState.not_terminal {st : JobState} (h : st.pending = true) : st.terminal ≠ true := by
  simp [JobState.terminal, h]

variable {r : JobRow Base}

theorem JobRow.Evolves.of_terminal {e' : Nat} (h : r.state.terminal = true) :
    r.Evolves e e' r :=
  ⟨fun _ => rfl, Nat.le_refl _, fun _ hp => absurd h (JobState.not_terminal hp)⟩

theorem JobRow.Evolves.ends {e' : Nat} {r' : JobRow Base} (hp : r.state.pending = true)
    (hgen : r.leaseGeneration ≤ r'.leaseGeneration) (hend : r'.state.terminal = true) :
    r.Evolves e e' r' :=
  ⟨fun h => absurd h (JobState.not_terminal hp), hgen, fun _ hp' => absurd hend (JobState.not_terminal hp')⟩

theorem JobRow.Evolves.continues {r' : JobRow Base} (hp : r.state.pending = true)
    (hgen : r.leaseGeneration ≤ r'.leaseGeneration) (hepoch : r'.epoch = r.epoch)
    (hend : r'.finishedAt = none ∨ r'.finishedAt = r.finishedAt) : r.Evolves e e r' where
  frozen h := absurd h (JobState.not_terminal hp)
  generation := hgen
  live hlive _ := by
    obtain ⟨he, hfin⟩ := hlive hp
    grind

/-! ## Calls that insert and delete no row -/

/-- No row appears or goes, and every row evolves. -/
structure Keeps (s s' : State Base) : Prop where
  absent : ∀ {id}, s.jobs.get? id = none → s'.jobs.get? id = none
  present : ∀ {id r}, s.jobs.get? id = some r →
    ∃ r', s'.jobs.get? id = some r' ∧ r.Evolves s.control.epoch s'.control.epoch r'

variable {s₁ s₂ : State Base}

theorem Keeps.trans {s₃ : State Base} (h : Keeps s₁ s₂) (h' : Keeps s₂ s₃) :
    Keeps s₁ s₃ where
  absent hnone := h'.absent (h.absent hnone)
  present hsome := by
    obtain ⟨r2, hr2, hev⟩ := h.present hsome
    obtain ⟨r3, hr3, hev'⟩ := h'.present hr2
    exact ⟨r3, hr3, hev.trans hev'⟩

variable {s s' : State Base}

theorem Keeps.of_eq (hjobs : s'.jobs = s.jobs) (hepoch : s'.control.epoch = s.control.epoch) : Keeps s s' where
  absent hnone := by rw [hjobs]; exact hnone
  present {id r} hsome := by
    refine ⟨r, by rw [hjobs]; exact hsome, ?_⟩
    rw [hepoch]
    exact .refl r

theorem Keeps.refl (s : State Base) : Keeps s s := .of_eq rfl rfl

variable {f : JobRow Base → JobRow Base}

theorem Keeps.of_update {p : JobRow Base → Bool}
    (hget : ∀ id, s'.jobs.get? id = (s.jobs.get? id).map fun r => if p r then f r else r)
    (hsel : ∀ r, s.jobs.get? r.jobID = some r → p r = true → r.Evolves s.control.epoch s'.control.epoch (f r))
    (hrest : ∀ r, p r = false → r.Evolves s.control.epoch s'.control.epoch r) : Keeps s s' where
  absent hnone := by rw [hget, hnone]; rfl
  present {id r} hsome := by grind [get?_key]

theorem get?_updateJob (s : State Base) (id : Digest) (f : JobRow Base → JobRow Base)
    (hf : ∀ r, (f r).jobID = r.jobID) :
    (updateJob s id f hf).jobs.get? id = (s.jobs.get? id).map f := by
  show (s.jobs.update _ f hf).get? id = _
  rw [get?_update]
  cases hget : s.jobs.get? id with
  | none => rfl
  | some r =>
    have hid := get?_key hget
    simp [hid]

variable {id : Digest}

theorem get?_updateJob_of_ne (s : State Base) (hf : ∀ r, (f r).jobID = r.jobID) {x : Digest} (hx : x ≠ id) :
    (updateJob s id f hf).jobs.get? x = s.jobs.get? x := by
  show (s.jobs.update _ f hf).get? x = _
  rw [get?_update]
  cases hget : s.jobs.get? x with
  | none => rfl
  | some r => grind [get?_key]

/-- Only the row of job `id` changes; the control row, the attempts' keys and the clock stay. -/
structure Rewrites (s s' : State Base) (id : Digest) (row row' : JobRow Base) : Prop where
  before : s.jobs.get? id = some row
  after : s'.jobs.get? id = some row'
  others : ∀ {x}, x ≠ id → s'.jobs.get? x = s.jobs.get? x
  control : s'.control = s.control
  attempts : ∀ k, (s'.attempts.get? k).isSome = (s.attempts.get? k).isSome
  now : s'.now = s.now

theorem rewrites_updateJob (hf : ∀ r, (f r).jobID = r.jobID) (hr : s.jobs.get? id = some r) :
    Rewrites s (updateJob s id f hf) id r (f r) where
  before := hr
  after := by rw [get?_updateJob, hr, Option.map_some]
  others hx := get?_updateJob_of_ne s hf hx
  control := rfl
  attempts _ := rfl
  now := rfl

variable {row : JobRow Base}

theorem Rewrites.of_eq {row' : JobRow Base} (h : Rewrites s₁ s₂ id row row') (hjobs : s₁.jobs = s.jobs)
    (hcontrol : s₁.control = s.control) (hatt : ∀ k, (s₁.attempts.get? k).isSome = (s.attempts.get? k).isSome)
    (hnow : s₁.now = s.now) (hjobs' : s'.jobs = s₂.jobs) (hcontrol' : s'.control = s₂.control)
    (hatt' : s'.attempts = s₂.attempts) (hnow' : s'.now = s₂.now) : Rewrites s s' id row row' where
  before := by rw [← hjobs]; exact h.before
  after := by rw [hjobs']; exact h.after
  others hx := by rw [hjobs', h.others hx, hjobs]
  control := by rw [hcontrol', h.control, hcontrol]
  attempts k := by rw [hatt', h.attempts, hatt]
  now := by rw [hnow', h.now, hnow]

theorem Rewrites.keeps {row' : JobRow Base} (h : Rewrites s s' id row row')
    (hev : row.Evolves s.control.epoch s.control.epoch row') :
    Keeps s s' where
  absent {x} hnone := by
    have hne : x ≠ id := by
      rintro rfl
      rw [h.before] at hnone
      cases hnone
    rw [h.others hne, hnone]
  present {x r} hsome := by
    rw [h.control]
    by_cases hx : x = id
    · subst hx
      obtain rfl : row = r := Option.some.inj (h.before.symm.trans hsome)
      exact ⟨row', h.after, hev⟩
    · exact ⟨r, by rw [h.others hx, hsome], .refl r⟩

variable {l : Lease Base}

theorem pending_of_holds (h : holds l r = true) :
    r.state.pending = true := by
  have hst : r.state = .leased := by grind [holds]
  rw [hst]
  rfl

theorem holds_of_holdsNow (h : holdsNow s l r = true) : holds l r = true := by
  simp only [holdsNow, Bool.and_eq_true] at h
  exact h.1

theorem get?_endJobs (s : State Base) (p : JobRow Base → Bool) (state : JobState)
    (reason attemptReason : String) (id : Digest) :
    (endJobs s p state reason attemptReason).jobs.get? id = (s.jobs.get? id).map fun r =>
      if r.state.pending && p r then
        { r with state := state, reason := reason, leaseUntil := none, finishedAt := some s.now }
      else r :=
  get?_update _ _ _ (by intro _; rfl) _

/-- What a call that takes jobs from their workers does: it spares them, or ends the pending jobs that it selects;
with a new epoch these are all. -/
inductive Interrupts (s s' : State Base) : Prop
  | spares (now : s'.now = s.now) (floor : s'.control.attemptHistoryFloor = s.control.attemptHistoryFloor)
      (epoch : s'.control.epoch = s.control.epoch) (jobs : s'.jobs = s.jobs)
      (attempts : s'.attempts = s.attempts)
  | ends (now : s'.now = s.now) (floor : s'.control.attemptHistoryFloor = s.control.attemptHistoryFloor)
      (p : JobRow Base → Bool) (state : JobState) (reason attemptReason : String)
      (terminal : state.terminal = true) (epoch : s'.control.epoch = s.control.epoch ∨ ∀ r, p r = true)
      (jobs : s'.jobs = (endJobs s p state reason attemptReason).jobs)
      (attempts : s'.attempts = (endJobs s p state reason attemptReason).attempts)

theorem Interrupts.keeps (h : Interrupts s s') : Keeps s s' := by
  cases h with
  | spares _ _ epoch jobs _ => exact .of_eq jobs epoch
  | ends _ _ p state reason attemptReason terminal epoch jobs _ =>
    have hget := get?_endJobs s p state reason attemptReason
    rw [← jobs] at hget
    refine .of_update hget ?_ ?_
    · intro r _ hp
      rw [Bool.and_eq_true] at hp
      exact .ends hp.1 (Nat.le_refl _) terminal
    · intro r hp
      rcases epoch with hepoch | hall
      · rw [hepoch]
        exact .refl r
      · rw [hall, Bool.and_true] at hp
        exact .of_terminal (by simp [JobState.terminal, hp])

theorem get?_expireLeases (s : State Base) (id : Digest) :
    (expireLeases s).jobs.get? id = (s.jobs.get? id).map fun r =>
      if r.state == .leased && r.leaseUntil.any fun t => decide (t < s.now) then
        { r with state := .queued, leaseUntil := none, reason := "lease_expired" }
      else r :=
  get?_update _ _ _ (by intro _; rfl) _

theorem keeps_expireLeases (s : State Base) : Keeps s (expireLeases s) := by
  refine .of_update (get?_expireLeases s) ?_ ?_
  · intro r _ hp
    have hst : r.state = .leased := by grind
    exact .continues (by rw [hst]; rfl) (Nat.le_refl _) rfl (.inr rfl)
  · intro r _
    exact .refl r

theorem nextJob_pending (h : nextJob s = some r) :
    s.jobs.get? r.jobID = some r ∧ r.state.pending = true := by
  have hmem := (mem_insertionSort _).mp (mem_of_mem_head? h)
  rw [mem_filter] at hmem
  obtain ⟨hrow, hopen⟩ := hmem
  refine ⟨get?_of_mem hrow, ?_⟩
  simp only [Bool.and_eq_true, Bool.or_eq_true, beq_iff_eq] at hopen
  rcases hopen.1.1 with hst | hst
  · rw [hst]; rfl
  · rw [hst]; rfl

variable (cat : Catalogue Base) (cfg : Config) (policy : String)

theorem keeps_claim (s : State Base) : Keeps s (claim cfg s).1 := by
  refine (keeps_expireLeases s).trans ?_
  unfold claim
  dsimp only
  split_ifs
  · exact .refl _
  · split
    next => exact .refl _
    next r hr =>
      obtain ⟨hrow, hp⟩ := nextJob_pending hr
      exact (rewrites_updateJob _ hrow).keeps (.continues hp (Nat.le_succ _) rfl (.inr rfl))

theorem claim_lease (h : (claim cfg s).2 = some l) :
    (∃ r, s.jobs.get? l.id = some r ∧ r.leaseGeneration < l.generation) ∧
      ∃ r', (claim cfg s).1.jobs.get? l.id = some r' ∧ r'.leaseGeneration = l.generation := by
  unfold claim at h ⊢
  dsimp only at h ⊢
  split_ifs at h ⊢
  split at h
  · cases h
  next r hr =>
    cases h
    obtain ⟨hrow, -⟩ := nextJob_pending hr
    constructor
    · -- expiry changes no lease number and no key
      have hold : ((s.jobs.get? r.jobID).map fun x => x.leaseGeneration) =
          some r.leaseGeneration := by
        have hgen := congrArg (Option.map JobRow.leaseGeneration) hrow
        rw [get?_expireLeases, Option.map_map] at hgen
        rw [← Option.map_some, ← hgen]
        congr 1
        grind
      obtain ⟨r0, hr0, hgen⟩ := Option.map_eq_some_iff.mp hold
      exact ⟨r0, hr0, by rw [hgen]; exact Nat.lt_succ_self _⟩
    · refine ⟨leasedRow cfg (expireLeases s) r, ?_, rfl⟩
      show (updateJob _ r.jobID _ _).jobs.get? r.jobID = _
      rw [get?_updateJob, hrow, Option.map_some]

variable {j : Job} {built : Except String Job}

/-- **Inversion of `Prepare`.** The stored job is returned, or the assembled one is stored. -/
theorem prepare_row (h : prepare cat policy s l built = .ok (s', j)) :
    ∃ row, s.jobs.get? l.id = some row ∧ holds l row = true ∧
      (row.preparedJob = some j ∧ s' = s ∨
        row.preparedJob = none ∧ s' = updateJob s l.id (preparedRow j) (preparedRow_jobID j)) := by
  unfold prepare at h
  obtain ⟨src, -, h⟩ := accepted_bind_iff.mp h
  grind [reject_bind_eq_ok]

theorem keeps_prepare (h : prepare cat policy s l built = .ok (s', j)) : Keeps s s' := by
  obtain ⟨row, hrow, hholds, ⟨-, rfl⟩ | ⟨-, rfl⟩⟩ := prepare_row cat policy h
  · exact .refl _
  · exact (rewrites_updateJob _ hrow).keeps
      (.continues (pending_of_holds hholds) (Nat.le_refl _) rfl (.inr rfl))

/-- A started attempt changes one counter of the row, and its own row is new. -/
structure Starts (s s' : State Base) (l : Lease Base) : Prop where
  jobs : s'.jobs = (updateJob s l.id startedRow startedRow_jobID).jobs
  control : s'.control = s.control
  now : s'.now = s.now
  attempts : ∀ k, (s'.attempts.get? k).isSome = ((s.attempts.get? k).isSome || k == (l.id, l.generation))

theorem Starts.noted (h : Starts s s' l) :
    s'.attempts.get? (l.id, l.generation) ≠ none := by
  intro hnone
  have hk := h.attempts (l.id, l.generation)
  simp [hnone] at hk

theorem Starts.forgets_none (h : Starts s s' l) {k : Digest × Nat} (hnone : s'.attempts.get? k = none) :
    s.attempts.get? k = none := by
  have hk := h.attempts k
  rw [hnone] at hk
  simpa using (Bool.or_eq_false_iff.mp hk.symm).1

/-- **Inversion of `startAttempt`.** The holder of an unexpired lease starts one attempt under it. -/
theorem startAttempt_row (h : startAttempt s l = .ok s') :
    ∃ row, s.jobs.get? l.id = some row ∧ holdsNow s l row = true ∧
      s.attempts.get? (l.id, l.generation) = none ∧ Starts s s' l := by
  unfold startAttempt at h
  split at h
  · cases h
  next row hrow =>
    obtain ⟨hholds, h⟩ := reject_bind_eq_ok.mp h
    split at h
    · cases h
    next st _ =>
      obtain ⟨hfree, h⟩ := reject_bind_eq_ok.mp h
      cases h
      refine ⟨row, hrow, by simpa using hholds, by simpa using hfree, rfl, rfl, rfl, ?_⟩
      intro k
      show ((s.attempts.insertNew _).get? k).isSome = _
      grind [get?_insertNew]

theorem keeps_startAttempt (h : startAttempt s l = .ok s') :
    Keeps s s' := by
  obtain ⟨row, hrow, hholds, -, hstart⟩ := startAttempt_row h
  have hp := pending_of_holds (holds_of_holdsNow hholds)
  have hkeep := (rewrites_updateJob startedRow_jobID hrow).keeps (.continues hp (Nat.le_refl _) rfl (.inr rfl))
  exact hkeep.trans (.of_eq hstart.jobs (by rw [hstart.control]; rfl))

/-- **Inversion of `failPreparation`.** -/
theorem failPreparation_row (h : failPreparation cfg s l = .ok s') :
    ∃ row, s.jobs.get? l.id = some row ∧ holdsNow s l row = true ∧
      s' = updateJob s l.id (failedRow cfg s) (failedRow_jobID cfg s) := by
  grind [failPreparation, reject_bind_eq_ok]

theorem keeps_failPreparation (h : failPreparation cfg s l = .ok s') : Keeps s s' := by
  obtain ⟨row, hrow, hholds, rfl⟩ := failPreparation_row cfg h
  have hp := pending_of_holds (holds_of_holdsNow hholds)
  refine (rewrites_updateJob _ hrow).keeps ?_
  by_cases hlast : row.preparationFailures + 1 ≥ cfg.maxAttempts
  · exact .ends hp (Nat.le_refl _) (by simp [failedRow, hlast, JobState.terminal, JobState.pending])
  · exact .continues hp (Nat.le_refl _) rfl (.inl (by simp [failedRow, hlast]))

/-! ## `Finish` -/

/-- The row that `Finish` compares and swaps: leased, under the presented lease number, not expired. -/
structure Holder (s : State Base) (l : Lease Base) (r : JobRow Base) : Prop where
  row : s.jobs.get? l.id = some r
  leased : r.state = .leased
  generation : r.leaseGeneration = l.generation
  unexpired : ∃ t, r.leaseUntil = some t ∧ s.now < t
  epoch : l.epoch = s.control.epoch

theorem holdsNow_iff :
    holdsNow s l r = true ↔ r.state = .leased ∧ r.leaseGeneration = l.generation ∧
      ∃ t, r.leaseUntil = some t ∧ s.now < t := by
  simp [holdsNow, holds, Option.any_eq_true, and_assoc]

/-- What a successful `Finish` makes of its row; the flag: results were applied. -/
inductive FinishOf (s : State Base) (r : Result) (row : JobRow Base) : Bool → JobRow Base → Prop where
  | deferred (l : Lease Base) : FinishOf s r row false (deferredRow s l r row)
  | next (results : List Receipt) : FinishOf s r row false (finishedRow s results .queued "" r row)
  | stale (results : List Receipt) : FinishOf s r row false (finishedRow s results .stale "source_changed" r row)
  | completed (results : List Receipt) : FinishOf s r row true (finishedRow s results .completed "" r row)

variable {applied : Bool}

theorem finishLast_row {r : Result} {results : List Receipt} (hrow : s.jobs.get? l.id = some row)
    (h : finishLast cat policy s l r results = .ok (s', applied)) :
    ∃ row', FinishOf s r row applied row' ∧ Rewrites s s' l.id row row' := by
  have hstale := rewrites_updateJob (finishedRow_jobID s results .stale "source_changed" r) hrow
  unfold finishLast at h
  split at h
  · cases h
    exact ⟨_, .stale results, hstale.of_eq rfl rfl (fun _ => rfl) rfl rfl rfl rfl rfl⟩
  · cases h
    exact ⟨_, .stale results, hstale.of_eq rfl rfl (fun _ => rfl) rfl rfl rfl rfl rfl⟩
  · cases h
  · obtain ⟨s1, hs1, h⟩ := accepted_bind_iff.mp h
    unfold applyResults at hs1
    split at hs1
    · cases hs1
    · obtain ⟨src, -, hs1⟩ := accepted_bind_iff.mp hs1
      cases hs1
      cases h
      have hdone := rewrites_updateJob (finishedRow_jobID s results .completed "" r) hrow
      exact ⟨_, .completed results, hdone.of_eq rfl rfl (fun _ => rfl) rfl rfl rfl rfl rfl⟩

theorem finishAttempt_keys (s : State Base) (l : Lease Base) (r : Result)
    (k : Digest × Nat) :
    ((finishAttempt s l r).attempts.get? k).isSome = (s.attempts.get? k).isSome :=
  isSome_get?_update _ _ _ (by intro _; rfl) _

variable {dispatched : Bool}

/-- **Inversion of `Finish`.** It succeeds only for the holder of the lease, and the job is completed exactly if the
results were applied. -/
theorem finish_row {r : Result} (h : finish cat cfg policy s l j r dispatched = .ok (s', applied)) :
    ∃ row row', Holder s l row ∧ FinishOf s r row applied row' ∧ Rewrites s s' l.id row row' := by
  unfold finish at h
  split at h
  · cases h
  split at h
  · cases h
  next row hrow =>
    obtain ⟨hholds, h⟩ := reject_bind_eq_ok.mp h
    obtain ⟨hepoch, h⟩ := reject_bind_eq_ok.mp h
    obtain ⟨hleased, hgen, hunexp⟩ := holdsNow_iff.mp (by simpa using hholds)
    have hholder : Holder s l row := ⟨hrow, hleased, hgen, hunexp, by simpa using Eq.symm (by simpa using hepoch)⟩
    -- the state with the attempt's end recorded differs from `s` in that attempt only
    obtain ⟨s1, hs1, hjobs, hcontrol, hnow, hatt⟩ : ∃ s1,
        (if dispatched then finishAttempt s l r else s) = s1 ∧ s1.jobs = s.jobs ∧
          s1.control = s.control ∧ s1.now = s.now ∧
          ∀ k, (s1.attempts.get? k).isSome = (s.attempts.get? k).isSome := by
      cases dispatched with
      | true => exact ⟨_, rfl, rfl, rfl, rfl, finishAttempt_keys s l r⟩
      | false => exact ⟨s, rfl, rfl, rfl, rfl, fun _ => rfl⟩
    rw [hs1] at h
    have hrow1 : s1.jobs.get? l.id = some row := by rw [hjobs]; exact hrow
    have hsame : ∀ {applied row'}, FinishOf s1 r row applied row' → FinishOf s r row applied row' := by
      intro applied row' hof
      cases hof with
      | deferred l => simpa only [deferredRow, hnow] using FinishOf.deferred (s := s) (r := r) l
      | next results => simpa only [finishedRow, hnow] using FinishOf.next (s := s) (r := r) results
      | stale results => simpa only [finishedRow, hnow] using FinishOf.stale (s := s) (r := r) results
      | completed results => simpa only [finishedRow, hnow] using FinishOf.completed (s := s) (r := r) results
    split at h
    · cases h
      have hrewrite := rewrites_updateJob (deferredRow_jobID s1 l r) hrow1
      exact ⟨row, _, hholder, hsame (.deferred l), hrewrite.of_eq hjobs hcontrol hatt hnow rfl rfl rfl rfl⟩
    · obtain ⟨-, h⟩ := reject_bind_eq_ok.mp h
      split at h
      · obtain ⟨row', hof, hrewrite⟩ := finishLast_row cat policy hrow1 h
        exact ⟨row, row', hholder, hsame hof, hrewrite.of_eq hjobs hcontrol hatt hnow rfl rfl rfl rfl⟩
      · cases h
        have hrewrite := rewrites_updateJob (finishedRow_jobID s1
          (l.results ++ [{ result := r, candidates := j.input.candidates }]) .queued "" r) hrow1
        exact ⟨row, _, hholder, hsame (.next _), hrewrite.of_eq hjobs hcontrol hatt hnow rfl rfl rfl rfl⟩

theorem keeps_finish {r : Result} (h : finish cat cfg policy s l j r dispatched = .ok (s', applied)) :
    Keeps s s' := by
  obtain ⟨row, row', hholder, hof, hrewrite⟩ := finish_row cat cfg policy h
  have hp : row.state.pending = true := by rw [hholder.leased]; rfl
  refine hrewrite.keeps ?_
  cases hof with
  | deferred l => exact .continues hp (Nat.le_refl _) rfl (.inr rfl)
  | next results => exact .continues hp (Nat.le_refl _) rfl (.inl rfl)
  | stale results => exact .ends hp (Nat.le_refl _) rfl
  | completed results => exact .ends hp (Nat.le_refl _) rfl

theorem finish_applied {r : Result} (h : finish cat cfg policy s l j r dispatched = .ok (s', true)) :
    (∃ row, Holder s l row) ∧ ∃ row', s'.jobs.get? l.id = some row' ∧ row'.state = .completed := by
  obtain ⟨row, row', hholder, hof, hrewrite⟩ := finish_row cat cfg policy h
  refine ⟨⟨row, hholder⟩, row', hrewrite.after, ?_⟩
  cases hof
  rfl

/-! ## Operators -/

theorem interrupts_abandon (s : State Base) (l : Lease Base) (reason : String) :
    Interrupts s (abandon s l reason) :=
  .ends rfl rfl _ .stale _ _ rfl (.inl rfl) rfl rfl

theorem interrupts_cancel (s : State Base) (id : Digest) : Interrupts s (cancel s id) :=
  .ends rfl rfl _ .canceled _ _ rfl (.inl rfl) rfl rfl

theorem interrupts_register {id : String} {w : RegistryWrite} (h : register s id w = .ok s') :
    Interrupts s s' ∧ s'.requests = s.requests := by
  unfold register at h
  obtain ⟨-, h⟩ := checked_bind_iff.mp h
  obtain ⟨-, h⟩ := reject_bind_eq_ok.mp h
  obtain ⟨-, h⟩ := reject_bind_eq_ok.mp h
  cases h
  exact ⟨.ends rfl rfl (fun _ => true) .stale _ _ rfl (.inr fun _ => rfl) rfl rfl, rfl⟩

theorem interrupts_controlEntry {id : String} {c : RegistryControl} (h : controlEntry s id c = .ok s') :
    Interrupts s s' ∧ s'.requests = s.requests := by
  unfold controlEntry at h
  obtain ⟨-, h⟩ := reject_bind_eq_ok.mp h
  split at h
  · cases h
  next e _ =>
    obtain ⟨-, h⟩ := reject_bind_eq_ok.mp h
    cases h
    -- with a new execution generation the epoch changes, without one only the entry does
    cases startsExecution e (c.state.getD e.state) (c.mode.getD e.mode) _ with
    | false => exact ⟨.spares rfl rfl rfl rfl rfl, rfl⟩
    | true => exact ⟨.ends rfl rfl (fun _ => true) .stale _ _ rfl (.inr fun _ => rfl) rfl rfl, rfl⟩

theorem interrupts_remove {id : String} {gen : Nat} (h : remove s id gen = .ok s') :
    Interrupts s s' ∧ s'.requests = s.requests := by
  unfold remove at h
  obtain ⟨-, h⟩ := reject_bind_eq_ok.mp h
  cases h
  exact ⟨.ends rfl rfl (fun _ => true) .stale _ _ rfl (.inr fun _ => rfl) rfl rfl, rfl⟩

theorem interrupts_setAdmission {w : AdmissionWrite} (h : setAdmission cat s w = .ok s') :
    Interrupts s s' ∧ s'.requests = s.requests := by
  unfold setAdmission at h
  obtain ⟨-, h⟩ := reject_bind_eq_ok.mp h
  obtain ⟨-, h⟩ := reject_bind_eq_ok.mp h
  split at h
  · cases h
    exact ⟨.spares rfl rfl rfl rfl rfl, rfl⟩
  · cases h
    exact ⟨.ends rfl rfl (fun _ => true) .stale _ _ rfl (.inr fun _ => rfl) rfl rfl, rfl⟩

theorem interrupts_cancelReprocessing (h : cancelReprocessing s id = .ok s') : Interrupts s s' := by
  unfold cancelReprocessing at h
  split at h
  · cases h
  next r _ =>
    cases h
    cases r.resultJobID with
    | none => exact .spares rfl rfl rfl rfl rfl
    | some job => exact .ends rfl rfl _ .canceled _ _ rfl (.inl rfl) rfl rfl

theorem reprocess_jobs {origin : Digest} {w : ReprocessWrite} {export_ : JobRow Base}
    (h : reprocess cat cfg policy s origin w export_ = .ok s') :
    s'.jobs = s.jobs ∧ s'.attempts = s.attempts ∧ s'.control = s.control ∧ s'.now = s.now := by
  unfold reprocess at h
  dsimp only at h
  split at h
  · grind
  · obtain ⟨-, h⟩ := reject_bind_eq_ok.mp h
    obtain ⟨-, h⟩ := reject_bind_eq_ok.mp h
    obtain ⟨-, h⟩ := reject_bind_eq_ok.mp h
    obtain ⟨-, h⟩ := reject_bind_eq_ok.mp h
    obtain ⟨src, -, h⟩ := accepted_bind_iff.mp h
    grind [reject_bind_eq_ok]

/-! ## `Scan` -/

/-- A row as `Scan` inserts it. -/
structure JobRow.Newborn (epoch : Nat) (r : JobRow Base) : Prop where
  current : r.epoch = epoch
  step : r.step = 0
  attempts : r.stepAttempts = 0
  prepared : r.preparedJob = none
  generation : r.leaseGeneration = 0
  queued : r.state = .queued
  unfinished : r.finishedAt = none

/-- What the admission loop does to the jobs: it inserts newborn ones under the ids `new`. -/
structure Inserts (s s' : State Base) (new : List Digest) : Prop where
  kept : ∀ {id r}, s.jobs.get? id = some r → s'.jobs.get? id = some r
  fresh : ∀ {id r}, s'.jobs.get? id = some r → s.jobs.get? id = some r ∨ id ∈ new ∧ r.Newborn s.control.epoch
  attempts : s'.attempts = s.attempts
  now : s'.now = s.now
  epoch : s'.control.epoch = s.control.epoch

theorem Inserts.of_eq (hjobs : s'.jobs = s.jobs) (hatt : s'.attempts = s.attempts) (hnow : s'.now = s.now)
    (hepoch : s'.control.epoch = s.control.epoch) : Inserts s s' [] where
  kept h := by rw [hjobs]; exact h
  fresh h := .inl (by rw [hjobs] at h; exact h)
  attempts := hatt
  now := hnow
  epoch := hepoch

variable {new : List Digest}

theorem Inserts.trans {s₃ : State Base} {new' : List Digest} (h : Inserts s₁ s₂ new) (h' : Inserts s₂ s₃ new') :
    Inserts s₁ s₃ (new ++ new') where
  kept hr := h'.kept (h.kept hr)
  fresh hr := by
    rcases h'.fresh hr with hr2 | ⟨hid, hnew⟩
    · rcases h.fresh hr2 with hr1 | ⟨hid, hnew⟩
      · exact .inl hr1
      · exact .inr ⟨mem_append_left _ hid, hnew⟩
    · exact .inr ⟨mem_append_right _ hid, by rw [← h.epoch]; exact hnew⟩
  attempts := h'.attempts.trans h.attempts
  now := h'.now.trans h.now
  epoch := h'.epoch.trans h.epoch

theorem inserts_holdRequest (s : State Base) (priority : List InfoHash) (hash : InfoHash) :
    Inserts s (holdRequest s priority hash) [] := by
  unfold holdRequest
  split_ifs
  · exact .of_eq rfl rfl rfl rfl
  · exact .of_eq rfl rfl rfl rfl

variable {plan : Plan}

theorem inserts_insertJob (s : State Base) (hplan : plan.epoch = s.control.epoch) (hash : InfoHash)
    (src : Snapshot Base) :
    ∃ new, Inserts s (insertJob s (newJob cat s plan hash src)).1 new ∧
      new.length = if (insertJob s (newJob cat s plan hash src)).2 then 1 else 0 := by
  unfold insertJob
  by_cases htaken : (s.jobs.get? (newJob cat s plan hash src).jobID).isSome = true
  · rw [if_pos htaken]
    exact ⟨[], .of_eq rfl rfl rfl rfl, rfl⟩
  · rw [if_neg htaken]
    set job := newJob cat s plan hash src with hjob
    refine ⟨[job.jobID], ⟨?_, ?_, rfl, rfl, rfl⟩, rfl⟩
    · grind [get?_insertNew]
    · intro id r hsome
      have hsome : (s.jobs.insertNew job).get? id = some r := hsome
      rw [get?_insertNew] at hsome
      cases hold : s.jobs.get? id with
      | some r0 => exact .inl (by rw [hold] at hsome; exact hsome)
      | none =>
        rw [hold, Option.none_or] at hsome
        split_ifs at hsome with hid
        cases hsome
        exact .inr ⟨mem_singleton.mpr hid.symm, ⟨hplan, rfl, rfl, rfl, rfl, rfl, rfl⟩⟩

variable {priority hashes : List InfoHash} {after after' : Option InfoHash}

/-- **Rule of the admission loop.** What holding a request and inserting a job keep, the loop keeps. -/
theorem admitAll_invariant {I : State Base → Prop} {capacity : Int} {admitted admitted' : Nat}
    (hhold : ∀ {s hash}, I s → I (holdRequest s priority hash))
    (hinsert : ∀ {s hash src}, admittedByPolicy cat hash plan.admission = true → I s →
      I (insertJob s (newJob cat s plan hash src)).1) (hs : I s)
    (h : admitAll cat plan capacity priority hashes s after admitted = .ok (s', after', admitted')) :
    I s' := by
  -- along the list of torrents: a turn leaves the state alone, holds a request or inserts a job
  induction hashes generalizing s after admitted with
  | nil =>
    cases h
    exact hs
  | cons hash rest ih =>
    unfold admitAll at h
    dsimp only at h
    split at h
    · exact ih hs h
    next hpolicy =>
      split at h
      · cases h
      next src _ =>
        split at h
        · exact ih (hhold hs) h
        grind

/-- **Run lemma of the admission loop.** It inserts as many jobs as it counts, up to the capacity. -/
theorem admitAll_inserts {capacity : Int} {admitted admitted' : Nat} (hplan : plan.epoch = s.control.epoch)
    (hroom : (admitted : Int) < capacity)
    (h : admitAll cat plan capacity priority hashes s after admitted = .ok (s', after', admitted')) :
    ∃ new, Inserts s s' new ∧ admitted' = admitted + new.length ∧ (admitted' : Int) ≤ capacity := by
  induction hashes generalizing s after admitted with
  | nil =>
    cases h
    exact ⟨[], .of_eq rfl rfl rfl rfl, rfl, hroom.le⟩
  | cons hash rest ih =>
    unfold admitAll at h
    dsimp only at h
    split at h
    · exact ih hplan hroom h
    split at h
    · cases h
    next src _ =>
      split at h
      · have hhold := inserts_holdRequest s priority hash
        obtain ⟨new, hins, hcount⟩ := ih (hplan.trans hhold.epoch.symm) hroom h
        exact ⟨new, hhold.trans hins, hcount⟩
      split at h
      · exact ih hplan hroom h
      split at h
      · exact ih hplan hroom h
      obtain ⟨new, hins, hlen⟩ := inserts_insertJob cat s hplan hash src
      -- the counter after this torrent
      obtain ⟨count, hcount, hnow⟩ : ∃ count, (if (insertJob s (newJob cat s plan hash src)).2 = true
          then admitted + 1 else admitted) = count ∧ count = admitted + new.length := by grind
      have hone : new.length ≤ 1 := by grind
      rw [hcount] at h
      split at h
      · cases h
        exact ⟨new, hins, hnow, by omega⟩
      next hmore =>
        obtain ⟨new', hins', hcount', hle⟩ := ih (hplan.trans hins.epoch.symm) (not_le.mp hmore) h
        exact ⟨new ++ new', hins.trans hins', by rw [length_append]; omega, hle⟩

variable {draining : Bool}

theorem settleAll_jobs {rs : List RequestRow} (h : settleAll cat policy plan draining rs s = .ok s') :
    s'.jobs = s.jobs ∧ s'.control = s.control ∧ s'.now = s.now ∧ s'.attempts = s.attempts := by
  induction rs generalizing s with
  | nil =>
    cases h
    exact ⟨rfl, rfl, rfl, rfl⟩
  | cons r rs ih =>
    obtain ⟨⟨state, reason⟩, -, hrest⟩ := accepted_bind_iff.mp h
    have hsettled := ih (s := setRequests s (fun x => x.requestID == r.requestID) state reason) hrest
    exact hsettled

theorem settleReprocessing_jobs (h : settleReprocessing cat policy s plan draining = .ok s') :
    s'.jobs = s.jobs ∧ s'.control = s.control ∧ s'.now = s.now ∧ s'.attempts = s.attempts := by
  unfold settleReprocessing at h
  have hsettled := settleAll_jobs cat policy h
  exact hsettled

/-- A scan and the jobs: those of `gone` go with their attempts, `left` stay, and newborn ones come under the ids
`new`. -/
structure ScanRows (s s' : State Base) (gone new : List Digest)
    (left : Table (@JobRow.jobID Base)) : Prop where
  doomed : ∀ {id}, id ∈ gone → id ∈ doomed cfg s
  pruned : ∀ {id}, left.get? id = if id ∈ gone then none else s.jobs.get? id
  kept : ∀ {id r}, left.get? id = some r → s'.jobs.get? id = some r
  fresh : ∀ {id r}, s'.jobs.get? id = some r → left.get? id = some r ∨ id ∈ new ∧ r.Newborn s.control.epoch
  attempts : ∀ {id g}, s'.attempts.get? (id, g) = if id ∈ gone then none else s.attempts.get? (id, g)
  now : s'.now = s.now
  epoch : s'.control.epoch = s.control.epoch
  room : new = [] ∨ left.rows.countP (fun r => r.state.pending) + new.length ≤ cfg.queueCapacity ∧
      left.rows.length + new.length ≤ cfg.retainedJobs

theorem ScanRows.of_eq (hjobs : s'.jobs = s.jobs) (hatt : s'.attempts = s.attempts) (hnow : s'.now = s.now)
    (hepoch : s'.control.epoch = s.control.epoch) : ScanRows cfg s s' [] [] s.jobs where
  doomed h := absurd h (not_mem_nil)
  pruned := by simp
  kept h := by rw [hjobs]; exact h
  fresh h := .inl (by rw [hjobs] at h; exact h)
  attempts := by simp [hatt]
  now := hnow
  epoch := hepoch
  room := .inl rfl

theorem scanRows_pruneJobs (s : State Base) :
    ScanRows cfg s (pruneJobs cfg s) (doomed cfg s) [] (pruneJobs cfg s).jobs where
  doomed h := h
  pruned {id} := by
    show (s.jobs.delete fun r => (doomed cfg s).contains r.jobID).get? id = _
    rw [get?_delete]
    cases hget : s.jobs.get? id with
    | none => simp
    | some r => grind [get?_key]
  kept h := h
  fresh h := .inl h
  attempts {id g} := by
    show (s.attempts.delete fun a => (doomed cfg s).contains a.jobID).get? (id, g) = _
    rw [get?_delete]
    cases hget : s.attempts.get? (id, g) with
    | none => simp
    | some a => grind [get?_key]
  now := rfl
  epoch := rfl
  room := .inl rfl

theorem ScanRows.inserts {gone : List Digest} (h : ScanRows cfg s s₁ gone [] s₁.jobs)
    (h' : Inserts s₁ s₂ new) (hroom : (new.length : Int) ≤ scanCapacity cfg s₁) :
    ScanRows cfg s s₂ gone new s₁.jobs where
  doomed := h.doomed
  pruned := h.pruned
  kept := h'.kept
  fresh := by rw [← h.epoch]; exact h'.fresh
  attempts := by rw [h'.attempts]; exact h.attempts
  now := h'.now.trans h.now
  epoch := h'.epoch.trans h.epoch
  room := by grind [scanCapacity]

theorem ScanRows.kept_of_not_doomed {gone : List Digest} {left : Table (@JobRow.jobID Base)}
    (h : ScanRows cfg s s' gone new left) (hr : s.jobs.get? id = some r) (hid : id ∉ Processors.doomed cfg s) :
    s'.jobs.get? id = some r := by
  apply h.kept
  rw [h.pruned, if_neg (mt h.doomed hid)]
  exact hr

theorem ScanRows.old_or_live {gone : List Digest} {left : Table (@JobRow.jobID Base)}
    (h : ScanRows cfg s s' gone new left) (hr : s'.jobs.get? id = some r) :
    s.jobs.get? id = some r ∨ r.Live s.control.epoch := by
  rcases h.fresh hr with hleft | ⟨-, hnew⟩
  · rw [h.pruned] at hleft
    split_ifs at hleft
    exact .inl hleft
  · exact .inr fun _ => ⟨hnew.current, hnew.unfinished⟩

inductive ScanPhases (s s' : State Base) : Prop
  | settled (settle : settleReprocessing cat policy s (readPlan policy s).1 (readPlan policy s).2 = .ok s')
  | pruned (s₁ : State Base)
      (settle : settleReprocessing cat policy s (readPlan policy s).1 (readPlan policy s).2 = .ok s₁)
      (result : s' = pruneJobs cfg s₁)
  | admitted (s₁ s₂ : State Base) (priority hashes : List InfoHash) (after : Option InfoHash) (n : Nat)
      (settle : settleReprocessing cat policy s (readPlan policy s).1 (readPlan policy s).2 = .ok s₁)
      (room : ¬ scanCapacity cfg (pruneJobs cfg s₁) ≤ 0)
      (loop : admitAll cat (readPlan policy s).1 (scanCapacity cfg (pruneJobs cfg s₁)) priority hashes
        (pruneJobs cfg s₁) (pruneJobs cfg s₁).control.scanAfter 0 = .ok (s₂, after, n))
      (result : ∃ cursor, s' = { s₂ with control := { s₂.control with scanAfter := cursor } })

theorem scan_phases {n : Nat} (h : scan cat cfg policy s = .ok (s', n)) :
    ScanPhases cat cfg policy s s' := by
  unfold scan at h
  dsimp only at h
  obtain ⟨s1, hsettle, h⟩ := accepted_bind_iff.mp h
  split at h
  · cases h
    exact .settled hsettle
  split at h
  · cases h
    exact .pruned s1 hsettle rfl
  next hcap =>
    obtain ⟨⟨s2, after, admitted⟩, hloop, h⟩ := accepted_bind_iff.mp h
    cases h
    exact .admitted s1 s2 _ _ after _ hsettle hcap hloop ⟨_, rfl⟩

theorem scanRows_prune
    (hsettle : settleReprocessing cat policy s plan draining = .ok s₁) :
    ScanRows cfg s (pruneJobs cfg s₁) (doomed cfg s₁) [] (pruneJobs cfg s₁).jobs := by
  obtain ⟨hjobs, hcontrol, hnow, hatt⟩ := settleReprocessing_jobs cat policy hsettle
  have hp := scanRows_pruneJobs cfg s₁
  -- the rows that are doomed after the requests were settled were doomed before
  have hdoomed : doomed cfg s₁ = doomed cfg s := by
    unfold doomed
    rw [hjobs, hnow]
  refine ⟨?_, ?_, hp.kept, fun hr => .inl hr, ?_, hp.now.trans hnow, by rw [hp.epoch, hcontrol], hp.room⟩
  · rw [hdoomed]
    exact id
  · rw [← hjobs]
    exact hp.pruned
  · rw [← hatt]
    exact hp.attempts

/-- **Inversion of `Scan`.** -/
theorem scan_rows {n : Nat} (h : scan cat cfg policy s = .ok (s', n)) :
    ∃ gone new left, ScanRows cfg s s' gone new left := by
  cases scan_phases cat cfg policy h with
  | settled settle =>
    obtain ⟨hjobs, hcontrol, hnow, hatt⟩ := settleReprocessing_jobs cat policy settle
    exact ⟨[], [], _, .of_eq cfg hjobs hatt hnow (by rw [hcontrol])⟩
  | pruned s1 settle result =>
    rw [result]
    exact ⟨_, _, _, scanRows_prune cat cfg policy settle⟩
  | admitted s1 s2 priority hashes after n settle room loop result =>
    obtain ⟨cursor, rfl⟩ := result
    have hpruned := scanRows_prune cat cfg policy settle
    obtain ⟨new, hins, hcount, hle⟩ := admitAll_inserts cat hpruned.epoch.symm (by simpa using room) loop
    have hscan := hpruned.inserts cfg hins (by omega)
    exact ⟨_, new, _, hscan.doomed, hscan.pruned, hscan.kept, hscan.fresh, hscan.attempts, hscan.now, hscan.epoch,
      hscan.room⟩

/-! ## One call -/

inductive Executed (s : State Base) : Call Base → State Base → Prop
  | failed (c : Call Base) : Executed s c s
  | scan {s' : State Base} {n : Nat} (h : scan cat cfg policy s = .ok (s', n)) : Executed s .scan s'
  | claim : Executed s .claim (claim cfg s).1
  | prepare {l : Lease Base} {built : Except String Job} {out : State Base × Job}
      (h : prepare cat policy s l built = .ok out) : Executed s (.prepare l built) out.1
  | startAttempt {l : Lease Base} {s' : State Base} (h : startAttempt s l = .ok s') : Executed s (.startAttempt l) s'
  | finish {l : Lease Base} {j : Job} {r : Result} {dispatched applied : Bool} {s' : State Base}
      (h : finish cat cfg policy s l j r dispatched = .ok (s', applied)) :
      Executed s (.finish l j r dispatched) s'
  | failPreparation {l : Lease Base} {s' : State Base} (h : failPreparation cfg s l = .ok s') :
      Executed s (.failPreparation l) s'
  | interrupts {s' : State Base} (c : Call Base) (h : Interrupts s s')
      (requests : s'.requests = s.requests) : Executed s c s'
  | reprocess {origin : Digest} {w : ReprocessWrite} {export_ : JobRow Base} {s' : State Base}
      (h : reprocess cat cfg policy s origin w export_ = .ok s') : Executed s (.reprocess origin w export_) s'
  | cancelReprocessing {id : Digest} {s' : State Base} (h : cancelReprocessing s id = .ok s') :
      Executed s (.cancelReprocessing id) s'
  | core (request : Digest) (status : CoreStatus) (receipt : Option CoreReceipt) :
      Executed s (.core request status receipt)
        { s with
          requests := s.requests.update (fun r => r.requestID == request)
            (fun r => { r with coreStatus := status, coreReceipt := receipt }) }
  | outside {s' : State Base} (c : Call Base) (jobs : s'.jobs = s.jobs)
      (attempts : s'.attempts = s.attempts) (control : s'.control = s.control)
      (requests : s'.requests = s.requests) (now : s.now ≤ s'.now) : Executed s c s'

theorem executed (s : State Base) (c : Call Base) : Executed cat cfg policy s c (exec cat cfg policy s c).1 := by
  have hcommit : ∀ tx : Except Err (State Base), (∀ s', tx = .ok s' → Executed cat cfg policy s c s') →
      Executed cat cfg policy s c (committed s tx) := by
    rintro (e | s') htx
    · exact .failed c
    · exact htx s' rfl
  cases c with
  | scan =>
    refine hcommit _ fun s' hs' => ?_
    cases hscan : scan cat cfg policy s with
    | error e => rw [hscan] at hs'; cases hs'
    | ok out =>
      rw [hscan] at hs'
      cases hs'
      exact .scan hscan
  | claim => exact .claim
  | prepare l built =>
    refine hcommit _ fun s' hs' => ?_
    cases hprep : prepare cat policy s l built with
    | error e => rw [hprep] at hs'; cases hs'
    | ok out =>
      rw [hprep] at hs'
      cases hs'
      exact .prepare hprep
  | startAttempt l => exact hcommit _ fun _ => .startAttempt
  | finish l j r dispatched =>
    simp only [exec]
    split
    next s' hfin => exact .finish hfin
    next s' hfin => exact .finish hfin
    next => exact .failed _
  | abandon l reason => exact .interrupts _ (interrupts_abandon s l reason) rfl
  | failPreparation l => exact hcommit _ fun _ => .failPreparation
  | cancel id => exact .interrupts _ (interrupts_cancel s id) rfl
  | register id w => exact hcommit _ fun _ h => .interrupts _ (interrupts_register h).1 (interrupts_register h).2
  | control id c => exact hcommit _ fun _ h => .interrupts _ (interrupts_controlEntry h).1 (interrupts_controlEntry h).2
  | remove id gen => exact hcommit _ fun _ h => .interrupts _ (interrupts_remove h).1 (interrupts_remove h).2
  | setAdmission w =>
    exact hcommit _ fun _ h => .interrupts _ (interrupts_setAdmission cat h).1 (interrupts_setAdmission cat h).2
  | reprocess origin w export_ => exact hcommit _ fun _ => .reprocess
  | cancelReprocessing id => exact hcommit _ fun _ => .cancelReprocessing
  | core request status receipt => exact .core ..
  | catalogue hash facts => exact .outside _ rfl rfl rfl rfl (Nat.le_refl _)
  | tick elapsed => exact .outside _ rfl rfl rfl rfl (Nat.le_add_right _ _)

/-- **Step lemma.** Every call keeps the rows, except that a scan may prune and admit. -/
theorem exec_keeps (s : State Base) (c : Call Base) :
    Keeps s (exec cat cfg policy s c).1 ∨
      (c = .scan ∧ ∃ gone new left, ScanRows cfg s (exec cat cfg policy s c).1 gone new left) := by
  have hexec := executed cat cfg policy s c
  generalize (exec cat cfg policy s c).1 = s' at hexec ⊢
  cases hexec with
  | failed => exact .inl (.refl s)
  | scan h => exact .inr ⟨rfl, scan_rows cat cfg policy h⟩
  | claim => exact .inl (keeps_claim cfg s)
  | prepare h => exact .inl (keeps_prepare cat policy h)
  | startAttempt h => exact .inl (keeps_startAttempt h)
  | finish h => exact .inl (keeps_finish cat cfg policy h)
  | failPreparation h => exact .inl (keeps_failPreparation cfg h)
  | interrupts _ h _ => exact .inl h.keeps
  | reprocess h =>
    obtain ⟨hjobs, -, hcontrol, -⟩ := reprocess_jobs cat cfg policy h
    exact .inl (.of_eq hjobs (by rw [hcontrol]))
  | cancelReprocessing h => exact .inl (interrupts_cancelReprocessing h).keeps
  | core => exact .inl (.of_eq rfl rfl)
  | outside _ jobs _ control _ _ => exact .inl (.of_eq jobs (by rw [control]))

theorem exec_scan (s : State Base) : ∃ gone new left, ScanRows cfg s (exec cat cfg policy s .scan).1 gone new left := by
  show ∃ gone new left, ScanRows cfg s (committed s ((scan cat cfg policy s).map Prod.fst)) gone new left
  cases hscan : scan cat cfg policy s with
  | error e => exact ⟨[], [], _, .of_eq cfg rfl rfl rfl rfl⟩
  | ok out => exact scan_rows cat cfg policy hscan

def Consistent (s : State Base) : Prop := ∀ id r, s.jobs.get? id = some r → r.Live s.control.epoch

theorem consistent_initial (now : Time) : Consistent (initial Base now) := by
  intro id r h
  cases h

theorem consistent_exec (hs : Consistent s) (c : Call Base) :
    Consistent (exec cat cfg policy s c).1 := by
  intro id r' hr'
  rcases exec_keeps cat cfg policy s c with hkeep | ⟨-, gone, new, left, hscan⟩
  · cases hold : s.jobs.get? id with
    | none => rw [hkeep.absent hold] at hr'; cases hr'
    | some r =>
      obtain ⟨r'', hr'', hev⟩ := hkeep.present hold
      obtain rfl : r'' = r' := Option.some.inj (hr''.symm.trans hr')
      exact hev.live (hs _ _ hold)
  · rw [hscan.epoch]
    rcases hscan.old_or_live cfg hr' with hold | hlive
    · exact hs _ _ hold
    · exact hlive

theorem exec_applied {c : Call Base} (h : (exec cat cfg policy s c).2 = some id) :
    ∃ l j r dispatched s', c = .finish l j r dispatched ∧ l.id = id ∧
      finish cat cfg policy s l j r dispatched = .ok (s', true) ∧
      (exec cat cfg policy s c).1 = s' := by
  cases c with
  | finish l j r dispatched => grind [exec]
  | _ => cases h

/-! ## Whole runs -/

def Prunable (s : State Base) (id : Digest) : Prop :=
  ∃ r t, s.jobs.get? id = some r ∧ r.state.terminal = true ∧ r.finishedAt = some t ∧ t + cfg.retention < s.now

theorem prunable_of_doomed (hs : Consistent s) (h : id ∈ doomed cfg s) : Prunable cfg s id := by
  unfold doomed at h
  obtain ⟨r, hr, rfl⟩ := mem_map.mp h
  have hmem := (mem_insertionSort _).mp (mem_of_mem_take hr)
  obtain ⟨hrow, hold⟩ := mem_filter.mp hmem
  obtain ⟨t, ht, hlt⟩ := (Option.any_eq_true _ _).mp hold
  have hget := get?_of_mem hrow
  refine ⟨r, t, hget, ?_, ht, of_decide_eq_true hlt⟩
  cases hp : r.state.pending with
  | false => simp [JobState.terminal, hp]
  | true =>
    have hnone := (hs _ _ hget hp).2
    rw [ht] at hnone
    cases hnone

section
variable (start : Time) (schedule : Nat → Call Base)

theorem stateAt_succ (k : Nat) : stateAt cat cfg policy start schedule (k + 1) =
    (exec cat cfg policy (stateAt cat cfg policy start schedule k) (schedule k)).1 :=
  rfl

theorem consistent_stateAt (k : Nat) : Consistent (stateAt cat cfg policy start schedule k) :=
  Run.stateAt_invariant (I := Consistent) _ (consistent_initial start)
    (fun _ c hs => consistent_exec cat cfg policy hs c) schedule k

/-- Call `k` is a scan that finds the job ended longer than the retention ago. -/
def PrunedAt (k : Nat) (id : Digest) : Prop :=
  schedule k = .scan ∧ Prunable cfg (stateAt cat cfg policy start schedule k) id

variable {k : Nat}

/-- **Run lemma.** From one call to the next a row evolves, unless it is pruned. -/
theorem row_evolves (h : (stateAt cat cfg policy start schedule k).jobs.get? id = some r) :
    (∃ r', (stateAt cat cfg policy start schedule (k + 1)).jobs.get? id = some r' ∧
      r.Evolves (stateAt cat cfg policy start schedule k).control.epoch
        (stateAt cat cfg policy start schedule (k + 1)).control.epoch r') ∨
      PrunedAt cat cfg policy start schedule k id := by
  rcases exec_keeps cat cfg policy (stateAt cat cfg policy start schedule k) (schedule k) with
    hkeep | ⟨hscan, gone, new, left, hrows⟩
  · exact .inl (hkeep.present h)
  · by_cases hid : id ∈ doomed cfg (stateAt cat cfg policy start schedule k)
    · exact .inr ⟨hscan, prunable_of_doomed cfg (consistent_stateAt cat cfg policy start schedule k) hid⟩
    · refine .inl ⟨r, hrows.kept_of_not_doomed cfg h hid, ?_⟩
      rw [stateAt_succ, hrows.epoch]
      exact .refl r

theorem terminal_stays {i j : Nat} (hij : i ≤ j)
    (hrow : (stateAt cat cfg policy start schedule i).jobs.get? id = some r) (hend : r.state.terminal = true) :
    (stateAt cat cfg policy start schedule j).jobs.get? id = some r ∨
      ∃ k, i ≤ k ∧ k < j ∧ PrunedAt cat cfg policy start schedule k id := by
  refine Run.persists_until (P := fun k => (stateAt cat cfg policy start schedule k).jobs.get? id = some r) ?_ hij hrow
  intro k hk
  rcases row_evolves cat cfg policy start schedule hk with ⟨r', hr', hev⟩ | hpruned
  · rw [hev.frozen hend] at hr'
    exact .inl hr'
  · exact .inr hpruned

theorem generation_grows {i j : Nat} (hij : i ≤ j) {n : Nat}
    (hrow : ∃ r, (stateAt cat cfg policy start schedule i).jobs.get? id = some r ∧ n ≤ r.leaseGeneration) :
    (∃ r, (stateAt cat cfg policy start schedule j).jobs.get? id = some r ∧ n ≤ r.leaseGeneration) ∨
      ∃ k, i ≤ k ∧ k < j ∧ PrunedAt cat cfg policy start schedule k id := by
  refine Run.persists_until (P := fun k => ∃ r,
    (stateAt cat cfg policy start schedule k).jobs.get? id = some r ∧ n ≤ r.leaseGeneration)
    ?_ hij hrow
  rintro k ⟨r, hr, hn⟩
  rcases row_evolves cat cfg policy start schedule hr with ⟨r', hr', hev⟩ | hpruned
  · exact .inl ⟨r', hr', Nat.le_trans hn hev.generation⟩
  · exact .inr hpruned

theorem claimedAt_claim (h : claimedAt cat cfg policy start schedule k = some l) :
    schedule k = .claim ∧ (claim cfg (stateAt cat cfg policy start schedule k)).2 = some l := by
  grind [claimedAt]

theorem applied_by_holder (h : appliedAt cat cfg policy start schedule k = some id) :
    (∃ l j r dispatched row, schedule k = .finish l j r dispatched ∧ l.id = id ∧
      Holder (stateAt cat cfg policy start schedule k) l row) ∧
      ∃ row', (stateAt cat cfg policy start schedule (k + 1)).jobs.get? id = some row' ∧
        row'.state = .completed := by
  obtain ⟨l, j, r, dispatched, s', hcall, rfl, hfin, hs'⟩ := exec_applied cat cfg policy h
  obtain ⟨⟨row, hholder⟩, row', hrow', hdone⟩ := finish_applied cat cfg policy hfin
  grind [stateAt_succ]

/-- **The life of a job**, under every schedule. Results are applied only under the job's current, unexpired lease in
the control epoch; two applications are separated by a scan that prunes the row, and so are two leases without
increasing numbers; a terminal job stays as it is until it is pruned. -/
theorem job_applied_once_while_retained :
    (∀ k id, appliedAt cat cfg policy start schedule k = some id →
      ∃ l j r dispatched row, schedule k = .finish l j r dispatched ∧ l.id = id ∧
        (stateAt cat cfg policy start schedule k).jobs.get? id = some row ∧
        row.state = .leased ∧ row.leaseGeneration = l.generation ∧
        (∃ t, row.leaseUntil = some t ∧ (stateAt cat cfg policy start schedule k).now < t) ∧
        row.epoch = (stateAt cat cfg policy start schedule k).control.epoch) ∧
    (∀ i j id, i < j → appliedAt cat cfg policy start schedule i = some id →
      appliedAt cat cfg policy start schedule j = some id →
      ∃ k, i < k ∧ k < j ∧ PrunedAt cat cfg policy start schedule k id) ∧
    (∀ i j l l', i < j → claimedAt cat cfg policy start schedule i = some l →
      claimedAt cat cfg policy start schedule j = some l' → l'.id = l.id →
      l.generation < l'.generation ∨ ∃ k, i < k ∧ k < j ∧ PrunedAt cat cfg policy start schedule k l.id) ∧
    ∀ i j id row, i ≤ j → (stateAt cat cfg policy start schedule i).jobs.get? id = some row →
      row.state.terminal = true →
      (stateAt cat cfg policy start schedule j).jobs.get? id = some row ∨
        ∃ k, i ≤ k ∧ k < j ∧ PrunedAt cat cfg policy start schedule k id := by
  refine ⟨?_, ?_, ?_, ?_⟩
  · intro k id happ
    obtain ⟨⟨l, j, r, dispatched, row, hcall, rfl, hh⟩, -⟩ := applied_by_holder cat cfg policy start schedule happ
    have hlive := consistent_stateAt cat cfg policy start schedule k _ _ hh.row
    exact ⟨l, j, r, dispatched, row, hcall, rfl, hh.row, hh.leased, hh.generation, hh.unexpired,
      (hlive (by rw [hh.leased]; rfl)).1⟩
  · intro i j id hij hi hj
    obtain ⟨-, row, hrow, hdone⟩ := applied_by_holder cat cfg policy start schedule hi
    obtain ⟨⟨l, _, _, _, row', -, rfl, hh⟩, -⟩ := applied_by_holder cat cfg policy start schedule hj
    -- the row that the first application completed would still be completed at the second
    rcases terminal_stays cat cfg policy start schedule hij hrow (by rw [hdone]; rfl) with
      hstill | ⟨k, hik, hkj, hk⟩
    · obtain rfl : row = row' := Option.some.inj (hstill.symm.trans hh.row)
      have hleased := hh.leased
      rw [hdone] at hleased
      cases hleased
    · exact ⟨k, hik, hkj, hk⟩
  · intro i j l l' hij hi hj hid
    obtain ⟨hcalli, hl⟩ := claimedAt_claim cat cfg policy start schedule hi
    obtain ⟨-, hl'⟩ := claimedAt_claim cat cfg policy start schedule hj
    obtain ⟨-, r, hr, hgen⟩ := claim_lease cfg hl
    obtain ⟨⟨r', hr', hlt⟩, -⟩ := claim_lease cfg hl'
    have hrow : ∃ r, (stateAt cat cfg policy start schedule (i + 1)).jobs.get? l.id = some r ∧
        l.generation ≤ r.leaseGeneration := by
      refine ⟨r, ?_, Nat.le_of_eq hgen.symm⟩
      rw [stateAt_succ, hcalli]
      exact hr
    rcases generation_grows cat cfg policy start schedule hij hrow with
      ⟨r'', hr'', hle⟩ | ⟨k, hik, hkj, hk⟩
    · grind
    · exact .inr ⟨k, hik, hkj, hk⟩
  · grind [terminal_stays]

end

/-! ## A job that comes back -/

def sampleCatalogue : Catalogue Nat where
  rawSize _ := 0
  admitted _ := true
  hasContents _ := true
  eligible _ _ := true
  sourceDigest src := src.base
  coreDigest _ base := base
  planDigest plan := plan.epoch
  jobDigest hash revision pipeline := 10000 * hash + 100 * revision + pipeline
  requestDigest _ _ := 0
  inputSize _ _ := 0
  resultsSize _ := 0
  admissionBucket _ _ := some 0
  apply _ _ _ base := .ok (base + 1)
  clock := sampleClock

def sampleStepJob : Job := sampleJob .classify []

def sampleLease : Lease Nat where
  id := 51002
  hash := 5
  inputRevision := 10
  pipelineRevision := 2
  epoch := 2
  generation := 1
  source := { base := 10, reprocess := none }
  plan :=
    { epoch := 2
      corePolicy := "core"
      steps :=
        [{ entry :=
            { id := "titles", generation := 1, executionGeneration := 1, mode := .apply,
              state := .active, priority := 0, selector := none, capabilities := [.classify] }
           stage := .classify
           capabilities := [] }]
      admission := (initial Nat 0).control.admission }
  results := []
  step := 0
  stepAttempts := 0

/-- A torrent is admitted, processed and applied. Eight days later the job is pruned, and the torrent's facts are what
they were. -/
def sampleCalls : List (Call Nat) :=
  let round : List (Call Nat) :=
    [.catalogue 5 (some 10), .scan, .claim, .prepare sampleLease (.ok sampleStepJob),
      .startAttempt sampleLease,
      .finish sampleLease sampleStepJob (sampleResult sampleStepJob { contentType := "movie" }) true]
  .register "titles"
      { expectedGeneration := 0, mode := .apply, state := .active, priority := 0, selector := none,
        capabilities := [.classify] } ::
    round ++ .tick (8 * 24 * hour) :: .scan :: round

def sampleSchedule (k : Nat) : Call Nat := (sampleCalls[k]?).getD (.tick 0)

/-- **A job is applied twice**, by calls 6 and 14 under the same lease; its row is queued again after call 10. -/
theorem job_applied_twice :
    claimedAt sampleCatalogue newDefaultConfig "core" 0 sampleSchedule 3 = some sampleLease ∧
    claimedAt sampleCatalogue newDefaultConfig "core" 0 sampleSchedule 11 = some sampleLease ∧
    appliedAt sampleCatalogue newDefaultConfig "core" 0 sampleSchedule 6 = some 51002 ∧
    appliedAt sampleCatalogue newDefaultConfig "core" 0 sampleSchedule 14 = some 51002 ∧
    ((stateAt sampleCatalogue newDefaultConfig "core" 0 sampleSchedule 7).jobs.get? 51002).map
      (·.state) = some .completed ∧
    ((stateAt sampleCatalogue newDefaultConfig "core" 0 sampleSchedule 11).jobs.get? 51002).map
      (·.state) = some .queued := by
  refine ⟨rfl, rfl, ?_, ?_, ?_, ?_⟩
  · decide
  · decide
  · decide
  · decide

theorem job_applied_twice_pruned :
    ∃ k, 6 < k ∧ k < 14 ∧
      PrunedAt sampleCatalogue newDefaultConfig "core" 0 sampleSchedule k 51002 :=
  (job_applied_once_while_retained sampleCatalogue newDefaultConfig "core" 0 sampleSchedule).2.1
    6 14 51002 (by decide) (by decide) (by decide)

end BitAgent.Processors
