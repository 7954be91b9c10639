/-
# Processors.ScanProgress — which torrents the catch-up sweep gets to

Called again and again, `Scan` should get to every torrent while the queue has room. A torrent whose input is too
large is passed over. One whose *snapshot* is too large is not: `readSource` fails and the transaction is rolled back
with its cursor, so the next scan meets it again, and another eligible torrent may never be reached. Without one, the
sweep gets to every eligible torrent: requests grow old, and then each scan ends a waiting request or moves the
cursor.
-/
import Mathlib.Algebra.Order.BigOperators.Group.List
import Mathlib.Algebra.Order.Monoid.Canonical.Basic
import BitAgent.Processors.JobHistory

namespace BitAgent.Processors

open Lib ProcessorApi List Function Table

variable {Base : Type}

/-! ## The sweep -/

abbrev Torrents (Base : Type) := Table (Prod.fst : InfoHash × Base → InfoHash)

section
variable (cat : Catalogue Base) (cfg : Config) (policy : String)

def pollRound (pollInterval : Time) (s : State Base) : State Base :=
  (exec cat cfg policy (exec cat cfg policy s .scan).1 (.tick pollInterval)).1

/-- Scanning is on: there is a processor, none is draining, and some torrents are sampled. -/
structure Scanning (s : State Base) : Prop where
  active : (readPlan policy s).1.steps ≠ []
  resumed : (readPlan policy s).2 = false
  sampling : s.control.admission.basisPoints ≠ 0

structure Oversized (a : Admission) (t : InfoHash × Base) : Prop where
  contents : cat.hasContents t.2 = true
  sampled : admittedByPolicy cat t.1 a = true
  large : ∃ reprocess, cat.rawSize { base := t.2, reprocess := reprocess } > 262144

/-- A torrent that a scan admits if nothing stands in the way. -/
structure EligibleTorrent (a : Admission) (t : InfoHash × Base) : Prop where
  contents : cat.hasContents t.2 = true
  sampled : admittedByPolicy cat t.1 a = true
  admitted : cat.admitted t.2 = true
  named : cat.eligible t.1 t.2 = true
  small : ∀ reprocess, cat.rawSize { base := t.2, reprocess := reprocess } ≤ 262144
  input : ∀ reprocess, cat.inputSize t.1 { base := t.2, reprocess := reprocess } ≤ 100000

/-- The torrent has a job, or the cursor is past it, or the queue is full. -/
def Reached (s : State Base) (hash : InfoHash) : Prop :=
  (∃ r ∈ s.jobs.rows, r.infoHash = hash) ∨ (∃ c, s.control.scanAfter = some c ∧ hash ≤ c) ∨
    scanCapacity cfg (pruneJobs cfg s) ≤ 0

/-- Every eligible torrent is reached after enough scans, for every valid configuration and state. -/
def SweepReaches (a : Admission) (torrents : Torrents Base) : Prop :=
  ∀ (cfg : Config) (pollInterval : Time), cfg.validate pollInterval = .ok () →
    ∀ s : State Base, s.torrents = torrents → s.control.admission = a → Scanning policy s →
      ∀ t ∈ torrents.rows, EligibleTorrent cat a t →
        ∃ n, Reached cfg ((pollRound cat cfg policy pollInterval)^[n] s) t.1

end

/-! ## What a scan touches -/

/-- From `s` to `s'` the requests change only to states that satisfy `P`; torrents, registry, admission and clock
stay. -/
structure Touches (P : RequestState → Prop) (s s' : State Base) : Prop where
  torrents : s'.torrents = s.torrents
  registry : s'.registry = s.registry
  admission : s'.control.admission = s.control.admission
  now : s'.now = s.now
  requests : ∀ {id x'}, s'.requests.get? id = some x' → ∃ x, s.requests.get? id = some x ∧
    x'.createdAt = x.createdAt ∧ x'.infoHash = x.infoHash ∧ (x'.state = x.state ∨ P x'.state)

variable {P : RequestState → Prop} {s s' : State Base}

theorem Touches.of_eq (htorrents : s'.torrents = s.torrents) (hregistry : s'.registry = s.registry)
    (hadmission : s'.control.admission = s.control.admission) (hnow : s'.now = s.now)
    (hrequests : s'.requests = s.requests) : Touches P s s' where
  torrents := htorrents
  registry := hregistry
  admission := hadmission
  now := hnow
  requests {_ x'} h := ⟨x', by rw [← hrequests]; exact h, rfl, rfl, .inl rfl⟩

theorem Touches.refl (s : State Base) : Touches P s s := .of_eq rfl rfl rfl rfl rfl

theorem Touches.trans {s₁ s₂ s₃ : State Base} (h : Touches P s₁ s₂) (h' : Touches P s₂ s₃) :
    Touches P s₁ s₃ where
  torrents := h'.torrents.trans h.torrents
  registry := h'.registry.trans h.registry
  admission := h'.admission.trans h.admission
  now := h'.now.trans h.now
  requests hx₃ := by
    obtain ⟨x2, hx2, hcreated, hhash, hstate⟩ := h'.requests hx₃
    obtain ⟨x1, hx1, hcreated', hhash', hstate'⟩ := h.requests hx2
    grind

variable {p : RequestRow → Bool}

theorem Touches.of_update {f : RequestRow → RequestRow}
    (hget : ∀ id, s'.requests.get? id = (s.requests.get? id).map fun x => if p x then f x else x)
    (htorrents : s'.torrents = s.torrents) (hregistry : s'.registry = s.registry)
    (hadmission : s'.control.admission = s.control.admission) (hnow : s'.now = s.now)
    (hcreated : ∀ x, (f x).createdAt = x.createdAt) (hhash : ∀ x, (f x).infoHash = x.infoHash)
    (hP : ∀ x, P (f x).state) : Touches P s s' where
  torrents := htorrents
  registry := hregistry
  admission := hadmission
  now := hnow
  requests {id x'} hx' := by grind [Option.map_eq_some_iff]

theorem touches_setRequestsBy (s : State Base) (p : RequestRow → Bool) {state : RequestState}
    (reason : RequestRow → String) (hP : P state) : Touches P s (setRequestsBy s p state reason) :=
  .of_update (fun _ => get?_update _ _ _ (by intro _; rfl) _) rfl rfl rfl rfl (fun _ => rfl)
    (fun _ => rfl) fun _ => hP

variable (cat : Catalogue Base) (cfg : Config) (policy : String) {plan : Plan} {draining : Bool} {rs : List RequestRow}

theorem touches_settleAll (hP : ∀ r ∈ rs, ∀ s₁ : State Base, s₁.now = s.now → ∀ state reason,
      settleVerdict cat policy s₁ plan draining r = .ok (state, reason) → P state)
    (h : settleAll cat policy plan draining rs s = .ok s') : Touches P s s' := by
  induction rs generalizing s with
  | nil =>
    cases h
    exact .refl _
  | cons r rs ih =>
    obtain ⟨⟨state, reason⟩, hverdict, hrest⟩ := accepted_bind_iff.mp h
    have hstate := hP r mem_cons_self s rfl state reason hverdict
    have hstep := touches_setRequestsBy s (fun x => x.requestID == r.requestID) (fun _ => reason) hstate
    refine hstep.trans (ih ?_ hrest)
    intro r' hr' s₁ hnow
    exact hP r' (mem_cons_of_mem r hr') s₁ hnow

theorem touches_holdRequest (s : State Base) (priority : List InfoHash) (hash : InfoHash)
    (hheld : P .held) : Touches P s (holdRequest s priority hash) := by
  unfold holdRequest
  split_ifs
  · exact touches_setRequestsBy s _ _ hheld
  · exact .refl s

theorem touches_insertJob (s : State Base) (job : JobRow Base) (hqueued : P .queued) :
    Touches P s (insertJob s job).1 := by
  unfold insertJob
  split_ifs
  · exact .refl s
  · exact .of_update (fun _ => get?_update _ _ _ (by intro _; rfl) _) rfl rfl rfl rfl
      (fun _ => rfl) (fun _ => rfl) fun _ => hqueued

variable {hashes : List InfoHash}

theorem touches_admitAll {capacity : Int} {priority : List InfoHash} {after after' : Option InfoHash}
    {admitted admitted' : Nat} (hheld : P .held) (hqueued : P .queued)
    (h : admitAll cat plan capacity priority hashes s after admitted = .ok (s', after', admitted')) :
    Touches P s s' := by
  refine admitAll_invariant cat (I := Touches P s) ?_ ?_ (.refl s) h
  · intro s1 hash htouch
    exact htouch.trans (touches_holdRequest s1 priority hash hheld)
  · intro s1 hash src _ htouch
    exact htouch.trans (touches_insertJob s1 _ hqueued)

structure Routine (P : RequestState → Prop) : Prop where
  settled : P .settled
  stale : P .stale
  deferred : P .deferred
  held : P .held
  queued : P .queued

theorem touches_settleRequests (s : State Base) (plan : Plan) (hP : Routine P) :
    Touches P s (settleRequests cat s plan) := by
  unfold settleRequests
  refine .trans ?_ (touches_setRequestsBy _ _ _ hP.deferred)
  refine .trans ?_ (touches_setRequestsBy _ _ _ hP.stale)
  exact touches_setRequestsBy s _ _ hP.settled

variable {r : RequestRow}

theorem mem_of_mem_dueRequests (h : r ∈ dueRequests s) :
    s.requests.get? r.requestID = some r ∧ r.state = .waitingCore := by
  have hmem := (mem_insertionSort _).mp (mem_of_mem_take h)
  grind [get?_of_mem]

theorem touches_scan {n : Nat} (h : scan cat cfg policy s = .ok (s', n)) :
    Touches (fun _ => True) s s' := by
  have hany : Routine fun _ => True := ⟨trivial, trivial, trivial, trivial, trivial⟩
  have hsettled : ∀ {s1 plan draining}, settleReprocessing cat policy s plan draining = .ok s1 →
      Touches (fun _ => True) s s1 := by
    intro s1 plan draining hsettle
    exact (touches_settleRequests cat s _ hany).trans
      (touches_settleAll cat policy (fun _ _ _ _ _ _ _ => trivial) hsettle)
  cases scan_phases cat cfg policy h with
  | settled settle => exact hsettled settle
  | pruned s1 settle result =>
    rw [result]
    exact (hsettled settle).trans (.of_eq rfl rfl rfl rfl rfl)
  | admitted s1 s2 priority hashes after n settle room loop result =>
    obtain ⟨cursor, rfl⟩ := result
    have hpruned : Touches (fun _ => True) s (pruneJobs cfg s1) := (hsettled settle).trans (.of_eq rfl rfl rfl rfl rfl)
    have hadmitted := touches_admitAll (P := fun _ => True) cat trivial trivial loop
    exact (hpruned.trans hadmitted).trans (.of_eq rfl rfl rfl rfl rfl)

/-! ## A scan when every request is old -/

def Aged (s : State Base) : Prop := ∀ {id x}, s.requests.get? id = some x → x.createdAt + hour < s.now

theorem Touches.aged (h : Touches P s s') (hs : Aged s) : Aged s' := by
  intro id x hx
  obtain ⟨y, hy, hcreated, -⟩ := h.requests hx
  rw [h.now, hcreated]
  exact hs hy

/-- A request that neither goes ahead of the sweep nor hides its torrent from it. -/
def Dormant (state : RequestState) : Prop := state ≠ .ready ∧ state ≠ .waitingCore

theorem routine_dormant : Routine Dormant := by constructor <;> constructor <;> decide

def waitingRequests (s : State Base) : Nat := s.requests.rows.countP fun r => r.state == .waitingCore

theorem waitingRequests_le (h : Touches Dormant s s') : waitingRequests s' ≤ waitingRequests s := by
  refine countP_le [] ?_
  intro id x' hx' hwait
  obtain ⟨x, hx, -, -, heq | hdormant⟩ := h.requests hx'
  · exact .inr ⟨x, hx, by rw [← heq]; exact hwait⟩
  · exact absurd (by simpa using hwait) hdormant.2

theorem waitingRequests_pos_iff :
    0 < waitingRequests s ↔ ∃ r ∈ s.requests.rows, r.state = .waitingCore := by
  simp [waitingRequests, countP_pos_iff]

theorem settleVerdict_aged (h : r.createdAt + hour < s.now) :
    settleVerdict cat policy s plan draining r = .ok (.deferred, "core_processing_expired") := by
  unfold settleVerdict
  rw [if_pos h]

theorem settleAll_aged (plan : Plan) (draining : Bool) (h : ∀ r ∈ rs, r.createdAt + hour < s.now) :
    ∃ s', settleAll cat policy plan draining rs s = .ok s' := by
  induction rs generalizing s with
  | nil => exact ⟨s, rfl⟩
  | cons r rs ih =>
    obtain ⟨s', hs'⟩ := ih (s := setRequests s (fun x => x.requestID == r.requestID) .deferred
      "core_processing_expired") fun r' hr' => h r' (mem_cons_of_mem r hr')
    refine ⟨s', accepted_bind_iff.mpr ⟨_, settleVerdict_aged cat policy (h r mem_cons_self), hs'⟩⟩

theorem touches_settleAll_aged (haged : ∀ r ∈ rs, r.createdAt + hour < s.now)
    (h : settleAll cat policy plan draining rs s = .ok s') : Touches Dormant s s' := by
  refine touches_settleAll cat policy ?_ h
  intro r hr s1 hnow state reason hverdict
  rw [settleVerdict_aged cat policy (by rw [hnow]; exact haged r hr)] at hverdict
  cases hverdict
  exact routine_dormant.deferred

theorem settleAll_waiting (hr : s.requests.get? r.requestID = some r) (hwait : r.state = .waitingCore)
    (haged : ∀ x ∈ r :: rs, x.createdAt + hour < s.now) (h : settleAll cat policy plan draining (r :: rs) s = .ok s') :
    waitingRequests s' < waitingRequests s := by
  have hall := touches_settleAll_aged cat policy haged h
  refine countP_lt ?_ hr (by simp [hwait]) ?_
  · intro id x' hx' hwait'
    obtain ⟨x, hx, -, -, heq | hdormant⟩ := hall.requests hx'
    · exact ⟨x, hx, by rw [← heq]; exact hwait'⟩
    · exact absurd (by simpa using hwait') hdormant.2
  · intro x' hx'
    -- after the first turn the request is deferred, and later turns do not wake it
    obtain ⟨⟨state, reason⟩, hv, hrest⟩ := accepted_bind_iff.mp h
    rw [settleVerdict_aged cat policy (haged r mem_cons_self)] at hv
    cases hv
    have htail := touches_settleAll_aged cat policy
      (s := setRequests s (fun x => x.requestID == r.requestID) .deferred "core_processing_expired")
      (fun x hx => haged x (mem_cons_of_mem r hx)) hrest
    obtain ⟨x, hx, -, -, hx'state⟩ := htail.requests hx'
    have hx : (setRequestsBy s (fun x => x.requestID == r.requestID) .deferred
      fun _ => "core_processing_expired").requests.get? r.requestID = some x := hx
    unfold setRequestsBy at hx
    rw [get?_update, hr, Option.map_some] at hx
    cases hx
    simp only [beq_self_eq_true, if_true] at hx'state
    rcases hx'state with heq | hdormant
    · rw [heq]
      rfl
    · simpa using hdormant.2

theorem settleRequests_ready (hs : Aged s) (plan : Plan) {id : Digest} {x : RequestRow}
    (hx : (settleRequests cat s plan).requests.get? id = some x) :
    x.state ≠ .ready := by
  -- the third statement, on what the first two leave
  obtain ⟨s1, hfirst, hlast⟩ : ∃ s1, Touches Dormant s s1 ∧ settleRequests cat s plan =
      setRequests s1 (fun r => r.state == .ready && decide (r.createdAt + hour < s1.now)) .deferred
        "optional_admission_expired" :=
    ⟨_, (touches_setRequestsBy s _ _ routine_dormant.settled).trans
      (touches_setRequestsBy _ _ _ routine_dormant.stale), rfl⟩
  rw [hlast, setRequests, setRequestsBy, get?_update] at hx
  obtain ⟨y, hy, rfl⟩ := Option.map_eq_some_iff.mp hx
  have hold := hfirst.aged hs hy
  grind

/-- **`settleReprocessing` on old requests.** No request is ready afterwards, and if one was waiting, fewer are. -/
theorem settleReprocessing_aged (hs : Aged s) (plan : Plan) (draining : Bool) :
    ∃ s', settleReprocessing cat policy s plan draining = .ok s' ∧ Touches Dormant s s' ∧
      (∀ {id x}, s'.requests.get? id = some x → x.state ≠ .ready) ∧
      (waitingRequests s = 0 ∨ waitingRequests s' < waitingRequests s) := by
  set s1 := settleRequests cat s plan with hs1
  have hfirst : Touches Dormant s s1 := touches_settleRequests cat s plan routine_dormant
  have haged : Aged s1 := hfirst.aged hs
  have hdue : ∀ r ∈ dueRequests s1, r.createdAt + hour < s1.now := fun r hr => haged (mem_of_mem_dueRequests hr).1
  obtain ⟨s', hs'⟩ := settleAll_aged cat policy plan draining hdue
  have hloop := touches_settleAll_aged cat policy hdue hs'
  have hsettle : settleReprocessing cat policy s plan draining = .ok s' := hs'
  refine ⟨s', hsettle, hfirst.trans hloop, ?_, ?_⟩
  · intro id x hx
    obtain ⟨y, hy, -, -, heq | hdormant⟩ := hloop.requests hx
    · rw [heq]
      exact settleRequests_ready cat hs plan hy
    · exact hdormant.1
  · rcases Nat.eq_zero_or_pos (waitingRequests s1) with hnone | hsome
    · -- nothing waits after the first statements
      rcases Nat.eq_zero_or_pos (waitingRequests s) with hzero | hpos
      · exact .inl hzero
      · right
        have hle := waitingRequests_le hloop
        omega
    · right
      obtain ⟨r, hr, hwait⟩ := waitingRequests_pos_iff.mp hsome
      cases hlist : dueRequests s1 with
      | nil =>
        -- a waiting request that is old is due
        exfalso
        have hmem : r ∈ (s1.requests.rows.filter fun r => r.state == .waitingCore &&
            (r.coreStatus != .pending || decide (r.createdAt + hour < s1.now))) := by
          refine mem_filter.mpr ⟨hr, ?_⟩
          simp [hwait, haged (get?_of_mem hr)]
        grind [dueRequests, take_eq_nil_iff, mem_insertionSort]
      | cons r' rs =>
        rw [hlist] at hs' hdue
        have hfirst' : r' ∈ dueRequests s1 := by
          rw [hlist]
          exact mem_cons_self
        obtain ⟨hr', hwait'⟩ := mem_of_mem_dueRequests hfirst'
        exact (settleAll_waiting cat policy hr' hwait' hdue hs').trans_le (waitingRequests_le hfirst)

theorem admitAll_ok (capacity : Int) (after : Option InfoHash) (admitted : Nat)
    (hread : ∀ h ∈ hashes, admittedByPolicy cat h plan.admission = true → ∃ base, s.torrents.get? h = some (h, base) ∧
        ∀ reprocess, cat.rawSize { base := base, reprocess := reprocess } ≤ 262144) :
    ∃ s' after' admitted', admitAll cat plan capacity [] hashes s after admitted = .ok (s', after', admitted') ∧
        (after' = after ∧ hashes = [] ∨ ∃ c ∈ hashes, after' = some c) := by
  induction hashes generalizing s after admitted with
  | nil => exact ⟨s, after, admitted, rfl, .inl ⟨rfl, rfl⟩⟩
  | cons hash rest ih =>
    -- the rest of the loop, from any state with the same torrents
    have hrest : ∀ (s1 : State Base) (count : Nat), s1.torrents = s.torrents → ∃ s' after' admitted',
          admitAll cat plan capacity [] rest s1 (some hash) count = .ok (s', after', admitted') ∧
            (after' = some hash ∧ rest = [] ∨ ∃ c ∈ rest, after' = some c) := by
      intro s1 count htorrents
      refine ih (some hash) count ?_
      grind
    have hgoal : ∀ {out : Except Err (State Base × Option InfoHash × Nat)},
        (∃ s' after' admitted', out = .ok (s', after', admitted') ∧
          (after' = some hash ∧ rest = [] ∨ ∃ c ∈ rest, after' = some c)) →
        ∃ s' after' admitted', out = .ok (s', after', admitted') ∧
          (after' = after ∧ hash :: rest = [] ∨ ∃ c ∈ hash :: rest, after' = some c) := by grind
    unfold admitAll
    simp only [contains_nil, Bool.false_eq_true, if_false]
    split
    · exact hgoal (hrest s admitted rfl)
    next hpolicy =>
      obtain ⟨base, hbase, hsmall⟩ := hread hash mem_cons_self (by simpa using hpolicy)
      have hsrc : readSource cat s hash =
          .ok { base := base, reprocess := namedRequest s hash } := by grind [readSource]
      rw [hsrc]
      dsimp only
      split
      · have hheld := touches_holdRequest (P := fun _ => True) s [] hash trivial
        exact hgoal (hrest _ admitted hheld.torrents)
      split
      · exact hgoal (hrest s admitted rfl)
      split
      · exact hgoal (hrest s admitted rfl)
      have hins := touches_insertJob (P := fun _ => True) s
        (newJob cat s plan hash { base := base, reprocess := namedRequest s hash }) trivial
      generalize (if (insertJob s (newJob cat s plan hash
        { base := base, reprocess := namedRequest s hash })).2 = true then admitted + 1
        else admitted) = count
      split
      · grind
      · exact hgoal (hrest _ _ hins.torrents)

def Ahead (s : State Base) (t : InfoHash × Base) : Prop :=
  t ∈ s.torrents.rows ∧ cat.hasContents t.2 = true ∧ ∀ c, s.control.scanAfter = some c → c < t.1

theorem scanCandidates_ahead {limit : Nat} (hlimit : 1 ≤ limit) :
    (∀ h ∈ scanCandidates cat s limit, ∃ base, Ahead cat s (h, base)) ∧
      (scanCandidates cat s limit = [] → ∀ t, Ahead cat s t → 0 < waitingRequests s) := by
  constructor
  · intro h hh
    have hmem := (mem_insertionSort _).mp (mem_of_mem_take hh)
    obtain ⟨t, ht, rfl⟩ := mem_map.mp hmem
    obtain ⟨hrow, hcond⟩ := mem_filter.mp ht
    simp only [Bool.and_eq_true] at hcond
    refine ⟨t.2, hrow, hcond.1.2, ?_⟩
    grind
  · rintro hnil t ⟨hrow, hcontents, hbeyond⟩
    by_contra hnone
    have hfree : ∀ r ∈ s.requests.rows, ¬ r.state = .waitingCore := by grind [waitingRequests_pos_iff]
    have hcand : t.1 ∈ (((s.torrents.rows.filter fun t => s.control.scanAfter.all (· < t.1) &&
        cat.hasContents t.2 && !s.requests.rows.any
          (fun r => r.infoHash == t.1 && r.state == .waitingCore)).map Prod.fst).insertionSort (· ≤ ·)) := by
      refine (mem_insertionSort _).mpr (mem_map_of_mem (mem_filter.mpr ⟨hrow, ?_⟩))
      simp only [Bool.and_eq_true, Bool.not_eq_true', any_eq_false, beq_iff_eq, not_and]
      refine ⟨⟨?_, hcontents⟩, fun r hr _ => hfree r hr⟩
      cases hcur : s.control.scanAfter with
      | none => rfl
      | some c => simpa using hbeyond c hcur
    grind [scanCandidates, take_eq_nil_iff]

theorem scan_eq_of_no_ready {s₁ : State Base} (hon : Scanning policy s)
    (hsettle : settleReprocessing cat policy s (readPlan policy s).1 (readPlan policy s).2 = .ok s₁)
    (hready : ∀ {id x}, s₁.requests.get? id = some x → x.state ≠ .ready)
    (hroom : 0 < scanCapacity cfg (pruneJobs cfg s₁)) :
    scan cat cfg policy s = (admitAll cat (readPlan policy s).1 (scanCapacity cfg (pruneJobs cfg s₁)) []
        (scanCandidates cat (pruneJobs cfg s₁) cfg.scanBatch) (pruneJobs cfg s₁)
        (pruneJobs cfg s₁).control.scanAfter 0).map fun out =>
          ({ out.1 with control := { out.1.control with scanAfter :=
              if (scanCandidates cat (pruneJobs cfg s₁) cfg.scanBatch).isEmpty then none
              else out.2.1 } }, out.2.2) := by
  have hpriority : ((pruneJobs cfg s₁).requests.rows.filter fun r => r.state == .ready) = [] := by
    rw [filter_eq_nil_iff]
    intro r hr
    have hne := hready (get?_of_mem (show r ∈ s₁.requests.rows from hr))
    simpa using hne
  have hactive : ((readPlan policy s).1.steps.isEmpty || (readPlan policy s).2 ||
      (readPlan policy s).1.admission.basisPoints == 0) = false := by
    simp only [Bool.or_eq_false_iff, beq_eq_false_iff_ne, isEmpty_eq_false_iff]
    exact ⟨⟨hon.active, hon.resumed⟩, hon.sampling⟩
  unfold scan
  simp only [hsettle, bind, Except.bind, hactive, Bool.false_eq_true, if_false, hpriority,
    insertionSort_nil, take_nil, map_nil, length_nil, Nat.sub_zero,
    contains_nil, Bool.not_false, filter_true, nil_append, isEmpty_nil,
    Bool.and_true, if_neg (Int.not_le.mpr hroom)]
  cases admitAll cat (readPlan policy s).1 (scanCapacity cfg (pruneJobs cfg s₁)) []
      (scanCandidates cat (pruneJobs cfg s₁) cfg.scanBatch) (pruneJobs cfg s₁)
      (pruneJobs cfg s₁).control.scanAfter 0 with
  | error e => rfl
  | ok out => rfl

/-- **A scan when every request is old** and there is room: it gets ahead or starts over, and if a request was
waiting, fewer are. -/
theorem scan_aged (hs : Aged s) (hon : Scanning policy s)
    (hsmall : ∀ t ∈ s.torrents.rows, ¬ Oversized cat s.control.admission t) (hbatch : 1 ≤ cfg.scanBatch)
    (hroom : 0 < scanCapacity cfg (pruneJobs cfg s)) :
    ∃ s' n, scan cat cfg policy s = .ok (s', n) ∧ Touches Dormant s s' ∧
      (waitingRequests s = 0 ∨ waitingRequests s' < waitingRequests s) ∧
      ((∃ c, s'.control.scanAfter = some c ∧ ∀ old, s.control.scanAfter = some old → old < c) ∨
        ∀ t, Ahead cat s t → 0 < waitingRequests s) := by
  obtain ⟨s1, hsettle, htouch, hready, hwaiting⟩ := settleReprocessing_aged cat policy hs
    (readPlan policy s).1 (readPlan policy s).2
  obtain ⟨hjobs, hcontrol, hnow, -⟩ := settleReprocessing_jobs cat policy hsettle
  -- the room is the same before and after the requests were settled
  have hcap : scanCapacity cfg (pruneJobs cfg s1) = scanCapacity cfg (pruneJobs cfg s) := by
    have hdoomed : doomed cfg s1 = doomed cfg s := by
      unfold doomed
      rw [hjobs, hnow]
    unfold scanCapacity pruneJobs
    dsimp only
    rw [hdoomed, hjobs]
  set s2 := pruneJobs cfg s1 with hs2
  have htorrents : s2.torrents = s.torrents := htouch.torrents
  have hscanAfter : s2.control.scanAfter = s.control.scanAfter := by
    show s1.control.scanAfter = _
    rw [hcontrol]
  have hahead : ∀ t, Ahead cat s2 t ↔ Ahead cat s t := by
    intro t
    unfold Ahead
    rw [htorrents, hscanAfter]
  obtain ⟨hcand, hnone⟩ := scanCandidates_ahead cat (s := s2) hbatch
  have hread : ∀ h ∈ scanCandidates cat s2 cfg.scanBatch,
      admittedByPolicy cat h (readPlan policy s).1.admission = true →
      ∃ base, s2.torrents.get? h = some (h, base) ∧
        ∀ reprocess, cat.rawSize { base := base, reprocess := reprocess } ≤ 262144 := by
    intro h hh hpolicy
    obtain ⟨base, hbase⟩ := hcand h hh
    have hrow := hbase.1
    refine ⟨base, get?_of_mem hrow, ?_⟩
    intro reprocess
    by_contra hlarge
    rw [htorrents] at hrow
    exact hsmall (h, base) hrow ⟨hbase.2.1, hpolicy, reprocess, not_le.mp hlarge⟩
  obtain ⟨s3, after, admitted, hloop, hcursor⟩ := admitAll_ok cat (scanCapacity cfg s2) s2.control.scanAfter 0 hread
  have hadmitted := touches_admitAll cat routine_dormant.held routine_dormant.queued hloop
  have hpruned : Touches Dormant s s2 := htouch.trans (.of_eq rfl rfl rfl rfl rfl)
  have hscan := scan_eq_of_no_ready cat cfg policy hon hsettle hready (by rw [hcap]; exact hroom)
  rw [hloop] at hscan
  refine ⟨_, _, hscan, (hpruned.trans hadmitted).trans (.of_eq rfl rfl rfl rfl rfl), ?_, ?_⟩
  · refine hwaiting.imp_right fun hlt => ?_
    exact (waitingRequests_le hadmitted).trans_lt hlt
  · rcases hcursor with ⟨-, hempty⟩ | ⟨c, hc, hafter⟩
    · right
      intro t ht
      have hpos := hnone hempty t ((hahead t).mpr ht)
      have hle := waitingRequests_le hpruned
      omega
    · left
      have hfull : (scanCandidates cat s2 cfg.scanBatch).isEmpty = false := by grind
      obtain ⟨base, hbase⟩ := hcand c hc
      refine ⟨c, ?_, ?_⟩
      · grind
      · intro old hold
        exact ((hahead _).mp hbase).2.2 old hold

/-! ## Every eligible torrent is reached -/

/-- What a round leaves alone, whether its scan succeeds or not. -/
structure RoundFrame (pollInterval : Time) (s s' : State Base) : Prop where
  torrents : s'.torrents = s.torrents
  registry : s'.registry = s.registry
  admission : s'.control.admission = s.control.admission
  now : s'.now = s.now + pollInterval
  created : ∀ {id x'}, s'.requests.get? id = some x' → ∃ x, s.requests.get? id = some x ∧ x'.createdAt = x.createdAt

theorem pollRound_frame (pollInterval : Time) (s : State Base) :
    RoundFrame pollInterval s (pollRound cat cfg policy pollInterval s) := by
  have hscan : Touches (fun _ => True) s (exec cat cfg policy s .scan).1 := by
    show Touches _ s (committed s ((scan cat cfg policy s).map Prod.fst))
    cases h : scan cat cfg policy s with
    | error e => exact .refl s
    | ok out => exact touches_scan cat cfg policy h
  refine ⟨hscan.torrents, hscan.registry, hscan.admission, ?_, ?_⟩
  · show (exec cat cfg policy s .scan).1.now + pollInterval = _
    rw [hscan.now]
  · intro id x' hx'
    obtain ⟨x, hx, hcreated, -⟩ := hscan.requests hx'
    exact ⟨x, hx, hcreated⟩

variable {pollInterval : Time}

theorem RoundFrame.scanning (h : RoundFrame pollInterval s s') (hon : Scanning policy s) : Scanning policy s' where
  active := by
    show (sortEntries s'.registry.rows).filterMap stepOf ≠ []
    rw [h.registry]
    exact hon.active
  resumed := by
    show ((sortEntries s'.registry.rows).any fun e => (stepOf e).isSome && e.state == .draining) = false
    rw [h.registry]
    exact hon.resumed
  sampling := by
    rw [h.admission]
    exact hon.sampling

theorem RoundFrame.aged (h : RoundFrame pollInterval s s') (hs : Aged s) : Aged s' := by
  intro id x' hx'
  obtain ⟨x, hx, hcreated⟩ := h.created hx'
  rw [hcreated, h.now]
  exact Nat.lt_of_lt_of_le (hs hx) (Nat.le_add_right _ _)

def gap (cursor : Option Nat) (hash : Nat) : Nat :=
  match cursor with
  | none => hash + 1
  | some c => hash - c

theorem gap_le (cursor : Option Nat) (hash : Nat) : gap cursor hash ≤ hash + 1 := by
  unfold gap
  split
  · exact Nat.le_refl _
  · omega

theorem gap_lt {cursor : Option Nat} {c hash : Nat} (hbeyond : ∀ old, cursor = some old → old < c)
    (hbehind : c < hash) : gap (some c) hash < gap cursor hash := by
  cases cursor with
  | none => simp only [gap]; omega
  | some old =>
    have hlt := hbeyond old rfl
    simp only [gap]
    omega

/-- How far the sweep is from a torrent: requests that wait, then the cursor's distance. -/
def distance (s : State Base) (hash : InfoHash) : Nat := waitingRequests s * (hash + 2) + gap s.control.scanAfter hash

variable {t : InfoHash × Base}

/-- **Progress.** A round that starts with old requests reaches the torrent or gets nearer to it. -/
theorem pollRound_progress (pollInterval : Time) (hs : Aged s) (hon : Scanning policy s)
    (hsmall : ∀ t ∈ s.torrents.rows, ¬ Oversized cat s.control.admission t) (hbatch : 1 ≤ cfg.scanBatch)
    (ht : t ∈ s.torrents.rows) (hcontents : cat.hasContents t.2 = true) (hfar : ¬ Reached cfg s t.1) :
    Reached cfg (pollRound cat cfg policy pollInterval s) t.1 ∨
      distance (pollRound cat cfg policy pollInterval s) t.1 < distance s t.1 := by
  have hbehind : ∀ c, s.control.scanAfter = some c → c < t.1 := by
    intro c hc
    by_contra hpast
    exact hfar (.inr (.inl ⟨c, hc, not_lt.mp hpast⟩))
  have hroom : 0 < scanCapacity cfg (pruneJobs cfg s) := by
    by_contra hfull
    exact hfar (.inr (.inr (not_lt.mp hfull)))
  obtain ⟨s', n, hscan, htouch, hwaiting, hcursor⟩ := scan_aged cat cfg policy hs hon hsmall hbatch hroom
  have hround : pollRound cat cfg policy pollInterval s = { s' with now := s'.now + pollInterval } := by
    unfold pollRound exec
    simp only [hscan, Except.map, committed]
  rw [hround]
  have hle := waitingRequests_le htouch
  rcases hcursor with ⟨c, hc, hbeyond⟩ | hwait
  · by_cases hpast : t.1 ≤ c
    · exact .inl (.inr (.inl ⟨c, hc, hpast⟩))
    · right
      have hmul : waitingRequests s' * (t.1 + 2) ≤ waitingRequests s * (t.1 + 2) := Nat.mul_le_mul_right _ hle
      show waitingRequests s' * (t.1 + 2) + gap s'.control.scanAfter t.1 < _
      rw [hc]
      exact Nat.add_lt_add_of_le_of_lt hmul (gap_lt hbeyond (not_le.mp hpast))
  · -- the sweep may start over, but then a request that waited no longer does
    right
    have hpos := hwait t ⟨ht, hcontents, hbehind⟩
    have hlt : waitingRequests s' < waitingRequests s := by grind
    calc waitingRequests s' * (t.1 + 2) + gap s'.control.scanAfter t.1
        ≤ waitingRequests s' * (t.1 + 2) + (t.1 + 1) := Nat.add_le_add_left (gap_le _ _) _
      _ < (waitingRequests s' + 1) * (t.1 + 2) := by grind
      _ ≤ waitingRequests s * (t.1 + 2) := Nat.mul_le_mul_right _ hlt
      _ ≤ distance s t.1 := Nat.le_add_right _ _

theorem reached_of_aged (pollInterval : Time) (hbatch : 1 ≤ cfg.scanBatch) (hcontents : cat.hasContents t.2 = true)
    (hs : Aged s) (hon : Scanning policy s) (hsmall : ∀ t ∈ s.torrents.rows, ¬ Oversized cat s.control.admission t)
    (ht : t ∈ s.torrents.rows) :
    ∃ n, Reached cfg ((pollRound cat cfg policy pollInterval)^[n] s) t.1 := by
  induction hd : distance s t.1 using Nat.strong_induction_on generalizing s with
  | _ d ih =>
    by_cases hreached : Reached cfg s t.1
    · exact ⟨0, hreached⟩
    have hframe := pollRound_frame cat cfg policy pollInterval s
    rcases pollRound_progress cat cfg policy pollInterval hs hon hsmall hbatch ht
      hcontents hreached with hnext | hnearer
    · exact ⟨1, hnext⟩
    · obtain ⟨n, hn⟩ := ih _ (hd ▸ hnearer) (hframe.aged hs) (hframe.scanning policy hon)
        (by rw [hframe.torrents, hframe.admission]; exact hsmall)
        (by rw [hframe.torrents]; exact ht) rfl
      exact ⟨n + 1, hn⟩

theorem pollRounds_frame (pollInterval : Time) (s : State Base) (n : Nat) :
    RoundFrame (n * pollInterval) s ((pollRound cat cfg policy pollInterval)^[n] s) := by
  induction n with
  | zero => exact ⟨rfl, rfl, rfl, by simp, fun h => ⟨_, h, rfl⟩⟩
  | succ n ih =>
    rw [iterate_succ_apply']
    have hframe := pollRound_frame cat cfg policy pollInterval ((pollRound cat cfg policy pollInterval)^[n] s)
    refine ⟨hframe.torrents.trans ih.torrents, hframe.registry.trans ih.registry,
      hframe.admission.trans ih.admission, ?_, ?_⟩
    · rw [hframe.now, ih.now, Nat.succ_mul, Nat.add_assoc]
    · intro id x'' hx''
      obtain ⟨x', hx', hcreated'⟩ := hframe.created hx''
      obtain ⟨x, hx, hcreated⟩ := ih.created hx'
      exact ⟨x, hx, hcreated'.trans hcreated⟩

theorem pollRounds_aged (hpoll : 0 < pollInterval) (s : State Base) :
    ∃ n, Aged ((pollRound cat cfg policy pollInterval)^[n] s) := by
  -- no request is younger than all of them together
  let latest := (s.requests.rows.map (·.createdAt)).sum
  have hlatest : ∀ {id x}, s.requests.get? id = some x → x.createdAt ≤ latest := by
    intro id x hx
    exact le_sum_of_mem (mem_map_of_mem (get?_mem hx))
  refine ⟨latest + hour + 1, ?_⟩
  have hframe := pollRounds_frame cat cfg policy pollInterval s (latest + hour + 1)
  intro id x' hx'
  obtain ⟨x, hx, hcreated⟩ := hframe.created hx'
  have hle := hlatest hx
  rw [hcreated, hframe.now]
  calc x.createdAt + hour ≤ latest + hour := Nat.add_le_add_right hle _
    _ < latest + hour + 1 := Nat.lt_succ_self _
    _ ≤ (latest + hour + 1) * pollInterval := Nat.le_mul_of_pos_right _ hpoll
    _ ≤ s.now + (latest + hour + 1) * pollInterval := Nat.le_add_left _ _

variable {torrents : Torrents Base}

theorem sweepReaches_of_small {a : Admission} (hsmall : ∀ o ∈ torrents.rows, ¬ Oversized cat a o)
    (ht : t ∈ torrents.rows) (helig : EligibleTorrent cat a t) (hcfg : cfg.validate pollInterval = .ok ())
    (htorrents : s.torrents = torrents) (ha : s.control.admission = a) (hon : Scanning policy s) :
    ∃ n, Reached cfg ((pollRound cat cfg policy pollInterval)^[n] s) t.1 := by
  obtain ⟨n, haged⟩ := pollRounds_aged cat cfg policy (Config.poll_pos hcfg) s
  have hframe := pollRounds_frame cat cfg policy pollInterval s n
  obtain ⟨m, hm⟩ := reached_of_aged cat cfg policy pollInterval
    (Config.bounded_of_validate hcfg).scanBatch helig.contents haged (hframe.scanning policy hon)
    (by rw [hframe.torrents, hframe.admission, htorrents, ha]; exact hsmall)
    (by rw [hframe.torrents, htorrents]; exact ht)
  exact ⟨m + n, by rw [iterate_add_apply]; exact hm⟩

/-! ## A torrent that stops the sweep -/

theorem readSource_congr (htorrents : s'.torrents = s.torrents) (hrequests : s'.requests = s.requests)
    (hash : InfoHash) :
    readSource cat s' hash = readSource cat s hash := by
  unfold readSource namedRequest
  rw [htorrents, hrequests]

theorem insertJob_requests (hready : ∀ r ∈ s.requests.rows, r.state ≠ .ready) (job : JobRow Base) :
    (insertJob s job).1.requests = s.requests := by
  grind [insertJob, Table.update_eq_self]

theorem admitAll_error {capacity : Int} (after : Option InfoHash) (admitted : Nat) {o : InfoHash} {e : Err}
    (hready : ∀ r ∈ s.requests.rows, r.state ≠ .ready) (ho : o ∈ hashes)
    (hsampled : admittedByPolicy cat o plan.admission = true) (hbad : readSource cat s o = .error e)
    (hroom : ((admitted + hashes.length : Nat) : Int) ≤ capacity) :
    ∃ e, admitAll cat plan capacity [] hashes s after admitted = .error e := by
  induction hashes generalizing s after admitted with
  | nil => cases ho
  | cons hash rest ih =>
    rw [length_cons] at hroom
    unfold admitAll
    simp only [contains_nil, Bool.false_eq_true, if_false]
    by_cases hhash : hash = o
    · subst hhash
      rw [hsampled, hbad]
      exact ⟨e, rfl⟩
    have ho : o ∈ rest := by grind
    have hpos : 0 < rest.length := length_pos_of_mem ho
    -- the rest of the loop, from any state that reads the same
    have hrest : ∀ (s1 : State Base) (count : Nat), s1.torrents = s.torrents →
        s1.requests = s.requests → count ≤ admitted + 1 →
        ∃ e, admitAll cat plan capacity [] rest s1 (some hash) count = .error e := by
      intro s1 count htorrents hrequests hcount
      refine ih (some hash) count ?_ ho ?_ (by omega)
      · rw [hrequests]
        exact hready
      · grind [readSource_congr]
    split
    · exact hrest s admitted rfl rfl (Nat.le_succ _)
    split
    · exact ⟨_, rfl⟩
    next src _ =>
      split
      · exact hrest _ admitted rfl rfl (Nat.le_succ _)
      split
      · exact hrest s admitted rfl rfl (Nat.le_succ _)
      split
      · exact hrest s admitted rfl rfl (Nat.le_succ _)
      have hins := touches_insertJob (P := fun _ => True) s (newJob cat s plan hash src) trivial
      obtain ⟨count, hcount, hle⟩ : ∃ count, (if (insertJob s (newJob cat s plan hash src)).2 = true
          then admitted + 1 else admitted) = count ∧ count ≤ admitted + 1 := by grind
      rw [hcount, if_neg (by omega)]
      exact hrest _ count hins.torrents (insertJob_requests hready _) hle

def requestOf (id : Digest) (hash : InfoHash) (state : RequestState) : RequestRow where
  requestID := id
  requestDigest := 0
  originJobID := 0
  infoHash := hash
  expectedPipelineRevision := 0
  state := state
  stateReason := ""
  coreStatus := .pending
  coreReceipt := none
  resultJobID := none
  createdAt := 0

/-- Every torrent except `o` and `t` waits for the core, and `o` has the settled request of its snapshot. -/
def blockedRequests (torrents : Torrents Base) (o t : InfoHash) (reprocess : Option Digest) :
    Table RequestRow.requestID where
  rows := reprocess.toList.map (requestOf · o .settled) ++
    (torrents.rows.filter fun x => decide (x.1 ≠ o) && decide (x.1 ≠ t)).map fun x =>
      requestOf (reprocess.getD 0 + 1 + x.1) x.1 .waitingCore
  nodup := by
    rw [List.map_append, List.map_map, List.map_map]
    refine List.nodup_append.mpr ⟨?_, ?_, ?_⟩
    · grind
    · have hkeys := (List.filter_sublist (p := fun x : InfoHash × Base => decide (x.1 ≠ o) &&
        decide (x.1 ≠ t)) (l := torrents.rows)).map Prod.fst |>.nodup torrents.nodup
      have hshift := hkeys.map (f := fun h : Nat => reprocess.getD 0 + 1 + h) (fun _ _ h => Nat.add_left_cancel h)
      rw [List.map_map] at hshift
      exact hshift
    · intro id hid id' hid' heq
      obtain ⟨x, hx, rfl⟩ := List.mem_map.mp hid
      obtain ⟨y, -, rfl⟩ := List.mem_map.mp hid'
      cases reprocess with
      | none => cases hx
      | some n =>
        obtain rfl := List.mem_singleton.mp hx
        exact Nat.ne_of_lt (Nat.lt_of_lt_of_le (Nat.lt_succ_self x) (Nat.le_add_right _ y.1)) heq

theorem mem_blockedRequests {o t : InfoHash} {reprocess : Option Digest} :
    r ∈ (blockedRequests torrents o t reprocess).rows ↔
      (∃ id, reprocess = some id ∧ r = requestOf id o .settled) ∨ ∃ x ∈ torrents.rows, x.1 ≠ o ∧ x.1 ≠ t ∧
          r = requestOf (reprocess.getD 0 + 1 + x.1) x.1 .waitingCore := by
  unfold blockedRequests
  simp only [mem_append, mem_map, mem_filter, Bool.and_eq_true, decide_eq_true_eq, Option.mem_toList]
  grind

def blockedState (a : Admission) (torrents : Torrents Base) (o t : InfoHash)
    (reprocess : Option Digest) (now : Time) : State Base where
  control := { epoch := 1, scanAfter := none, admission := a, attemptHistoryFloor := 0 }
  registry :=
    { rows := [{ id := "titles", generation := 1, executionGeneration := 1, mode := .apply,
                 state := .active, priority := 0, selector := none, capabilities := [.classify] }]
      nodup := List.nodup_singleton _ }
  registryGeneration := 1
  jobs := .empty
  attempts := .empty
  applications := .empty
  requests := blockedRequests torrents o t reprocess
  torrents := torrents
  now := now

theorem setRequestsBy_eq_self (state : RequestState) (reason : RequestRow → String)
    (h : ∀ r ∈ s.requests.rows, p r = false) :
    setRequestsBy s p state reason = s := by
  unfold setRequestsBy
  rw [Table.update_eq_self _ (by intro _; rfl) h]

theorem settleRequests_eq_self (plan : Plan) (h : ∀ r ∈ s.requests.rows, r.state ≠ .queued ∧ r.state ≠ .ready) :
    settleRequests cat s plan = s := by grind [settleRequests, setRequests, setRequestsBy_eq_self]

theorem settleAll_others {id : Digest} (hid : id ∉ rs.map (·.requestID))
    (h : settleAll cat policy plan draining rs s = .ok s') :
    s'.requests.get? id = s.requests.get? id := by
  induction rs generalizing s with
  | nil =>
    cases h
    rfl
  | cons r rs ih =>
    rw [map_cons, mem_cons, not_or] at hid
    obtain ⟨⟨state, reason⟩, -, hrest⟩ := accepted_bind_iff.mp h
    have hnext := ih (s := setRequests s (fun x => x.requestID == r.requestID) state reason) hid.2 hrest
    refine hnext.trans ?_
    show (s.requests.update (fun x => x.requestID == r.requestID)
      (fun x => { x with state := state, stateReason := reason })).get? id = _
    rw [get?_update]
    cases hget : s.requests.get? id with
    | none => rfl
    | some x => grind [get?_key]

section
variable (a : Admission) (torrents : Torrents Base) (o t : InfoHash) (reprocess : Option Digest)

/-- The blocked state after `settleReprocessing`: those in `due`, at most sixteen, are deferred. -/
structure Deferred (now : Time) (s₁ : State Base) (due : List RequestRow) : Prop where
  touches : Touches Dormant (blockedState a torrents o t reprocess now) s₁
  few : due.length ≤ 16
  waited : ∀ r ∈ due, r ∈ (blockedRequests torrents o t reprocess).rows ∧ r.state = .waitingCore
  others : ∀ {id}, id ∉ due.map (·.requestID) → s₁.requests.get? id = (blockedRequests torrents o t reprocess).get? id

theorem blocked_settles (now : Time) (plan : Plan) (draining : Bool) :
    ∃ s₁ due, settleReprocessing cat policy (blockedState a torrents o t reprocess now) plan
      draining = .ok s₁ ∧ Deferred a torrents o t reprocess now s₁ due := by
  set s := blockedState a torrents o t reprocess now with hs
  have hself : settleRequests cat s plan = s := by
    refine settleRequests_eq_self cat plan ?_
    intro r hr
    rcases mem_blockedRequests.mp hr with ⟨id, -, rfl⟩ | ⟨x, -, -, -, rfl⟩
    · simp [requestOf]
    · simp [requestOf]
  have hmem : ∀ r ∈ dueRequests s, r ∈ (blockedRequests torrents o t reprocess).rows ∧ r.state = .waitingCore := by
    intro r hr
    obtain ⟨hget, hwait⟩ := mem_of_mem_dueRequests hr
    exact ⟨get?_mem hget, hwait⟩
  -- their core jobs are pending, so only old requests are due
  have haged : ∀ r ∈ dueRequests s, r.createdAt + hour < s.now := by
    intro r hr
    have hdue := (mem_filter.mp ((mem_insertionSort _).mp (mem_of_mem_take hr))).2
    simp only [Bool.and_eq_true, Bool.or_eq_true, decide_eq_true_eq] at hdue
    rcases hdue.2 with hcore | hold
    · rcases mem_blockedRequests.mp (hmem r hr).1 with ⟨id, -, rfl⟩ | ⟨x, -, -, -, rfl⟩
      · cases hcore
      · cases hcore
    · exact hold
  obtain ⟨s₁, hs1⟩ := settleAll_aged cat policy plan draining haged
  refine ⟨s₁, dueRequests s, ?_, touches_settleAll_aged cat policy haged hs1, ?_, hmem, ?_⟩
  · rw [settleReprocessing, hself]
    exact hs1
  · unfold dueRequests
    exact (length_take_le _ _)
  · intro id hid
    exact settleAll_others cat policy hid hs1

variable {a torrents o t reprocess}

section
variable {s₁ : State Base} {now : Time} {due : List RequestRow} (h : Deferred a torrents o t reprocess now s₁ due)
include h

theorem Deferred.settled_kept {id : Digest} (hid : reprocess = some id) :
    s₁.requests.get? id = some (requestOf id o .settled) := by
  have hrow := get?_of_mem (t := blockedRequests torrents o t reprocess)
    (mem_blockedRequests.mpr (.inl ⟨id, hid, rfl⟩))
  refine (h.others ?_).trans hrow
  intro hdue
  obtain ⟨d, hd, hdid⟩ := mem_map.mp hdue
  obtain ⟨hdmem, hdwait⟩ := h.waited d hd
  have hsame := get?_of_mem hdmem
  grind [requestOf]

theorem Deferred.requests_only :
    ∀ r ∈ s₁.requests.rows, r.infoHash = o → ∃ id, reprocess = some id ∧ r = requestOf id o .settled := by
  intro r hr hhash
  obtain ⟨x, hx, -, hxhash, -⟩ := h.touches.requests (get?_of_mem hr)
  have hx : (blockedRequests torrents o t reprocess).get? r.requestID = some x := hx
  rcases mem_blockedRequests.mp (get?_mem hx) with ⟨id, hid, rfl⟩ | ⟨y, -, hyo, -, rfl⟩
  · refine ⟨id, hid, ?_⟩
    have hkey : r.requestID = id := (get?_key hx).symm
    have hget := get?_of_mem hr
    rw [hkey, h.settled_kept hid] at hget
    exact (Option.some.inj hget).symm
  · exact absurd (hxhash.symm.trans hhash) hyo

theorem Deferred.named : namedRequest s₁ o = reprocess := by
  have honly := h.requests_only
  unfold namedRequest
  dsimp only
  cases hrep : reprocess with
  | none => grind [filter_eq_nil_iff]
  | some id =>
    have hkept := get?_mem (h.settled_kept hrep)
    set named := (s₁.requests.rows.filter fun r => r.infoHash == o &&
      [RequestState.ready, .queued, .settled, .coreOnly].contains r.state).insertionSort fun a b =>
        b.createdAt < a.createdAt ∨ (b.createdAt = a.createdAt ∧ b.requestID ≤ a.requestID) with hnamed
    have hin : requestOf id o .settled ∈ named :=
      (mem_insertionSort _).mpr (mem_filter.mpr ⟨hkept, by simp [requestOf]⟩)
    obtain ⟨x, xs, hx⟩ := exists_cons_of_ne_nil (ne_nil_of_mem hin)
    have hxmem : x ∈ named := by
      rw [hx]
      exact mem_cons_self
    obtain ⟨hxrow, hxcond⟩ := mem_filter.mp ((mem_insertionSort _).mp hxmem)
    simp only [Bool.and_eq_true, beq_iff_eq] at hxcond
    obtain ⟨id', hid', rfl⟩ := honly x hxrow hxcond.1
    rw [hx, List.head?_cons, Option.map_some, ← hrep, hid']
    rfl

theorem Deferred.candidates {base : Base} (hcursor : s₁.control.scanAfter = none) (ho : (o, base) ∈ torrents.rows)
    (hcontents : cat.hasContents base = true) :
    o ∈ scanCandidates cat s₁ 32 ∧ (scanCandidates cat s₁ 32).length ≤ 18 := by
  have hfound : s₁.torrents = torrents := h.touches.torrents
  unfold scanCandidates
  rw [hcursor, hfound]
  dsimp only
  set found := torrents.rows.filter fun x => (none : Option InfoHash).all (· < x.1) &&
    cat.hasContents x.2 && !s₁.requests.rows.any (fun r => r.infoHash == x.1 && r.state == .waitingCore) with hset
  have hnodup : (found.map Prod.fst).Nodup := (filter_sublist.map Prod.fst).nodup torrents.nodup
  have hsubset : found.map Prod.fst ⊆ o :: t :: due.map (·.infoHash) := by
    intro hash hhash
    obtain ⟨x, hx, rfl⟩ := mem_map.mp hhash
    obtain ⟨hrow, hcond⟩ := mem_filter.mp hx
    by_cases hxo : x.1 = o
    · rw [hxo]
      exact mem_cons_self
    by_cases hxt : x.1 = t
    · grind
    set w := requestOf (reprocess.getD 0 + 1 + x.1) x.1 .waitingCore with hw
    have hwmem : w ∈ (blockedRequests torrents o t reprocess).rows :=
      mem_blockedRequests.mpr (.inr ⟨x, hrow, hxo, hxt, rfl⟩)
    by_cases hid : w.requestID ∈ due.map (·.requestID)
    · obtain ⟨d, hd, hdid⟩ := mem_map.mp hid
      have hsame := get?_of_mem (h.waited d hd).1
      rw [hdid, get?_of_mem hwmem] at hsame
      have hhash : d.infoHash = x.1 := by
        rw [← Option.some.inj hsame]
        rfl
      grind
    · -- the request still waits, so the torrent is not a candidate
      have hget := h.others hid
      grind [get?_of_mem, requestOf, get?_mem]
  have hlength : found.length ≤ 18 := by
    have hfew := h.few
    have hle := (subperm_of_subset hnodup hsubset).length_le
    grind
  rw [take_of_length_le (by rw [length_insertionSort, length_map]; omega)]
  constructor
  · refine (mem_insertionSort _).mpr (mem_map.mpr ⟨(o, base), ?_, rfl⟩)
    refine mem_filter.mpr ⟨ho, ?_⟩
    simp only [Option.all_none, Bool.true_and, hcontents, Bool.not_eq_true', any_eq_false,
      Bool.and_eq_true, beq_iff_eq, not_and]
    intro r hr hhash hwait
    obtain ⟨id, -, rfl⟩ := h.requests_only r hr hhash
    cases hwait
  · grind [length_insertionSort]

end

/-- **The scan of the blocked state fails**, at any time. -/
theorem blocked_scan {base : Base} (now : Time) (ho : (o, base) ∈ torrents.rows)
    (hcontents : cat.hasContents base = true) (hsampled : admittedByPolicy cat o a = true)
    (hlarge : cat.rawSize { base := base, reprocess := reprocess } > 262144)
    (hon : Scanning policy (blockedState a torrents o t reprocess now)) :
    ∃ e, scan cat newDefaultConfig policy (blockedState a torrents o t reprocess now) = .error e := by
  obtain ⟨s1, due, hsettle, hdef⟩ := blocked_settles cat policy a torrents o t reprocess now
    (readPlan policy (blockedState a torrents o t reprocess now)).1
    (readPlan policy (blockedState a torrents o t reprocess now)).2
  obtain ⟨hjobs, hcontrol, -, -⟩ := settleReprocessing_jobs cat policy hsettle
  have hready : ∀ {id x}, s1.requests.get? id = some x → x.state ≠ .ready := by
    intro id x hx
    obtain ⟨y, hy, -, -, hstate | hstate⟩ := hdef.touches.requests hx
    · rw [hstate]
      rcases mem_blockedRequests.mp (get?_mem hy) with ⟨id, -, rfl⟩ | ⟨x, -, -, -, rfl⟩
      · simp [requestOf]
      · simp [requestOf]
    · exact hstate.1
  have hempty : (pruneJobs newDefaultConfig s1).jobs.rows = [] := by
    show (s1.jobs.delete _).rows = []
    rw [hjobs]
    rfl
  have hcapacity : scanCapacity newDefaultConfig (pruneJobs newDefaultConfig s1) = 32 := by
    unfold scanCapacity
    rw [hempty]
    rfl
  have hread : readSource cat s1 o = .error (.other "source_too_large") := by
    have hget : s1.torrents.get? o = some (o, base) := by
      rw [hdef.touches.torrents]
      exact get?_of_mem ho
    unfold readSource
    rw [hget, hdef.named]
    exact if_pos hlarge
  obtain ⟨hmem, hlength⟩ := Deferred.candidates cat hdef (by rw [hcontrol]; rfl) ho hcontents
  rw [scan_eq_of_no_ready cat newDefaultConfig policy hon hsettle hready (by rw [hcapacity]; decide), hcapacity]
  have hloop : ∃ e, admitAll cat (readPlan policy (blockedState a torrents o t reprocess now)).1 32 []
      (scanCandidates cat s1 32) (pruneJobs newDefaultConfig s1)
      (pruneJobs newDefaultConfig s1).control.scanAfter 0 = .error e :=
    admitAll_error cat _ 0 (fun r hr => hready (get?_of_mem (show r ∈ s1.requests.rows from hr)))
      hmem hsampled hread (by omega)
  obtain ⟨e, he⟩ := hloop
  refine ⟨e, ?_⟩
  rw [show scanCandidates cat (pruneJobs newDefaultConfig s1) newDefaultConfig.scanBatch =
    scanCandidates cat s1 32 from rfl, he]
  rfl

theorem pollRound_of_error {e : Err} (h : scan cat cfg policy s = .error e) :
    pollRound cat cfg policy pollInterval s = { s with now := s.now + pollInterval } := by
  have hscan : (exec cat cfg policy s .scan).1 = s := by
    show committed s ((scan cat cfg policy s).map Prod.fst) = s
    rw [h]
    rfl
  unfold pollRound
  rw [hscan]
  rfl

theorem blocked_scanning (now : Time) (hsampled : admittedByPolicy cat o a = true) :
    Scanning policy (blockedState a torrents o t reprocess now) where
  active := by
    intro hnil
    cases hnil
  resumed := rfl
  sampling := by
    show a.basisPoints ≠ 0
    grind [admittedByPolicy]

theorem blocked_rounds {base : Base} (pollInterval : Time) (n : Nat) (ho : (o, base) ∈ torrents.rows)
    (hcontents : cat.hasContents base = true) (hsampled : admittedByPolicy cat o a = true)
    (hlarge : cat.rawSize { base := base, reprocess := reprocess } > 262144) :
    ∃ now, (pollRound cat newDefaultConfig policy pollInterval)^[n]
      (blockedState a torrents o t reprocess 0) = blockedState a torrents o t reprocess now := by
  induction n with
  | zero => exact ⟨0, rfl⟩
  | succ n ih =>
    obtain ⟨now, hnow⟩ := ih
    obtain ⟨e, he⟩ := blocked_scan (t := t) cat policy now ho hcontents hsampled hlarge
      (blocked_scanning cat policy now hsampled)
    refine ⟨now + pollInterval, ?_⟩
    rw [iterate_succ_apply', hnow, pollRound_of_error cat newDefaultConfig policy he]
    rfl

end

/-- **What the sweep gets to.** Every eligible torrent is reached from every state, if and only if a scan reads no
torrent with a snapshot of more than 262144 bytes (or none is eligible). -/
theorem sweep_reaches_iff_no_oversized (a : Admission) (torrents : Torrents Base) : SweepReaches cat policy a torrents ↔
      ¬ ∃ o ∈ torrents.rows, Oversized cat a o ∧ ∃ t ∈ torrents.rows, EligibleTorrent cat a t := by
  constructor
  · rintro hreach ⟨⟨o, base⟩, ho, hover, ⟨t, base'⟩, ht, helig⟩
    obtain ⟨reprocess, hlarge⟩ := hover.large
    obtain ⟨n, hn⟩ := hreach newDefaultConfig 1000000 rfl (blockedState a torrents o t reprocess 0)
      rfl rfl (blocked_scanning cat policy 0 hover.sampled) (t, base') ht helig
    obtain ⟨now, hnow⟩ := blocked_rounds cat policy (t := t) 1000000 n ho hover.contents hover.sampled hlarge
    rw [hnow] at hn
    -- no job, no cursor, and room for thirty-two jobs
    rcases hn with ⟨r, hr, -⟩ | ⟨c, hc, -⟩ | hfull
    · cases hr
    · cases hc
    · have hroom : scanCapacity newDefaultConfig (pruneJobs newDefaultConfig
          (blockedState a torrents o t reprocess now)) = 32 := rfl
      rw [hroom] at hfull
      exact absurd hfull (by decide)
  · intro hnone cfg pollInterval hcfg s htorrents ha hon t ht helig
    grind [sweepReaches_of_small]

def sizedCatalogue : Catalogue Nat := { sampleCatalogue with rawSize := fun src => src.base }

/-- Two torrents and a processor, the first one byte too large and the second small. -/
def sizedStart : State Nat :=
  let calls : List (Call Nat) :=
    [.register "titles"
        { expectedGeneration := 0, mode := .apply, state := .active, priority := 0, selector := none,
          capabilities := [.classify] },
      .catalogue 1 (some 262145), .catalogue 2 (some 1000)]
  calls.foldl (fun s c => (exec sizedCatalogue newDefaultConfig "core" s c).1) (initial Nat 0)

/-- **The small torrent is never reached**: all scans fail, there is no job, and the cursor stays. -/
theorem small_torrent_never_reached : Scanning "core" sizedStart ∧ (2, 1000) ∈ sizedStart.torrents.rows ∧
    EligibleTorrent sizedCatalogue sizedStart.control.admission (2, 1000) ∧
    ∀ n, ¬ Reached newDefaultConfig ((pollRound sizedCatalogue newDefaultConfig "core" 1000000)^[n] sizedStart) 2 := by
  have hsmall : 1000 ≤ 262144 := by decide
  refine ⟨⟨by decide, by decide, by decide⟩, by decide,
    ⟨rfl, by decide, rfl, rfl, fun _ => hsmall, fun _ => Nat.zero_le _⟩, ?_⟩
  have hrounds : ∀ n, ∃ now, (pollRound sizedCatalogue newDefaultConfig "core" 1000000)^[n]
      sizedStart = { sizedStart with now := now } := by
    intro n
    induction n with
    | zero => exact ⟨0, rfl⟩
    | succ n ih =>
      obtain ⟨now, hnow⟩ := ih
      have hfails : scan sizedCatalogue newDefaultConfig "core" { sizedStart with now := now } =
          .error (.other "source_too_large") := rfl
      grind [iterate_succ_apply', pollRound_of_error]
  intro n hreached
  obtain ⟨now, hnow⟩ := hrounds n
  rw [hnow] at hreached
  rcases hreached with ⟨r, hr, -⟩ | ⟨c, hc, -⟩ | hfull
  · cases hr
  · cases hc
  · have hroom : scanCapacity newDefaultConfig (pruneJobs newDefaultConfig
        { sizedStart with now := now }) = 32 := rfl
    rw [hroom] at hfull
    exact absurd hfull (by decide)

end BitAgent.Processors
