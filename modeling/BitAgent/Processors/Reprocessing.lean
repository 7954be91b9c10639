/-
# Processors.Reprocessing — the life of a reprocess request

A request is moved by `settleReprocessing` and the admission loop of `Scan`, by `Finish` and by `CancelReprocessing`;
`rank` counts how far it has come. `RequestStep` is what a call may make of a row: the state stays or its rank grows,
and a request gets past the core only if the call lets it; for a scan, if its pipeline is the current one and the
current admission takes its torrent (`LetsThrough`).
-/
import BitAgent.Processors.ScanProgress

namespace BitAgent.Processors

open Lib ProcessorApi List Table

variable {Base : Type}

/-! ## One request -/

def RequestState.rank : RequestState → Nat
  | .waitingCore => 0
  | .ready => 1
  | .queued => 2
  | _ => 3

theorem RequestState.active_iff {st : RequestState} : st.active = true ↔ st.rank < 3 := by
  cases st <;> decide

/-- The request is past the core; its torrent is, or will be, offered to the processors. -/
def RequestState.Past (st : RequestState) : Prop := st = .ready ∨ st = .queued

theorem RequestState.past_iff {st : RequestState} : st.Past ↔ 0 < st.rank ∧ st.rank < 3 := by
  cases st <;> simp [RequestState.Past, RequestState.rank]

/-- What a call may make of a request; `allowed` are the torrents and pipelines it lets through. -/
structure RequestStep (allowed : InfoHash → Digest → Prop) (r r' : RequestRow) : Prop where
  hash : r'.infoHash = r.infoHash
  pipeline : r'.expectedPipelineRevision = r.expectedPipelineRevision
  forward : r'.state = r.state ∨ r.state.rank < r'.state.rank
  past : r.state = .waitingCore → r'.state.Past → allowed r.infoHash r.expectedPipelineRevision

variable {allowed : InfoHash → Digest → Prop}

theorem RequestStep.refl (r : RequestRow) : RequestStep allowed r r where
  hash := rfl
  pipeline := rfl
  forward := .inl rfl
  past hwait hpast := by grind [RequestState.Past]

variable {r : RequestRow}

theorem RequestStep.rank_le {r' : RequestRow} (h : RequestStep allowed r r') :
    r.state.rank ≤ r'.state.rank := by
  rcases h.forward with heq | hlt
  · rw [heq]
  · exact hlt.le

theorem RequestStep.trans {r₁ r₂ r₃ : RequestRow} (h : RequestStep allowed r₁ r₂)
    (h' : RequestStep allowed r₂ r₃) : RequestStep allowed r₁ r₃ where
  hash := h'.hash.trans h.hash
  pipeline := h'.pipeline.trans h.pipeline
  forward := by
    rcases h'.forward with heq | hlt
    · rw [heq]
      exact h.forward
    · exact .inr (h.rank_le.trans_lt hlt)
  past hwait hpast := by
    rcases h.forward with heq | hlt
    · -- it passed in the second step, which allows the same torrents and pipelines
      rw [← h.hash, ← h.pipeline]
      exact h'.past (heq.trans hwait) hpast
    · refine h.past hwait (RequestState.past_iff.mpr ⟨Nat.zero_lt_of_lt hlt, ?_⟩)
      exact h'.rank_le.trans_lt (RequestState.past_iff.mp hpast).2

variable {state : RequestState}

theorem RequestStep.of_rank_lt {reason : String} (hlt : r.state.rank < state.rank)
    (hpast : r.state = .waitingCore → ¬ state.Past) :
    RequestStep allowed r { r with state := state, stateReason := reason } where
  hash := rfl
  pipeline := rfl
  forward := .inr hlt
  past hwait h := absurd h (hpast hwait)

/-! ## Calls that insert no request -/

/-- No request appears or goes, and every request takes a step. -/
structure Advances (allowed : InfoHash → Digest → Prop) (s s' : State Base) : Prop where
  absent : ∀ {id}, s.requests.get? id = none → s'.requests.get? id = none
  present : ∀ {id r}, s.requests.get? id = some r → ∃ r', s'.requests.get? id = some r' ∧ RequestStep allowed r r'

variable {s s' : State Base}

theorem Advances.of_eq (hrequests : s'.requests = s.requests) :
    Advances allowed s s' where
  absent h := by rw [hrequests]; exact h
  present {_ r} h := ⟨r, by rw [hrequests]; exact h, .refl r⟩

theorem Advances.refl (s : State Base) : Advances allowed s s := .of_eq rfl

theorem Advances.trans {s₁ s₂ s₃ : State Base} (h : Advances allowed s₁ s₂) (h' : Advances allowed s₂ s₃) :
    Advances allowed s₁ s₃ where
  absent hnone := h'.absent (h.absent hnone)
  present hsome := by
    obtain ⟨r2, hr2, hstep⟩ := h.present hsome
    obtain ⟨r3, hr3, hstep'⟩ := h'.present hr2
    exact ⟨r3, hr3, hstep.trans hstep'⟩

variable {p : RequestRow → Bool}

theorem Advances.of_update {f : RequestRow → RequestRow}
    (hget : ∀ id, s'.requests.get? id = (s.requests.get? id).map fun r => if p r then f r else r)
    (hsel : ∀ r, s.requests.get? r.requestID = some r → p r = true → RequestStep allowed r (f r)) :
    Advances allowed s s' where
  absent h := by rw [hget, h]; rfl
  present {id r} h := by
    refine ⟨if p r then f r else r, by rw [hget, h]; rfl, ?_⟩
    split_ifs with hp
    · exact hsel r (by rw [get?_key h]; exact h) hp
    · exact .refl r

theorem get?_setRequestsBy (s : State Base) (p : RequestRow → Bool) (state : RequestState)
    (reason : RequestRow → String) (id : Digest) :
    (setRequestsBy s p state reason).requests.get? id =
      (s.requests.get? id).map fun r => if p r then { r with state := state, stateReason := reason r } else r :=
  get?_update _ _ _ (by intro _; rfl) _

theorem advances_setRequestsBy (s : State Base) (reason : RequestRow → String)
    (hp : ∀ r, p r = true → r.state.rank < state.rank ∧ (r.state = .waitingCore → ¬ state.Past)) :
    Advances allowed s (setRequestsBy s p state reason) := by
  refine .of_update (get?_setRequestsBy s p state reason) fun r _ hr => ?_
  exact .of_rank_lt (hp r hr).1 (hp r hr).2

theorem advances_end (s : State Base) (reason : RequestRow → String) (hend : state.rank = 3)
    (hp : ∀ r, p r = true → r.state.active = true) :
    Advances allowed s (setRequestsBy s p state reason) := by
  grind [advances_setRequestsBy, RequestState.active_iff, RequestState.past_iff]

variable (cat : Catalogue Base) (cfg : Config) (policy : String)

/-! ## `Scan` -/

/-- A scan lets requests past the core: their pipeline is the current one, no processor drains, the admission takes
the torrent. -/
structure LetsThrough (s : State Base) (hash : InfoHash) (pipeline : Digest) : Prop where
  pipeline : pipeline = cat.planDigest (readPlan policy s).1
  steady : (readPlan policy s).2 = false
  admitted : admittedByPolicy cat hash s.control.admission = true

theorem settleVerdict_spec {plan : Plan} {draining : Bool} {reason : String}
    (h : settleVerdict cat policy s plan draining r = .ok (state, reason)) :
    state.rank = 3 ∨ (state = .ready ∧ r.expectedPipelineRevision = cat.planDigest plan ∧
      draining = false ∧ admittedByPolicy cat r.infoHash plan.admission = true) := by
  unfold settleVerdict at h
  split at h
  · cases h; exact .inl rfl
  split at h
  · cases h; exact .inl rfl
  split at h
  · cases h; exact .inl rfl
  split at h
  · cases h; exact .inl rfl
  next hpipeline =>
    split at h
    · cases h; exact .inl rfl
    split at h
    · cases h; exact .inl rfl
    · cases h
    split at h
    · cases h; exact .inl rfl
    split at h
    · cases h; exact .inl rfl
    split at h
    · cases h; exact .inl rfl
    split at h
    · cases h; exact .inl rfl
    split at h
    · cases h; exact .inl rfl
    grind

/-- **Run lemma of the settling loop** over waiting requests as they are in the table, each once. -/
theorem advances_settleAll {plan : Plan} {draining : Bool} {rs : List RequestRow}
    (hallowed : ∀ hash pipeline, pipeline = cat.planDigest plan → draining = false →
      admittedByPolicy cat hash plan.admission = true → allowed hash pipeline)
    (hrs : ∀ r ∈ rs, s.requests.get? r.requestID = some r ∧ r.state = .waitingCore)
    (hnodup : (rs.map (·.requestID)).Nodup) (h : settleAll cat policy plan draining rs s = .ok s') :
    Advances allowed s s' := by
  induction rs generalizing s with
  | nil =>
    cases h
    exact .refl _
  | cons r rs ih =>
    obtain ⟨⟨state, reason⟩, hverdict, hrest⟩ := accepted_bind_iff.mp h
    rw [map_cons, nodup_cons] at hnodup
    obtain ⟨hrow, hwait⟩ := hrs r mem_cons_self
    have hget := get?_setRequestsBy s (fun x => x.requestID == r.requestID) state fun _ => reason
    have hstep : Advances allowed s (setRequests s (fun x => x.requestID == r.requestID) state reason) := by
      refine .of_update hget fun x hx hp => ?_
      obtain rfl : r = x := by grind
      rcases settleVerdict_spec cat policy hverdict with hend | ⟨rfl, hpipeline, hsteady, hadmitted⟩
      · refine .of_rank_lt (by rw [hwait, hend]; decide) fun _ hpast => ?_
        exact absurd hend (RequestState.past_iff.mp hpast).2.ne
      · refine ⟨rfl, rfl, .inr (by rw [hwait]; exact Nat.zero_lt_one), fun _ _ => ?_⟩
        exact hallowed _ _ hpipeline hsteady hadmitted
    refine hstep.trans (ih ?_ hnodup.2 hrest)
    intro r' hr'
    obtain ⟨hrow', hwait'⟩ := hrs r' (mem_cons_of_mem r hr')
    refine ⟨?_, hwait'⟩
    have hne : r'.requestID ≠ r.requestID := fun heq => hnodup.1 (heq ▸ mem_map_of_mem hr')
    show (setRequestsBy s _ state fun _ => reason).requests.get? r'.requestID = some r'
    grind

theorem nodup_dueRequests (s : State Base) : ((dueRequests s).map (·.requestID)).Nodup := by
  unfold dueRequests
  have hrows := s.requests.nodup
  have hdue := hrows.sublist ((filter_sublist (p := fun r : RequestRow => r.state == .waitingCore &&
    (r.coreStatus != .pending || decide (r.createdAt + hour < s.now)))).map RequestRow.requestID)
  have hsorted := ((perm_insertionSort (fun a b : RequestRow => a.createdAt ≤ b.createdAt) _).map
    RequestRow.requestID).nodup_iff.mpr hdue
  exact hsorted.sublist ((take_sublist 16 _).map _)

theorem advances_settleReprocessing
    (h : settleReprocessing cat policy s (readPlan policy s).1 (readPlan policy s).2 = .ok s') :
    Advances (LetsThrough cat policy s) s s' := by
  unfold settleReprocessing at h
  have hfirst : Advances (LetsThrough cat policy s) s (settleRequests cat s (readPlan policy s).1) := by
    unfold settleRequests
    refine .trans (.trans (advances_end s _ rfl ?_) (advances_end _ _ rfl ?_)) (advances_end _ _ rfl ?_)
    all_goals
      intro r hr
      simp only [Bool.and_eq_true, beq_iff_eq] at hr
      rw [hr.1]
      rfl
  refine hfirst.trans (advances_settleAll cat policy ?_ ?_ (nodup_dueRequests _) h)
  · intro hash pipeline hpipeline hsteady hadmitted
    exact ⟨hpipeline, hsteady, hadmitted⟩
  · intro r hr
    exact mem_of_mem_dueRequests hr

theorem advances_holdRequest (s : State Base) (priority : List InfoHash) (hash : InfoHash) :
    Advances allowed s (holdRequest s priority hash) := by
  unfold holdRequest
  split_ifs
  · refine advances_end s _ rfl fun r hr => ?_
    simp only [Bool.and_eq_true, beq_iff_eq] at hr
    rw [hr.2]
    rfl
  · exact .refl s

theorem advances_insertJob (s : State Base) (job : JobRow Base) : Advances allowed s (insertJob s job).1 := by
  unfold insertJob
  split_ifs
  · exact .refl s
  · refine .of_update (fun _ => get?_update _ _ _ (by intro _; rfl) _) fun r _ hr => ?_
    simp only [Bool.and_eq_true, beq_iff_eq] at hr
    refine ⟨rfl, rfl, .inr (by rw [hr.2]; exact Nat.one_lt_two), fun hwait => ?_⟩
    rw [hr.2] at hwait
    cases hwait

theorem advances_scan {n : Nat} (h : scan cat cfg policy s = .ok (s', n)) :
    Advances (LetsThrough cat policy s) s s' := by
  cases scan_phases cat cfg policy h with
  | settled settle => exact advances_settleReprocessing cat policy settle
  | pruned s1 settle result =>
    rw [result]
    exact (advances_settleReprocessing cat policy settle).trans (.of_eq rfl)
  | admitted s1 s2 priority hashes after n settle room loop result =>
    obtain ⟨cursor, rfl⟩ := result
    have hadmitted : Advances (LetsThrough cat policy s) (pruneJobs cfg s1) s2 := by
      refine admitAll_invariant cat (I := Advances (LetsThrough cat policy s) (pruneJobs cfg s1)) ?_ ?_ (.refl _) loop
      · intro x hash hx
        exact hx.trans (advances_holdRequest x priority hash)
      · intro x hash src _ hx
        exact hx.trans (advances_insertJob x _)
    have hpruned : Advances (LetsThrough cat policy s) s (pruneJobs cfg s1) :=
      (advances_settleReprocessing cat policy settle).trans (.of_eq rfl)
    exact (hpruned.trans hadmitted).trans (.of_eq rfl)

/-! ## `Finish`, `CancelReprocessing` and `Reprocess` -/

theorem advances_settleRequest (s : State Base) (id : Digest) (state : JobState) (r : Result) :
    Advances allowed s (settleRequest s id state r) := by
  unfold settleRequest
  refine advances_end s _ rfl fun x hx => ?_
  simp only [Bool.and_eq_true, beq_iff_eq] at hx
  rw [hx.2]
  rfl

variable {l : Lease Base}

theorem applyResults_requests {results : List Receipt} {src : Snapshot Base}
    (h : applyResults cat s l results src = .ok s') : s'.requests = s.requests := by
  grind [applyResults, accepted_bind_iff]

theorem advances_finish {j : Job} {r : Result} {dispatched applied : Bool}
    (h : finish cat cfg policy s l j r dispatched = .ok (s', applied)) :
    Advances allowed s s' := by
  unfold finish at h
  split at h
  · cases h
  split at h
  · cases h
  obtain ⟨-, h⟩ := reject_bind_eq_ok.mp h
  obtain ⟨-, h⟩ := reject_bind_eq_ok.mp h
  have hfirst : Advances allowed s (if dispatched then finishAttempt s l r else s) := by
    split_ifs
    · exact .of_eq rfl
    · exact .refl s
  generalize (if dispatched then finishAttempt s l r else s) = s1 at h hfirst
  refine hfirst.trans ?_
  split at h
  · cases h
    exact .of_eq rfl
  obtain ⟨-, h⟩ := reject_bind_eq_ok.mp h
  split at h
  · unfold finishLast at h
    have hend : ∀ (s2 : State Base) (f : JobRow Base → JobRow Base) (hf : ∀ x, (f x).jobID = x.jobID) state,
        Advances allowed s2 (settleRequest (updateJob s2 l.id f hf) l.id state r) := by
      intro s2 f hf state
      have hjob : Advances allowed s2 (updateJob s2 l.id f hf) := .of_eq rfl
      exact hjob.trans (advances_settleRequest _ _ _ _)
    split at h
    · cases h
      exact hend _ _ _ _
    · cases h
      exact hend _ _ _ _
    · cases h
    · obtain ⟨s2, hs2, h⟩ := accepted_bind_iff.mp h
      cases h
      exact .trans (.of_eq (applyResults_requests cat hs2)) (hend s2 _ _ _)
  · cases h
    exact .of_eq rfl

theorem advances_cancelReprocessing {id : Digest} (h : cancelReprocessing s id = .ok s') : Advances allowed s s' := by
  unfold cancelReprocessing at h
  split at h
  · cases h
  next r _ =>
    cases h
    have hcancel : ∀ s1 : State Base, Advances allowed s1 (setRequests s1
        (fun x => x.requestID == id && x.state.active) .canceled "operator_canceled") := by
      intro s1
      refine advances_end s1 _ rfl fun x hx => ?_
      rw [Bool.and_eq_true] at hx
      exact hx.2
    cases r.resultJobID with
    | none => exact hcancel s
    | some job =>
      have hjobs : Advances allowed s (endJobs s (fun x => x.jobID == job) .canceled "reprocessing_canceled"
        "reprocessing_canceled") := .of_eq rfl
      exact hjobs.trans (hcancel _)

/-- **Inversion of `Reprocess`.** Nothing changes, or a torrent without an active request has a waiting one. -/
theorem reprocess_requests {origin : Digest} {w : ReprocessWrite} {export_ : JobRow Base}
    (h : reprocess cat cfg policy s origin w export_ = .ok s') :
    s'.requests = s.requests ∨ ∃ row : RequestRow, s.requests.get? w.requestID = none ∧
      row.requestID = w.requestID ∧ row.state = .waitingCore ∧
      (∀ r ∈ s.requests.rows, r.infoHash = row.infoHash → r.state.active = false) ∧
      s'.requests = s.requests.insertNew row := by
  unfold reprocess at h
  dsimp only at h
  split at h
  · split_ifs at h
    cases h
    exact .inl rfl
  next hnone =>
    obtain ⟨-, h⟩ := reject_bind_eq_ok.mp h
    obtain ⟨-, h⟩ := reject_bind_eq_ok.mp h
    obtain ⟨-, h⟩ := reject_bind_eq_ok.mp h
    obtain ⟨hbusy, h⟩ := reject_bind_eq_ok.mp h
    obtain ⟨src, -, h⟩ := accepted_bind_iff.mp h
    obtain ⟨-, h⟩ := reject_bind_eq_ok.mp h
    cases h
    refine .inr ⟨_, hnone, rfl, rfl, fun r hr hhash => ?_, rfl⟩
    grind

/-! ## One call, whole runs -/

/-- What a call does to the requests. -/
structure RequestsMove (s : State Base) (c : Call Base) (s' : State Base) : Prop where
  /-- A request stays, moves forward only, and gets past the core in a scan that lets it through only. -/
  present : ∀ {id r}, s.requests.get? id = some r → ∃ r', s'.requests.get? id = some r' ∧
    RequestStep (fun hash pipeline => c = .scan ∧ LetsThrough cat policy s hash pipeline) r r'
  /-- A new request comes from `Reprocess`, waits for the core, and is the only active one of its torrent. -/
  fresh : ∀ {id r'}, s.requests.get? id = none → s'.requests.get? id = some r' →
    (∃ origin w export_, c = .reprocess origin w export_ ∧ w.requestID = id) ∧ r'.state = .waitingCore ∧
      ∀ r ∈ s.requests.rows, r.infoHash = r'.infoHash → r.state.active = false

theorem RequestsMove.of_advances {c : Call Base}
    (h : Advances (fun hash pipeline => c = .scan ∧ LetsThrough cat policy s hash pipeline) s s') :
    RequestsMove cat policy s c s' where
  present := h.present
  fresh hnone hsome := by
    rw [h.absent hnone] at hsome
    cases hsome

theorem Advances.of_scan (h : Advances (LetsThrough cat policy s) s s') :
    Advances (fun hash pipeline => (Call.scan : Call Base) = .scan ∧ LetsThrough cat policy s hash pipeline)
      s s' where
  absent := h.absent
  present hsome := by
    obtain ⟨r', hr', hstep⟩ := h.present hsome
    grind

theorem claim_requests (s : State Base) : (claim cfg s).1.requests = s.requests := by
  unfold claim
  dsimp only
  split_ifs
  · rfl
  · split
    · rfl
    · rfl

theorem startAttempt_requests (h : startAttempt s l = .ok s') :
    s'.requests = s.requests := by
  unfold startAttempt at h
  split at h
  · cases h
  obtain ⟨-, h⟩ := reject_bind_eq_ok.mp h
  split at h
  · cases h
  obtain ⟨-, h⟩ := reject_bind_eq_ok.mp h
  cases h
  rfl

theorem requestsMove_insert {origin : Digest} {w : ReprocessWrite} {export_ : JobRow Base} {row : RequestRow}
    (hid : row.requestID = w.requestID) (hwait : row.state = .waitingCore)
    (hfree : ∀ r ∈ s.requests.rows, r.infoHash = row.infoHash → r.state.active = false)
    (hrequests : s'.requests = s.requests.insertNew row) :
    RequestsMove cat policy s (.reprocess origin w export_) s' where
  present {id r} hsome := by
    refine ⟨r, ?_, .refl r⟩
    rw [hrequests, get?_insertNew, hsome]
    rfl
  fresh {id r'} hnone hsome := by grind [get?_insertNew]

/-- **Step lemma.** -/
theorem exec_requests (s : State Base) (c : Call Base) :
    RequestsMove cat policy s c (exec cat cfg policy s c).1 := by
  have hsame : ∀ {s'}, s'.requests = s.requests → RequestsMove cat policy s c s' :=
    fun hrequests => .of_advances cat policy (.of_eq hrequests)
  have hexec := executed cat cfg policy s c
  generalize (exec cat cfg policy s c).1 = s' at hexec ⊢
  cases hexec with
  | failed => exact hsame rfl
  | scan h => exact .of_advances cat policy (.of_scan cat policy (advances_scan cat cfg policy h))
  | claim => exact hsame (claim_requests cfg s)
  | prepare h =>
    obtain ⟨row, hrow, -, ⟨-, hsaved⟩ | ⟨-, hsaved⟩⟩ := prepare_row cat policy h
    · exact hsame (by rw [hsaved])
    · exact hsame (by rw [hsaved]; rfl)
  | startAttempt h => exact hsame (startAttempt_requests h)
  | finish h => exact .of_advances cat policy (advances_finish cat cfg policy h)
  | failPreparation h =>
    obtain ⟨row, hrow, -, rfl⟩ := failPreparation_row cfg h
    exact hsame rfl
  | interrupts _ _ requests => exact hsame requests
  | reprocess h =>
    rcases reprocess_requests cat cfg policy h with hrequests | ⟨row, -, hid, hwait, hfree, hrequests⟩
    · exact hsame hrequests
    · grind [requestsMove_insert]
  | cancelReprocessing h => exact .of_advances cat policy (advances_cancelReprocessing h)
  | core =>
    refine .of_advances cat policy (.of_update (fun _ => get?_update _ _ _ (by intro _; rfl) _) ?_)
    intro r _ _
    refine ⟨rfl, rfl, .inl rfl, fun hwait hpast => ?_⟩
    grind [RequestState.Past]
  | outside _ _ _ _ requests _ => exact hsame requests

def UniqueActive (s : State Base) : Prop :=
  ∀ a ∈ s.requests.rows, ∀ b ∈ s.requests.rows, a.state.active = true → b.state.active = true →
    a.infoHash = b.infoHash → a = b

theorem RequestStep.active {r' : RequestRow} (h : RequestStep allowed r r') (hr' : r'.state.active = true) :
    r.state.active = true :=
  RequestState.active_iff.mpr (h.rank_le.trans_lt (RequestState.active_iff.mp hr'))

theorem UniqueActive.step {c : Call Base} (hs : UniqueActive s) (h : RequestsMove cat policy s c s') :
    UniqueActive s' := by
  intro a' ha' b' hb' hactive hactive' hhash
  have hga' := get?_of_mem ha'
  have hgb' := get?_of_mem hb'
  -- a request was there before, or it is the new one
  cases hga : s.requests.get? a'.requestID with
  | some a =>
    obtain ⟨a'', ha'', hstep⟩ := h.present hga
    obtain rfl : a'' = a' := Option.some.inj (ha''.symm.trans hga')
    cases hgb : s.requests.get? b'.requestID with
    | some b =>
      obtain ⟨b'', hb'', hstep'⟩ := h.present hgb
      obtain rfl : b'' = b' := Option.some.inj (hb''.symm.trans hgb')
      have hsame : a = b := hs a (get?_mem hga) b (get?_mem hgb) (hstep.active hactive)
        (hstep'.active hactive') (by rw [← hstep.hash, ← hstep'.hash, hhash])
      grind [get?_key]
    | none =>
      obtain ⟨-, -, hfree⟩ := h.fresh hgb hgb'
      have hended := hfree a (get?_mem hga) (hstep.hash.symm.trans hhash)
      rw [hstep.active hactive] at hended
      cases hended
  | none =>
    obtain ⟨⟨origin, w, export_, hc, hid⟩, -, hfree⟩ := h.fresh hga hga'
    cases hgb : s.requests.get? b'.requestID with
    | some b =>
      obtain ⟨b'', hb'', hstep'⟩ := h.present hgb
      obtain rfl : b'' = b' := Option.some.inj (hb''.symm.trans hgb')
      have hended := hfree b (get?_mem hgb) (hstep'.hash.symm.trans hhash.symm)
      rw [hstep'.active hactive'] at hended
      cases hended
    | none =>
      obtain ⟨⟨origin', w', export', hc', hid'⟩, -, -⟩ := h.fresh hgb hgb'
      grind

theorem uniqueActive_stateAt (start : Time) (schedule : Nat → Call Base) (k : Nat) :
    UniqueActive (stateAt cat cfg policy start schedule k) :=
  Run.stateAt_invariant (I := UniqueActive) _ (fun _ h => by cases h)
    (fun s c hs => hs.step cat policy (exec_requests cat cfg policy s c)) schedule k

theorem request_forward (start : Time) (schedule : Nat → Call Base) {i j : Nat} (hij : i ≤ j) {id : Digest}
    (hr : (stateAt cat cfg policy start schedule i).requests.get? id = some r) :
    ∃ r', (stateAt cat cfg policy start schedule j).requests.get? id = some r' ∧
      r'.infoHash = r.infoHash ∧ (r'.state = r.state ∨ r.state.rank < r'.state.rank) := by
  induction j, hij using Nat.le_induction with
  | base => exact ⟨r, hr, rfl, .inl rfl⟩
  | succ j hij ih =>
    obtain ⟨r1, hr1, hhash, hforward⟩ := ih
    obtain ⟨r2, hr2, hstep⟩ := (exec_requests cat cfg policy _ (schedule j)).present hr1
    refine ⟨r2, hr2, hstep.hash.trans hhash, ?_⟩
    rcases hstep.forward with heq | hlt
    · rw [heq]
      exact hforward
    · grind

/-- **The life of requests.** At most one request of a torrent is active; its state never goes back; and it gets past
the core only in a scan, while its pipeline is the current one, no processor drains, and the admission takes its
torrent. -/
theorem requests_in_order (start : Time) (schedule : Nat → Call Base) (k : Nat) :
    UniqueActive (stateAt cat cfg policy start schedule k) ∧
      (∀ j ≥ k, ∀ id r, (stateAt cat cfg policy start schedule k).requests.get? id = some r →
        ∃ r', (stateAt cat cfg policy start schedule j).requests.get? id = some r' ∧
          r'.infoHash = r.infoHash ∧ (r'.state = r.state ∨ r.state.rank < r'.state.rank)) ∧
      RequestsMove cat policy (stateAt cat cfg policy start schedule k) (schedule k)
        (stateAt cat cfg policy start schedule (k + 1)) := by
  refine ⟨uniqueActive_stateAt cat cfg policy start schedule k, ?_, ?_⟩
  · intro j hj id r hr
    exact request_forward cat cfg policy start schedule hj hr
  · rw [stateAt_succ]
    exact exec_requests cat cfg policy _ (schedule k)

end BitAgent.Processors
