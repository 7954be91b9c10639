/-
# Evidence.Promotion — when a torrent is marked dead

A torrent is marked dead by the time of the first suspect observation and their number. While a torrent is not alive,
the columns are those of the observations that the download client has made since it last was (`Charged`); remote
zeros only move rows the client never observed (`dead_of_observations`). With handlers interleaved, `MarkDead` acts
on the row as it was a statement ago: the only way in which a torrent can be dead after an event that shows it alive.
-/
import BitAgent.Evidence.LivenessRows

namespace BitAgent.Liveness

open Lib LabelEvidence List
open Priors (Lowering)

def statusOf (t : Rows) (hash : InfoHash) : Option Status := (t.get? hash).map (·.status)

theorem statusOf_markDead (t : Rows) (hash : InfoHash) (blacklistedAt ttl : Time) (k : InfoHash) :
    statusOf (markDead t hash blacklistedAt ttl) k =
      if hash = k then (statusOf t k).map fun _ => .dead else statusOf t k := by
  unfold statusOf
  rw [get?_markDead]
  cases t.get? k with
  | none => simp
  | some r => split_ifs <;> rfl

section

variable (u : Lowering) (cfg : LivenessConfig)

/-! ## The first statement of a handler -/

def AliveEvent (e : Evidence) : Prop :=
  cfg.enabled = true ∧ e.infoHash ≠ [] ∧ ((e.kind = .qbStateObservation ∧ classifyQBState u e.qbState = .alive) ∨
      ((e.kind = .webhookImport ∨ e.kind = .pollHistory) ∧ strengthArrPollImport ≤ e.strength ∧
        ¬ (cfg.excludePrivateTrackerGrabs = true ∧ isPrivateCategory u e.category = true)))

/-- A suspect observation of the download client. -/
def SuspectEvent (e : Evidence) : Prop :=
  cfg.enabled = true ∧ e.infoHash ≠ [] ∧ e.kind = .qbStateObservation ∧ classifyQBState u e.qbState = .suspect

instance (e : Evidence) : Decidable (SuspectEvent u cfg e) := inferInstanceAs (Decidable (_ ∧ _))

variable {u cfg} {e : Evidence}

theorem AliveEvent.not_suspect (h : AliveEvent u cfg e) : ¬ SuspectEvent u cfg e := by
  rintro ⟨-, -, hkind, hclass⟩
  rcases h.2.2 with ⟨-, halive⟩ | ⟨himport | himport, -⟩
  · rw [hclass] at halive
    cases halive
  · rw [hkind] at himport
    cases himport
  · rw [hkind] at himport
    cases himport

theorem SuspectEvent.qbState_ne (h : SuspectEvent u cfg e) : e.qbState ≠ "" := by
  intro hempty
  have hclass := h.2.2.2
  rw [hempty] at hclass
  have hignore : classifyQBState u "" = .ignore := rfl
  rw [hignore] at hclass
  cases hclass

variable (u cfg)

/-- What the first statement of a handler does, and whether `MarkDead` comes next. -/
inductive Observes (t : Rows) (e : Evidence) (now : Time) : Rows × Bool → Prop
  | ignored (halive : ¬ AliveEvent u cfg e) (hsuspect : ¬ SuspectEvent u cfg e) : Observes t e now (t, false)
  | alive (halive : AliveEvent u cfg e) (qbState source : String) :
      Observes t e now (markAlive t e.infoHash e.observedAt qbState source, false)
  | suspect (hsuspect : SuspectEvent u cfg e) :
      Observes t e now ((recordSuspect t e.infoHash e.observedAt e.qbState).1,
        promotes cfg (suspectRow (t.get? e.infoHash) e.infoHash e.observedAt e.qbState) now)

variable {now : Time}

theorem promotes_iff {rec : Record} :
    promotes cfg rec now = true ↔ rec.status = .suspect ∧ ∃ first, rec.suspectFirstSeenAt = some first ∧
      cfg.stallThreshold ≤ now - first ∧ cfg.minObservations ≤ rec.suspectObservations := by
  unfold promotes
  cases rec.suspectFirstSeenAt <;> simp

variable (t : Rows)

theorem observes_qbState (now : Time) (henabled : cfg.enabled = true) (hhash : e.infoHash ≠ [])
    (hkind : e.kind = .qbStateObservation) :
    Observes u cfg t e now (handleQBState u cfg t e now) := by
  unfold handleQBState
  cases hclass : classifyQBState u e.qbState with
  | alive => exact .alive ⟨henabled, hhash, .inl ⟨hkind, hclass⟩⟩ _ _
  | suspect => exact .suspect ⟨henabled, hhash, hkind, hclass⟩
  | ignore =>
    refine .ignored ?_ ?_
    · rintro ⟨-, -, ⟨-, halive⟩ | ⟨himport, -⟩⟩
      · rw [hclass] at halive
        cases halive
      · grind
    · rintro ⟨-, -, -, hsuspect⟩
      rw [hclass] at hsuspect
      cases hsuspect

theorem observes_import (now : Time) (henabled : cfg.enabled = true) (hhash : e.infoHash ≠ [])
    (hkind : e.kind = .webhookImport ∨ e.kind = .pollHistory) :
    Observes u cfg t e now
      (if strengthArrPollImport ≤ e.strength then (handleArrImport u cfg t e, false) else (t, false)) := by
  have hsuspect : ¬ SuspectEvent u cfg e := by
    rintro ⟨-, -, hstate, -⟩
    grind
  have hstate : e.kind ≠ .qbStateObservation := by grind
  unfold handleArrImport
  split_ifs with hstrength hprivate
  · refine .ignored ?_ hsuspect
    rintro ⟨-, -, ⟨hkind', -⟩ | ⟨-, -, hpublic⟩⟩
    · exact hstate hkind'
    · exact hpublic (Bool.and_eq_true _ _ ▸ hprivate)
  · refine .alive ⟨henabled, hhash, .inr ⟨hkind, hstrength, ?_⟩⟩ _ _
    rwa [← Bool.and_eq_true]
  · refine .ignored ?_ hsuspect
    rintro ⟨-, -, ⟨hkind', -⟩ | ⟨-, hstrong, -⟩⟩
    · exact hstate hkind'
    · exact hstrength hstrong

theorem observes (e : Evidence) (now : Time) : Observes u cfg t e now (observe u cfg t e now) := by
  unfold observe
  by_cases hon : cfg.enabled = true
  swap
  · rw [if_pos (by simpa using hon)]
    exact .ignored (fun h => hon h.1) (fun h => hon h.1)
  by_cases hhash : e.infoHash = []
  · rw [if_neg (by simpa using hon), if_pos (isEmpty_iff.mpr hhash)]
    exact .ignored (fun h => h.2.1 hhash) (fun h => h.2.1 hhash)
  · rw [if_neg (by simpa using hon), if_neg fun h => hhash (isEmpty_iff.mp h)]
    cases hkind : e.kind with
    | qbStateObservation => exact observes_qbState u cfg t now hon hhash hkind
    | webhookImport => exact observes_import u cfg t now hon hhash (.inl hkind)
    | pollHistory => exact observes_import u cfg t now hon hhash (.inr hkind)
    | webhookGrab => exact .ignored (by simp [AliveEvent, hkind]) (by simp [SuspectEvent, hkind])
    | pollCategories => exact .ignored (by simp [AliveEvent, hkind]) (by simp [SuspectEvent, hkind])

theorem handleEvidence_observes (e : Evidence) (now blacklistedAt : Time) (ok : Bool) :
    ∃ t' promote, Observes u cfg t e now (t', promote) ∧ handleEvidence u cfg t e now blacklistedAt ok =
      if promote && ok then markDead t' e.infoHash blacklistedAt cfg.blacklistTTL else t' :=
  ⟨_, _, observes u cfg t e now, rfl⟩

variable {u cfg}

theorem Observes.dead {t : Rows} {out : Rows × Bool} (h : Observes u cfg t e now out) {hash : InfoHash}
    (hdead : statusOf out.1 hash = some .dead) : statusOf t hash = some .dead := by
  unfold statusOf at hdead ⊢
  cases h with
  | ignored halive hsuspect => exact hdead
  | alive halive qbState source =>
    rw [get?_markAlive] at hdead
    split_ifs at hdead with hhash
    · cases hdead
    · exact hdead
  | suspect hsuspect =>
    rw [get?_recordSuspect] at hdead
    split_ifs at hdead with hhash
    · subst hhash
      cases hget : t.get? e.infoHash with
      | none =>
        rw [hget] at hdead
        cases hdead
      | some r =>
        rw [hget] at hdead
        have hrow : (if r.status = .dead then Status.dead else .suspect) = .dead := Option.some.inj hdead
        grind
    · exact hdead

theorem Observes.promoted {t t' : Rows} (h : Observes u cfg t e now (t', true)) :
    SuspectEvent u cfg e ∧ ∃ rec, t'.get? e.infoHash = some rec ∧ promotes cfg rec now = true := by
  generalize hout : (t', true) = out at h
  cases h with
  | ignored halive hsuspect => cases hout
  | alive halive qbState source => cases hout
  | suspect hsuspect => grind [get?_recordSuspect]

end

/-! ## What the columns say -/

/-- The row against the times of the client's suspect observations since last alive. -/
inductive Charged : Option Record → List Time → Prop
  | absent : Charged none []
  | alive {r : Record} (hstatus : r.status = .alive) : Charged (some r) []
  /-- Only remote scrapes have reported on the torrent. -/
  | remote {r : Record} (hstatus : r.status = .suspect) (hstate : r.lastQBState = none) : Charged (some r) []
  | stalled {r : Record} {first : Time} {later : List Time} (hstatus : r.status = .suspect)
      (hstate : r.lastQBState ≠ none) (hfirst : r.suspectFirstSeenAt = some first)
      (hcount : r.suspectObservations = later.length + 1) : Charged (some r) (first :: later)
  | dead {r : Record} {obs : List Time} (hstatus : r.status = .dead) : Charged (some r) obs

variable {obs : List Time}

theorem Charged.columns {r : Record} (h : Charged (some r) obs) (hstatus : r.status = .suspect) (hne : obs ≠ []) :
    r.suspectObservations = obs.length ∧ r.suspectFirstSeenAt = obs.head? := by
  cases h with
  | alive hstatus' => exact absurd rfl hne
  | remote hstatus' hstate => exact absurd rfl hne
  | stalled hstatus' hstate hfirst hcount => exact ⟨hcount, hfirst⟩
  | dead hstatus' =>
    rw [hstatus] at hstatus'
    cases hstatus'

variable {old : Option Record}

theorem Charged.observed (h : Charged old obs) (hash : InfoHash) (observedAt : Time) {qbState : String}
    (hstate : qbState ≠ "") :
    Charged (some (suspectRow old hash observedAt qbState)) (obs ++ [observedAt]) := by
  have hsome : nullableString qbState ≠ none := by simp [nullableString, hstate]
  cases h with
  | absent => exact .stalled rfl hsome rfl rfl
  | alive hstatus =>
    exact .stalled (by simp [suspectRow, hstatus]) hsome (by simp [suspectRow, hstatus]) (by simp [suspectRow, hstatus])
  | remote hstatus hnone =>
    exact .stalled (by simp [suspectRow, hstatus]) hsome (by simp [suspectRow, hnone]) (by simp [suspectRow, hnone])
  | @stalled r first later hstatus hlocal hfirst hcount =>
    have hnone : r.lastQBState.isNone = false := by grind [Option.isNone_iff_eq_none]
    refine .stalled ?_ hsome ?_ ?_
    · simp [suspectRow, hstatus]
    · simp [suspectRow, hstatus, hnone, hfirst]
    · simp [suspectRow, hstatus, hnone, hcount]
  | dead hstatus => exact .dead (by simp [suspectRow, hstatus])

theorem dead_suspectBatchRow {r : Record} {hash : InfoHash} {observedAt : Time} :
    (suspectBatchRow (some r) hash observedAt).status = .dead ↔ r.status = .dead := by
  grind [suspectBatchRow]

theorem Charged.zero (h : Charged old obs) (hash : InfoHash) (observedAt : Time)
    (hnot : (suspectBatchRow old hash observedAt).status ≠ .alive) :
    Charged (some (suspectBatchRow old hash observedAt)) obs := by
  cases h with
  | absent => exact .remote rfl rfl
  | @alive r hstatus =>
    unfold suspectBatchRow at hnot ⊢
    dsimp only at hnot ⊢
    split at hnot
    next hwhere =>
      rw [if_pos hwhere]
      rw [Bool.and_eq_true, Option.isNone_iff_eq_none] at hwhere
      have hlives : r.status ≠ .dead := by rw [hstatus]; exact nofun
      exact .remote (if_neg hlives) hwhere.1
    next => exact absurd hstatus hnot
  | @remote r hstatus hstate =>
    unfold suspectBatchRow
    dsimp only
    split
    · have hlives : r.status ≠ .dead := by rw [hstatus]; exact nofun
      exact .remote (if_neg hlives) hstate
    · exact .remote hstatus hstate
  | @stalled r first later hstatus hlocal hfirst hcount =>
    have hsame : suspectBatchRow (some r) hash observedAt = r := by
      unfold suspectBatchRow
      dsimp only
      rw [if_neg]
      simp [hlocal]
    rw [hsame]
    exact .stalled hstatus hlocal hfirst hcount
  | dead hstatus => exact .dead (dead_suspectBatchRow.mpr hstatus)

theorem RemoteEffect.charged {looked : Prop} {new : Option Record} (h : RemoteEffect looked old new)
    (hold : Charged old obs) (hnot : new.map (·.status) ≠ some .alive) : Charged new obs := by
  cases h with
  | same => exact hold
  | scraped hperm halive => exact absurd (congrArg some halive) hnot
  | zero _ hash observedAt => exact hold.zero hash observedAt fun h => hnot (congrArg some h)
  | found hlooked halive => exact absurd (congrArg some halive) hnot
  | rearmed hlooked hdead hdead' hnext => exact .dead hdead'

theorem RemoteEffect.dead {looked : Prop} {new : Option Record} (h : RemoteEffect looked old new)
    (hdead : new.map (·.status) = some .dead) : old.map (·.status) = some .dead := by
  cases h with
  | same => exact hdead
  | scraped hperm halive =>
    rw [Option.map_some, halive] at hdead
    cases hdead
  | zero hash observedAt =>
    cases old with
    | none => cases hdead
    | some r => grind [dead_suspectBatchRow]
  | found hlooked halive =>
    rw [Option.map_some, halive] at hdead
    cases hdead
  | rearmed hlooked hwas hdead' hnext => exact congrArg some hwas

/-! ## Events one after another -/

section

variable (u : Lowering) (cfg : LivenessConfig)

/-- The time of an operation's suspect observation of a torrent. -/
def observation (hash : InfoHash) : Op → Option Time
  | .event e _ _ _ => if SuspectEvent u cfg e ∧ e.infoHash = hash then some e.observedAt else none
  | .remote _ => none

def observations (hash : InfoHash) (ops : List Op) : List Time := ops.filterMap (observation u cfg hash)

/-- The run since the torrent was last alive, or all of it if it never was. -/
def SinceAlive (start : State) (hash : InfoHash) (ops window : List Op) : Prop :=
  ∃ before, ops = before ++ window ∧
    (before = [] ∨ statusOf (before.foldl (perform u cfg) start).rows hash = some .alive) ∧
    ∀ mid rest, window = mid ++ rest → mid ≠ [] →
      statusOf ((before ++ mid).foldl (perform u cfg) start).rows hash ≠ some .alive

variable {u cfg} {hash : InfoHash} {start : State}

theorem sinceAlive_of_alive {ops : List Op} (h : statusOf (ops.foldl (perform u cfg) start).rows hash = some .alive) :
    SinceAlive u cfg start hash ops [] := by
  refine ⟨ops, (append_nil ops).symm, .inr h, ?_⟩
  grind [append_eq_nil_iff]

theorem SinceAlive.concat {ops window : List Op} (h : SinceAlive u cfg start hash ops window) {op : Op}
    (hnot : statusOf ((ops ++ [op]).foldl (perform u cfg) start).rows hash ≠ some .alive) :
    SinceAlive u cfg start hash (ops ++ [op]) (window ++ [op]) := by
  obtain ⟨before, rfl, hbefore, hwindow⟩ := h
  refine ⟨before, append_assoc .., hbefore, ?_⟩
  intro mid rest hsplit hne
  rcases eq_nil_or_concat rest with rfl | ⟨rest, last, rfl⟩
  · grind
  · rw [concat_eq_append, ← append_assoc] at hsplit
    exact hwindow mid rest (append_inj' hsplit rfl).1 hne

theorem observations_concat (hash : InfoHash) (ops : List Op) (op : Op) :
    observations u cfg hash (ops ++ [op]) = observations u cfg hash ops ++ (observation u cfg hash op).toList := by
  grind [observations]

theorem Observes.charged {t : Rows} {e : Evidence} {now : Time} {out : Rows × Bool} (h : Observes u cfg t e now out)
    (hcharged : Charged (t.get? hash) obs) (hnot : statusOf out.1 hash ≠ some .alive) (blacklistedAt : Time)
    (ok : Bool) :
    Charged (out.1.get? hash) (obs ++ (observation u cfg hash (.event e now blacklistedAt ok)).toList) := by
  dsimp only [observation]
  cases h with
  | ignored halive hsuspect =>
    rw [if_neg fun h => hsuspect h.1]
    simpa using hcharged
  | alive halive qbState source =>
    rw [if_neg fun h => halive.not_suspect h.1]
    dsimp only [statusOf] at hnot ⊢
    rw [get?_markAlive] at hnot ⊢
    split_ifs at hnot ⊢
    · exact absurd rfl hnot
    · simpa using hcharged
  | suspect hsuspect =>
    dsimp only
    rw [get?_recordSuspect]
    by_cases hhash : e.infoHash = hash
    · subst hhash
      rw [if_pos rfl, if_pos ⟨hsuspect, rfl⟩]
      exact hcharged.observed e.infoHash e.observedAt hsuspect.qbState_ne
    · grind

theorem Charged.markDead {t : Rows} (h : Charged (t.get? hash) obs) (k : InfoHash) (blacklistedAt ttl : Time) :
    Charged ((Liveness.markDead t k blacklistedAt ttl).get? hash) obs := by
  rw [get?_markDead]
  cases hget : t.get? hash with
  | none =>
    rw [hget] at h
    exact h
  | some r =>
    rw [Option.map_some]
    split_ifs
    · exact .dead rfl
    · rw [hget] at h
      exact h

theorem charged_perform {s : State} (h : Charged (s.rows.get? hash) obs) (op : Op)
    (hnot : statusOf (perform u cfg s op).rows hash ≠ some .alive) :
    Charged ((perform u cfg s op).rows.get? hash) (obs ++ (observation u cfg hash op).toList) := by
  cases op with
  | remote a =>
    rw [observation, Option.toList_none, append_nil]
    exact (remoteEffect cfg s a hash).charged h hnot
  | event e now blacklistedAt ok =>
    obtain ⟨t, promote, hobs, hhandled⟩ := handleEvidence_observes u cfg s.rows e now blacklistedAt ok
    dsimp only [perform] at hnot ⊢
    rw [hhandled] at hnot ⊢
    split_ifs at hnot ⊢ with hpromote
    · rw [Bool.and_eq_true] at hpromote
      obtain ⟨rfl, -⟩ := hpromote
      refine (hobs.charged h ?_ blacklistedAt ok).markDead ..
      -- a torrent that is about to be marked dead is suspect, and no other is touched
      rw [statusOf_markDead] at hnot
      split_ifs at hnot with hhash
      · obtain ⟨-, rec, hrec, hgates⟩ := hobs.promoted
        grind [statusOf, promotes_iff]
      · exact hnot
    · exact hobs.charged h hnot blacklistedAt ok

/-- Rows suspect at the start were made so by remote scrapes. -/
def Uncharged (start : Rows) : Prop := ∀ hash r, start.get? hash = some r → r.status = .suspect → r.lastQBState = none

theorem Uncharged.charged {start : Rows} (h : Uncharged start) (hash : InfoHash) : Charged (start.get? hash) [] := by
  cases hget : start.get? hash with
  | none => exact .absent
  | some r =>
    cases hstatus : r.status with
    | alive => exact .alive hstatus
    | suspect => exact .remote hstatus (h hash r hget hstatus)
    | dead => exact .dead hstatus

theorem charged_run (u : Lowering) (cfg : LivenessConfig) (hstart : Uncharged start.rows) (ops : List Op)
    (hash : InfoHash) :
    ∃ window, SinceAlive u cfg start hash ops window ∧
      Charged ((ops.foldl (perform u cfg) start).rows.get? hash) (observations u cfg hash window) := by
  induction ops using List.reverseRecOn with
  | nil =>
    refine ⟨[], ⟨[], rfl, .inl rfl, ?_⟩, hstart.charged hash⟩
    grind [append_eq_nil_iff]
  | append_singleton ops op ih =>
    obtain ⟨window, hwindow, hcharged⟩ := ih
    by_cases halive : statusOf ((ops ++ [op]).foldl (perform u cfg) start).rows hash = some .alive
    · refine ⟨[], sinceAlive_of_alive halive, ?_⟩
      obtain ⟨r, hr, hstatus⟩ := Option.map_eq_some_iff.mp halive
      rw [hr]
      exact .alive hstatus
    · refine ⟨window ++ [op], hwindow.concat halive, ?_⟩
      grind [observations_concat, charged_perform]

/-- **Dead only if observed long and often enough**: since the torrent was last alive the download client has made at
least `MinObservations` suspect observations, the first of them at least `StallThreshold` before. -/
theorem dead_of_observations {start : State} (hstart : Uncharged start.rows) (ops : List Op) (op : Op)
    (hash : InfoHash) (hbefore : statusOf (ops.foldl (perform u cfg) start).rows hash ≠ some .dead)
    (hafter : statusOf ((ops ++ [op]).foldl (perform u cfg) start).rows hash = some .dead) :
    ∃ e now blacklistedAt, op = .event e now blacklistedAt true ∧
      ∃ window, SinceAlive u cfg start hash (ops ++ [op]) window ∧
        cfg.minObservations ≤ (observations u cfg hash window).length ∧
        ∃ first, (observations u cfg hash window).head? = some first ∧ cfg.stallThreshold ≤ now - first := by
  obtain ⟨window, hwindow, hcharged⟩ := charged_run u cfg hstart ops hash
  have hnot : statusOf ((ops ++ [op]).foldl (perform u cfg) start).rows hash ≠ some .alive := by
    rw [hafter]
    exact nofun
  have hwindow' := hwindow.concat hnot
  rw [Run.foldl_concat] at hafter
  cases op with
  | remote a => exact absurd ((remoteEffect cfg _ a hash).dead hafter) hbefore
  | event e now blacklistedAt ok =>
    obtain ⟨t, promote, hobs, hhandled⟩ := handleEvidence_observes u cfg
      (ops.foldl (perform u cfg) start).rows e now blacklistedAt ok
    dsimp only [perform] at hafter
    rw [hhandled] at hafter
    split_ifs at hafter with hpromote
    swap
    · exact absurd (hobs.dead hafter) hbefore
    rw [Bool.and_eq_true] at hpromote
    obtain ⟨rfl, rfl⟩ := hpromote
    rw [statusOf_markDead] at hafter
    split_ifs at hafter with hhash
    swap
    · exact absurd (hobs.dead hafter) hbefore
    subst hhash
    obtain ⟨hsuspect, rec, hrec, hgates⟩ := hobs.promoted
    obtain ⟨hstatus, first, hfirst, hold, hmany⟩ := (promotes_iff cfg).mp hgates
    have hnow : statusOf t e.infoHash ≠ some .alive := by grind [statusOf]
    have hrow := hobs.charged hcharged hnow blacklistedAt true
    rw [hrec, ← observations_concat] at hrow
    have hne : observations u cfg e.infoHash (window ++ [.event e now blacklistedAt true]) ≠ [] := by
      grind [observations_concat, observation, List.append_ne_nil_of_right_ne_nil]
    obtain ⟨hcount, hhead⟩ := hrow.columns hstatus hne
    grind

end

def enabledConfig : LivenessConfig := { newDefaultLivenessConfig with enabled := true }

def seenAs (qbState : String) (observedAt : Time) : Evidence where
  source := .qbittorrent
  kind := .qbStateObservation
  sourceInstance := "main"
  sourceObjectID := "state:a1"
  infoHash := [161]
  observedAt := observedAt
  strength := strengthQBStateSuspect
  qbState := qbState

/-- Two observations four hours apart. -/
theorem dead_after_four_hours : ∃ e now blacklistedAt,
      Op.event (seenAs "stalledDL" (4 * hour)) (4 * hour) (4 * hour) true = .event e now blacklistedAt true ∧
      ∃ window, SinceAlive .ascii enabledConfig ⟨.empty, []⟩ [161] ([.event (seenAs "stalledDL" 0) 0 0 true] ++
            [.event (seenAs "stalledDL" (4 * hour)) (4 * hour) (4 * hour) true]) window ∧
        enabledConfig.minObservations ≤ (observations .ascii enabledConfig [161] window).length ∧
        ∃ first, (observations .ascii enabledConfig [161] window).head? = some first ∧
          enabledConfig.stallThreshold ≤ now - first :=
  dead_of_observations (fun _ _ h => by cases h) _ _ _ (by decide) (by decide)

/-! ## Handlers interleaved -/

section

variable (u : Lowering) (cfg : LivenessConfig)

inductive AliveStep (hash : InfoHash) : System → Step → Prop
  | intro {s : System} {e : Evidence} {now : Time} (halive : AliveEvent u cfg e) (hhash : e.infoHash = hash) :
      AliveStep hash s (.evidence e now)

inductive SuspectStep (hash : InfoHash) : System → Step → Prop
  | intro {s : System} {e : Evidence} {now : Time} (hsuspect : SuspectEvent u cfg e) (hhash : e.infoHash = hash) :
      SuspectStep hash s (.evidence e now)

/-- What a statement does to the status of a torrent. -/
inductive StatusEffect (hash : InfoHash) (s : System) (a : Step) (s' : System) : Prop
  | none (halive : ¬ AliveStep u cfg hash s a) (hsuspect : ¬ SuspectStep u cfg hash s a)
      (hstatus : statusOf s'.rows hash = statusOf s.rows hash)
      (hpromotions : hash ∈ s'.promotions → hash ∈ s.promotions)
  | alive (halive : AliveStep u cfg hash s a) (hstatus : statusOf s'.rows hash = some .alive)
  | suspect (halive : ¬ AliveStep u cfg hash s a) (hsuspect : SuspectStep u cfg hash s a)
      (hstatus : statusOf s'.rows hash ≠ some .alive)
  | dead (blacklistedAt : Time) (hstep : a = .promote hash blacklistedAt) (hmem : hash ∈ s.promotions)
      (hstatus : statusOf s'.rows hash = (statusOf s.rows hash).map fun _ => .dead)

variable {u cfg}

theorem status_suspectRow_ne_alive (old : Option Record) (hash : InfoHash) (observedAt : Time) (qbState : String) :
    (suspectRow old hash observedAt qbState).status ≠ .alive := by
  cases old with
  | none => exact nofun
  | some r =>
    show (if r.status = .dead then Status.dead else .suspect) ≠ .alive
    split_ifs <;> exact nofun

theorem statusEffect_evidence (s : System) (e : Evidence) (now : Time) (hash : InfoHash) :
    StatusEffect u cfg hash s (.evidence e now) (s.step u cfg (.evidence e now)) := by
  have hobs := observes u cfg s.rows e now
  unfold System.step
  dsimp only
  generalize observe u cfg s.rows e now = out at hobs
  cases hobs with
  | ignored halive hsuspect =>
    refine .none ?_ ?_ rfl id
    · rintro ⟨h, -⟩
      exact halive h
    · rintro ⟨h, -⟩
      exact hsuspect h
  | alive halive qbState source =>
    by_cases hhash : e.infoHash = hash
    · refine .alive ⟨halive, hhash⟩ ?_
      dsimp only [statusOf]
      rw [get?_markAlive, if_pos hhash]
      rfl
    · refine .none ?_ ?_ ?_ id
      · rintro ⟨-, h⟩
        exact hhash h
      · rintro ⟨h, -⟩
        exact halive.not_suspect h
      · grind [statusOf, get?_markAlive]
  | suspect hsuspect =>
    have halive : ¬ AliveStep u cfg hash s (.evidence e now) := by
      rintro ⟨h, -⟩
      exact h.not_suspect hsuspect
    by_cases hhash : e.infoHash = hash
    · refine .suspect halive ⟨hsuspect, hhash⟩ ?_
      grind [statusOf, get?_recordSuspect, status_suspectRow_ne_alive]
    · refine .none halive ?_ ?_ ?_
      · rintro ⟨-, h⟩
        exact hhash h
      · grind [statusOf, get?_recordSuspect]
      · grind

theorem statusEffect (u : Lowering) (cfg : LivenessConfig) (s : System) (a : Step) (hash : InfoHash) :
    StatusEffect u cfg hash s a (s.step u cfg a) := by
  cases a with
  | evidence e now => exact statusEffect_evidence s e now hash
  | promote k blacklistedAt =>
    unfold System.step
    dsimp only
    split_ifs with hmem
    · by_cases hhash : k = hash
      · subst hhash
        exact .dead blacklistedAt rfl hmem (by rw [statusOf_markDead, if_pos rfl])
      · exact .none nofun nofun (by rw [statusOf_markDead, if_neg hhash]) mem_of_mem_erase
    · exact .none nofun nofun rfl id

section

variable (u cfg)

def after (start : Rows) (run : List Step) : System := run.foldl (System.step u cfg) ⟨start, []⟩

/-- The torrent was shown alive, with no suspect observation since. -/
def LastSeenAlive (start : Rows) (run : List Step) (hash : InfoHash) : Prop :=
  Run.Since (System.step u cfg) (AliveStep u cfg hash) (SuspectStep u cfg hash) ⟨start, []⟩ run

end

theorem after_concat (start : Rows) (run : List Step) (a : Step) :
    after u cfg start (run ++ [a]) = (after u cfg start run).step u cfg a :=
  Run.foldl_concat ..

variable {start : Rows} {run : List Step} {hash : InfoHash}

theorem lastSeenAlive_concat {a : Step} :
    LastSeenAlive u cfg start (run ++ [a]) hash ↔ AliveStep u cfg hash (after u cfg start run) a ∨
        (LastSeenAlive u cfg start run hash ∧ ¬ SuspectStep u cfg hash (after u cfg start run) a) :=
  Run.since_concat run a

theorem lastSeenAlive_of_promotion (hmem : hash ∈ (after u cfg start run).promotions)
    (halive : statusOf (after u cfg start run).rows hash = some .alive) : LastSeenAlive u cfg start run hash := by
  induction run using List.reverseRecOn with
  | nil => cases hmem
  | append_singleton run a ih =>
    rw [after_concat] at hmem halive
    rw [lastSeenAlive_concat]
    cases statusEffect u cfg (after u cfg start run) a hash with
    | none hnot hsuspect hstatus hpromotions => grind
    | alive halive hstatus => exact .inl halive
    | suspect hnot hsuspect hstatus => exact absurd halive hstatus
    | dead blacklistedAt hstep hpending hstatus => grind [Option.map_eq_some_iff]

theorem alive_of_lastSeenAlive (hguard : ∀ past hash blacklistedAt, past ++ [.promote hash blacklistedAt] <+: run →
      hash ∈ (after u cfg start past).promotions →
      statusOf (after u cfg start past).rows hash ≠ some .alive) (hseen : LastSeenAlive u cfg start run hash) :
    statusOf (after u cfg start run).rows hash = some .alive := by
  induction run using List.reverseRecOn with
  | nil => exact absurd hseen Run.not_since_nil
  | append_singleton run a ih =>
    have ih := ih fun past hash blacklistedAt hpast =>
      hguard past hash blacklistedAt (hpast.trans (prefix_append run [a]))
    rw [after_concat]
    rw [lastSeenAlive_concat] at hseen
    cases statusEffect u cfg (after u cfg start run) a hash with
    | none halive hsuspect hstatus hpromotions =>
      rw [hstatus]
      exact ih (hseen.resolve_left halive).1
    | alive halive hstatus => exact hstatus
    | suspect halive hsuspect hstatus => exact absurd hsuspect (hseen.resolve_left halive).2
    | dead blacklistedAt hstep hpending hstatus =>
      subst hstep
      have hwas := ih (hseen.resolve_left nofun).1
      grind

variable (u cfg)

/-- **Dead after alive.** A torrent is never dead after an event that shows it alive and no suspect observation since,
if and only if every `MarkDead` finds its torrent in another status than alive. -/
theorem never_dead_iff (start : Rows) (run : List Step) :
    (∀ past, past <+: run → ∀ hash, LastSeenAlive u cfg start past hash →
      statusOf (after u cfg start past).rows hash ≠ some .dead) ↔
    (∀ past hash blacklistedAt, past ++ [.promote hash blacklistedAt] <+: run →
      hash ∈ (after u cfg start past).promotions →
      statusOf (after u cfg start past).rows hash ≠ some .alive) := by
  constructor
  · intro hnever past hash blacklistedAt hpast hmem halive
    refine hnever _ hpast hash ?_ ?_
    · exact lastSeenAlive_concat.mpr (.inr ⟨lastSeenAlive_of_promotion hmem halive, nofun⟩)
    · grind [after_concat, System.step, statusOf_markDead]
  · grind [alive_of_lastSeenAlive]

end

def lateMark : List Step :=
  [.evidence (seenAs "stalledDL" 0) 0, .evidence (seenAs "stalledDL" (4 * hour)) (4 * hour),
    .evidence (seenAs "uploading" (4 * hour + 1)) (4 * hour + 1), .promote [161] (4 * hour + 2)]

/-- The torrent is dead although it was seen alive and nothing since. -/
theorem dead_after_upload : LastSeenAlive .ascii enabledConfig .empty lateMark [161] ∧
      statusOf (after .ascii enabledConfig .empty lateMark).rows [161] = some .dead := by
  refine ⟨?_, by decide⟩
  have hlate : lateMark = lateMark.take 3 ++ [.promote [161] (4 * hour + 2)] := rfl
  have hupload : lateMark.take 3 =
      lateMark.take 2 ++ [.evidence (seenAs "uploading" (4 * hour + 1)) (4 * hour + 1)] := rfl
  rw [hlate, lastSeenAlive_concat, hupload, lastSeenAlive_concat]
  exact .inr ⟨.inl ⟨⟨rfl, by decide, .inl ⟨rfl, by decide⟩⟩, rfl⟩, nofun⟩

end BitAgent.Liveness
