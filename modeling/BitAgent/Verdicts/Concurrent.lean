/-
# Verdicts.Concurrent — concurrent writers of the verdict ledger

`RecordTx` in `internal/verdicts/store.go` and `recordVerdict` in `internal/cataloguerecovery/store.go` upsert the
state row of the hash and then insert the event, in concurrent transactions: an instance of `LockedLog`. A failure of
any kind ends in a rollback, which may come at any time. The recovery package locks whole tables as well, so its
transactions interleave less than is allowed here.
-/
import BitAgent.Cataloguerecovery.Store
import BitAgent.Lib.LockedLog

namespace BitAgent.Verdicts

open Lib Metainfo Table

/-! ## The two writers -/

def ledgerFormat : LockedLog.Format ID StateRow Event EventRow where
  rowKey := StateRow.infoHash
  row ev := { infoHash := ev.infoHash, verdict := ev.verdict, mechanism := ev.mechanism,
              expiresAt := ev.expiresAt }
  entryKey := EventRow.id
  entry id ev := ⟨id, ev⟩
  written := EventRow.event
  entryKey_entry _ _ := rfl
  written_entry _ _ := rfl

inductive Write where
  | recordTx (ev : Event)
  | recordVerdict (id : Nat) (hash : ID) (state : SnapshotState) (mechanism reason : String)

/-- The event that `recordVerdict` writes; its expiry is null in both tables. -/
def recoveryEvent (id : Nat) (hash : ID) (state : SnapshotState) (mechanism reason : String) : Event :=
  let (verdict, mechanism) :=
    if state = .restored then (Verdict.restored, mechanismOperator)
    else (Verdict.tombstoned, mechanism)
  { infoHash := hash, verdict := verdict, mechanism := mechanism, reason := reason,
    evidence := some (.receipt id Cataloguerecovery.contractVersion state) }

def Write.event : Write → Option Event
  | .recordTx ev => if ev.infoHash.length = 0 ∨ ev.mechanism = "" then none else some ev
  | .recordVerdict id hash state mechanism reason => some (recoveryEvent id hash state mechanism reason)

inductive Action where
  | begin (t : Nat)
  | writeState (t : Nat) (w : Write)
  | writeEvent (t : Nat)
  | commit (t : Nat)
  | rollback (t : Nat)

abbrev Session := LockedLog.System ledgerFormat

def Action.statement : Action → Option (LockedLog.Statement Event)
  | .begin t => some (.begin t)
  | .writeState t w => w.event.map (LockedLog.Statement.upsert t)
  | .writeEvent t => some (.insert t)
  | .commit t => some (.commit t)
  | .rollback t => some (.abort t)

def perform (s : Session) (a : Action) : Session :=
  match a.statement with
  | some c => LockedLog.step s c
  | none => s

def Ledger.session (l : Ledger) : Session where
  base := { rows := l.state, log := l.events }
  active := .empty

def committedLedger (s : Session) : Ledger := ⟨s.base.rows, s.base.log⟩

/-- The committed ledger before action `k` of a schedule. -/
def ledgerAt (start : Ledger) (schedule : Nat → Action) (k : Nat) : Ledger :=
  committedLedger (Run.stateAt perform start.session schedule k)

/-! ## The state is the last event -/

def Ledger.rebuilt (l : Ledger) (hash : ID) : Option StateRow :=
  ((l.lastEvent hash).bind l.events.get?).map fun e =>
    { infoHash := e.event.infoHash, verdict := e.event.verdict, mechanism := e.event.mechanism,
      expiresAt := e.event.expiresAt }

/-- The state of every hash is what a rebuild would give. -/
def Ledger.Rebuildable (l : Ledger) : Prop := ∀ hash, l.state.get? hash = l.rebuilt hash

theorem rebuildable_empty : Ledger.empty.Rebuildable := fun _ => rfl

theorem agrees_iff {l : Ledger} : l.session.base.Agrees ↔ l.Rebuildable := Iff.rfl

theorem sound_perform {s : Session} (hs : LockedLog.Sound s) (a : Action) : LockedLog.Sound (perform s a) := by
  unfold perform
  split
  · exact hs.step _
  · exact hs

/-- **The state row of every hash is that of its event with the greatest id**, at every moment of every interleaving.
-/
theorem state_is_last_event (start : Ledger) (hstart : start.Rebuildable) (schedule : Nat → Action)
    (k : Nat) (hash : ID) :
    (ledgerAt start schedule k).state.get? hash = (ledgerAt start schedule k).rebuilt hash := by
  have hsound := Run.stateAt_invariant (I := LockedLog.Sound) perform
    (LockedLog.sound_idle (agrees_iff.mpr hstart)) (fun _ a hs => sound_perform hs a) schedule k
  exact hsound.agrees hash

/-! ## A transaction alone -/

def Write.transaction (w : Write) (t : Nat) : List Action := [.begin t, .writeState t w, .writeEvent t, .commit t]

theorem transaction_write (l : Ledger) (t : Nat) {w : Write} {ev : Event} (hw : w.event = some ev) :
    committedLedger ((w.transaction t).foldl perform l.session) = l.write ev := by
  have hdrawn : l.events.next < l.events.draw.next := Nat.lt_succ_self _
  have hplace : l.events.draw.place ⟨l.events.next, ev⟩ = l.events.insert (fun id => ⟨id, ev⟩) := by
    unfold Serial.place
    rw [dif_pos hdrawn]
    rfl
  set s1 := perform l.session (.begin t) with hs1
  have hget1 : s1.active.get? t = some ⟨t, [], none⟩ := by
    show (Table.insertNew .empty _).get? t = _
    rw [get?_insertNew, get?_empty, if_pos rfl]
    rfl
  have hlocked : s1.locked t ev.infoHash = false := by
    show ([(⟨t, [], none⟩ : LockedLog.Tx Event)].any fun tx => decide (tx.id ≠ t) && _) = false
    simp
  set s2 := perform s1 (.writeState t w) with hs2
  have hstep2 : s2 = { s1 with
      active := s1.active.update (fun tx => decide (tx.id = t))
        (fun tx => { tx with half := some ev }) } := by
    rw [hs2]
    simp only [perform, Action.statement, hw, Option.map_some, LockedLog.step, hget1]
    rw [show ledgerFormat.key ev = ev.infoHash from rfl, hlocked]
    exact if_neg Bool.false_ne_true
  have hget2 : s2.active.get? t = some ⟨t, [], some ev⟩ := by grind [get?_update]
  set s3 := perform s2 (.writeEvent t) with hs3
  have hstep3 : s3 =
      { base := { s2.base with log := s2.base.log.draw }
        active := s2.active.update (fun tx => decide (tx.id = t))
          (fun tx => { tx with done := tx.done ++ [(s2.base.log.next, ev)], half := none }) } := by
    grind [perform, Action.statement, LockedLog.step]
  have hbase2 : s2.base = l.session.base := by
    rw [hstep2]
    rfl
  have hget3 : s3.active.get? t = some ⟨t, [(l.events.next, ev)], none⟩ := by
    rw [hstep3]
    show (s2.active.update _ _ (by intro _; rfl)).get? t = _
    rw [get?_update, hget2, hbase2]
    simp [Ledger.session]
  have hstep4 : committedLedger (perform s3 (.commit t)) =
      ⟨l.state.upsert (ledgerFormat.row ev), l.events.draw.place ⟨l.events.next, ev⟩⟩ := by
    simp only [perform, Action.statement, LockedLog.step, hget3]
    rw [hstep3, hbase2]
    rfl
  show committedLedger (perform s3 (.commit t)) = _
  rw [hstep4, hplace]
  rfl

/-- The two writers alone do what their sequential models do. -/
theorem transaction_recordTx (l : Ledger) (t : Nat) (ev : Event) {l' : Ledger} (h : l.recordTx ev = some l') :
    committedLedger (((Write.recordTx ev).transaction t).foldl perform l.session) = l' := by
  unfold Ledger.recordTx at h
  split_ifs at h with hcomplete
  rw [← Option.some.inj h]
  exact transaction_write l t (if_neg hcomplete)

theorem operator_verdict_alone :
    let ev : Event := { infoHash := [1], verdict := .suspect, mechanism := mechanismOperator, reason := "review" }
    committedLedger (((Write.recordTx ev).transaction 1).foldl perform Ledger.empty.session) = Ledger.empty.write ev :=
  transaction_recordTx .empty 1 _ rfl

theorem transaction_recordVerdict (db : Cataloguerecovery.Database) (t id : Nat) (hash : ID)
    (state : SnapshotState) (mechanism reason : String) :
    committedLedger (((Write.recordVerdict id hash state mechanism reason).transaction t).foldl perform
      db.ledger.session) = (Cataloguerecovery.recordVerdict db id hash state mechanism reason).ledger :=
  transaction_write db.ledger t rfl

def sampleActions : List Action :=
  let hash (n : UInt8) : ID := List.replicate 20 n
  let write (n : UInt8) (v : Verdict) : Write :=
    .recordTx { infoHash := hash n, verdict := v, mechanism := mechanismOperator, reason := "review" }
  [.begin 1, .begin 2, .writeState 1 (write 7 .quarantined), .writeState 2 (write 8 .suspect),
   .writeEvent 2, .writeEvent 1, .writeState 1 (write 8 .tombstoned), .commit 2,
   .writeState 1 (write 8 .tombstoned), .writeEvent 1, .commit 1]

/-- In the end the second hash's verdict is that of the transaction that had to wait. -/
theorem sample_state_is_last :
    let l := ledgerAt .empty (fun k => (sampleActions[k]?).getD (.rollback 0)) 11
    let hash : ID := List.replicate 20 8
    l.lastEvent hash = some 3 ∧
    l.state.get? hash = some { infoHash := hash, verdict := .tombstoned, mechanism := mechanismOperator,
                               expiresAt := none } ∧
    l.state.get? hash = l.rebuilt hash :=
  ⟨by decide +kernel, by decide +kernel, state_is_last_event .empty rebuildable_empty _ 11 (List.replicate 20 8)⟩

end BitAgent.Verdicts
